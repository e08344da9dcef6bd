import Mathlib.Algebra.GroupWithZero.Nat
import Freeclawdia.Lib.Trim
import Freeclawdia.Rust.Casing

/-!
# `Rust.Str` — the parts of Rust's `str` the agent's text handling uses

Rust strings are UTF-8; everything the agent does with them (trimming, prefix tests, splitting, lower
casing) is defined on Unicode scalar values, so the functions here work on `List Char` and are lifted to
`String` at the end. Lean's own `String.trim`/`Char.toLower` are ASCII-only and therefore not used.
Case mappings are in `Rust.Casing`.
-/

namespace Freeclawdia.Rust

/-- The Unicode `White_Space` property (`char::is_whitespace`). -/
def isWhitespace (c : Char) : Bool :=
  let n := c.toNat
  (9 ≤ n && n ≤ 13) || n == 32 || n == 0x85 || n == 0xA0 || n == 0x1680
    || (0x2000 ≤ n && n ≤ 0x200A) || n == 0x2028 || n == 0x2029 || n == 0x202F || n == 0x205F
    || n == 0x3000

/-- `char::is_ascii_punctuation`. -/
def isAsciiPunctuation (c : Char) : Bool :=
  let n := c.toNat
  (33 ≤ n && n ≤ 47) || (58 ≤ n && n ≤ 64) || (91 ≤ n && n ≤ 96) || (123 ≤ n && n ≤ 126)

/-- Number of bytes of the UTF-8 encoding of a scalar value (`char::len_utf8`). -/
def lenUtf8 (c : Char) : Nat :=
  if c.toNat < 0x80 then 1 else if c.toNat < 0x800 then 2 else if c.toNat < 0x10000 then 3 else 4

variable (s : String)

/-- `str::to_ascii_lowercase`. -/
def toAsciiLowercase : String := String.ofList (s.toList.map Char.toLower)

/-- `str::eq_ignore_ascii_case`. -/
def eqIgnoreAsciiCase (a b : String) : Bool := toAsciiLowercase a = toAsciiLowercase b

/-- `str::parse::<usize>` on 64 bits. -/
def parseUsize : Option Nat :=
  let digits := if s.toList.head? = some '+' then s.toList.drop 1 else s.toList
  let value := digits.foldl (fun n c => n * 10 + (c.toNat - 48)) 0
  if digits = [] ∨ digits.any (fun c => !c.isDigit) ∨ 2 ^ 64 ≤ value then none else some value

/-- The text of a number is read back, if the number fits. -/
theorem parseUsize_toString_eq (n : Nat) : parseUsize (toString n) = if n < 2 ^ 64 then some n else none := by
  have hlist : (toString n).toList = Nat.toDigits 10 n := Nat.toList_repr
  have hdigit : ∀ c ∈ Nat.toDigits 10 n, c.isDigit = true := fun c hc =>
    Nat.isDigit_of_mem_toDigits (by decide) (by decide) hc
  have hplus : (Nat.toDigits 10 n).head? ≠ some '+' := by
    intro hhead
    have hmem := List.mem_of_head? hhead
    exact absurd (hdigit '+' hmem) (by decide)
  have hfold : (Nat.toDigits 10 n).foldl (fun n c => n * 10 + (c.toNat - 48)) 0 = n := by
    have hdigits : Nat.ofDigitChars 10 (Nat.toDigits 10 n) 0 = n := Nat.ofDigitChars_ten_toDigits
    rw [Nat.ofDigitChars_eq_foldl] at hdigits
    simp only [Nat.mul_comm 10] at hdigits
    exact hdigits
  have hany : ((Nat.toDigits 10 n).any fun c => !c.isDigit) = false := by
    rw [List.any_eq_false]
    intro c hc
    simp [hdigit c hc]
  have hrefused : (Nat.toDigits 10 n = [] ∨ ((Nat.toDigits 10 n).any fun c => !c.isDigit) = true ∨ 2 ^ 64 ≤ n) ↔
      ¬n < 2 ^ 64 := by
    rw [hany, Nat.not_lt]
    constructor
    · exact fun h => (h.resolve_left Nat.toDigits_ne_nil).resolve_left Bool.false_ne_true
    · exact fun h => .inr (.inr h)
  unfold parseUsize
  rw [hlist]
  dsimp only
  rw [if_neg hplus, hfold]
  by_cases h : n < 2 ^ 64
  · rw [if_neg fun hcond => hrefused.mp hcond h, if_pos h]
  · rw [if_pos (hrefused.mpr h), if_neg h]

/-! ## Trimming, prefixes and splitting -/

/-- Drop whitespace at both ends. -/
def trimChars (cs : List Char) : List Char :=
  ((cs.dropWhile isWhitespace).reverse.dropWhile isWhitespace).reverse

/-- `str::trim`. -/
def trim : String := String.ofList (trimChars s.toList)

/-- `str::starts_with`. -/
def startsWith (s pre : String) : Bool := pre.toList.isPrefixOf s.toList

theorem startsWith_iff {s pre : String} : startsWith s pre = true ↔ ∃ t, s = pre ++ t := by
  unfold startsWith
  rw [List.isPrefixOf_iff_prefix]
  constructor
  · rintro ⟨more, hmore⟩
    refine ⟨String.ofList more, ?_⟩
    apply String.toList_inj.mp
    rw [String.toList_append, String.toList_ofList, hmore]
  · rintro ⟨t, rfl⟩
    exact ⟨t.toList, by simp⟩

/-- `str::ends_with`. -/
def endsWith (s suf : String) : Bool := suf.toList.isSuffixOf s.toList

/-- `str::strip_prefix`. -/
def stripPrefix (s pre : String) : Option String :=
  if startsWith s pre then some (String.ofList (s.toList.drop pre.toList.length)) else none

/-- `str::parse::<i64>`. -/
def parseI64 : Option Int :=
  match stripPrefix s "-" with
  | some digits =>
    if startsWith digits "+" then none
    else (parseUsize digits).bind fun n => if n ≤ 2 ^ 63 then some (-n) else none
  | none => (parseUsize s).bind fun n => if n < 2 ^ 63 then some n else none

/-- `str::strip_suffix`. -/
def stripSuffix (s suf : String) : Option String :=
  if endsWith s suf then some (String.ofList (s.toList.take (s.toList.length - suf.toList.length))) else none

/-- `str::trim_start_matches` for a character. -/
def trimStartMatches (c : Char) : String := String.ofList (s.toList.dropWhile (· == c))

/-- `str::trim_end_matches` for a character. -/
def trimEndMatches (c : Char) : String := String.ofList (s.toList.rdropWhile (· == c))

/-- `str::trim_matches` for a character. -/
def trimMatches (c : Char) : String := String.ofList (trimBy (· == c) s.toList)

/-- `str::contains` for a string pattern. -/
def contains (s pat : String) : Bool := s.toList.tails.any fun t => pat.toList.isPrefixOf t

/-- `str::replace` of a character by a text. -/
def replaceChar (c : Char) (target : String) : String :=
  String.ofList (s.toList.flatMap fun d => if d = c then target.toList else [d])

/-- Replace the occurrences of a pattern from left to right; `skip` characters belong to the last one. -/
def replaceFrom (pat target : List Char) : (skip : Nat) → List Char → List Char
  | _, [] => []
  | skip + 1, _ :: rest => replaceFrom pat target skip rest
  | 0, c :: rest =>
    if pat.isPrefixOf (c :: rest) then target ++ replaceFrom pat target (pat.length - 1) rest
    else c :: replaceFrom pat target 0 rest

/-- `str::replace` of a pattern that is not empty. -/
def replaceAll (s pat target : String) : String := String.ofList (replaceFrom pat.toList target.toList 0 s.toList)

/-- `str::len`: the length in bytes. -/
def byteLen : Nat := (s.toList.map lenUtf8).sum

/-- Split a character list at every whitespace character, dropping empty pieces. -/
def wordsOf : List Char → List Char → List (List Char)
  | word, [] => if word.isEmpty then [] else [word]
  | word, c :: cs =>
    if isWhitespace c then
      if word.isEmpty then wordsOf [] cs else word :: wordsOf [] cs
    else wordsOf (word ++ [c]) cs

/-- `str::split_whitespace`. -/
def splitWhitespace : List String := (wordsOf [] s.toList).map String.ofList

/-- Pieces between line feeds, the last one included even when it is empty. -/
def linesOf : List Char → List Char → List (List Char)
  | line, [] => [line]
  | line, c :: cs => if c = '\n' then line :: linesOf [] cs else linesOf (line ++ [c]) cs

/-- Drop one trailing carriage return. -/
def dropCr (line : List Char) : List Char :=
  if line.getLast? = some '\r' then line.dropLast else line

/-- `str::lines`: a final empty piece is not a line, and a carriage return before a line feed belongs to
    the line ending. -/
def lines : List String :=
  let pieces := linesOf [] s.toList
  let ended := pieces.dropLast.map dropCr
  let last := pieces.getLast?.getD []
  (if last.isEmpty then ended else ended ++ [last]).map String.ofList

/-- `[String]::join`. -/
def join (sep : String) : List String → String
  | [] => ""
  | [s] => s
  | s :: rest => s ++ sep ++ join sep rest

end Freeclawdia.Rust
