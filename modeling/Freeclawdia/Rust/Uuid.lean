import Mathlib.Data.Nat.Digits.Defs
import Mathlib.Tactic.Ring

/-!
# `Rust.Uuid` — 128-bit identifiers and hexadecimal text

`Uuid::parse_str` accepts four shapes in either letter case: 32 hexadecimal digits, the same digits with
hyphens in the 8-4-4-4-12 layout, that layout in braces, and that layout after `urn:uuid:`.
`Uuid::to_string` writes the lowercase hyphenated form only. So many texts name one identifier and exactly
one of them is what `to_string` writes (`parseStr_toString`).
-/

namespace Freeclawdia.Rust

/-- A 128-bit identifier. -/
abbrev Uuid := BitVec 128

instance : LawfulBEq Uuid := inferInstance

namespace Uuid

/-! ## Hexadecimal digits -/

/-- The value of a hexadecimal digit, in either case. -/
def hexVal (c : Char) : Option Nat :=
  let n := c.toNat
  if 48 ≤ n ∧ n ≤ 57 then some (n - 48)
  else if 97 ≤ n ∧ n ≤ 102 then some (n - 87)
  else if 65 ≤ n ∧ n ≤ 70 then some (n - 55)
  else none

/-- The lowercase digit of a value below 16. -/
def hexChar (d : Nat) : Char := if d < 10 then Char.ofNat (48 + d) else Char.ofNat (87 + d)

/-- Big-endian digits of `n`, exactly `k` of them. -/
def hexDigits : Nat → Nat → List Nat
  | 0, _ => []
  | k + 1, n => hexDigits k (n / 16) ++ [n % 16]

/-- The number a big-endian digit list denotes. -/
def hexValue (ds : List Nat) : Nat := ds.foldl (fun a d => 16 * a + d) 0

theorem hexDigits_length (k n : Nat) : (hexDigits k n).length = k := by
  induction k generalizing n with
  | zero => rfl
  | succ k ih => simp [hexDigits, ih]

theorem hexDigits_lt (k n : Nat) : ∀ d ∈ hexDigits k n, d < 16 := by
  induction k generalizing n with
  | zero => intro d hd; exact absurd hd (by simp [hexDigits])
  | succ k ih =>
    intro d hd
    rcases List.mem_append.mp hd with h | h
    · exact ih _ d h
    · rw [List.mem_singleton.mp h]; exact Nat.mod_lt _ (by decide)

/-- Reading back the `k` low digits of `n` gives `n` modulo `16 ^ k`. -/
theorem hexValue_hexDigits (k n : Nat) : hexValue (hexDigits k n) = n % 16 ^ k := by
  induction k generalizing n with
  | zero => simp [hexDigits, hexValue, Nat.mod_one]
  | succ k ih =>
    have hstep : hexValue (hexDigits (k + 1) n) = 16 * hexValue (hexDigits k (n / 16)) + n % 16 := by
      simp [hexValue, hexDigits, List.foldl_append]
    rw [hstep, ih, show 16 ^ (k + 1) = 16 * 16 ^ k by ring, Nat.mod_mul]
    omega

theorem hexVal_hexChar {d : Nat} (h : d < 16) : hexVal (hexChar d) = some d := by
  have hall : ∀ e : Fin 16, hexVal (hexChar e.val) = some e.val := by decide
  exact hall ⟨d, h⟩

/-- Digits written in lowercase read back. -/
theorem mapM_hexVal_hexChar {ds : List Nat} (h : ∀ d ∈ ds, d < 16) : (ds.map hexChar).mapM hexVal = some ds := by
  induction ds with
  | nil => rfl
  | cons d ds ih =>
    rw [List.map_cons, List.mapM_cons, hexVal_hexChar (h d (by simp)),
      ih (fun e he => h e (List.mem_cons_of_mem _ he))]
    rfl

/-! ## The hyphenated layout -/

/-- Lengths of the hyphen-separated groups. -/
def groupSizes : List Nat := [8, 4, 4, 4, 12]

/-- Write `cs` in groups of the given sizes, separated by hyphens. -/
def joinGroups : List Nat → List Char → List Char
  | [], _ => []
  | [_], cs => cs
  | n :: ns, cs => cs.take n ++ '-' :: joinGroups ns (cs.drop n)

/-- Read hyphen-separated groups of the given sizes; `none` when the layout is not that one. -/
def takeGroups : List Nat → List Char → Option (List Char)
  | [], _ => none
  | [n], cs => if cs.length = n then some cs else none
  | n :: ns, cs =>
    match cs.drop n with
    | '-' :: rest => (takeGroups ns rest).map (cs.take n ++ ·)
    | _ => none

/-- What `joinGroups` writes, `takeGroups` reads. -/
theorem takeGroups_joinGroups (n : Nat) (ns : List Nat) (cs : List Char)
    (h : cs.length = (n :: ns).sum) : takeGroups (n :: ns) (joinGroups (n :: ns) cs) = some cs := by
  induction ns generalizing n cs with
  | nil =>
    have hn : cs.length = n := by simpa using h
    simp only [takeGroups, joinGroups]
    exact if_pos hn
  | cons m ms ih =>
    have hlen : (cs.take n).length = n := by rw [List.length_take]; simp only [List.sum_cons] at h; omega
    have hdrop : (cs.drop n).length = (m :: ms).sum := by rw [List.length_drop]; simp only [List.sum_cons] at h ⊢; omega
    have hrest : (cs.take n ++ '-' :: joinGroups (m :: ms) (cs.drop n)).drop n
        = '-' :: joinGroups (m :: ms) (cs.drop n) := List.drop_left' hlen
    have htake : (cs.take n ++ '-' :: joinGroups (m :: ms) (cs.drop n)).take n = cs.take n :=
      List.take_left' hlen
    simp only [joinGroups, takeGroups, hrest, htake, ih m (cs.drop n) hdrop, Option.map_some,
      List.take_append_drop]

theorem joinGroups_groupSizes_length {cs : List Char} (h : cs.length = 32) :
    (joinGroups groupSizes cs).length = 36 := by
  simp [groupSizes, joinGroups, h]

/-! ## Parsing and printing -/

/-- 32 hexadecimal digits as an identifier. -/
def parseSimple (cs : List Char) : Option Uuid :=
  if cs.length = 32 then (cs.mapM hexVal).map fun ds => BitVec.ofNat 128 (hexValue ds) else none

/-- The hyphenated layout as an identifier. -/
def parseHyphenated (cs : List Char) : Option Uuid := (takeGroups groupSizes cs).bind parseSimple

/-- `Uuid::parse_str`: the shape is chosen by the length, then by the wrapping characters. -/
def parseStr (s : String) : Option Uuid :=
  let cs := s.toList
  if cs.length = 32 then parseSimple cs
  else if cs.length = 36 then parseHyphenated cs
  else if cs.length = 38 ∧ cs.head? = some '\x7b' ∧ cs.getLast? = some '\x7d' then
    parseHyphenated (cs.tail.dropLast)
  else if cs.length = 45 ∧ "urn:uuid:".toList.isPrefixOf cs then parseHyphenated (cs.drop 9)
  else none

/-- `Uuid::to_string`: lowercase, hyphenated. -/
def toString (u : Uuid) : String :=
  String.ofList (joinGroups groupSizes ((hexDigits 32 u.toNat).map hexChar))

/-- **Printing then parsing is the identity.** -/
theorem parseStr_toString (u : Uuid) : parseStr (toString u) = some u := by
  have hlen : ((hexDigits 32 u.toNat).map hexChar).length = 32 := by rw [List.length_map, hexDigits_length]
  have hval : hexValue (hexDigits 32 u.toNat) = u.toNat := by
    rw [hexValue_hexDigits]; exact Nat.mod_eq_of_lt (by have := u.isLt; omega)
  have hgroups : takeGroups groupSizes (joinGroups groupSizes ((hexDigits 32 u.toNat).map hexChar))
      = some ((hexDigits 32 u.toNat).map hexChar) :=
    takeGroups_joinGroups 8 [4, 4, 4, 12] _ hlen
  have hparse : parseHyphenated (joinGroups groupSizes ((hexDigits 32 u.toNat).map hexChar))
      = some u := by
    rw [parseHyphenated, hgroups, Option.bind_some, parseSimple, if_pos hlen,
      mapM_hexVal_hexChar (hexDigits_lt 32 _), Option.map_some, hval, BitVec.ofNat_toNat,
      BitVec.setWidth_eq]
  have h36 := joinGroups_groupSizes_length hlen
  simp only [parseStr, toString, String.toList_ofList, h36, hparse]
  simp

/-- Two identifiers with one text are the same identifier. -/
theorem toString_injective : Function.Injective toString := by
  intro u v h
  have hu := parseStr_toString u
  rw [h, parseStr_toString v] at hu
  exact (Option.some.inj hu).symm

end Uuid
/-! ## Bytes as hexadecimal text -/

/-- `hex::decode`: digits in either case, two for each byte. -/
def hexDecode : List Char → Option (List UInt8)
  | [] => some []
  | [_] => none
  | a :: b :: rest =>
    match Uuid.hexVal a, Uuid.hexVal b with
    | some high, some low => (hexDecode rest).map fun bytes => UInt8.ofNat (16 * high + low) :: bytes
    | _, _ => none

/-- `hex::encode`, and `{b:02x}` of one byte after the other. -/
def hexEncode (bytes : List UInt8) : String :=
  String.ofList (bytes.flatMap fun b => [Uuid.hexChar (b.toNat / 16), Uuid.hexChar (b.toNat % 16)])

end Freeclawdia.Rust
