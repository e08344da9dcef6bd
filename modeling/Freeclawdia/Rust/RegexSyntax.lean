import Freeclawdia.Lib.Regex

/-!
# `Rust.RegexSyntax` — the syntax of the `regex` crate

The part of the crate's syntax that the program's patterns use: literals, `.`, classes with ranges, `\s`, `\w`, `\b`,
`\xHH` and escaped punctuation, groups, alternation, the quantifiers, and a leading `(?i)`. Every quantifier is greedy
and a capturing group is a group.
-/

namespace Freeclawdia.Regex

/-- A literal character. -/
def literal (icase : Bool) (c : Char) : Regex := .cls ⟨[.range c c], false, icase⟩

/-- What follows a backslash. -/
def parseEscape : List Char → Option (ClassItem × List Char)
  | 's' :: rest => some (.space, rest)
  | 'w' :: rest => some (.word, rest)
  | 'x' :: a :: b :: rest =>
    let digit := fun (c : Char) => if c.isDigit then c.toNat - 48 else c.toLower.toNat - 87
    let c := Char.ofNat (digit a * 16 + digit b)
    some (.range c c, rest)
  | c :: rest => if Rust.isAsciiPunctuation c then some (.range c c, rest) else none
  | [] => none

/-- The items of a class up to the closing bracket. -/
def parseItems : Nat → List Char → Option (List ClassItem × List Char)
  | 0, _ => none
  | fuel + 1, cs =>
    match cs with
    | [] => none
    | ']' :: rest => some ([], rest)
    | '\\' :: rest => do
        let (item, rest) ← parseEscape rest
        let (items, rest) ← parseItems fuel rest
        pure (item :: items, rest)
    | lo :: '-' :: hi :: rest =>
      if hi = ']' then do
        let (items, rest) ← parseItems fuel ('-' :: hi :: rest)
        pure (.range lo lo :: items, rest)
      else do
        let (items, rest) ← parseItems fuel rest
        pure (.range lo hi :: items, rest)
    | c :: rest => do
        let (items, rest) ← parseItems fuel rest
        pure (.range c c :: items, rest)

/-- A decimal number, if there is one. -/
def parseNumber (cs : List Char) : Option (Nat × List Char) :=
  let digits := cs.takeWhile Char.isDigit
  if digits = [] then none
  else some (digits.foldl (fun n c => n * 10 + (c.toNat - 48)) 0, cs.dropWhile Char.isDigit)

/-- The quantifier of an atom, if there is one. -/
def parseQuantifier (a : Regex) : List Char → Option (Regex × List Char)
  | '?' :: rest => some (.rep a 0 (some 1), rest)
  | '*' :: rest => some (.rep a 0 none, rest)
  | '+' :: rest => some (.rep a 1 none, rest)
  | '\x7b' :: rest => do
      let (min, rest) ← parseNumber rest
      match rest with
      | '\x7d' :: rest => pure (.rep a min (some min), rest)
      | ',' :: '\x7d' :: rest => pure (.rep a min none, rest)
      | ',' :: rest =>
        let (max, rest) ← parseNumber rest
        match rest with
        | '\x7d' :: rest => pure (.rep a min (some max), rest)
        | _ => none
      | _ => none
  | rest => some (a, rest)

mutual

/-- Alternatives, up to a closing parenthesis or the end. -/
def parseAlt : Nat → Bool → List Char → Option (Regex × List Char)
  | 0, _, _ => none
  | fuel + 1, icase, cs => do
      let (a, rest) ← parseSeq fuel icase cs
      match rest with
      | '|' :: rest =>
        let (b, rest) ← parseAlt fuel icase rest
        pure (.alt a b, rest)
      | _ => pure (a, rest)

/-- Atoms with their quantifiers. -/
def parseSeq : Nat → Bool → List Char → Option (Regex × List Char)
  | 0, _, _ => none
  | fuel + 1, icase, cs =>
    match cs with
    | [] => some (.empty, [])
    | ')' :: _ => some (.empty, cs)
    | '|' :: _ => some (.empty, cs)
    | _ => do
        let (a, rest) ← parseAtom fuel icase cs
        let (a, rest) ← parseQuantifier a rest
        let (b, rest) ← parseSeq fuel icase rest
        pure (.seq a b, rest)

/-- A group, a class, an escape or a literal. -/
def parseAtom : Nat → Bool → List Char → Option (Regex × List Char)
  | 0, _, _ => none
  | fuel + 1, icase, cs =>
    match cs with
    | '(' :: '?' :: ':' :: rest => do
        let (a, rest) ← parseAlt fuel icase rest
        match rest with
        | ')' :: rest => pure (a, rest)
        | _ => none
    | '(' :: rest => do
        let (a, rest) ← parseAlt fuel icase rest
        match rest with
        | ')' :: rest => pure (a, rest)
        | _ => none
    | '[' :: '^' :: rest => do
        let (items, rest) ← parseItems (fuel + 1) rest
        pure (.cls ⟨items, true, icase⟩, rest)
    | '[' :: rest => do
        let (items, rest) ← parseItems (fuel + 1) rest
        pure (.cls ⟨items, false, icase⟩, rest)
    | '.' :: rest => some (.cls ⟨[.range '\n' '\n'], true, false⟩, rest)
    | '\\' :: 'b' :: rest => some (.boundary, rest)
    | '\\' :: rest => do
        let (item, rest) ← parseEscape rest
        pure (.cls ⟨[item], false, icase⟩, rest)
    | c :: rest => some (literal icase c, rest)
    | [] => none

end

/-- `Regex::new`. -/
def parse (s : String) : Option Regex :=
  let (icase, cs) :=
    match s.toList with
    | '(' :: '?' :: 'i' :: ')' :: rest => (true, rest)
    | cs => (false, cs)
  match parseAlt (2 * cs.length + 2) icase cs with
  | some (r, []) => some r
  | _ => none

example : parse "SG\\.[a-f_-]\x7b2\x7d" =
    some (.seq (literal false 'S') (.seq (literal false 'G') (.seq (literal false '.')
      (.seq (.rep (.cls ⟨[.range 'a' 'f', .range '_' '_', .range '-' '-'], false, false⟩) 2 (some 2)) .empty)))) := by
  decide +kernel

end Freeclawdia.Regex
