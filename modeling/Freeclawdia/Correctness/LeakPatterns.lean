import Freeclawdia.Safety.LeakDetector

/-!
# `Correctness.LeakPatterns` — the default patterns, spelled out

What the sources of the default patterns parse to, as expressions: the facts about them that the proofs need are
computed from these once and for all.
-/

namespace Freeclawdia.LeakPatterns

open Rust Regex

/-! ## Building blocks -/

/-- The characters of a text, then the rest. -/
def lits (s : List Char) (rest : Regex) : Regex := s.foldr (fun c r => .seq (literal false c) r) rest

/-- One of the given ranges. -/
def oneOf (ranges : List (Char × Char)) : Regex := .cls ⟨ranges.map fun r => .range r.1 r.2, false, false⟩

/-- White space. -/
def space : Regex := .cls ⟨[.space], false, false⟩

/-- `[a-zA-Z0-9]`. -/
def alnum : Regex := oneOf [('a', 'z'), ('A', 'Z'), ('0', '9')]

/-- `[a-zA-Z0-9_-]`. -/
def token : Regex := oneOf [('a', 'z'), ('A', 'Z'), ('0', '9'), ('_', '_'), ('-', '-')]

/-- At least so many. -/
def atLeast (n : Nat) (r : Regex) : Regex := .rep r n none

/-- Exactly so many. -/
def exactly (n : Nat) (r : Regex) : Regex := .rep r n (some n)

/-- One or none. -/
def optional (r : Regex) : Regex := .rep r 0 (some 1)

/-- Two alternatives, as a sequence of one. -/
def either (a b : List Char) : Regex := .alt (lits a .empty) (lits b .empty)

/-- Without regard to case. -/
def icase (ranges : List (Char × Char)) : Regex := .cls ⟨ranges.map fun r => .range r.1 r.2, false, true⟩

/-! ## The patterns -/

/-- White space, and the same without regard to case. -/
def spaces : Regex := atLeast 1 space
def ispace : Regex := .cls ⟨[.space], false, true⟩

def openaiKey : Regex :=
  lits ['s', 'k', '-'] (.seq (optional (lits ['p', 'r', 'o', 'j', '-'] .empty)) (.seq (atLeast 20 alnum)
    (.seq (optional (lits ['T', '3', 'B', 'l', 'b', 'k', 'F', 'J'] (.seq (atLeast 0 token) .empty))) .empty)))

def anthropicKey : Regex :=
  lits ['s', 'k', '-', 'a', 'n', 't', '-', 'a', 'p', 'i'] (.seq (atLeast 90 token) .empty)

def awsKey : Regex :=
  lits ['A', 'K', 'I', 'A'] (.seq (exactly 16 (oneOf [('0', '9'), ('A', 'Z')])) .empty)

def githubToken : Regex :=
  lits ['g', 'h'] (.seq (oneOf [('p', 'p'), ('o', 'o'), ('u', 'u'), ('s', 's'), ('r', 'r')])
    (lits ['_'] (.seq (atLeast 36 (oneOf [('A', 'Z'), ('a', 'z'), ('0', '9'), ('_', '_')])) .empty)))

def githubPat : Regex :=
  lits ['g', 'i', 't', 'h', 'u', 'b', '_', 'p', 'a', 't', '_'] (.seq (exactly 22 alnum)
    (lits ['_'] (.seq (exactly 59 alnum) .empty)))

def stripeKey : Regex :=
  lits ['s', 'k', '_'] (.seq (either ['l', 'i', 'v', 'e'] ['t', 'e', 's', 't'])
    (lits ['_'] (.seq (atLeast 24 alnum) .empty)))

def nearaiSession : Regex := lits ['s', 'e', 's', 's', '_'] (.seq (atLeast 32 alnum) .empty)

/-- `PRIVATE\s+KEY-----`. -/
def privateKey : Regex :=
  lits ['P', 'R', 'I', 'V', 'A', 'T', 'E'] (.seq spaces (lits ['K', 'E', 'Y', '-', '-', '-', '-', '-'] .empty))

/-- `-----BEGIN\s+`, then the rest. -/
def beginKey (rest : Regex) : Regex :=
  lits ['-', '-', '-', '-', '-', 'B', 'E', 'G', 'I', 'N'] (.seq spaces rest)

def pemKey : Regex := beginKey (.seq (optional (lits ['R', 'S', 'A'] (.seq spaces .empty))) privateKey)

def sshKey : Regex :=
  beginKey (.seq (.alt (lits ['O', 'P', 'E', 'N', 'S', 'S', 'H'] .empty) (either ['E', 'C'] ['D', 'S', 'A']))
    (.seq spaces privateKey))

def googleKey : Regex :=
  lits ['A', 'I', 'z', 'a']
    (.seq (exactly 35 (oneOf [('0', '9'), ('A', 'Z'), ('a', 'z'), ('_', '_'), ('-', '-')])) .empty)

def slackToken : Regex :=
  lits ['x', 'o', 'x'] (.seq (oneOf [('b', 'b'), ('a', 'a'), ('p', 'p'), ('r', 'r'), ('s', 's')])
    (lits ['-'] (.seq (atLeast 10 (oneOf [('0', '9'), ('a', 'z'), ('A', 'Z'), ('-', '-')])) .empty)))

def twilioKey : Regex :=
  lits ['S', 'K'] (.seq (exactly 32 (oneOf [('a', 'f'), ('A', 'F'), ('0', '9')])) .empty)

def sendgridKey : Regex :=
  lits ['S', 'G', '.'] (.seq (exactly 22 token) (lits ['.'] (.seq (exactly 43 token) .empty)))

def bearerToken : Regex :=
  lits ['B', 'e', 'a', 'r', 'e', 'r'] (.seq spaces (.seq (atLeast 20 token) .empty))

def authHeader : Regex :=
  ['a', 'u', 't', 'h', 'o', 'r', 'i', 'z', 'a', 't', 'i', 'o', 'n', ':'].foldr (fun c r => .seq (literal true c) r)
    (.seq (atLeast 0 ispace) (.seq (atLeast 1 (icase [('a', 'z'), ('A', 'Z')])) (.seq (atLeast 1 ispace)
      (.seq (atLeast 20 (icase [('a', 'z'), ('A', 'Z'), ('0', '9'), ('_', '_'), ('-', '-')])) .empty))))

def highEntropyHex : Regex :=
  .seq .boundary (.seq (exactly 64 (oneOf [('a', 'f'), ('A', 'F'), ('0', '9')])) (.seq .boundary .empty))

/-- The regexes of the default patterns, in order. -/
def regexes : List Regex :=
  [openaiKey, anthropicKey, awsKey, githubToken, githubPat, stripeKey, nearaiSession, pemKey, sshKey, googleKey,
   slackToken, twilioKey, sendgridKey, bearerToken, authHeader, highEntropyHex]

/-- What is read off the regexes: none matches the empty text, and only the last one looks at word boundaries. -/
theorem regexes_table : defaultPatterns.map LeakPattern.regex = regexes ∧ (∀ r ∈ regexes, 0 < r.minWidth) ∧
    ∀ n ∈ List.range 15, ∀ r ∈ regexes[n]?, r.plain = true := by
  refine ⟨?_, ?_, ?_⟩
  · decide +kernel
  · decide +kernel
  · decide +kernel

theorem defaultPatterns_regex : defaultPatterns.map LeakPattern.regex = regexes := regexes_table.1

theorem getElem?_regex {n : Nat} {p : LeakPattern} (h : defaultPatterns[n]? = some p) : regexes[n]? = some p.regex := by
  rw [← defaultPatterns_regex, List.getElem?_map, h, Option.map_some]

/-- A fact about every regex is one about every pattern. -/
theorem forall_regex {P : Regex → Prop} (h : ∀ r ∈ regexes, P r) : ∀ p ∈ defaultPatterns, P p.regex := by
  intro p hp
  apply h
  rw [← defaultPatterns_regex]
  exact List.mem_map_of_mem hp

/-- No default regex matches the empty text. -/
theorem minWidth_pos : ∀ p ∈ defaultPatterns, 0 < p.regex.minWidth :=
  forall_regex (P := fun r => 0 < r.minWidth) regexes_table.2.1

/-- Only the last pattern, which warns, looks at word boundaries. -/
theorem plain_of_action : ∀ p ∈ defaultPatterns, p.action ≠ .warn → p.regex.plain = true := by
  intro p hp hact
  obtain ⟨n, hn⟩ := List.mem_iff_getElem?.1 hp
  have hlt : n < 16 := (List.getElem?_eq_some_iff.1 hn).1
  by_cases h15 : n = 15
  · subst h15
    cases hn
    exact absurd rfl hact
  · exact regexes_table.2.2 n (List.mem_range.2 (by omega)) _ (getElem?_regex hn)

end Freeclawdia.LeakPatterns
