import Freeclawdia.Rust.Str

/-!
# `Workspace.Paths` — well-known documents and the normal form of a path

`paths` of `src/workspace/document.rs` and `normalize_path` / `normalize_directory` of `src/workspace/mod.rs`.
White space is cut off first, slashes second, and runs of slashes are collapsed last; each step is taken once.
-/

namespace Freeclawdia.Memory

open Rust

namespace paths

def memory : String := "MEMORY.md"
def identity : String := "IDENTITY.md"
def soul : String := "SOUL.md"
def agents : String := "AGENTS.md"
def user : String := "USER.md"
def heartbeat : String := "HEARTBEAT.md"
def readme : String := "README.md"
def tools : String := "TOOLS.md"
def bootstrap : String := "BOOTSTRAP.md"

end paths

/-- Keep one slash of every run of slashes; the flag says whether the last character was one. -/
def collapseSlashes : Bool → List Char → List Char
  | _, [] => []
  | lastWasSlash, c :: cs =>
    if c = '/' then
      if lastWasSlash then collapseSlashes true cs else c :: collapseSlashes true cs
    else c :: collapseSlashes false cs

variable (path : String)

/-- What `normalize_path` collapses the slashes of. -/
def trimmedPath : String := trimMatches (trim path) '/'

/-- Normalize a file path (remove leading/trailing slashes, collapse //). -/
def normalizePath : String :=
  String.ofList (collapseSlashes false (trimmedPath path).toList)

/-- Normalize a directory path. -/
def normalizeDirectory : String := trimEndMatches (normalizePath path) '/'

/-! ## Collapsing -/

theorem collapseSlashes_sublist (b : Bool) (cs : List Char) : (collapseSlashes b cs).Sublist cs := by
  induction cs generalizing b with
  | nil => exact List.Sublist.slnil
  | cons c cs ih =>
    unfold collapseSlashes
    split
    · split
      · exact (ih true).cons c
      · exact (ih true).cons_cons c
    · exact (ih false).cons_cons c

theorem collapseSlashes_idem (b : Bool) (cs : List Char) :
    collapseSlashes b (collapseSlashes b cs) = collapseSlashes b cs := by
  induction cs generalizing b with
  | nil => rfl
  | cons c cs ih =>
    by_cases hc : c = '/'
    · cases b with
      | true => simpa [collapseSlashes, hc] using ih true
      | false => simpa [collapseSlashes, hc] using ih true
    · simpa [collapseSlashes, hc] using ih false

theorem head?_collapseSlashes (cs : List Char) : (collapseSlashes false cs).head? = cs.head? := by
  cases cs with
  | nil => rfl
  | cons c cs => by_cases hc : c = '/' <;> simp [collapseSlashes, hc]

/-- A last character that is not a slash stays the last one. -/
theorem getLast?_collapseSlashes {b : Bool} {cs : List Char} (h : cs.getLast? ≠ some '/') :
    (collapseSlashes b cs).getLast? = cs.getLast? := by
  induction cs generalizing b with
  | nil => rfl
  | cons c cs ih =>
    cases cs with
    | nil =>
      have hc : c ≠ '/' := by simpa using h
      simp [collapseSlashes, hc]
    | cons d ds =>
      have hrest : (d :: ds).getLast? ≠ some '/' := by simpa using h
      -- What is kept of the rest is not empty, so it decides the last character.
      have hlast : ∀ b' x, (x :: collapseSlashes b' (d :: ds)).getLast? = (d :: ds).getLast? := by
        intro b' x
        have hkept := ih (b := b') hrest
        cases hcs : collapseSlashes b' (d :: ds) with
        | nil =>
          rw [hcs] at hkept
          cases List.getLast?_eq_none_iff.mp hkept.symm
        | cons e es => rw [hcs] at hkept; simpa using hkept
      rw [List.getLast?_cons_cons]
      rw [collapseSlashes]
      split
      · split
        · exact ih hrest
        · exact hlast true c
      · exact hlast false c

/-! ## Which paths are in normal form already -/

/-- No white space is left at the ends once the slashes there are gone. -/
def CleanEnds : Prop := Trimmed isWhitespace (trimmedPath path).toList

instance (path : String) : Decidable (CleanEnds path) :=
  decidable_of_iff (trimBy isWhitespace (trimmedPath path).toList = (trimmedPath path).toList) trimBy_eq_self_iff

variable {s : String}

theorem trim_eq_self_iff : trim s = s ↔ Trimmed isWhitespace s.toList := by
  rw [← trimBy_eq_self_iff, ← String.toList_inj]
  simp only [trim, String.toList_ofList]
  exact Iff.rfl

theorem trimMatches_eq_self_iff {c : Char} : trimMatches s c = s ↔ Trimmed (· == c) s.toList := by
  rw [← trimBy_eq_self_iff, ← String.toList_inj]
  simp only [trimMatches, String.toList_ofList]

theorem trimmed_trimmedPath : Trimmed (· == '/') (trimmedPath path).toList := by
  rw [trimmedPath, trimMatches, String.toList_ofList]
  exact trimmed_trimBy _ _

theorem getLast?_trimmedPath : (trimmedPath path).toList.getLast? ≠ some '/' := by
  intro h
  have := (trimmed_trimmedPath path).2 '/' h
  simp at this

/-- Normalizing keeps the characters at both ends. -/
theorem trimmed_normalizePath {p : Char → Bool} :
    Trimmed p (normalizePath path).toList ↔ Trimmed p (trimmedPath path).toList := by
  rw [normalizePath, String.toList_ofList]
  exact trimmed_of_ends (head?_collapseSlashes _) (getLast?_collapseSlashes (getLast?_trimmedPath path))

theorem normalizePath_sublist : (normalizePath path).toList.Sublist (trim path).toList := by
  rw [normalizePath, String.toList_ofList]
  refine (collapseSlashes_sublist false _).trans ?_
  rw [trimmedPath, trimMatches, String.toList_ofList]
  exact trimBy_sublist _ _

variable {q : String}

/-- A path is its own normal form when white space and slashes are off and no slash is doubled. -/
theorem normalizePath_eq_self (hspace : Trimmed isWhitespace q.toList) (hslash : Trimmed (· == '/') q.toList)
    (hcollapsed : collapseSlashes false q.toList = q.toList) : normalizePath q = q := by
  rw [normalizePath, trimmedPath, trim_eq_self_iff.mpr hspace, trimMatches_eq_self_iff.mpr hslash, hcollapsed,
    String.ofList_toList]

/-- A path that is its own normal form has no white space at its ends. -/
theorem trimmed_of_normalizePath_eq (h : normalizePath q = q) : Trimmed isWhitespace q.toList := by
  rw [← trim_eq_self_iff, ← String.toList_inj]
  have hsub : q.toList.Sublist (trim q).toList := by
    have := normalizePath_sublist q
    rwa [h] at this
  have hsub' : (trim q).toList.Sublist q.toList := by
    rw [trim, String.toList_ofList]
    exact trimBy_sublist isWhitespace q.toList
  exact hsub'.antisymm hsub

/-- **Normalizing twice is normalizing once** exactly for the paths with clean ends. -/
theorem normalizePath_normalizePath_iff :
    normalizePath (normalizePath path) = normalizePath path ↔ CleanEnds path := by
  constructor
  · intro h
    exact (trimmed_normalizePath path).mp (trimmed_of_normalizePath_eq h)
  · intro h
    apply normalizePath_eq_self
    · exact (trimmed_normalizePath path).mpr h
    · exact (trimmed_normalizePath path).mpr (trimmed_trimmedPath path)
    · rw [normalizePath, String.toList_ofList]
      exact collapseSlashes_idem false _

end Freeclawdia.Memory
