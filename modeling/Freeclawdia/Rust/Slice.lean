import Freeclawdia.Rust.Str

/-!
# `Rust.Slice` — slices of a `str` by byte offsets, and its lines

`&s[..n]` panics (`none`) unless a character ends at byte `n`.
-/

namespace Freeclawdia.Rust

theorem lenUtf8_pos (c : Char) : 0 < lenUtf8 c := by
  unfold lenUtf8
  split
  · exact Nat.one_pos
  · split
    · exact Nat.two_pos
    · split
      · exact Nat.succ_pos 2
      · exact Nat.succ_pos 3

/-- The length of characters in bytes. -/
def bytesOf (cs : List Char) : Nat := (cs.map lenUtf8).sum

@[simp] theorem bytesOf_cons (c : Char) (cs : List Char) : bytesOf (c :: cs) = lenUtf8 c + bytesOf cs := by
  simp [bytesOf]

theorem bytesOf_eq_zero {cs : List Char} (h : bytesOf cs = 0) : cs = [] := by
  cases cs with
  | nil => rfl
  | cons c cs =>
    have hpos := lenUtf8_pos c
    rw [bytesOf_cons] at h
    omega

/-- The characters up to a byte offset. -/
def charsTo : (n : Nat) → List Char → Option (List Char)
  | 0, _ => some []
  | _ + 1, [] => none
  | n + 1, c :: cs => if lenUtf8 c ≤ n + 1 then (charsTo (n + 1 - lenUtf8 c) cs).map (c :: ·) else none

variable (s : String)

/-- `&s[..n]`. -/
def sliceTo (n : Nat) : Option String := (charsTo n s.toList).map String.ofList

theorem charsTo_eq_some_iff {n : Nat} {cs lead : List Char} :
    charsTo n cs = some lead ↔ lead <+: cs ∧ bytesOf lead = n := by
  induction cs generalizing n lead with
  | nil =>
    cases n with
    | zero =>
      rw [List.prefix_nil]
      constructor
      · intro h
        cases h
        exact ⟨rfl, rfl⟩
      · rintro ⟨rfl, -⟩
        rfl
    | succ n =>
      rw [List.prefix_nil]
      constructor
      · intro h
        cases h
      · rintro ⟨rfl, h⟩
        cases h
  | cons c cs ih =>
    cases n with
    | zero =>
      constructor
      · intro h
        cases h
        exact ⟨ List.nil_prefix, rfl⟩
      · rintro ⟨-, h⟩
        rw [bytesOf_eq_zero h]
        rfl
    | succ n =>
      unfold charsTo
      constructor
      · intro h
        split at h
        next hle =>
          obtain ⟨rest, hrest, rfl⟩ := Option.map_eq_some_iff.mp h
          obtain ⟨hlead, hbytes⟩ := ih.mp hrest
          refine ⟨List.cons_prefix_cons.mpr ⟨rfl, hlead⟩, ?_⟩
          rw [bytesOf_cons, hbytes]
          omega
        next => cases h
      · rintro ⟨hlead, hbytes⟩
        cases lead with
        | nil => cases hbytes
        | cons d rest =>
          obtain ⟨rfl, hrest⟩ := List.cons_prefix_cons.mp hlead
          rw [bytesOf_cons] at hbytes
          rw [if_pos (by omega), ih.mpr ⟨hrest, show _ = n + 1 - lenUtf8 d by omega⟩]
          rfl

theorem byteLen_eq_bytesOf : byteLen s = bytesOf s.toList := rfl

/-- A slice is the part of the text with that many bytes. -/
theorem sliceTo_eq_some_iff {s r : String} {n : Nat} :
    sliceTo s n = some r ↔ r.toList <+: s.toList ∧ byteLen r = n := by
  unfold sliceTo
  rw [Option.map_eq_some_iff, byteLen_eq_bytesOf]
  constructor
  · rintro ⟨lead, hlead, rfl⟩
    rw [String.toList_ofList]
    exact charsTo_eq_some_iff.mp hlead
  · intro h
    exact ⟨r.toList, charsTo_eq_some_iff.mpr h, String.ofList_toList⟩

/-- A character ends at this byte of the text. -/
def IsCharBoundary (n : Nat) : Prop := ∃ lead rest, s.toList = lead ++ rest ∧ bytesOf lead = n

/-- **Slicing panics exactly inside a character** (or behind the end). -/
theorem sliceTo_isSome_iff {s : String} {n : Nat} : (sliceTo s n).isSome = true ↔ IsCharBoundary s n := by
  rw [Option.isSome_iff_exists]
  constructor
  · rintro ⟨r, hr⟩
    obtain ⟨⟨rest, hrest⟩, hbytes⟩ := sliceTo_eq_some_iff.mp hr
    exact ⟨r.toList, rest, hrest.symm, hbytes⟩
  · rintro ⟨lead, rest, hsplit, hbytes⟩
    refine ⟨String.ofList lead, sliceTo_eq_some_iff.mpr ⟨?_, ?_⟩⟩
    · rw [String.toList_ofList, hsplit]
      exact List.prefix_append lead rest
    · rw [byteLen_eq_bytesOf, String.toList_ofList]
      exact hbytes

/-! ## The lines of a text that grows

When text is added at the end, the lines that have ended stay, and the last one goes on (`lines_append`). -/

theorem linesOf_ne_nil (line text : List Char) : linesOf line text ≠ [] := by
  induction text generalizing line with
  | nil => exact List.cons_ne_nil _ _
  | cons c cs ih =>
    unfold linesOf
    split
    · exact List.cons_ne_nil _ _
    · exact ih _

/-- The last piece, which no line feed has ended. -/
def lastPiece (line text : List Char) : List Char := (linesOf line text).getLast?.getD []

theorem linesOf_append (line a b : List Char) :
    linesOf line (a ++ b) = (linesOf line a).dropLast ++ linesOf (lastPiece line a) b := by
  induction a generalizing line with
  | nil => rfl
  | cons c cs ih =>
    rw [List.cons_append, linesOf, linesOf, lastPiece, linesOf]
    split
    · have hne := linesOf_ne_nil [] cs
      rw [ih [], List.dropLast_cons_of_ne_nil hne, List.getLast?_cons_of_ne_nil hne]
      rfl
    · exact ih _

/-- Pieces have no line feeds. -/
theorem not_mem_of_mem_linesOf {line text p : List Char} (hline : '\n' ∉ line) (h : p ∈ linesOf line text) : '\n' ∉ p := by
  induction text generalizing line with
  | nil =>
    rw [List.mem_singleton.mp h]
    exact hline
  | cons c cs ih =>
    unfold linesOf at h
    split at h
    · rcases List.mem_cons.mp h with rfl | h
      · exact hline
      · exact ih List.not_mem_nil h
    next hc =>
      refine ih (fun hmem => ?_) h
      rcases List.mem_append.mp hmem with hmem | hmem
      · exact hline hmem
      · exact hc (List.mem_singleton.mp hmem).symm

theorem not_mem_lastPiece (text : List Char) : '\n' ∉ lastPiece [] text := by
  unfold lastPiece
  cases hlast : (linesOf [] text).getLast? with
  | none => exact List.not_mem_nil
  | some p => exact not_mem_of_mem_linesOf List.not_mem_nil (List.mem_of_getLast? hlast)

/-- A line can be begun in the text instead. -/
theorem linesOf_begun {begun : List Char} (h : '\n' ∉ begun) (line text : List Char) :
    linesOf line (begun ++ text) = linesOf (line ++ begun) text := by
  induction begun generalizing line with
  | nil => rw [List.nil_append, List.append_nil]
  | cons c cs ih =>
    have hc : c ≠ '\n' := fun heq => h (heq ▸ List.mem_cons_self)
    rw [List.cons_append, linesOf, if_neg hc, ih (fun hmem => h (List.mem_cons_of_mem _ hmem)),
      List.append_assoc, List.singleton_append]

/-- The lines of a text that a line feed has ended. -/
def endedLines : List String := ((linesOf [] s.toList).dropLast.map dropCr).map String.ofList

/-- The line at the end of a text. -/
def lastLine : String := String.ofList (lastPiece [] s.toList)

/-- The lines that pieces make: the last piece is one unless it is empty. -/
def linesOfPieces (pieces : List (List Char)) : List String :=
  (pieces.dropLast.map dropCr).map String.ofList ++
    if pieces.getLast?.getD [] = [] then [] else [String.ofList (pieces.getLast?.getD [])]

theorem lines_eq_linesOfPieces : lines s = linesOfPieces (linesOf [] s.toList) := by
  unfold lines linesOfPieces
  simp only [List.isEmpty_iff]
  split
  · rw [List.append_nil]
  · rw [List.map_append, List.map_singleton]

theorem linesOfPieces_append (ended : List (List Char)) {rest : List (List Char)} (h : rest ≠ []) :
    linesOfPieces (ended ++ rest) = (ended.map dropCr).map String.ofList ++ linesOfPieces rest := by
  unfold linesOfPieces
  rw [List.dropLast_append_of_ne_nil h, List.getLast?_append_of_ne_nil _ h, List.map_append, List.map_append,
    List.append_assoc]

theorem lines_eq : lines s = endedLines s ++ if lastLine s = "" then [] else [lastLine s] := by
  rw [lines_eq_linesOfPieces]
  unfold linesOfPieces endedLines lastLine lastPiece
  simp only [String.ofList_eq_empty_iff]

/-- **The lines of a text that goes on.** -/
theorem lines_append (a b : String) : lines (a ++ b) = endedLines a ++ lines (lastLine a ++ b) := by
  have hpieces : linesOf [] (a ++ b).toList =
      (linesOf [] a.toList).dropLast ++ linesOf [] (lastLine a ++ b).toList := by
    rw [String.toList_append, linesOf_append, lastLine, String.toList_append, String.toList_ofList,
      linesOf_begun (not_mem_lastPiece _), List.nil_append]
  rw [lines_eq_linesOfPieces, hpieces, linesOfPieces_append _ (linesOf_ne_nil [] _), ← lines_eq_linesOfPieces]
  rfl

end Freeclawdia.Rust
