import Mathlib.Data.List.Range
import Mathlib.Data.List.Sort
import Mathlib.Order.MinMax

/-!
# `Lib.Ranges` — cutting ranges out of a sequence with one cursor

Ranges of positions, in the order of where they start, are replaced by marks: what lies between the end of one range
and the start of the next is kept. With a single cursor, set back by a range that ends before an earlier one, this is
right exactly when no such range is the last one or is followed by a gap (`trace_eq_expected_iff`).
-/

namespace Freeclawdia.Ranges

/-- What is put out: a position of the sequence, or a mark. -/
inductive Piece
  | kept (i : Nat)
  | marker
deriving DecidableEq

/-- The positions from `a` up to `b`. -/
def keptFrom (a b : Nat) : List Piece := (List.range' a (b - a)).map .kept

/-- What the loop puts out of `n` positions, with the cursor at `last`. -/
def trace (n : Nat) : (last : Nat) → List (Nat × Nat) → List Piece
  | last, [] => keptFrom last n
  | last, (start, stop) :: ranges => keptFrom last start ++ .marker :: trace n stop ranges

/-- Some range covers the position. -/
def Covered (ranges : List (Nat × Nat)) (i : Nat) : Prop := ∃ r ∈ ranges, r.1 ≤ i ∧ i < r.2

instance (ranges : List (Nat × Nat)) (i : Nat) : Decidable (Covered ranges i) :=
  inferInstanceAs (Decidable (∃ r ∈ ranges, r.1 ≤ i ∧ i < r.2))

/-- What becomes of a position: the marks of the ranges that start there, and the position itself if it is not covered. -/
def cell (n reached : Nat) (ranges : List (Nat × Nat)) (i : Nat) : List Piece :=
  List.replicate (ranges.countP fun r => r.1 = i) .marker ++
    if i < n ∧ reached ≤ i ∧ ¬Covered ranges i then [.kept i] else []

/-- What should be put out: uncovered positions, and in place of covered ones as many marks as ranges start there. -/
def expected (n : Nat) (ranges : List (Nat × Nat)) : List Piece := (List.range' 0 (n + 1)).flatMap (cell n 0 ranges)

/-- A range that ends before an earlier one is directly followed by one that starts no later than it ends. -/
def NeverFallsBack (ranges : List (Nat × Nat)) : Prop :=
  ∀ before r after, ranges = before ++ r :: after → (∃ q ∈ before, r.2 < q.2) → ∃ next ∈ after.head?, next.1 ≤ r.2

/-- The same, as the loop goes: `reached` is how far the ranges so far go, and `last` where the last of them ends. -/
def KeepsUp : (reached last : Nat) → List (Nat × Nat) → Prop
  | reached, last, [] => reached ≤ last
  | reached, last, (start, stop) :: ranges => (reached ≤ last ∨ start ≤ last) ∧ KeepsUp (max reached stop) stop ranges

/-! ## What is expected -/

/-- The position of a piece. -/
def Piece.position? : Piece → Option Nat
  | kept i => some i
  | marker => none

theorem position?_cell (n reached : Nat) (ranges : List (Nat × Nat)) (i : Nat) :
    (cell n reached ranges i).filterMap Piece.position? = if i < n ∧ reached ≤ i ∧ ¬Covered ranges i then [i] else [] := by
  unfold cell
  rw [List.filterMap_append, List.filterMap_replicate_of_none rfl, List.nil_append]
  split
  · rfl
  · rfl

variable {ranges : List (Nat × Nat)} {i n reached : Nat}

theorem kept_mem_cell {j : Nat} (h : Piece.kept j ∈ cell n reached ranges i) :
    j = i ∧ i < n ∧ reached ≤ i ∧ ¬Covered ranges i := by
  have hmem : j ∈ (cell n reached ranges i).filterMap Piece.position? := List.mem_filterMap.mpr ⟨_, h, rfl⟩
  rw [position?_cell] at hmem
  split at hmem
  next hi => exact ⟨List.mem_singleton.mp hmem, hi⟩
  next => cases hmem

/-- No covered position is expected. -/
theorem not_covered_of_expected (h : Piece.kept i ∈ expected n ranges) : i < n ∧ ¬Covered ranges i := by
  obtain ⟨j, -, hj⟩ := List.mem_flatMap.mp h
  obtain ⟨rfl, hn, -, hnot⟩ := kept_mem_cell hj
  exact ⟨hn, hnot⟩

/-! ## The loop -/

/-- Positions of which those from `reached` on are kept. -/
theorem flatMap_range'_kept {a b : Nat} (hab : a ≤ b) {f : Nat → List Piece}
    (hf : ∀ i, a ≤ i → i < b → f i = if reached ≤ i then [.kept i] else []) :
    (List.range' a (b - a)).flatMap f = keptFrom (max a reached) b := by
  unfold keptFrom
  by_cases h : b ≤ max a reached
  · rw [Nat.sub_eq_zero_of_le h, List.range'_zero, List.map_nil, List.flatMap_eq_nil_iff]
    intro i hi
    obtain ⟨ha, hb⟩ := List.mem_range'_1.mp hi
    rw [hf i ha (by omega), if_neg (by omega)]
  · have hsplit : List.range' a (b - a) =
        List.range' a (max a reached - a) ++ List.range' (max a reached) (b - max a reached) := by
      have hjoin := List.range'_append_1 (s := a) (m := max a reached - a) (n := b - max a reached)
      rw [show a + (max a reached - a) = max a reached by omega,
        show max a reached - a + (b - max a reached) = b - a by omega] at hjoin
      exact hjoin.symm
    have hbefore : (List.range' a (max a reached - a)).flatMap f = [] := by
      rw [List.flatMap_eq_nil_iff]
      intro i hi
      obtain ⟨ha, hb⟩ := List.mem_range'_1.mp hi
      rw [hf i ha (by omega), if_neg (by omega)]
    rw [hsplit, List.flatMap_append, hbefore, List.nil_append, List.map_eq_flatMap]
    refine List.flatMap_congr fun i hi => ?_
    obtain ⟨ha, hb⟩ := List.mem_range'_1.mp hi
    rw [hf i (by omega) (by omega), if_pos (by omega)]

/-- Before the ranges that are left start, there are no marks. -/
theorem cell_before (hn : i < n) (h : ∀ r ∈ ranges, i < r.1) :
    cell n reached ranges i = if reached ≤ i then [.kept i] else [] := by
  have hcount : ranges.countP (fun r => r.1 = i) = 0 := by
    rw [List.countP_eq_zero]
    intro r hr heq
    exact absurd (of_decide_eq_true heq) (h r hr).ne'
  have hcovered : ¬Covered ranges i := by
    rintro ⟨r, hr, hle, -⟩
    exact absurd hle (Nat.not_le.mpr (h r hr))
  unfold cell
  rw [hcount, List.replicate_zero, List.nil_append]
  simp only [hn, hcovered, not_false_eq_true, and_true, true_and]

variable {start : Nat}

/-- From its start on, a range is what it reaches. -/
theorem cell_cons {stop : Nat} (h : start ≤ i) : cell n reached ((start, stop) :: ranges) i =
      (if start = i then [.marker] else []) ++ cell n (max reached stop) ranges i := by
  have hcovered : Covered ((start, stop) :: ranges) i ↔ i < stop ∨ Covered ranges i := by
    constructor
    · rintro ⟨r, hr, hle, hlt⟩
      rcases List.mem_cons.mp hr with rfl | hr
      · exact .inl hlt
      · exact .inr ⟨r, hr, hle, hlt⟩
    · rintro (hlt | ⟨r, hr, hcover⟩)
      · exact ⟨_, List.mem_cons_self, h, hlt⟩
      · exact ⟨r, List.mem_cons_of_mem _ hr, hcover⟩
  have hkept : (i < n ∧ reached ≤ i ∧ ¬Covered ((start, stop) :: ranges) i) ↔
      i < n ∧ max reached stop ≤ i ∧ ¬Covered ranges i := by
    rw [hcovered, not_or, Nat.not_lt, Nat.max_le]
    tauto
  unfold cell
  rw [if_congr hkept rfl rfl, ← List.append_assoc, List.countP_cons]
  congr 1
  by_cases heq : start = i
  · rw [if_pos heq, if_pos (decide_eq_true heq), List.replicate_succ]
    rfl
  · rw [if_neg heq, if_neg (fun hd => heq (of_decide_eq_true hd))]
    rfl

variable {last : Nat}

/-- **A cursor that keeps up** puts out what is expected of the positions from `start` on, where no range that is left
starts before. -/
theorem trace_eq_flatMap (hsorted : ranges.Pairwise fun a b => a.1 ≤ b.1) (hstart : ∀ r ∈ ranges, start ≤ r.1)
    (hwithin : ∀ r ∈ ranges, r.1 ≤ r.2 ∧ r.2 ≤ n) (hlast : start ≤ last) (hreached : last ≤ reached) (hn : reached ≤ n)
    (h : KeepsUp reached last ranges) :
    trace n last ranges = (List.range' start (n + 1 - start)).flatMap (cell n reached ranges) := by
  induction ranges generalizing start last reached with
  | nil =>
    have hend : List.range' start (n + 1 - start) = List.range' start (n - start) ++ [n] := by
      rw [show n + 1 - start = n - start + 1 by omega, List.range'_concat]
      simp only [Nat.one_mul, Nat.add_sub_cancel' (hlast.trans (hreached.trans hn))]
    have hcell : cell n reached [] n = [] := by
      unfold cell
      rw [if_neg fun hn => Nat.lt_irrefl n hn.1]
      rfl
    rw [hend, List.flatMap_append, List.flatMap_singleton, hcell, List.append_nil,
      flatMap_range'_kept (hlast.trans (hreached.trans hn))
        fun i _ hi => cell_before hi fun r hr => absurd hr List.not_mem_nil]
    have hmax : max start reached = last := by
      have h : reached ≤ last := h
      omega
    rw [hmax]
    rfl
  | cons range ranges ih =>
    obtain ⟨first, stop⟩ := range
    obtain ⟨hfirst, hsorted⟩ := List.pairwise_cons.mp hsorted
    obtain ⟨hstep, hkeeps⟩ := h
    have hle : start ≤ first := hstart _ List.mem_cons_self
    obtain ⟨hfs, hstop⟩ := hwithin _ List.mem_cons_self
    dsimp only at hfs hstop
    have hrest := ih hsorted hfirst (fun r hr => hwithin r (List.mem_cons_of_mem _ hr)) hfs (Nat.le_max_right reached stop)
      (Nat.max_le.mpr ⟨hn, hstop⟩) hkeeps
    have hsplit : List.range' start (n + 1 - start) =
        List.range' start (first - start) ++ List.range' first (n + 1 - first) := by
      have hjoin := List.range'_append_1 (s := start) (m := first - start) (n := n + 1 - first)
      rw [show start + (first - start) = first by omega,
        show first - start + (n + 1 - first) = n + 1 - start by omega] at hjoin
      exact hjoin.symm
    have hbefore : (List.range' start (first - start)).flatMap (cell n reached ((first, stop) :: ranges)) =
        keptFrom last first := by
      rw [flatMap_range'_kept hle fun i _ hi => cell_before (by omega) fun r hr => ?_]
      · unfold keptFrom
        rcases hstep with hstep | hstep
        · rw [show max start reached = last by omega]
        · rw [show first - max start reached = 0 by omega, show first - last = 0 by omega]
          rfl
      · rcases List.mem_cons.mp hr with rfl | hr
        · exact hi
        · exact hi.trans_le (hfirst r hr)
    -- The mark of this range is the first thing in the cell of its start.
    have hafter : (List.range' first (n + 1 - first)).flatMap (cell n reached ((first, stop) :: ranges)) =
        .marker :: (List.range' first (n + 1 - first)).flatMap (cell n (max reached stop) ranges) := by
      rw [show n + 1 - first = n - first + 1 by omega, List.range'_succ, List.flatMap_cons, List.flatMap_cons,
        cell_cons (le_refl first), if_pos rfl, List.append_assoc, List.singleton_append]
      congr 2
      refine List.flatMap_congr fun i hi => ?_
      obtain ⟨hi, -⟩ := List.mem_range'_1.mp hi
      rw [cell_cons (by omega), if_neg (by omega), List.nil_append]
    rw [hsplit, List.flatMap_append, hbefore, hafter, ← hrest]
    rfl

/-- A cursor that does not keep up puts out a covered position. -/
theorem covered_of_not_keepsUp (hsorted : ranges.Pairwise fun a b => a.1 ≤ b.1) (hstart : ∀ r ∈ ranges, start ≤ r.1)
    (hwithin : ∀ r ∈ ranges, r.1 ≤ r.2 ∧ r.2 ≤ n) (hlast : start ≤ last) (hn : reached ≤ n)
    (h : ¬KeepsUp reached last ranges) :
    ∃ i, .kept i ∈ trace n last ranges ∧ start ≤ i ∧ (i < reached ∨ Covered ranges i) := by
  induction ranges generalizing start last reached with
  | nil =>
    have hlt : last < reached := Nat.not_le.mp h
    refine ⟨last, List.mem_map.mpr ⟨last, List.mem_range'_1.mpr ⟨le_refl _, by omega⟩, rfl⟩, hlast, .inl hlt⟩
  | cons range ranges ih =>
    obtain ⟨first, stop⟩ := range
    obtain ⟨hfirst, hsorted⟩ := List.pairwise_cons.mp hsorted
    have hle : start ≤ first := hstart _ List.mem_cons_self
    obtain ⟨hfs, hstop⟩ := hwithin _ List.mem_cons_self
    dsimp only at hfs hstop
    by_cases hstep : reached ≤ last ∨ first ≤ last
    · obtain ⟨i, hi, hge, hcovered⟩ := ih hsorted hfirst (fun r hr => hwithin r (List.mem_cons_of_mem _ hr)) hfs
        (Nat.max_le.mpr ⟨hn, hstop⟩) fun hkeeps => h ⟨hstep, hkeeps⟩
      refine ⟨i, List.mem_append_right _ (List.mem_cons_of_mem _ hi), hle.trans hge, ?_⟩
      rcases hcovered with hlt | ⟨r, hr, hcover⟩
      · rcases lt_max_iff.mp hlt with hlt | hlt
        · exact .inl hlt
        · exact .inr ⟨_, List.mem_cons_self, hge, hlt⟩
      · exact .inr ⟨r, List.mem_cons_of_mem _ hr, hcover⟩
    · rw [not_or, Nat.not_le, Nat.not_le] at hstep
      refine ⟨last, List.mem_append_left _ (List.mem_map.mpr ⟨last, ?_, rfl⟩), hlast, .inl hstep.1⟩
      exact List.mem_range'_1.mpr ⟨le_refl _, by omega⟩

theorem keepsUp_iff : KeepsUp reached last ranges ↔ (last < reached → ∃ next ∈ ranges.head?, next.1 ≤ last) ∧
        ∀ before r after, ranges = before ++ r :: after → (r.2 < reached ∨ ∃ q ∈ before, r.2 < q.2) →
          ∃ next ∈ after.head?, next.1 ≤ r.2 := by
  induction ranges generalizing reached last with
  | nil =>
    constructor
    · intro h
      refine ⟨fun hlt => absurd (show reached ≤ last from h) (Nat.not_le.mpr hlt), fun before r after heq => ?_⟩
      exact absurd heq.symm (by simp)
    · intro h
      by_contra hlt
      obtain ⟨next, hnext, -⟩ := h.1 (Nat.not_le.mp hlt)
      cases hnext
  | cons range ranges ih =>
    obtain ⟨first, stop⟩ := range
    have hhead : (reached ≤ last ∨ first ≤ last) ↔
        (last < reached → ∃ next ∈ ((first, stop) :: ranges).head?, next.1 ≤ last) := by
      rw [← Nat.not_lt, ← imp_iff_not_or]
      simp
    unfold KeepsUp
    rw [hhead, ih]
    refine and_congr_right fun _ => ⟨fun ⟨hnext, hrest⟩ before r after heq hback => ?_, fun h => ⟨fun hlt => ?_, ?_⟩⟩
    · cases before with
      | nil =>
        obtain ⟨rfl, rfl⟩ := List.cons.inj heq
        refine hnext ?_
        rcases hback with hlt | ⟨q, hq, -⟩
        · exact lt_max_of_lt_left hlt
        · cases hq
      | cons q before =>
        obtain ⟨rfl, hsplit⟩ := List.cons.inj heq
        refine hrest before r after hsplit ?_
        rcases hback with hlt | ⟨q, hq, hlt⟩
        · exact .inl (lt_max_of_lt_left hlt)
        · rcases List.mem_cons.mp hq with rfl | hq
          · exact .inl (lt_max_of_lt_right hlt)
          · exact .inr ⟨q, hq, hlt⟩
    · refine h [] (first, stop) ranges rfl (.inl ?_)
      rcases lt_max_iff.mp hlt with hlt | hlt
      · exact hlt
      · exact absurd hlt (Nat.lt_irrefl _)
    · intro before r after heq hback
      refine h ((first, stop) :: before) r after (by rw [heq]; rfl) ?_
      rcases hback with hlt | ⟨q, hq, hlt⟩
      · rcases lt_max_iff.mp hlt with hlt | hlt
        · exact .inl hlt
        · exact .inr ⟨_, List.mem_cons_self, hlt⟩
      · exact .inr ⟨q, List.mem_cons_of_mem _ hq, hlt⟩

/-- **What the loop puts out is what is expected exactly when no range falls back.** -/
theorem trace_eq_expected_iff (hsorted : ranges.Pairwise fun a b => a.1 ≤ b.1)
    (hwithin : ∀ r ∈ ranges, r.1 ≤ r.2 ∧ r.2 ≤ n) :
    trace n 0 ranges = expected n ranges ↔ NeverFallsBack ranges := by
  have hkeeps : KeepsUp 0 0 ranges ↔ NeverFallsBack ranges := by
    rw [keepsUp_iff]
    constructor
    · exact fun h before r after heq hback => h.2 before r after heq (.inr hback)
    · refine fun h => ⟨fun hlt => absurd hlt (Nat.lt_irrefl 0), fun before r after heq hback => h before r after heq ?_⟩
      exact hback.resolve_left (Nat.not_lt_zero _)
  rw [← hkeeps]
  constructor
  · intro heq
    by_contra hnot
    obtain ⟨i, hi, -, hcovered⟩ := covered_of_not_keepsUp hsorted (fun _ _ => Nat.zero_le _) hwithin (le_refl 0)
      (Nat.zero_le n) hnot
    rw [heq] at hi
    exact (not_covered_of_expected hi).2 (hcovered.resolve_left (Nat.not_lt_zero _))
  · exact trace_eq_flatMap hsorted (fun _ _ => Nat.zero_le _) hwithin (le_refl 0) (le_refl 0) (Nat.zero_le n)

end Freeclawdia.Ranges
