import Freeclawdia.Lib.Regex
import Mathlib.Data.List.Pairwise

/-!
# `Lib.MultiPattern` — searching for several words at once

The hits of an Aho-Corasick search with standard semantics and without overlap: a hit is reported as soon as some
pattern ends, the longest one that ends there, and the search goes on behind it. A later occurrence that starts inside
a hit is therefore lost. `findIter_meets` says what is left of completeness: a hit ends inside every occurrence.
-/

namespace Freeclawdia.MultiPattern

/-- A reported occurrence: which pattern, and where. -/
structure Hit where
  pattern : Nat
  start : Nat
  stop : Nat
  deriving DecidableEq

variable (pats : List (List Char)) (text : List Char)

/-- The patterns that end at `stop` and lie behind `last`, with their numbers. -/
def ending (last stop : Nat) : List (List Char × Nat) :=
  pats.zipIdx.filter fun x => x.1.length ≤ stop - last && x.1.isPrefixOf (text.drop (stop - x.1.length))

/-- The first of the longest. -/
def pick : List (List Char × Nat) → Option (List Char × Nat)
  | [] => none
  | x :: xs =>
    match pick xs with
    | none => some x
    | some y => if x.1.length < y.1.length then some y else some x

/-- The hits that end at `stop` or later; the last one ended at `last`. -/
def hitsFrom : (fuel stop last : Nat) → List Hit
  | 0, _, _ => []
  | fuel + 1, stop, last =>
    match pick (ending pats text last stop) with
    | some (p, k) => ⟨k, stop - p.length, stop⟩ :: hitsFrom fuel (stop + 1) stop
    | none => hitsFrom fuel (stop + 1) last

/-- All hits. -/
def findIter : List Hit := hitsFrom pats text text.length 1 0

variable {pats text}

theorem pick_mem {xs : List (List Char × Nat)} {x : List Char × Nat} (h : pick xs = some x) : x ∈ xs := by
  induction xs generalizing x with
  | nil => simp [pick] at h
  | cons y ys ih =>
    unfold pick at h
    cases hys : pick ys with
    | none =>
      rw [hys] at h
      simp_all
    | some z =>
      rw [hys] at h
      have hz := ih hys
      dsimp only at h
      split_ifs at h
      · cases h
        exact List.mem_cons_of_mem _ hz
      · cases h
        exact List.mem_cons_self

theorem pick_eq_none {xs : List (List Char × Nat)} (h : pick xs = none) : xs = [] := by
  cases xs with
  | nil => rfl
  | cons y ys =>
    unfold pick at h
    cases hys : pick ys with
    | none => simp [hys] at h
    | some z =>
      rw [hys] at h
      dsimp only at h
      split_ifs at h

theorem mem_ending {last stop k : Nat} {p : List Char} (h : (p, k) ∈ ending pats text last stop) :
    pats[k]? = some p ∧ p.length ≤ stop - last ∧ Regex.At text p (stop - p.length) := by
  simp only [ending, List.mem_filter, Bool.and_eq_true, decide_eq_true_eq, List.isPrefixOf_iff_prefix] at h
  obtain ⟨hk, hlen, hat⟩ := h
  exact ⟨List.mk_mem_zipIdx_iff_getElem?.1 hk, hlen, hat⟩

variable {fuel stop last : Nat}

/-- A hit is an occurrence behind the last hit. -/
theorem hitsFrom_sound (hstop : last ≤ stop) {h : Hit}
    (hh : h ∈ hitsFrom pats text fuel stop last) :
    ∃ p, pats[h.pattern]? = some p ∧ Regex.At text p h.start ∧ h.stop = h.start + p.length ∧ last ≤ h.start ∧
      stop ≤ h.stop := by
  induction fuel generalizing stop last with
  | zero => simp [hitsFrom] at hh
  | succ fuel ih =>
    unfold hitsFrom at hh
    split at hh
    · next p k hpick =>
        obtain ⟨hk, hlen, hat⟩ := mem_ending (pick_mem hpick)
        rcases List.mem_cons.1 hh with rfl | hh
        · have hstart : stop - p.length + p.length = stop := by omega
          exact ⟨p, hk, hat, hstart.symm, show last ≤ stop - p.length by omega, le_refl _⟩
        · obtain ⟨q, hq, hqat, hqstop, hqlast, hqs⟩ := ih (by omega) hh
          exact ⟨q, hq, hqat, hqstop, by omega, by omega⟩
    · obtain ⟨q, hq, hqat, hqstop, hqlast, hqs⟩ := ih (by omega) hh
      exact ⟨q, hq, hqat, hqstop, hqlast, by omega⟩

theorem findIter_sound {h : Hit} (hh : h ∈ findIter pats text) :
    ∃ p, pats[h.pattern]? = some p ∧ Regex.At text p h.start ∧ h.stop = h.start + p.length := by
  obtain ⟨p, hp, hat, hstop, -⟩ := hitsFrom_sound (by omega) hh
  exact ⟨p, hp, hat, hstop⟩

theorem hitsFrom_disjoint (hstop : last ≤ stop) :
    (hitsFrom pats text fuel stop last).Pairwise fun a b => a.stop ≤ b.start := by
  induction fuel generalizing stop last with
  | zero => simp [hitsFrom]
  | succ fuel ih =>
    unfold hitsFrom
    split
    · next p k hpick =>
        refine List.pairwise_cons.2 ⟨?_, ih (by omega)⟩
        intro h hh
        obtain ⟨q, -, -, -, hlast, -⟩ := hitsFrom_sound (by omega) hh
        exact hlast
    · exact ih (by omega)

/-- Two hits that share a position are one. -/
theorem eq_of_overlap {a b : Hit} (ha : a ∈ findIter pats text) (hb : b ∈ findIter pats text) {j : Nat}
    (hja : a.start ≤ j ∧ j < a.stop) (hjb : b.start ≤ j ∧ j < b.stop) : a = b := by
  by_contra hne
  have hdis : (findIter pats text).Pairwise fun a b => a.stop ≤ b.start := hitsFrom_disjoint (by omega)
  have hor : a.stop ≤ b.start ∨ b.stop ≤ a.start := by
    have hsym : Std.Symm fun a b : Hit => a.stop ≤ b.start ∨ b.stop ≤ a.start := ⟨fun _ _ h => h.symm⟩
    have hpair : (findIter pats text).Pairwise fun a b => a.stop ≤ b.start ∨ b.stop ≤ a.start :=
      hdis.imp fun h => Or.inl h
    exact hpair.forall ha hb hne
  omega

/-- In every occurrence behind the last hit, a hit ends. -/
theorem hitsFrom_meets {p : List Char} (hp : p ∈ pats) (hne : p ≠ []) {i : Nat} (hat : Regex.At text p i)
    (hlast : last ≤ i) (hstop : stop ≤ i + p.length) (hfuel : i + p.length < stop + fuel) :
    ∃ h ∈ hitsFrom pats text fuel stop last, i < h.stop ∧ h.stop ≤ i + p.length := by
  have hpos : 0 < p.length := List.length_pos_iff.2 hne
  induction fuel generalizing stop last with
  | zero => omega
  | succ fuel ih =>
    unfold hitsFrom
    split
    · next q k hpick =>
        by_cases hi : i < stop
        · exact ⟨⟨k, stop - q.length, stop⟩, by simp, hi, hstop⟩
        · obtain ⟨h, hh, hmeets⟩ := @ih (stop + 1) stop (by omega) (by omega) (by omega)
          exact ⟨h, by simp [hh], hmeets⟩
    · next hpick =>
        have hlt : stop ≠ i + p.length := by
          -- the pattern itself would have been reported
          rintro rfl
          obtain ⟨k, hk⟩ := List.mem_iff_getElem?.1 hp
          have hmem : (p, k) ∈ ending pats text last (i + p.length) := by
            simp only [ending, List.mem_filter, Bool.and_eq_true, decide_eq_true_eq, List.isPrefixOf_iff_prefix]
            refine ⟨List.mk_mem_zipIdx_iff_getElem?.2 hk, by omega, ?_⟩
            rw [Nat.add_sub_cancel]
            exact hat
          rw [pick_eq_none hpick] at hmem
          simp at hmem
        exact ih hlast (by omega) (by omega)

theorem findIter_meets {p : List Char} (hp : p ∈ pats) (hne : p ≠ []) {i : Nat} (hat : Regex.At text p i) :
    ∃ h ∈ findIter pats text, i < h.stop ∧ h.stop ≤ i + p.length := by
  have hpos : 0 < p.length := List.length_pos_iff.2 hne
  have hlen := hat.length_le
  exact hitsFrom_meets hp hne hat (Nat.zero_le _) (by omega) (by omega)

end Freeclawdia.MultiPattern
