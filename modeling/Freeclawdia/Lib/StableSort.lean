import Mathlib.Data.List.Sort

/-!
# `Lib.StableSort` — sorting by a key

A stable sort by a key. What holds between two items with the same key, in the order of the list before, holds
in the order of the sorted list (`pairwise_sortByKey`).
-/

namespace Freeclawdia

variable {α : Type} (key : α → Nat)

/-- Items in the order of their keys; items with the same key stay in the order they are in. -/
def sortByKey (l : List α) : List α := l.insertionSort fun a b => key a ≤ key b

theorem sortByKey_perm (l : List α) : (sortByKey key l).Perm l := List.perm_insertionSort _ l

theorem mem_sortByKey {l : List α} {a : α} : a ∈ sortByKey key l ↔ a ∈ l := (sortByKey_perm key l).mem_iff

variable {key} {R : α → α → Prop}

theorem pairwise_orderedInsert {a : α} {l : List α} (hl : l.Pairwise fun x y => key x ≤ key y ∧ (key x = key y → R x y))
    (ha : ∀ y ∈ l, key a = key y → R a y) :
    (l.orderedInsert (fun x y => key x ≤ key y) a).Pairwise fun x y => key x ≤ key y ∧ (key x = key y → R x y) := by
  induction l with
  | nil => exact List.pairwise_singleton _ a
  | cons b l ih =>
    obtain ⟨hb, hl⟩ := List.pairwise_cons.mp hl
    rw [List.orderedInsert_cons]
    split
    · next hle =>
        refine List.pairwise_cons.mpr ⟨fun y hy => ?_, List.pairwise_cons.mpr ⟨hb, hl⟩⟩
        rcases List.mem_cons.mp hy with rfl | hy'
        · exact ⟨hle, ha _ (List.mem_cons_self ..)⟩
        · exact ⟨hle.trans (hb y hy').1, ha y hy⟩
    · next hnot =>
        refine List.pairwise_cons.mpr ⟨fun y hy => ?_, ih hl fun y hy => ha y (List.mem_cons_of_mem b hy)⟩
        rcases (List.mem_orderedInsert _).mp hy with rfl | hy'
        · exact ⟨by omega, fun heq => absurd heq.ge hnot⟩
        · exact hb y hy'

/-- **Stability.** -/
theorem pairwise_sortByKey {l : List α} (h : l.Pairwise fun x y => key x = key y → R x y) :
    (sortByKey key l).Pairwise fun x y => key x ≤ key y ∧ (key x = key y → R x y) := by
  induction l with
  | nil => exact List.Pairwise.nil
  | cons a l ih =>
    obtain ⟨ha, hl⟩ := List.pairwise_cons.mp h
    exact pairwise_orderedInsert (ih hl) fun y hy => ha y ((mem_sortByKey key).mp hy)

end Freeclawdia
