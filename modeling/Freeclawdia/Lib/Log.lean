import Mathlib.Algebra.BigOperators.Group.List.Basic
import Mathlib.Algebra.Order.Group.Multiset
import Mathlib.Data.List.Infix
import Mathlib.Logic.Function.Iterate
import Mathlib.Data.List.Basic

/-!
# `Lib.Log` — append-only event logs and histories

Two ways of speaking about a log that only grows.

* `Grows P l l'` says what was appended; it composes along a program's steps.
* `Funded gain spend K l` is bookkeeping: some events **earn** credits, others **spend** them, both as
  multisets. The log is funded with `K` when at no moment more had been spent than earned, and `K` is still
  there. It is proved one appended event at a time; a program's own state is what holds the unspent `K`.
-/

namespace Freeclawdia
namespace Log

universe u v

variable {E : Type u}

/-! ## What was appended -/

/-- An entry that is apart from all others goes to the end. -/
theorem pairwise_concat {R : E → E → Prop} {l : List E} {a : E} (h : l.Pairwise R) (ha : ∀ b ∈ l, R b a) :
    (l ++ [a]).Pairwise R := by
  rw [List.pairwise_append]
  refine ⟨h, List.pairwise_singleton R a, ?_⟩
  intro b hb c hc
  rw [List.mem_singleton.mp hc]
  exact ha b hb

/-- `l'` is `l` with events appended that satisfy `P`. -/
def Grows (P : E → Prop) (l l' : List E) : Prop := ∃ ev, l' = l ++ ev ∧ ∀ e ∈ ev, P e

namespace Grows

variable {P P' : E → Prop} {l l' l'' : List E}

theorem refl (P : E → Prop) (l : List E) : Grows P l l :=
  ⟨[], (List.append_nil l).symm, fun _ h => absurd h List.not_mem_nil⟩

theorem snoc {e : E} (he : P e) (l : List E) : Grows P l (l ++ [e]) :=
  ⟨[e], rfl, fun _ h => by rw [List.mem_singleton.mp h]; exact he⟩

theorem trans (h : Grows P l l') (h' : Grows P l' l'') : Grows P l l'' := by
  obtain ⟨ev, rfl, hev⟩ := h
  obtain ⟨ev', rfl, hev'⟩ := h'
  refine ⟨ev ++ ev', List.append_assoc l ev ev', ?_⟩
  intro e he
  rcases List.mem_append.mp he with he | he
  · exact hev e he
  · exact hev' e he

theorem mono (hP : ∀ e, P e → P' e) (h : Grows P l l') : Grows P' l l' := by
  obtain ⟨ev, rfl, hev⟩ := h
  exact ⟨ev, rfl, fun e he => hP e (hev e he)⟩

/-- An event of the grown log was there or was appended. -/
theorem mem (h : Grows P l l') {e : E} (he : e ∈ l') : e ∈ l ∨ P e := by
  obtain ⟨ev, rfl, hev⟩ := h
  rcases List.mem_append.mp he with he | he
  · exact Or.inl he
  · exact Or.inr (hev e he)

/-- A grown log starts with the old one. -/
theorem isPrefix (h : Grows P l l') : l <+: l' := by
  obtain ⟨ev, rfl, _⟩ := h
  exact List.prefix_append l ev

end Grows

/-! ## Credits -/

section Credits

variable {A : Type v}

/-- The total of a reading of the log. -/
def total (f : E → Multiset A) (l : List E) : Multiset A := (l.map f).sum

theorem total_append (f : E → Multiset A) (l l' : List E) : total f (l ++ l') = total f l + total f l' := by
  unfold total
  rw [List.map_append, List.sum_append]

theorem total_snoc (f : E → Multiset A) (l : List E) (e : E) : total f (l ++ [e]) = total f l + f e := by
  rw [total_append]
  unfold total
  rw [List.map_singleton, List.sum_singleton]

/-- At no moment more was spent than earned, and `K` is unspent. -/
structure Funded (gain spend : E → Multiset A) (K : Multiset A) (l : List E) : Prop where
  always : ∀ pre, pre <+: l → total spend pre ≤ total gain pre
  unspent : total spend l + K ≤ total gain l

namespace Funded

variable {gain spend : E → Multiset A} {K K' : Multiset A} {l l' : List E} {e : E}

theorem nil : Funded gain spend 0 [] := by
  refine ⟨?_, le_rfl⟩
  intro pre hpre
  rw [List.prefix_nil.mp hpre]
  exact le_rfl

theorem mono (h : Funded gain spend K l) (hK : K' ≤ K) : Funded gain spend K' l :=
  ⟨h.always, le_trans (add_le_add_right hK _) h.unspent⟩

/-- **One event**: what it spends comes out of `K`, what it earns goes in. -/
theorem snoc (h : Funded gain spend (K + spend e) l) : Funded gain spend (K + gain e) (l ++ [e]) := by
  have hend : total spend (l ++ [e]) + (K + gain e) ≤ total gain (l ++ [e]) := by
    rw [total_snoc, total_snoc]
    calc total spend l + spend e + (K + gain e)
        = total spend l + (K + spend e) + gain e := by
          rw [← add_assoc, add_assoc (total spend l), add_comm (spend e) K]
      _ ≤ total gain l + gain e := add_le_add_left h.unspent _
  refine ⟨?_, hend⟩
  intro pre hpre
  rcases List.prefix_concat_iff.mp hpre with hp | hp
  · rw [hp]
    exact le_trans (Multiset.le_add_right _ _) hend
  · exact h.always pre hp

/-- An event that earns. -/
theorem earn (h : Funded gain spend K l) (hs : spend e = 0) : Funded gain spend (K + gain e) (l ++ [e]) := by
  apply snoc
  rw [hs, add_zero]
  exact h

/-- An event that spends. -/
theorem pay (h : Funded gain spend (K + spend e) l) (hg : gain e = 0) : Funded gain spend K (l ++ [e]) := by
  have hs := snoc h
  rw [hg, add_zero] at hs
  exact hs

/-- Events that neither earn nor spend. -/
theorem grows {P : E → Prop} (h : Funded gain spend K l) (hg : Grows P l l')
    (hP : ∀ e, P e → spend e = 0 ∧ gain e = 0) : Funded gain spend K l' := by
  obtain ⟨ev, rfl, hev⟩ := hg
  induction ev generalizing l with
  | nil => rw [List.append_nil]; exact h
  | cons x xs ih =>
    obtain ⟨hs, hg⟩ := hP x (hev x List.mem_cons_self)
    have hx : Funded gain spend K (l ++ [x]) := by
      apply pay _ hg
      rw [hs, add_zero]
      exact h
    rw [List.append_cons]
    exact ih hx fun e he => hev e (List.mem_cons_of_mem x he)

end Funded
end Credits
end Log

/-! ## Undo and redo on an abstract history

A history over any type of snapshots: the snapshots one can go back to, the present one, and those one can
go forward to again. Undo and redo move the present between the two lists and lose nothing, so `k` redos
take back `k` undos exactly (`redo_undo_iterate`). An implementation with bounded stacks and a lossy
rebuild of its present is judged by whether its operations are these. -/

universe u

/-- A linear history; both lists have the nearest snapshot first. -/
@[ext] structure History (α : Type u) where
  past : List α
  present : α
  future : List α

namespace History

variable {α : Type u}

/-- Go back one snapshot; nothing happens at the beginning. -/
def undo : History α → History α
  | ⟨[], x, future⟩ => ⟨[], x, future⟩
  | ⟨a :: past, x, future⟩ => ⟨past, a, x :: future⟩

/-- Go forward one snapshot; nothing happens at the end. -/
def redo : History α → History α
  | ⟨past, x, []⟩ => ⟨past, x, []⟩
  | ⟨past, x, a :: future⟩ => ⟨x :: past, a, future⟩

/-- Undo shortens the past by one snapshot. -/
theorem undo_past_length (h : History α) : h.undo.past.length = h.past.length - 1 := by
  obtain ⟨past, x, future⟩ := h
  cases past with
  | nil => rfl
  | cons a past => rfl

/-- Redo takes back an undo that had somewhere to go. -/
theorem redo_undo (h : History α) (hne : 0 < h.past.length) : h.undo.redo = h := by
  obtain ⟨past, x, future⟩ := h
  cases past with
  | nil => exact absurd hne (Nat.lt_irrefl 0)
  | cons a past => rfl

/-- **`k` redos take back `k` undos.** -/
theorem redo_undo_iterate (k : Nat) (h : History α) (hk : k ≤ h.past.length) : redo^[k] (undo^[k] h) = h := by
  induction k generalizing h with
  | zero => rfl
  | succ k ih =>
    -- The inner `k` redos restore the history after the first undo; one more redo restores `h`.
    have hinner : redo^[k] (undo^[k] h.undo) = h.undo := by
      apply ih
      rw [undo_past_length]
      omega
    rw [Function.iterate_succ_apply undo, Function.iterate_succ_apply' redo, hinner]
    exact redo_undo h (by omega)

end History
end Freeclawdia
