import Mathlib.Data.List.Basic
import Mathlib.Tactic.Linarith

/-!
# `Lib.Window` — fixed-window counters with lazy resets

A counter counts what it admits since its window started, and restarts the window when it is asked after
the window's length has passed. This file keeps the **ledger** of such a counter: the times of everything it
ever admitted, split at the start of the current window. Three moves keep a ledger: time passes, the window
restarts, one more is admitted below the limit. From them follows the bound that fixed windows give over
*any* interval shorter than the window: at most twice the limit, since such an interval meets two windows.
-/

namespace Freeclawdia.Window

/-- How many of the times `ts` lie between `a` and `b`. -/
def within (a b : Nat) (ts : List Nat) : Nat := ts.countP fun t => decide (a ≤ t ∧ t ≤ b)

theorem within_append (a b : Nat) (ts us : List Nat) :
    within a b (ts ++ us) = within a b ts + within a b us := List.countP_append

theorem within_le_length (a b : Nat) (ts : List Nat) : within a b ts ≤ ts.length := List.countP_le_length

/-- How many of the times `ts` are less than `D` before `s`. -/
def recent (D s : Nat) (ts : List Nat) : Nat := ts.countP fun t => decide (s < t + D)

theorem recent_append (D s : Nat) (ts us : List Nat) :
    recent D s (ts ++ us) = recent D s ts + recent D s us := List.countP_append

theorem recent_le_length (D s : Nat) (ts : List Nat) : recent D s ts ≤ ts.length := List.countP_le_length

theorem recent_eq_zero {D s : Nat} {ts : List Nat} (h : ∀ t ∈ ts, t + D ≤ s) : recent D s ts = 0 := by
  refine List.countP_eq_zero.mpr ?_
  intro t ht
  have hle := h t ht
  simp only [decide_eq_true_eq]
  omega

/-- An interval shorter than `D` that reaches past `s` sees of the past only what is recent at `s`. -/
theorem within_le_recent {D a b s : Nat} (ts : List Nat) (hshort : b < a + D) (hs : s ≤ b) :
    within a b ts ≤ recent D s ts := by
  refine List.countP_mono_left ?_
  intro t _ ht
  simp only [decide_eq_true_eq] at ht ⊢
  omega

/-- The ledger at time `now` of a counter of limit `L` whose window of length `D` started at `start` and has
    counted `count`: `ts` are the times of all it admitted, oldest first. -/
structure Ledger (D L now start count : Nat) (ts : List Nat) : Prop where
  started : start ≤ now
  past : ∀ t ∈ ts, t ≤ now
  below : count ≤ L
  counted : ∃ old cur, ts = old ++ cur ∧ cur.length = count ∧ (∀ t ∈ old, t ≤ start) ∧ recent D start old ≤ L
  bounded : ∀ a b, b < a + D → within a b ts ≤ 2 * L

namespace Ledger

variable {D L now now' start count t : Nat} {ts : List Nat}

/-- A new counter has admitted nothing. -/
theorem fresh (D L now : Nat) : Ledger D L now now 0 [] where
  started := le_rfl
  past := by simp
  below := Nat.zero_le L
  counted := ⟨[], [], rfl, rfl, by simp, Nat.zero_le L⟩
  bounded := by simp [within]

theorem advance (h : Ledger D L now start count ts) (hnow : now ≤ now') : Ledger D L now' start count ts where
  started := le_trans h.started hnow
  past := fun t ht => le_trans (h.past t ht) hnow
  below := h.below
  counted := h.counted
  bounded := h.bounded

/-- **Restart.** What the ended window counted is all that is recent at the new start: what came before it
    is a whole window back. -/
theorem reset (h : Ledger D L now start count ts) (hnow : now ≤ t) (hexpired : start + D ≤ t) :
    Ledger D L t t 0 ts where
  started := le_rfl
  past := fun u hu => le_trans (h.past u hu) hnow
  below := Nat.zero_le L
  bounded := h.bounded
  counted := by
    obtain ⟨old, cur, hts, hcur, hold, _⟩ := h.counted
    have hpast : ∀ u ∈ ts, u ≤ t := fun u hu => le_trans (h.past u hu) hnow
    have hzero : recent D t old = 0 := by
      apply recent_eq_zero
      intro u hu
      have := hold u hu
      omega
    have hlen := recent_le_length D t cur
    have hbelow := h.below
    refine ⟨ts, [], (List.append_nil ts).symm, rfl, hpast, ?_⟩
    rw [hts, recent_append, hzero]
    omega

/-- **Admission**, below the limit. -/
theorem admitOne (h : Ledger D L now start count ts) (hnow : now ≤ t) (hroom : count < L) :
    Ledger D L t start (count + 1) (ts ++ [t]) := by
  obtain ⟨old, cur, hts, hcur, hold, hrecent⟩ := h.counted
  have hstart : start ≤ t := le_trans h.started hnow
  refine ⟨hstart, ?_, hroom, ⟨old, cur ++ [t], ?_, ?_, hold, hrecent⟩, ?_⟩
  · intro u hu
    rcases List.mem_append.mp hu with hu | hu
    · exact le_trans (h.past u hu) hnow
    · rw [List.mem_singleton.mp hu]
  · rw [hts, List.append_assoc]
  · rw [List.length_append, hcur, List.length_singleton]
  · intro a b hshort
    by_cases htb : t ≤ b
    · -- the interval reaches the new admission: the old part is recent, the rest is the current window
      have hold' : within a b old ≤ L := le_trans (within_le_recent old hshort (le_trans hstart htb)) hrecent
      have hcur' := within_le_length a b (cur ++ [t])
      rw [List.length_append, hcur, List.length_singleton] at hcur'
      rw [hts, List.append_assoc, within_append]
      omega
    · have hnone : within a b [t] = 0 := by
        simp only [within, List.countP_singleton, decide_eq_true_eq]
        rw [if_neg]
        omega
      rw [within_append, hnone]
      exact h.bounded a b hshort

end Ledger
end Freeclawdia.Window
