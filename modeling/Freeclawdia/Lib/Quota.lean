import Mathlib.Data.List.Forall2
import Mathlib.Tactic.Common

/-!
# `Lib.Quota` — keeping the first items

A collector keeps what is offered until it is full, and from then on only counts. Each item is prepared before it is
kept, which can fail (`none`). What is kept is what the first offers were prepared as, and every offer is kept or
counted (`Accounts`).
-/

namespace Freeclawdia

universe u v

structure Quota (α : Type u) where
  kept : List α := []
  /-- Are items still accepted? -/
  enabled : Bool := true
  dropped : Nat := 0

namespace Quota

variable {α : Type u} {β : Type v} (max : Nat) (prepare : β → Option α)

/-- Offer an item. -/
def offer (b : β) (q : Quota α) : Option (Quota α) :=
  if !q.enabled then some { q with dropped := q.dropped + 1 }
  else if max ≤ q.kept.length then some { q with enabled := false, dropped := q.dropped + 1 }
  else (prepare b).map fun a => { q with kept := q.kept ++ [a] }

/-- Take what is kept. -/
def takeAll (q : Quota α) : List α × Quota α := (q.kept, { q with kept := [] })

/-- An item offered now would be kept. -/
def Accepts (q : Quota α) : Prop := q.enabled = true ∧ q.kept.length < max

instance (q : Quota α) : Decidable (Accepts max q) := inferInstanceAs (Decidable (_ ∧ _))

/-- What has been offered, taken and kept: all that was kept are the first offers, as they were prepared, and the
others have been counted; as long as nothing was taken, the collector is full before it counts. -/
structure Accounts (offered : List β) (taken : List α) (q : Quota α) : Prop where
  room : q.kept.length ≤ max
  count : (taken ++ q.kept).length + q.dropped = offered.length
  first : List.Forall₂ (fun b a => prepare b = some a) (offered.take (taken ++ q.kept).length) (taken ++ q.kept)
  counting : q.enabled = true ↔ q.dropped = 0
  full : taken = [] → q.dropped ≠ 0 → q.kept.length = max

variable {max prepare} {offered : List β} {taken : List α} {q q' : Quota α} {b : β}

theorem offer_isSome_iff : (q.offer max prepare b).isSome = true ↔ (Accepts max q → (prepare b).isSome = true) := by
  unfold offer Accepts
  cases henabled : q.enabled with
  | false => simp
  | true =>
    rw [Bool.not_true, if_neg Bool.false_ne_true]
    by_cases hfull : max ≤ q.kept.length
    · rw [if_pos hfull]
      simp [Nat.not_lt.mpr hfull]
    · rw [if_neg hfull, Option.isSome_map]
      simp [Nat.not_le.mp hfull]

theorem accounts_new : Accounts max prepare [] [] ({} : Quota α) where
  room := Nat.zero_le max
  count := rfl
  first := .nil
  counting := ⟨fun _ => rfl, fun _ => rfl⟩
  full _ h := absurd rfl h

/-- An offer that is counted. -/
theorem Accounts.drop (h : Accounts max prepare offered taken q) (hfull : taken = [] → q.kept.length = max) :
    Accounts max prepare (offered ++ [b]) taken { q with enabled := false, dropped := q.dropped + 1 } where
  room := h.room
  count := by
    calc (taken ++ q.kept).length + (q.dropped + 1) = ((taken ++ q.kept).length + q.dropped) + 1 :=
      (Nat.add_assoc _ _ _).symm
      _ = offered.length + 1 := congrArg (· + 1) h.count
      _ = (offered ++ [b]).length := by rw [List.length_append, List.length_singleton]
  first := by
    have hle : (taken ++ q.kept).length ≤ offered.length := h.count ▸ Nat.le_add_right _ _
    rw [List.take_append_of_le_length hle]
    exact h.first
  counting := ⟨fun h => absurd h Bool.false_ne_true, fun h => absurd h (Nat.succ_ne_zero _)⟩
  full htaken _ := hfull htaken

/-- **Offering keeps the accounts.** -/
theorem Accounts.offer (h : Accounts max prepare offered taken q) (hq : q.offer max prepare b = some q') :
    Accounts max prepare (offered ++ [b]) taken q' := by
  unfold Quota.offer at hq
  cases henabled : q.enabled with
  | false =>
    rw [henabled, Bool.not_false, if_pos rfl] at hq
    cases hq
    have hdropped : q.dropped ≠ 0 := fun hzero => by
      rw [h.counting.mpr hzero] at henabled
      cases henabled
    exact h.drop fun htaken => h.full htaken hdropped
  | true =>
    rw [henabled, Bool.not_true, if_neg Bool.false_ne_true] at hq
    split at hq
    next hfull =>
      cases hq
      exact h.drop fun _ => Nat.le_antisymm h.room hfull
    next hroom =>
      obtain ⟨a, ha, rfl⟩ := Option.map_eq_some_iff.mp hq
      have hnone := h.counting.mp henabled
      have hcount := h.count
      rw [hnone, Nat.add_zero] at hcount
      have hall : offered.take (taken ++ q.kept).length = offered := by rw [hcount, List.take_length]
      refine ⟨?_, ?_, ?_, ⟨fun _ => hnone, fun _ => rfl⟩, fun _ hne => absurd hnone hne⟩
      · rw [List.length_append, List.length_singleton]
        omega
      · rw [← List.append_assoc, List.length_append, hcount, hnone, List.length_append]
        rfl
      · have hlen : (taken ++ (q.kept ++ [a])).length = (offered ++ [b]).length := by
          rw [← List.append_assoc, List.length_append, hcount, List.length_append]
          rfl
        rw [hlen, List.take_length, ← List.append_assoc]
        have hfirst := h.first
        rw [hall] at hfirst
        exact List.rel_append hfirst (.cons ha .nil)

/-- **Taking keeps the accounts.** -/
theorem Accounts.takeAll (h : Accounts max prepare offered taken q) :
    Accounts max prepare offered (taken ++ q.kept) q.takeAll.2 where
  room := Nat.zero_le max
  count := by
    show (taken ++ q.kept ++ []).length + q.dropped = offered.length
    rw [List.append_nil]
    exact h.count
  first := by
    show List.Forall₂ _ (offered.take (taken ++ q.kept ++ []).length) (taken ++ q.kept ++ [])
    rw [List.append_nil]
    exact h.first
  counting := h.counting
  full htaken hdropped := by
    obtain ⟨hnil, hkept⟩ := List.append_eq_nil_iff.mp htaken
    have hfull := h.full hnil hdropped
    rw [hkept] at hfull
    exact hfull

/-- As long as nothing is taken, as many as there is room for are kept. -/
theorem Accounts.length_kept (h : Accounts max prepare offered [] q) : q.kept.length = min offered.length max := by
  have hcount := h.count
  rw [List.nil_append] at hcount
  by_cases hdropped : q.dropped = 0
  · have hroom := h.room
    omega
  · have hfull := h.full rfl hdropped
    omega

end Quota
end Freeclawdia
