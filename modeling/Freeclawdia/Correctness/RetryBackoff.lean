import Freeclawdia.Llm.Retry

/-!
# `Correctness.RetryBackoff` — waiting before the next attempt

The base of the delay saturates in `u64` and is then read as an `i64`, so it is negative from attempt 54 on, and the
delay is its floor. Before that, the delay lies within a quarter of the base. How often a provider is called does not
depend on it.
-/

namespace Freeclawdia.Retry

open Failover (LlmError isRetryable)

variable {attempt offset : Nat}

/-! ## The delay -/

/-- The two sums are `i64` values. -/
def NoOverflow (attempt offset : Nat) : Prop :=
  let fits (n : Int) : Prop := -2 ^ 63 ≤ n ∧ n < 2 ^ 63
  fits (asI64 offset - asI64 (jitterRange attempt)) ∧ fits (asI64 (baseMs attempt) + jitter attempt offset)

/-- No overflow, and a delay between three and five quarters of the base, of 100 ms at least. -/
def Exact (attempt offset : Nat) : Prop :=
  NoOverflow attempt offset ∧ 100 ≤ retryBackoffDelay attempt offset ∧
    3 * baseMs attempt ≤ 4 * retryBackoffDelay attempt offset ∧ 4 * retryBackoffDelay attempt offset ≤ 5 * baseMs attempt

/-- The attempts whose delays are `i64` values: all up to the 52nd, and of the 53rd those with a small offset. -/
def Fits (attempt offset : Nat) : Prop := attempt ≤ 52 ∨ attempt = 53 ∧ offset ≤ 2467972595799031807

theorem asI64_eq {n : Int} (h : -2 ^ 63 ≤ n ∧ n < 2 ^ 63) : asI64 n = n := Int.bmod_eq_of_le h.1 h.2

theorem asI64_range (n : Int) : -2 ^ 63 ≤ asI64 n ∧ asI64 n < 2 ^ 63 := by
  have hlow := Int.le_bmod (x := n) (m := 2 ^ 64) (by decide)
  have hhigh := Int.bmod_lt (x := n) (m := 2 ^ 64) (by decide)
  unfold asI64
  omega

theorem baseMs_mono {a a' : Nat} (h : a ≤ a') : baseMs a ≤ baseMs a' := by
  have hpow : 2 ^ a ≤ 2 ^ a' := Nat.pow_le_pow_right (by decide) h
  unfold baseMs saturate
  omega

/-- Up to the 53rd attempt nothing saturates. -/
theorem baseMs_eq (h : attempt ≤ 53) : baseMs attempt = 1000 * 2 ^ attempt ∧ 4 ∣ baseMs attempt := by
  have hpow : 2 ^ attempt ≤ 2 ^ 53 := Nat.pow_le_pow_right (by decide) h
  have heq : baseMs attempt = 1000 * 2 ^ attempt := by
    unfold baseMs saturate
    omega
  exact ⟨heq, heq ▸ Nat.dvd_mul_right_of_dvd (by decide) _⟩

/-- The jitter is within a quarter of the base, and exact. -/
theorem jitter_eq (hoffset : offset ≤ jitterRange attempt * 2) : jitter attempt offset = offset - jitterRange attempt ∧
      asI64 offset - asI64 (jitterRange attempt) = offset - jitterRange attempt := by
  have hbase : baseMs attempt ≤ 2 ^ 64 - 1 := Nat.min_le_right _ _
  have hrange : jitterRange attempt ≤ 2 ^ 62 - 1 := by
    unfold jitterRange
    omega
  have hdiff : asI64 offset - asI64 (jitterRange attempt) = (offset : Int) - jitterRange attempt := by
    rw [asI64_eq (by omega), asI64_eq (by omega)]
  refine ⟨?_, hdiff⟩
  unfold jitter
  split
  · rw [hdiff]
    exact asI64_eq (by omega)
  · omega

theorem delay_eq (attempt offset : Nat) :
    (retryBackoffDelay attempt offset : Int) = max (asI64 (asI64 (baseMs attempt) + jitter attempt offset)) 100 :=
  Int.toNat_of_nonneg (le_trans (by decide) (le_max_right _ 100))

theorem delay_lt (attempt offset : Nat) : (retryBackoffDelay attempt offset : Int) < 2 ^ 63 := by
  rw [delay_eq]
  exact max_lt (asI64_range _).2 (by omega)

/-- **The delay is exact** where it is an `i64`. -/
theorem exact_iff (hoffset : offset ≤ jitterRange attempt * 2) : Exact attempt offset ↔ Fits attempt offset := by
  obtain ⟨hjitter, hdiff⟩ := jitter_eq hoffset
  have hrange : jitterRange attempt = baseMs attempt / 4 := rfl
  have hbase : baseMs attempt ≤ 2 ^ 64 - 1 := Nat.min_le_right _ _
  by_cases hattempt : attempt ≤ 53
  · obtain ⟨heq, hfour⟩ := baseMs_eq hattempt
    have hpow : 2 ^ attempt ≤ 2 ^ 53 := Nat.pow_le_pow_right (by decide) hattempt
    have hone : 1 ≤ 2 ^ attempt := Nat.one_le_two_pow
    have hcast : asI64 (baseMs attempt) = baseMs attempt := asI64_eq (by omega)
    -- the sum overflows for large offsets of the last attempt only
    have hsum : Fits attempt offset ↔ (baseMs attempt : Int) + (offset - jitterRange attempt) < 2 ^ 63 := by
      unfold Fits
      by_cases hlast : attempt = 53
      · subst hlast
        omega
      · have hsmall : 2 ^ attempt ≤ 2 ^ 52 := Nat.pow_le_pow_right (by decide) (by omega)
        omega
    rw [hsum]
    constructor
    · rintro ⟨⟨-, hfits⟩, -⟩
      rw [hcast, hjitter] at hfits
      exact hfits.2
    · intro hlt
      have hdelay : retryBackoffDelay attempt offset = baseMs attempt + offset - jitterRange attempt := by
        unfold retryBackoffDelay
        rw [hcast, hjitter, asI64_eq (by omega)]
        omega
      unfold Exact NoOverflow
      rw [hdelay, hcast, hjitter, hdiff]
      refine ⟨⟨?_, ?_⟩, ?_, ?_, ?_⟩ <;> omega
  · -- from the 54th attempt on three quarters of the base are more than any delay
    have hlarge : baseMs 54 ≤ baseMs attempt := baseMs_mono (by omega)
    have hvalue : baseMs 54 = 18014398509481984000 := by
      unfold baseMs saturate
      omega
    refine iff_of_false (fun h => ?_) ?_
    · have hlow := h.2.2.1
      have hdelay := delay_lt attempt offset
      omega
    · unfold Fits
      omega

theorem floor (attempt offset : Nat) : 100 ≤ retryBackoffDelay attempt offset := by
  have hdelay := delay_eq attempt offset
  omega

/-! ## The retries -/

/-- The loop stops at a call: it is the last one, or its answer is no error that is tried again. -/
def StopsAt {T : Type} (inner : Nat → Except LlmError T) (last k : Nat) : Prop :=
  k = last ∨ ∀ e, inner k = .error e → isRetryable e = false

theorem complete_spec {T : Type} (inner : Nat → Except LlmError T) (offsets : Nat → Nat) (left attempt : Nat) :
    ∃ k, attempt ≤ k ∧ k ≤ attempt + left ∧ (complete inner offsets left attempt).result = inner k ∧
      (complete inner offsets left attempt).delays.length = k - attempt ∧ StopsAt inner (attempt + left) k ∧
      ∀ j, attempt ≤ j → j < k → ∃ e, inner j = .error e ∧ isRetryable e = true := by
  induction left generalizing attempt with
  | zero => exact ⟨attempt, le_rfl, le_rfl, rfl, (Nat.sub_self _).symm, .inl rfl, fun j hj hlt => by omega⟩
  | succ left ih =>
    have hhere : ∀ r, inner attempt = r → (∀ e, r = .error e → isRetryable e = false) →
        complete inner offsets (left + 1) attempt = ⟨r, []⟩ → _ := fun r hr hstop heq =>
      (⟨attempt, le_rfl, by omega, by rw [heq, hr], by rw [heq]; simp, .inr fun e he => hstop e (hr.symm.trans he),
        fun j hj hlt => by omega⟩ : ∃ k, attempt ≤ k ∧ k ≤ attempt + (left + 1) ∧
          (complete inner offsets (left + 1) attempt).result = inner k ∧
          (complete inner offsets (left + 1) attempt).delays.length = k - attempt ∧
          StopsAt inner (attempt + (left + 1)) k ∧
          ∀ j, attempt ≤ j → j < k → ∃ e, inner j = .error e ∧ isRetryable e = true)
    cases hinner : inner attempt with
    | ok resp => exact hhere _ hinner nofun (by simp [complete, hinner])
    | error e =>
      cases hretry : isRetryable e with
      | false =>
        refine hhere _ hinner (fun e' he' => ?_) (by simp [complete, hinner, hretry])
        cases he'
        exact hretry
      | true =>
        obtain ⟨k, hlow, hhigh, hresult, hdelays, hstops, hbefore⟩ := ih (attempt + 1)
        have hstep : complete inner offsets (left + 1) attempt =
            { complete inner offsets left (attempt + 1) with
              delays := delayFor attempt (offsets attempt) e :: (complete inner offsets left (attempt + 1)).delays } := by
          simp [complete, hinner, hretry]
        rw [hstep]
        refine ⟨k, by omega, by omega, hresult, ?_, ?_, fun j hj hlt => ?_⟩
        · rw [List.length_cons, hdelays]
          omega
        · exact hstops.imp (by omega) id
        · rcases Nat.eq_or_lt_of_le hj with rfl | hj
          · exact ⟨e, hinner, hretry⟩
          · exact hbefore j hj hlt

/-- **Backoff and retries.** The delay is exact for the attempts that fit `i64` and for no others; its lower bound
grows with the attempt, and 100 ms are waited always. A call comes to the answer of some call `k` of the provider
inside, after as many delays as calls before it: all these ended in errors to be tried again, and `k` did not, or is
the last one. -/
theorem backoff_and_retries {T : Type} (attempt offset maxRetries : Nat) (inner : Nat → Except LlmError T)
    (offsets : Nat → Nat) :
    (offset ≤ jitterRange attempt * 2 → (Exact attempt offset ↔ Fits attempt offset)) ∧
    (∀ later, attempt ≤ later → max 400 (3 * baseMs attempt) ≤ max 400 (3 * baseMs later)) ∧
    100 ≤ retryBackoffDelay attempt offset ∧
    ∃ k ≤ maxRetries, (complete inner offsets maxRetries 0).result = inner k ∧
      (complete inner offsets maxRetries 0).delays.length = k ∧ StopsAt inner maxRetries k ∧
      ∀ j < k, ∃ e, inner j = .error e ∧ isRetryable e = true := by
  refine ⟨exact_iff, fun later h => ?_, floor attempt offset, ?_⟩
  · have := baseMs_mono h
    omega
  · obtain ⟨k, -, hhigh, hresult, hdelays, hstops, hbefore⟩ := complete_spec inner offsets maxRetries 0
    exact ⟨k, by omega, hresult, by omega, by rwa [Nat.zero_add] at hstops, fun j hj => hbefore j (Nat.zero_le j) hj⟩

/-- The 55th attempt waits 100 ms when the draw is small. -/
theorem late_attempt_hardly_waits : retryBackoffDelay 54 0 = 100 ∧ ¬Exact 54 0 := by
  refine ⟨by decide, fun h => ?_⟩
  have hlow : 3 * baseMs 54 ≤ 4 * retryBackoffDelay 54 0 := h.2.2.1
  revert hlow
  decide

end Freeclawdia.Retry
