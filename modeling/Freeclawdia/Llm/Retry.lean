import Freeclawdia.Llm.Failover
import Mathlib.Algebra.Group.Int.Defs

/-!
# `Llm.Retry` — trying the same provider again

`llm/retry.rs`. The delay before the next attempt is computed in `u64` and `i64`: `base_ms` saturates, and `base_ms as
i64` and the sum with the jitter wrap as they do in a release build. The random offset is a parameter, as are the
answers of the provider inside: the one to each of its calls.
-/

namespace Freeclawdia.Retry

open Failover (LlmError isRetryable)

/-- A value of at most `u64::MAX`. -/
def saturate (n : Nat) : Nat := min n (2 ^ 64 - 1)

/-- `1000u64.saturating_mul(2u64.saturating_pow(attempt))`. -/
def baseMs (attempt : Nat) : Nat := saturate (1000 * saturate (2 ^ attempt))

def jitterRange (attempt : Nat) : Nat := baseMs attempt / 4

/-- A `u64` as `i64`, and a sum in `i64`. -/
def asI64 (n : Int) : Int := n.bmod (2 ^ 64)

/-- `offset as i64 - jitter_range as i64`. -/
def jitter (attempt offset : Nat) : Int :=
  if 0 < jitterRange attempt then asI64 (asI64 offset - asI64 (jitterRange attempt)) else 0

/-- Calculate exponential backoff delay with random jitter; the offset is drawn from `0..=jitter_range * 2`. -/
def retryBackoffDelay (attempt offset : Nat) : Nat :=
  (max (asI64 (asI64 (baseMs attempt) + jitter attempt offset)) 100).toNat

/-- The delay before the next attempt: what the provider suggests, or the backoff. -/
def delayFor (attempt offset : Nat) : LlmError → Nat
  | .rateLimited _ (some duration) => duration
  | _ => retryBackoffDelay attempt offset

/-- What a call of `complete` comes to: its result, and the delays between the calls of the provider inside. -/
structure Outcome (T : Type) where
  result : Except LlmError T
  delays : List Nat

/-- The loop of `complete` and `complete_with_tools`, from an attempt on, with some retries left. -/
def complete {T : Type} (inner : Nat → Except LlmError T) (offsets : Nat → Nat) : (left attempt : Nat) → Outcome T
  | 0, attempt => ⟨inner attempt, []⟩
  | left + 1, attempt =>
    match inner attempt with
    | .ok resp => ⟨.ok resp, []⟩
    | .error err =>
      if !isRetryable err then ⟨.error err, []⟩
      else
        let rest := complete inner offsets left (attempt + 1)
        { rest with delays := delayFor attempt (offsets attempt) err :: rest.delays }

end Freeclawdia.Retry
