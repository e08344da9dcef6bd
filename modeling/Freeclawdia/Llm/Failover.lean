import Mathlib.Algebra.Group.Nat.Defs
import Freeclawdia.Lib.Interleave
import Mathlib.Data.List.MinMax

/-!
# `Llm.Failover` — trying one provider after another

`llm/failover.rs`. The failure counters, the activation times of the cooldowns and the index of the provider used last
are atomics, and each access to one of them is an operation of its own, as is the call of a provider. The providers of
a `FailoverProvider` are known by their indices, below `n`. Times are what `now_nanos` reads, in nanoseconds.
-/

namespace Freeclawdia.Failover

/-! ## Errors -/

inductive LlmError
  | requestFailed (provider reason : String)
  | rateLimited (provider : String) (retryAfter : Option Nat)
  | invalidResponse (provider reason : String)
  | contextLengthExceeded (used limit : Nat)
  | modelNotAvailable (provider model : String)
  | authFailed (provider : String)
  | sessionExpired (provider : String)
  | sessionRenewalFailed (provider reason : String)
  | http (error : String)
  | json (error : String)
  | io (error : String)

/-- Could the same request succeed if it were tried again? -/
def isRetryable : LlmError → Bool
  | .requestFailed _ _ | .rateLimited _ _ | .invalidResponse _ _ | .sessionRenewalFailed _ _ | .http _ | .io _ => true
  | .contextLengthExceeded _ _ | .modelNotAvailable _ _ | .authFailed _ | .sessionExpired _ | .json _ => false

def noProvider : LlmError := .requestFailed "failover" "FailoverProvider requires at least one provider"

def invariantViolated : LlmError :=
  .requestFailed "failover" ("Invariant violated in FailoverProvider: providers were exhausted but no last_error was recorded " ++
    "(this branch should be unreachable; possible causes: no provider attempts were made or `available` was unexpectedly empty).")

/-! ## The state -/

/-- Configuration for per-provider cooldown behavior. -/
structure CooldownConfig where
  cooldownDuration : Nat := 300000000000
  failureThreshold : Nat := 3

/-- The duration as a `u64`. -/
def CooldownConfig.nanos (config : CooldownConfig) : Nat := config.cooldownDuration % 2 ^ 64

/-- Per-provider cooldown state. -/
structure ProviderCooldown where
  /-- Consecutive retryable failures. Reset to 0 on success. -/
  failureCount : Nat := 0
  /-- When cooldown was activated. 0 means the provider is not in cooldown. -/
  cooldownActivatedNanos : Nat := 0

/-- Is a provider that was put into cooldown at `activated` still there? -/
def isInCooldown (activated now cooldown : Nat) : Bool := activated ≠ 0 && now - activated < cooldown

/-- What the log of a `FailoverProvider` says: what a provider answered, and when its cooldown was activated,
    or at time 0 that it was cleared. -/
inductive Event (n : Nat) (T : Type)
  | answered (i : Fin n) (answer : Except LlmError T)
  | activated (i : Fin n) (nanos : Nat)

/-- Providers with their cooldowns, and the providers bound to tasks. The log is bookkeeping for statements, oldest
    entry first. -/
structure FailoverProvider (n : Nat) (T : Type) where
  /-- Index of the provider that last handled a request successfully. -/
  lastUsed : Fin n
  cooldowns : Fin n → ProviderCooldown := fun _ => {}
  providerForTask : Nat → Option (Fin n) := fun _ => none
  log : List (Event n T) := []

/-- Create a new failover provider. -/
def withCooldown (n : Nat) (T : Type) : Except LlmError (FailoverProvider n T) :=
  if h : 0 < n then .ok { lastUsed := ⟨0, h⟩ } else .error noProvider

/-! ## Operations -/

inductive Op (n : Nat)
  | nowNanos
  | loadActivated (i : Fin n)
  | storeActivated (i : Fin n) (nanos : Nat)
  | fetchAddFailures (i : Fin n)
  | storeFailures (i : Fin n) (count : Nat)
  | call (i : Fin n)
  | loadLastUsed
  | storeLastUsed (i : Fin n)
  | bindProviderToCurrentTask (i : Fin n)
  | takeBoundProviderForCurrentTask

abbrev Ans {n : Nat} (T : Type) : Op n → Type
  | .nowNanos | .loadActivated _ | .fetchAddFailures _ => Nat
  | .call _ => Except LlmError T
  | .loadLastUsed => Fin n
  | .takeBoundProviderForCurrentTask => Option (Fin n)
  | _ => Unit

/-- A reading of the clock, and the answer of a provider. -/
structure Input (T : Type) where
  nanos : Nat
  answer : Except LlmError T

variable {n : Nat} {T : Type}

/-- Change the cooldown state of a provider. -/
def FailoverProvider.onCooldown (s : FailoverProvider n T) (i : Fin n) (f : ProviderCooldown → ProviderCooldown) :
    FailoverProvider n T :=
  { s with cooldowns := Function.update s.cooldowns i (f (s.cooldowns i)) }

/-- What an operation of task `t` answers and leaves behind. The counters are `u32` and wrap. -/
def act (t : Nat) : (o : Op n) → Input T → FailoverProvider n T → Ans T o × FailoverProvider n T
  | .nowNanos, input, s => (input.nanos, s)
  | .loadActivated i, _, s => ((s.cooldowns i).cooldownActivatedNanos, s)
  | .storeActivated i nanos, _, s =>
    let s := s.onCooldown i fun c => { c with cooldownActivatedNanos := nanos }
    ((), { s with log := s.log ++ [.activated i nanos] })
  | .fetchAddFailures i, _, s =>
    ((s.cooldowns i).failureCount, s.onCooldown i fun c => { c with failureCount := (c.failureCount + 1) % 2 ^ 32 })
  | .storeFailures i count, _, s => ((), s.onCooldown i fun c => { c with failureCount := count })
  | .call i, input, s => (input.answer, { s with log := s.log ++ [.answered i input.answer] })
  | .loadLastUsed, _, s => (s.lastUsed, s)
  | .storeLastUsed i, _, s => ((), { s with lastUsed := i })
  | .bindProviderToCurrentTask i, _, s =>
    ((), { s with providerForTask := Function.update s.providerForTask t (some i) })
  | .takeBoundProviderForCurrentTask, _, s =>
    (s.providerForTask t, { s with providerForTask := Function.update s.providerForTask t none })

/-! ## Cooldowns -/

/-- A program that accesses the atomics. -/
abbrev Task (n : Nat) (T : Type) (α : Type) := Prog (Op n) (Ans T) α

/-- Record a retryable failure. Has the threshold been reached? -/
def recordFailure (threshold : Nat) (i : Fin n) : Task n T Bool :=
  .op (.fetchAddFailures i) fun prev => .ret (decide (threshold ≤ (prev + 1) % 2 ^ 32))

/-- Activate cooldown at the given time, never 0. -/
def activateCooldown (i : Fin n) (nanos : Nat) : Task n T Unit := .op (.storeActivated i (max nanos 1)) .ret

/-- Reset failure count and clear cooldown. -/
def reset (i : Fin n) : Task n T Unit := .op (.storeFailures i 0) fun _ => .op (.storeActivated i 0) .ret

/-! ## Requests -/

/-- Those of the providers that are not in cooldown. -/
def available (now cooldown : Nat) : List (Fin n) → Task n T (List (Fin n))
  | [] => .ret []
  | i :: rest => .op (.loadActivated i) fun activated => do
      let others ← available now cooldown rest
      return if isInCooldown activated now cooldown then others else i :: others

/-- The activation times of the providers. -/
def activations : List (Fin n) → Task n T (List (Fin n × Nat))
  | [] => .ret []
  | i :: rest => .op (.loadActivated i) fun activated => do
      let others ← activations rest
      return (i, activated) :: others

/-- The provider with the oldest activation: `min_by_key` takes the first of the least. -/
def oldest : Task n T (Option (Fin n)) := do
  let keys ← activations (List.finRange n)
  return (keys.argmin Prod.snd).map Prod.fst

/-- Try the providers one after another. -/
def tryEach (config : CooldownConfig) : List (Fin n) → Option LlmError → Task n T (Except LlmError (Fin n × T))
  | [], lastError => .ret (.error (lastError.getD invariantViolated))
  | i :: rest, _ => .op (.call i) fun answer =>
    match answer with
    | .ok response => .op (.storeLastUsed i) fun _ => do
        reset i
        return .ok (i, response)
    | .error err =>
      if !isRetryable err then .ret (.error err)
      else do
        let reached ← recordFailure config.failureThreshold i
        if reached then
          .op .nowNanos fun nanos => do
            activateCooldown i nanos
            tryEach config rest (some err)
        else tryEach config rest (some err)

/-- Try the providers that are available at time `now`, or if there are none the oldest-cooled one. -/
def tryAvailable (config : CooldownConfig) (now : Nat) : Task n T (Except LlmError (Fin n × T)) := do
  let free ← available now config.nanos (List.finRange n)
  if free.isEmpty then
    match ← oldest with
    | none => return .error noProvider
    | some i => tryEach config [i] none
  else tryEach config free none

/-- Try each provider in sequence until one succeeds or all fail. -/
def tryProviders (config : CooldownConfig) : Task n T (Except LlmError (Fin n × T)) :=
  .op .nowNanos fun now => tryAvailable config now

/-- `complete`, and `complete_with_tools`. -/
def complete (config : CooldownConfig) : Task n T (Except LlmError T) := do
  match ← tryProviders config with
  | .error err => return .error err
  | .ok (i, response) => .op (.bindProviderToCurrentTask i) fun _ => .ret (.ok response)

end Freeclawdia.Failover
