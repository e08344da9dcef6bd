import Mathlib.Logic.Function.Basic

/-!
# `Llm.CircuitBreaker` — the circuit breaker around a provider

`llm/circuit_breaker.rs`. `check_allowed`, `record_success` and `record_failure` each hold the breaker's lock from
beginning to end, so a call through the breaker is three separate moments: the check, the call of the inner provider,
and the recording of its result. Any number of calls may be between two of these at once; `step` takes one moment of
one call at a time. Times are in nanoseconds.
-/

namespace Freeclawdia.CircuitBreaker

/-! ## The breaker -/

/-- The variants of `LlmError`. -/
inductive LlmErrorKind
  | requestFailed
  | rateLimited
  | invalidResponse
  | contextLengthExceeded
  | modelNotAvailable
  | authFailed
  | sessionExpired
  | sessionRenewalFailed
  | http
  | json
  | io

/-- Does an error indicate that the provider is degraded? -/
def isTransient : LlmErrorKind → Bool
  | .requestFailed | .rateLimited | .invalidResponse | .sessionExpired | .sessionRenewalFailed | .http | .io => true
  | .contextLengthExceeded | .modelNotAvailable | .authFailed | .json => false

/-- Configuration for the circuit breaker. -/
structure CircuitBreakerConfig where
  failureThreshold : Nat := 5
  recoveryTimeout : Nat := 30000000000
  halfOpenSuccessesNeeded : Nat := 2

/-- Circuit breaker states. -/
inductive CircuitState
  /-- Normal operation; tracking consecutive failures. -/
  | closed
  /-- Rejecting all calls; waiting for the recovery timeout to elapse. -/
  | opened
  /-- Allowing probe calls to test whether the backend recovered. -/
  | halfOpen
  deriving DecidableEq

/-- Internal mutable state. -/
structure BreakerState where
  state : CircuitState := .closed
  consecutiveFailures : Nat := 0
  openedAt : Option Nat := none
  halfOpenSuccesses : Nat := 0

/-- The refusal of a call: the failures so far, and the time to recovery. -/
structure Refusal where
  consecutiveFailures : Nat
  remaining : Nat

variable (config : CircuitBreakerConfig)

/-- Is a call allowed right now? -/
def checkAllowed (now : Nat) (s : BreakerState) : Except Refusal Unit × BreakerState :=
  match s.state with
  | .closed | .halfOpen => (.ok (), s)
  | .opened =>
    match s.openedAt with
    | some openedAt =>
      if config.recoveryTimeout ≤ now - openedAt then
        (.ok (), { s with state := .halfOpen, halfOpenSuccesses := 0 })
      else (.error ⟨s.consecutiveFailures, config.recoveryTimeout - (now - openedAt)⟩, s)
    -- should always be set when open
    | none => (.ok (), { s with state := .closed })

/-- Record a successful call. -/
def recordSuccess (s : BreakerState) : BreakerState :=
  match s.state with
  | .closed => { s with consecutiveFailures := 0 }
  | .halfOpen =>
    if config.halfOpenSuccessesNeeded ≤ s.halfOpenSuccesses + 1 then
      { state := .closed, consecutiveFailures := 0, openedAt := none, halfOpenSuccesses := s.halfOpenSuccesses + 1 }
    else { s with halfOpenSuccesses := s.halfOpenSuccesses + 1 }
  -- said to be unreachable
  | .opened => { s with state := .closed, consecutiveFailures := 0, openedAt := none }

/-- Record a failed call; only transient errors count toward the threshold. -/
def recordFailure (now : Nat) (err : LlmErrorKind) (s : BreakerState) : BreakerState :=
  if !isTransient err then s
  else
    match s.state with
    | .closed =>
      if config.failureThreshold ≤ s.consecutiveFailures + 1 then
        { s with consecutiveFailures := s.consecutiveFailures + 1, state := .opened, openedAt := some now }
      else { s with consecutiveFailures := s.consecutiveFailures + 1 }
    | .halfOpen => { s with state := .opened, openedAt := some now, halfOpenSuccesses := 0 }
    | .opened => s

/-! ## One call at a time -/

/-- What a provider answers. -/
inductive Outcome
  | success
  | failure (err : LlmErrorKind)

/-- A call: when it is checked, when it is over, and what the inner provider answers it. -/
structure CompleteCall where
  checkedAt : Nat
  endedAt : Nat
  outcome : Outcome

/-- `complete`, and `complete_with_tools`. -/
def complete (call : CompleteCall) (s : BreakerState) : Except Refusal Outcome × BreakerState :=
  match checkAllowed config call.checkedAt s with
  | (.error refusal, s) => (.error refusal, s)
  | (.ok (), s) =>
    match call.outcome with
    | .success => (.ok .success, recordSuccess config s)
    | .failure err => (.ok (.failure err), recordFailure config call.endedAt err s)

/-! ## Concurrent calls -/

/-- A call that passed the check: in which state, after how many openings, and is it with the provider? -/
structure Call where
  admittedIn : CircuitState
  epoch : Nat
  forwarded : Bool

/-- The breaker with its calls, and what happened so far: when the circuit opened, when calls were forwarded, the
    successes since the last opening of calls that were admitted half-open since then, and how many of these there were
    each time the circuit closed. -/
structure System where
  breaker : BreakerState := {}
  now : Nat := 0
  calls : Nat → Option Call := fun _ => none
  openings : List Nat := []
  forwards : List Nat := []
  probes : Nat := 0
  closings : List Nat := []

/-- One moment of a call. -/
inductive Action
  | check (id : Nat)
  | forward (id : Nat)
  | succeed (id : Nat)
  | fail (id : Nat) (err : LlmErrorKind)

variable (s : System)

/-- Was a call admitted half-open since the last opening? -/
def System.isProbe (c : Call) : Bool := c.admittedIn = .halfOpen && c.epoch = s.openings.length

/-- A call is admitted, moves on or ends. -/
def System.setCall (id : Nat) (c : Option Call) : System := { s with calls := Function.update s.calls id c }

/-- A call has succeeded. -/
def System.count (c : Call) : System := { s with probes := if s.isProbe c then s.probes + 1 else s.probes }

/-- The breaker's state changes at time `now`. -/
def System.observe (now : Nat) (breaker : BreakerState) : System :=
  let opens := s.breaker.state ≠ .opened ∧ breaker.state = .opened
  let closes := s.breaker.state ≠ .closed ∧ breaker.state = .closed
  { s with
    breaker := breaker
    now := now
    openings := if opens then now :: s.openings else s.openings
    probes := if opens then 0 else s.probes
    closings := if closes then s.probes :: s.closings else s.closings }

/-- One moment of one call, at a time that is not before the last one. -/
def step : Nat × Action → Option System
  | (now, action) =>
    if now < s.now then none
    else
      match action with
      | .check id =>
        if (s.calls id).isSome then none
        else
          match checkAllowed config now s.breaker with
          | (.error _, breaker) => some (s.observe now breaker)
          | (.ok (), breaker) =>
            let s := s.observe now breaker
            some (s.setCall id (some ⟨breaker.state, s.openings.length, false⟩))
      | .forward id =>
        match s.calls id with
        | some ⟨admittedIn, epoch, false⟩ =>
          let s := { s with now := now, forwards := now :: s.forwards }
          some (s.setCall id (some ⟨admittedIn, epoch, true⟩))
        | _ => none
      | .succeed id =>
        match s.calls id with
        | some ⟨admittedIn, epoch, true⟩ =>
          let s := (s.count ⟨admittedIn, epoch, true⟩).observe now (recordSuccess config s.breaker)
          some (s.setCall id none)
        | _ => none
      | .fail id err =>
        match s.calls id with
        | some ⟨_, _, true⟩ =>
          let s := s.observe now (recordFailure config now err s.breaker)
          some (s.setCall id none)
        | _ => none

end Freeclawdia.CircuitBreaker
