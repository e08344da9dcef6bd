import Freeclawdia.Lib.Runs
import Freeclawdia.Llm.CircuitBreaker
import Mathlib.Order.Nat

/-!
# `Correctness.OpenCircuit` — what an open circuit keeps out

An open circuit is left by the clock alone as long as every result is recorded in the state its call was admitted in.
`Current` is that condition: a success is never recorded while the circuit is open, one that counts towards closing
comes from a call that was admitted half-open since the last opening, and no opening comes between the check of a call
and its forwarding. Failures may arrive in any state.

The invariant relates every opening to the clock: once the circuit is not open, the recovery timeout has passed since
every opening so far, and the same holds for a call that was admitted after the last one.
-/

namespace Freeclawdia.CircuitBreaker

variable {config : CircuitBreakerConfig}

/-- No call is forwarded while an opening is more recent than the recovery timeout, and the circuit closed only after
    enough probes. -/
structure StaysOpen (config : CircuitBreakerConfig) (s : System) : Prop where
  window : ∀ t ∈ s.openings, ∀ f ∈ s.forwards, ¬(t < f ∧ f < t + config.recoveryTimeout)
  closings : ∀ n ∈ s.closings, config.halfOpenSuccessesNeeded ≤ n

/-- Results are recorded in the state their calls were admitted in, as far as they change it. -/
def Current (s : System) : Nat × Action → Prop
  | (_, .check _) => True
  | (_, .forward id) => ∀ c, s.calls id = some c → c.epoch = s.openings.length
  | (_, .succeed id) => ∀ c, s.calls id = some c → s.breaker.state ≠ .opened ∧
      (s.breaker.state = .halfOpen → s.isProbe c = true)
  | (_, .fail _ _) => True

/-! ## The invariant -/

/-- What holds between the moments of the calls. -/
structure Inv (config : CircuitBreakerConfig) (s : System) : Prop extends StaysOpen config s where
  past : ∀ t ∈ s.openings, t ≤ s.now
  sent : ∀ f ∈ s.forwards, f ≤ s.now
  since : s.breaker.state = .opened →
    ∃ t0, s.breaker.openedAt = some t0 ∧ ∀ t ∈ s.openings, t ≤ t0
  rested : s.breaker.state ≠ .opened → ∀ t ∈ s.openings, t + config.recoveryTimeout ≤ s.now
  epochs : ∀ id c, s.calls id = some c → c.epoch ≤ s.openings.length ∧
    (c.epoch = s.openings.length → ∀ t ∈ s.openings, t + config.recoveryTimeout ≤ s.now)
  counted : s.breaker.state = .halfOpen → s.breaker.halfOpenSuccesses ≤ s.probes

theorem inv_init : Inv config {} where
  window := by intro t ht; cases ht
  closings := by intro n hn; cases hn
  past := by intro t ht; cases ht
  sent := by intro f hf; cases hf
  since := by intro h; cases h
  rested := by intro _ t ht; cases ht
  epochs := by intro id c hc; cases hc
  counted := by intro h; cases h

/-! ### Changes of the breaker -/

variable {b : BreakerState} {now : Nat} {s : System}

/-- The time passes, and the breaker keeps its state. -/
theorem Inv.quiet (h : Inv config s) (hnow : s.now ≤ now) (hstate : b.state = s.breaker.state)
    (hopened : b.openedAt = s.breaker.openedAt) (hcount : b.state = .halfOpen → b.halfOpenSuccesses ≤ s.probes) :
    Inv config (s.observe now b) := by
  have heq : s.observe now b = { s with breaker := b, now := now } := by simp [System.observe, hstate]
  rw [heq]
  exact
    { window := h.window
      closings := h.closings
      past := fun t ht => (h.past t ht).trans hnow
      sent := fun f hf => (h.sent f hf).trans hnow
      since := by
        intro hs
        rw [hopened]
        exact h.since (hstate ▸ hs)
      rested := fun hs t ht => (h.rested (hstate ▸ hs) t ht).trans hnow
      epochs := by
        intro id c hc
        obtain ⟨hle, hrest⟩ := h.epochs id c hc
        exact ⟨hle, fun heq t ht => (hrest heq t ht).trans hnow⟩
      counted := hcount }

/-- The circuit opens. -/
theorem Inv.opens (h : Inv config s) (hnow : s.now ≤ now) (hbefore : s.breaker.state ≠ .opened)
    (hstate : b.state = .opened)
    (hopened : b.openedAt = some now) : Inv config (s.observe now b) := by
  have heq : s.observe now b = { s with breaker := b, now := now, openings := now :: s.openings, probes := 0 } := by
    simp [System.observe, hstate, hbefore]
  rw [heq]
  exact
    { window := by
        intro t ht f hf
        rcases List.mem_cons.mp ht with rfl | ht
        · have hle : f ≤ s.now := h.sent f hf
          omega
        · exact h.window t ht f hf
      closings := h.closings
      past := by
        intro t ht
        rcases List.mem_cons.mp ht with rfl | ht
        · exact le_rfl
        · exact (h.past t ht).trans hnow
      sent := fun f hf => (h.sent f hf).trans hnow
      since := by
        intro _
        refine ⟨now, hopened, ?_⟩
        intro t ht
        rcases List.mem_cons.mp ht with rfl | ht
        · exact le_rfl
        · exact (h.past t ht).trans hnow
      rested := fun hs => absurd hstate hs
      epochs := by
        -- the calls that were admitted before are of an older epoch now
        intro id c hc
        have hle : c.epoch ≤ s.openings.length := (h.epochs id c hc).1
        show c.epoch ≤ (now :: s.openings).length ∧ (c.epoch = (now :: s.openings).length → _)
        rw [List.length_cons]
        exact ⟨by omega, fun heq => by omega⟩
      counted := fun hs => by simp [hstate] at hs }

/-- The recovery timeout has passed. -/
theorem Inv.probes (h : Inv config s) (hnow : s.now ≤ now) {t0 : Nat} (hbefore : s.breaker.state = .opened)
    (hopened : s.breaker.openedAt = some t0) (helapsed : config.recoveryTimeout ≤ now - t0) :
    Inv config (s.observe now { s.breaker with state := .halfOpen, halfOpenSuccesses := 0 }) := by
  have heq : s.observe now { s.breaker with state := .halfOpen, halfOpenSuccesses := 0 } =
      { s with breaker := { s.breaker with state := .halfOpen, halfOpenSuccesses := 0 }, now := now } := by
    simp [System.observe]
  have hle : ∀ t ∈ s.openings, t ≤ t0 := by
    obtain ⟨t1, ht1, hall⟩ := h.since hbefore
    rw [hopened] at ht1
    cases ht1
    exact hall
  have hrested : ∀ t ∈ s.openings, t + config.recoveryTimeout ≤ now := by
    intro t ht
    have h0 := hle t ht
    have h1 := (h.past t ht).trans hnow
    omega
  rw [heq]
  exact
    { window := h.window
      closings := h.closings
      past := fun t ht => (h.past t ht).trans hnow
      sent := fun f hf => (h.sent f hf).trans hnow
      since := fun hs => by cases hs
      rested := fun _ => hrested
      epochs := fun id c hc => ⟨(h.epochs id c hc).1, fun _ => hrested⟩
      counted := fun _ => Nat.zero_le _ }

/-- Enough probes have succeeded. -/
theorem Inv.closes (h : Inv config s) (hnow : s.now ≤ now) (hbefore : s.breaker.state = .halfOpen)
    (hstate : b.state = .closed) (henough : config.halfOpenSuccessesNeeded ≤ s.probes) : Inv config (s.observe now b) := by
  have heq : s.observe now b = { s with breaker := b, now := now, closings := s.probes :: s.closings } := by
    simp [System.observe, hstate, hbefore]
  have hrested := h.rested (by simp [hbefore])
  rw [heq]
  exact
    { window := h.window
      closings := by
        intro n hn
        rcases List.mem_cons.mp hn with rfl | hn
        · exact henough
        · exact h.closings n hn
      past := fun t ht => (h.past t ht).trans hnow
      sent := fun f hf => (h.sent f hf).trans hnow
      since := fun hs => by simp [hstate] at hs
      rested := fun _ t ht => (hrested t ht).trans hnow
      epochs := by
        intro id c hc
        obtain ⟨hle, hrest⟩ := h.epochs id c hc
        exact ⟨hle, fun heq t ht => (hrest heq t ht).trans hnow⟩
      counted := fun hs => by simp [hstate] at hs }

/-! ### Changes of the calls -/

theorem Inv.dropCall (h : Inv config s) (id : Nat) : Inv config (s.setCall id none) :=
  { h with
    epochs := by
      intro id' c hc
      by_cases heq : id' = id
      · subst heq
        simp [System.setCall] at hc
      · exact h.epochs id' c (by simpa [System.setCall, heq] using hc) }

theorem Inv.addCall (h : Inv config s) (id : Nat) {c : Call} (hle : c.epoch ≤ s.openings.length)
    (hrest : c.epoch = s.openings.length → ∀ t ∈ s.openings, t + config.recoveryTimeout ≤ s.now) :
    Inv config (s.setCall id (some c)) :=
  { h with
    epochs := by
      intro id' c' hc
      by_cases heq : id' = id
      · subst heq
        obtain rfl : c = c' := by simpa [System.setCall] using hc
        exact ⟨hle, hrest⟩
      · exact h.epochs id' c' (by simpa [System.setCall, heq] using hc) }

/-- A success of a probe is counted before it is recorded. -/
theorem Inv.count (h : Inv config s) (c : Call) : Inv config (s.count c) :=
  { h with
    counted := by
      intro hs
      have hle : s.breaker.halfOpenSuccesses ≤ s.probes := h.counted hs
      show s.breaker.halfOpenSuccesses ≤ if s.isProbe c then s.probes + 1 else s.probes
      split_ifs <;> omega }

/-- A call that is forwarded long enough after every opening. -/
theorem Inv.forward (h : Inv config s) (hnow : s.now ≤ now)
    (hrest : ∀ t ∈ s.openings, t + config.recoveryTimeout ≤ s.now) :
    Inv config { s with now := now, forwards := now :: s.forwards } where
  window := by
    intro t ht f hf
    rcases List.mem_cons.mp hf with rfl | hf
    · have hle := hrest t ht
      omega
    · exact h.window t ht f hf
  closings := h.closings
  past := fun t ht => (h.past t ht).trans hnow
  sent := by
    intro f hf
    rcases List.mem_cons.mp hf with rfl | hf
    · exact le_rfl
    · exact (h.sent f hf).trans hnow
  since := h.since
  rested := fun hs t ht => (h.rested hs t ht).trans hnow
  epochs := by
    intro id c hc
    obtain ⟨hle, hr⟩ := h.epochs id c hc
    exact ⟨hle, fun heq t ht => (hr heq t ht).trans hnow⟩
  counted := h.counted

/-! ## Steps -/

variable {id : Nat} {s' : System}

theorem Inv.check (h : Inv config s) (hstep : step config s (now, .check id) = some s') : Inv config s' := by
  simp only [step] at hstep
  split_ifs at hstep with hnow hsome
  have hnow : s.now ≤ now := Nat.not_lt.mp hnow
  cases hs : s.breaker.state with
  | closed =>
    have hcheck : checkAllowed config now s.breaker = (.ok (), s.breaker) := by simp only [checkAllowed, hs]
    rw [hcheck] at hstep
    cases hstep
    have hinv := h.quiet hnow rfl rfl h.counted
    exact hinv.addCall id le_rfl fun _ => hinv.rested (show s.breaker.state ≠ .opened by simp [hs])
  | halfOpen =>
    have hcheck : checkAllowed config now s.breaker = (.ok (), s.breaker) := by simp only [checkAllowed, hs]
    rw [hcheck] at hstep
    cases hstep
    have hinv := h.quiet hnow rfl rfl h.counted
    exact hinv.addCall id le_rfl fun _ => hinv.rested (show s.breaker.state ≠ .opened by simp [hs])
  | opened =>
    obtain ⟨t0, ht0, -⟩ := h.since hs
    by_cases helapsed : config.recoveryTimeout ≤ now - t0
    · have hcheck : checkAllowed config now s.breaker =
          (.ok (), { s.breaker with state := .halfOpen, halfOpenSuccesses := 0 }) := by
        simp [checkAllowed, hs, ht0, helapsed]
      rw [hcheck] at hstep
      cases hstep
      have hinv := h.probes hnow hs ht0 helapsed
      exact hinv.addCall id le_rfl fun _ => hinv.rested (by simp [System.observe])
    · have hcheck : ∃ e, checkAllowed config now s.breaker = (.error e, s.breaker) := by
        simp [checkAllowed, hs, ht0, helapsed]
      obtain ⟨e, hcheck⟩ := hcheck
      rw [hcheck] at hstep
      cases hstep
      exact h.quiet hnow rfl rfl h.counted

theorem Inv.forwardStep (h : Inv config s) (hcur : Current s (now, .forward id))
    (hstep : step config s (now, .forward id) = some s') : Inv config s' := by
  simp only [step] at hstep
  split_ifs at hstep with hnow
  have hnow : s.now ≤ now := Nat.not_lt.mp hnow
  split at hstep
  · next admittedIn epoch hcall =>
      cases hstep
      obtain ⟨hle, hrest⟩ := h.epochs id _ hcall
      have hrest := hrest (hcur _ hcall)
      exact (h.forward hnow hrest).addCall id hle fun _ t ht => (hrest t ht).trans hnow
  · cases hstep

theorem Inv.succeed (h : Inv config s) (hcur : Current s (now, .succeed id))
    (hstep : step config s (now, .succeed id) = some s') : Inv config s' := by
  simp only [step] at hstep
  split_ifs at hstep with hnow
  have hnow : s.now ≤ now := Nat.not_lt.mp hnow
  split at hstep
  · next admittedIn epoch hcall =>
      cases hstep
      obtain ⟨hopen, hprobe⟩ := hcur _ hcall
      refine Inv.dropCall (s := (s.count _).observe now (recordSuccess config s.breaker)) ?_ id
      have hinv := h.count ⟨admittedIn, epoch, true⟩
      cases hs : s.breaker.state with
      | opened => exact absurd hs hopen
      | closed =>
        refine hinv.quiet hnow ?_ ?_ ?_
        · simp [recordSuccess, hs, System.count]
        · simp [recordSuccess, hs, System.count]
        · simp [recordSuccess, hs]
      | halfOpen =>
        have hcount : s.breaker.halfOpenSuccesses ≤ s.probes := h.counted hs
        have hprobes : (s.count ⟨admittedIn, epoch, true⟩).probes = s.probes + 1 := if_pos (hprobe hs)
        by_cases henough : config.halfOpenSuccessesNeeded ≤ s.breaker.halfOpenSuccesses + 1
        · refine hinv.closes hnow hs ?_ (by omega)
          simp [recordSuccess, hs, henough]
        · refine hinv.quiet hnow ?_ ?_ ?_
          · simp [recordSuccess, hs, henough, System.count]
          · simp [recordSuccess, hs, henough, System.count]
          · simp [recordSuccess, hs, henough, hcount, hprobes]
  · cases hstep

variable {err : LlmErrorKind}

theorem Inv.fail (h : Inv config s) (hstep : step config s (now, .fail id err) = some s') : Inv config s' := by
  simp only [step] at hstep
  split_ifs at hstep with hnow
  have hnow : s.now ≤ now := Nat.not_lt.mp hnow
  split at hstep
  · next admittedIn epoch hcall =>
      cases hstep
      refine Inv.dropCall (s := s.observe now (recordFailure config now err s.breaker)) ?_ id
      by_cases herr : isTransient err = true
      · cases hs : s.breaker.state with
        | opened =>
          have heq : recordFailure config now err s.breaker = s.breaker := by simp [recordFailure, herr, hs]
          rw [heq]
          exact h.quiet hnow rfl rfl h.counted
        | halfOpen =>
          refine h.opens hnow (by simp [hs]) ?_ ?_
          · simp [recordFailure, herr, hs]
          · simp [recordFailure, herr, hs]
        | closed =>
          by_cases hfull : config.failureThreshold ≤ s.breaker.consecutiveFailures + 1
          · refine h.opens hnow (by simp [hs]) ?_ ?_
            · simp [recordFailure, herr, hs, hfull]
            · simp [recordFailure, herr, hs, hfull]
          · refine h.quiet hnow ?_ ?_ ?_
            · simp [recordFailure, herr, hs, hfull]
            · simp [recordFailure, herr, hs, hfull]
            · simp [recordFailure, herr, hs, hfull]
      · have heq : recordFailure config now err s.breaker = s.breaker := by simp [recordFailure, herr]
        rw [heq]
        exact h.quiet hnow rfl rfl h.counted
  · cases hstep

/-- **An open circuit stays open**: in every run in which results are recorded in the state their calls were admitted
    in, no call is forwarded before the recovery timeout has passed since every opening, and the circuit closes only
    after enough probes. -/
theorem open_circuit_stays_open (config : CircuitBreakerConfig) {actions : List (Nat × Action)} {s : System}
    (run : Runs (step config) Current {} actions s) : StaysOpen config s := by
  have hinv : Inv config s := by
    refine run.invariant (P := fun _ s => Inv config s) inv_init ?_
    intro _ a b l ha hcur hstep
    obtain ⟨now, action⟩ := l
    cases action with
    | check id => exact ha.check hstep
    | forward id => exact ha.forwardStep hcur hstep
    | succeed id => exact ha.succeed hcur hstep
    | fail id err => exact ha.fail hstep
  exact hinv.toStaysOpen

/-- A breaker that opens at the first failure, and closes after one probe. -/
def quickConfig : CircuitBreakerConfig := ⟨1, 10, 1⟩

/-- A failure opens the circuit; a probe after the timeout closes it. -/
theorem recovery_run : ∃ s, Runs (step quickConfig) Current {}
      [(0, .check 0), (0, .forward 0), (1, .fail 0 .requestFailed), (5, .check 1), (11, .check 1), (11, .forward 1),
        (12, .succeed 1)] s ∧
    s.openings = [1] ∧ s.forwards = [11, 0] ∧ s.closings = [1] ∧ StaysOpen quickConfig s := by
  have run : ∃ s, Runs (step quickConfig) Current {}
      [(0, .check 0), (0, .forward 0), (1, .fail 0 .requestFailed), (5, .check 1), (11, .check 1), (11, .forward 1),
        (12, .succeed 1)] s ∧ s.openings = [1] ∧ s.forwards = [11, 0] ∧ s.closings = [1] := by
    refine ⟨_, ((((((((Runs.refl _).snoc _ True.intro rfl).snoc _ ?_ rfl).snoc _ True.intro rfl).snoc _ True.intro
      rfl).snoc _ True.intro rfl).snoc _ ?_ rfl).snoc _ ?_ rfl), rfl, rfl, rfl⟩
    · intro c hc
      cases hc
      rfl
    · intro c hc
      cases hc
      rfl
    · intro c hc
      cases hc
      exact ⟨by decide, fun _ => by decide⟩
  obtain ⟨s, hs, hopenings, hforwards, hclosings⟩ := run
  exact ⟨s, hs, hopenings, hforwards, hclosings, open_circuit_stays_open quickConfig hs⟩

/-- Two calls are admitted while the circuit is closed. The failure of one opens it at time 1, the success of the other
    closes it at once, and a third call goes to the provider at time 3. -/
theorem stale_success_closes_circuit :
    ¬∀ (config : CircuitBreakerConfig) (actions : List (Nat × Action)) (s : System),
      Runs (step config) (fun _ _ => True) {} actions s → StaysOpen config s := by
  intro h
  have hrun : ∃ s, Runs (step quickConfig) (fun _ _ => True) {}
      [(0, .check 0), (0, .check 1), (0, .forward 0), (0, .forward 1), (1, .fail 0 .requestFailed), (2, .succeed 1),
        (3, .check 2), (3, .forward 2)] s ∧ s.openings = [1] ∧ s.forwards = [3, 0, 0] :=
    ⟨_, Runs.of_foldlM rfl, rfl, rfl⟩
  obtain ⟨s, hs, hopenings, hforwards⟩ := hrun
  refine (h quickConfig _ s hs).window 1 ?_ 3 ?_ ?_
  · simp [hopenings]
  · simp [hforwards]
  · decide

/-! ## One call at a time

Calls that do not overlap take the breaker through three states with one number each. Which numbers these are can be
read off the outcomes so far. -/

/-- The circuit as calls see it: the failures since the last success, the time of the opening, or the successes since. -/
inductive Circuit
  | closed (failures : Nat)
  | opened (since : Nat)
  | halfOpen (successes : Nat)
  deriving DecidableEq

namespace Circuit

variable (config)

/-- The circuit for a call at time `now`. None is a refusal. -/
def enter (now : Nat) : Circuit → Option Circuit
  | closed failures => some (closed failures)
  | opened since => if config.recoveryTimeout ≤ now - since then some (halfOpen 0) else none
  | halfOpen successes => some (halfOpen successes)

def succeed : Circuit → Circuit
  | closed _ => closed 0
  | opened since => opened since
  | halfOpen successes =>
    if successes + 1 = config.halfOpenSuccessesNeeded then closed 0 else halfOpen (successes + 1)

/-- A transient failure at time `now`. -/
def fail (now : Nat) : Circuit → Circuit
  | closed failures => if failures + 1 = config.failureThreshold then opened now else closed (failures + 1)
  | opened since => opened since
  | halfOpen _ => opened now

/-- The circuit after a call. -/
def next (call : CompleteCall) (circuit : Circuit) : Circuit :=
  match circuit.enter config call.checkedAt with
  | none => circuit
  | some circuit =>
    match call.outcome with
    | .success => circuit.succeed config
    | .failure err => if isTransient err then circuit.fail config call.endedAt else circuit

end Circuit

/-- The breaker is in this state of the circuit. -/
def Represents (s : BreakerState) : Circuit → Prop
  | .closed failures => s.state = .closed ∧ s.consecutiveFailures = failures
  | .opened since => s.state = .opened ∧ s.openedAt = some since
  | .halfOpen successes => s.state = .halfOpen ∧ s.halfOpenSuccesses = successes

/-- A breaker, and the outcomes of the calls it let through, the last one first. -/
structure Sequence where
  breaker : BreakerState := {}
  outcomes : List Outcome := []

def Sequence.call (config : CircuitBreakerConfig) (s : Sequence) (call : CompleteCall) : Sequence :=
  match complete config call s.breaker with
  | (.error _, breaker) => { s with breaker }
  | (.ok outcome, breaker) => ⟨breaker, outcome :: s.outcomes⟩

def callAll (config : CircuitBreakerConfig) (calls : List CompleteCall) : Sequence := calls.foldl (Sequence.call config) {}

def circuitAfter (config : CircuitBreakerConfig) (calls : List CompleteCall) : Circuit :=
  calls.foldl (fun circuit call => circuit.next config call) (.closed 0)

def Outcome.isTransientFailure : Outcome → Bool
  | success => false
  | failure err => isTransient err

def Outcome.isSuccess : Outcome → Bool
  | success => true
  | failure _ => false

@[simp] theorem isTransientFailure_success : Outcome.success.isTransientFailure = false := rfl

@[simp] theorem isTransientFailure_failure (err : LlmErrorKind) :
    (Outcome.failure err).isTransientFailure = isTransient err := rfl

@[simp] theorem isSuccess_success : Outcome.success.isSuccess = true := rfl

@[simp] theorem isSuccess_failure (err : LlmErrorKind) : (Outcome.failure err).isSuccess = false := rfl

/-- The transient failures since the last success. -/
def failuresSinceSuccess (outcomes : List Outcome) : Nat :=
  (outcomes.takeWhile fun o => !o.isSuccess).countP Outcome.isTransientFailure

/-- The successes since the last transient failure. -/
def successesSinceFailure (outcomes : List Outcome) : Nat :=
  (outcomes.takeWhile fun o => !o.isTransientFailure).countP Outcome.isSuccess

/-- What the breaker's fields say about the outcomes. -/
structure Lawful (config : CircuitBreakerConfig) (s : Sequence) : Prop where
  closed : s.breaker.state = .closed →
    s.breaker.consecutiveFailures = failuresSinceSuccess s.outcomes ∧
      s.breaker.consecutiveFailures < config.failureThreshold
  opened : s.breaker.state = .opened → s.breaker.openedAt.isSome = true
  halfOpen : s.breaker.state = .halfOpen →
    s.breaker.halfOpenSuccesses = successesSinceFailure s.outcomes ∧
      s.breaker.halfOpenSuccesses < config.halfOpenSuccessesNeeded

/-- What the circuit's number says about the outcomes. -/
def Circuit.Counts (config : CircuitBreakerConfig) (outcomes : List Outcome) : Circuit → Prop
  | .closed failures => failures = failuresSinceSuccess outcomes ∧ failures < config.failureThreshold
  | .opened _ => successesSinceFailure outcomes = 0
  | .halfOpen successes => successes = successesSinceFailure outcomes ∧ successes < config.halfOpenSuccessesNeeded

/-! ### The check -/

variable {circuit : Circuit} {s : BreakerState}

/-- **The check refuses and admits as the circuit does.** -/
theorem check_cases (config : CircuitBreakerConfig) (h : Represents s circuit) (now : Nat) :
    (∃ refusal, checkAllowed config now s = (.error refusal, s) ∧ circuit.enter config now = none) ∨
      ∃ s' circuit', checkAllowed config now s = (.ok (), s') ∧ circuit.enter config now = some circuit' ∧
        Represents s' circuit' ∧ s'.state ≠ .opened := by
  cases circuit with
  | closed failures =>
    obtain ⟨hstate, hcount⟩ := h
    refine .inr ⟨s, .closed failures, ?_, rfl, ⟨hstate, hcount⟩, by rw [hstate]; decide⟩
    unfold checkAllowed
    rw [hstate]
  | opened since =>
    obtain ⟨hstate, hsince⟩ := h
    unfold checkAllowed Circuit.enter
    simp only [hstate, hsince]
    split
    · exact .inr ⟨_, .halfOpen 0, rfl, rfl, ⟨rfl, rfl⟩, nofun⟩
    · exact .inl ⟨_, rfl, rfl⟩
  | halfOpen successes =>
    obtain ⟨hstate, hcount⟩ := h
    refine .inr ⟨s, .halfOpen successes, ?_, rfl, ⟨hstate, hcount⟩, by rw [hstate]; decide⟩
    unfold checkAllowed
    rw [hstate]

variable {outcomes : List Outcome}

theorem counts_enter (hneeded : 1 ≤ config.halfOpenSuccessesNeeded) {circuit' : Circuit}
    (h : circuit.Counts config outcomes) (henter : circuit.enter config now = some circuit') :
    circuit'.Counts config outcomes := by
  cases circuit with
  | closed failures =>
    cases henter
    exact h
  | opened since =>
    simp only [Circuit.enter] at henter
    split at henter
    · cases henter
      exact ⟨h.symm, hneeded⟩
    · cases henter
  | halfOpen successes =>
    cases henter
    exact h

/-! ### The results -/

theorem represents_success (h : Represents s circuit) (hopen : s.state ≠ .opened)
    (hcounts : circuit.Counts config outcomes)
    (hthreshold : 1 ≤ config.failureThreshold) : Represents (recordSuccess config s) (circuit.succeed config) ∧
      (circuit.succeed config).Counts config (.success :: outcomes) := by
  cases circuit with
  | closed failures =>
    obtain ⟨hstate, -⟩ := h
    refine ⟨?_, rfl, hthreshold⟩
    unfold recordSuccess
    rw [hstate]
    exact ⟨rfl, rfl⟩
  | opened since => exact absurd h.1 hopen
  | halfOpen successes =>
    obtain ⟨hstate, rfl⟩ := h
    obtain ⟨hcount, hlt⟩ := hcounts
    have hnext : successesSinceFailure (.success :: outcomes) = successesSinceFailure outcomes + 1 := by
      simp [successesSinceFailure, List.countP_cons]
    simp only [recordSuccess, Circuit.succeed, hstate]
    by_cases hlast : s.halfOpenSuccesses + 1 = config.halfOpenSuccessesNeeded
    · rw [if_pos hlast, if_pos hlast.ge]
      exact ⟨⟨rfl, rfl⟩, rfl, hthreshold⟩
    · rw [if_neg hlast, if_neg (by omega)]
      exact ⟨⟨rfl, rfl⟩, by rw [hnext, hcount], by omega⟩

theorem represents_failure (h : Represents s circuit) (hopen : s.state ≠ .opened)
    (hcounts : circuit.Counts config outcomes)
    (htransient : isTransient err = true) (now : Nat) :
    Represents (recordFailure config now err s) (circuit.fail config now) ∧
      (circuit.fail config now).Counts config (.failure err :: outcomes) := by
  have hfresh : successesSinceFailure (.failure err :: outcomes) = 0 := by simp [successesSinceFailure, htransient]
  unfold recordFailure
  rw [htransient, Bool.not_true, if_neg Bool.false_ne_true]
  cases circuit with
  | closed failures =>
    obtain ⟨hstate, rfl⟩ := h
    obtain ⟨hcount, hlt⟩ := hcounts
    have hnext : failuresSinceSuccess (.failure err :: outcomes) = failuresSinceSuccess outcomes + 1 := by
      simp [failuresSinceSuccess, htransient]
    simp only [Circuit.fail, hstate]
    by_cases hlast : s.consecutiveFailures + 1 = config.failureThreshold
    · rw [if_pos hlast, if_pos hlast.ge]
      exact ⟨⟨rfl, rfl⟩, hfresh⟩
    · rw [if_neg hlast, if_neg (by omega)]
      exact ⟨⟨rfl, rfl⟩, by rw [hnext, hcount], by omega⟩
  | opened since => exact absurd h.1 hopen
  | halfOpen successes =>
    obtain ⟨hstate, -⟩ := h
    rw [hstate]
    exact ⟨⟨rfl, rfl⟩, hfresh⟩

/-- Errors that are not transient change no count. -/
theorem counts_permanent (h : circuit.Counts config outcomes) (herr : isTransient err = false) :
    circuit.Counts config (.failure err :: outcomes) := by
  have hfailures : failuresSinceSuccess (.failure err :: outcomes) = failuresSinceSuccess outcomes := by
    simp [failuresSinceSuccess, herr]
  have hsuccesses : successesSinceFailure (.failure err :: outcomes) = successesSinceFailure outcomes := by
    simp [successesSinceFailure, herr]
  cases circuit with
  | closed failures => exact ⟨h.1.trans hfailures.symm, h.2⟩
  | opened since => exact hsuccesses.trans h
  | halfOpen successes => exact ⟨h.1.trans hsuccesses.symm, h.2⟩

/-! ### All calls -/

/-- **A call takes the breaker where it takes the circuit.** -/
theorem represents_call (hthreshold : 1 ≤ config.failureThreshold) (hneeded : 1 ≤ config.halfOpenSuccessesNeeded)
    {s : Sequence} (h : Represents s.breaker circuit) (hcounts : circuit.Counts config s.outcomes) (call : CompleteCall) :
    Represents (s.call config call).breaker (circuit.next config call) ∧
      (circuit.next config call).Counts config (s.call config call).outcomes := by
  unfold Sequence.call complete Circuit.next
  rcases check_cases config h call.checkedAt with
    ⟨refusal, hcheck, henter⟩ | ⟨s', circuit', hcheck, henter, hrep, hopen⟩
  · rw [hcheck, henter]
    exact ⟨h, hcounts⟩
  · rw [hcheck, henter]
    have hcounts' := counts_enter hneeded hcounts henter
    cases houtcome : call.outcome with
    | success => exact represents_success hrep hopen hcounts' hthreshold
    | failure err =>
      dsimp only
      cases htransient : isTransient err with
      | true => exact represents_failure hrep hopen hcounts' htransient call.endedAt
      | false =>
        have hsame : recordFailure config call.endedAt err s' = s' := by
          unfold recordFailure
          rw [htransient]
          rfl
        rw [hsame]
        exact ⟨hrep, counts_permanent hcounts' htransient⟩

theorem represents_callAll (hthreshold : 1 ≤ config.failureThreshold) (hneeded : 1 ≤ config.halfOpenSuccessesNeeded)
    (calls : List CompleteCall) : Represents (callAll config calls).breaker (circuitAfter config calls) ∧
      (circuitAfter config calls).Counts config (callAll config calls).outcomes := by
  induction calls using List.reverseRecOn with
  | nil => exact ⟨⟨rfl, rfl⟩, rfl, hthreshold⟩
  | append_singleton calls call ih =>
    unfold callAll circuitAfter
    rw [List.foldl_append, List.foldl_append]
    exact represents_call hthreshold hneeded ih.1 ih.2 call

theorem lawful_of_represents {s : Sequence} (h : Represents s.breaker circuit)
    (hcounts : circuit.Counts config s.outcomes) :
    Lawful config s := by
  cases circuit with
  | closed failures =>
    obtain ⟨hstate, rfl⟩ := h
    exact ⟨fun _ => hcounts, fun hs => by simp [hstate] at hs, fun hs => by simp [hstate] at hs⟩
  | opened since =>
    obtain ⟨hstate, hsince⟩ := h
    refine ⟨fun hs => by simp [hstate] at hs, fun _ => ?_, fun hs => by simp [hstate] at hs⟩
    rw [hsince]
    rfl
  | halfOpen successes =>
    obtain ⟨hstate, rfl⟩ := h
    exact ⟨fun hs => by simp [hstate] at hs, fun hs => by simp [hstate] at hs, fun _ => hcounts⟩

/-- **The breaker is the circuit**, after every sequence of calls that do not overlap: its fields are what the
outcomes say, the next call is let through just when the circuit admits it, and no result is recorded while it is
open. -/
theorem breaker_is_the_circuit (config : CircuitBreakerConfig) (hthreshold : 1 ≤ config.failureThreshold)
    (hneeded : 1 ≤ config.halfOpenSuccessesNeeded) (calls : List CompleteCall) :
    Represents (callAll config calls).breaker (circuitAfter config calls) ∧
      Lawful config (callAll config calls) ∧
      ∀ now, ((checkAllowed config now (callAll config calls).breaker).1.isOk = true ↔
          ((circuitAfter config calls).enter config now).isSome = true) ∧
        ((checkAllowed config now (callAll config calls).breaker).1.isOk = true →
          (checkAllowed config now (callAll config calls).breaker).2.state ≠ .opened) := by
  obtain ⟨hrep, hcounts⟩ := represents_callAll hthreshold hneeded calls
  refine ⟨hrep, lawful_of_represents hrep hcounts, fun now => ?_⟩
  rcases check_cases config hrep now with ⟨refusal, hcheck, henter⟩ | ⟨s', circuit', hcheck, henter, -, hopen⟩
  · rw [hcheck, henter]
    exact ⟨⟨nofun, nofun⟩, nofun⟩
  · rw [hcheck, henter]
    exact ⟨⟨fun _ => rfl, fun _ => rfl⟩, fun _ => hopen⟩

/-- Two failures open the circuit, and two probes close it. -/
def recovery : List CompleteCall :=
  [⟨0, 1, .failure .http⟩, ⟨2, 3, .failure .authFailed⟩, ⟨4, 5, .failure .io⟩, ⟨6, 7, .success⟩, ⟨20, 21, .success⟩,
    ⟨22, 23, .failure .json⟩, ⟨24, 25, .success⟩]

theorem recovery_is_the_circuit : Represents (callAll ⟨2, 10, 2⟩ recovery).breaker (.closed 0) := by
  have h := (breaker_is_the_circuit ⟨2, 10, 2⟩ (by decide) (by decide) recovery).1
  have hcircuit : circuitAfter ⟨2, 10, 2⟩ recovery = .closed 0 := by decide
  rw [hcircuit] at h
  exact h

end Freeclawdia.CircuitBreaker
