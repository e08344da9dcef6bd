import Freeclawdia.Context.State

/-!
# `Context.Manager` — job contexts and job memories

`src/context/manager.rs` and, of `src/context/memory.rs`, the action records. The two maps of the manager are
locked one after the other; both hold the same keys, since `create_job_for_user` fills both and nothing but
`remove_job` empties them. New identifiers and clock readings are arguments.

`createJobForUser` refuses a job when as many **active** jobs exist as the manager allows, and every state that
is not terminal is active.
-/

namespace Freeclawdia

open Rust

/-! ## Job memory -/

/-- A record of an action taken during job execution. Cost and sanitization warnings are never set by the
    worker and are left out. -/
structure ActionRecord where
  id : Uuid
  sequence : Nat
  toolName : String
  input : Json
  outputRaw : Option String := none
  outputSanitized : Option Json := none
  duration : Nanos := 0
  success : Bool := false
  error : Option String := none
  executedAt : Time

namespace ActionRecord

/-- Mark the action as successful. -/
def succeed (r : ActionRecord) (outputRaw : Option String) (outputSanitized : Json) (duration : Nanos) :
    ActionRecord :=
  { r with success := true, outputRaw, outputSanitized := some outputSanitized, duration }

/-- Mark the action as failed. -/
def fail (r : ActionRecord) (error : String) (duration : Nanos) : ActionRecord :=
  { r with success := false, error := some error, duration }

end ActionRecord

/-- Memory for a job; the conversation part is not used by the modelled code. -/
structure Memory where
  jobId : Uuid
  actions : List ActionRecord := []
  nextSequence : Nat := 0

namespace Memory

/-- Create a new action record. -/
def createAction (m : Memory) (newId : Uuid) (now : Time) (toolName : String) (input : Json) :
    ActionRecord × Memory :=
  ({ id := newId, sequence := m.nextSequence, toolName, input, executedAt := now },
    { m with nextSequence := (m.nextSequence + 1) % 2 ^ 32 })

/-- Record a completed action. -/
def recordAction (m : Memory) (action : ActionRecord) : Memory := { m with actions := m.actions ++ [action] }

end Memory

/-! ## The manager -/

/-- Manages contexts for multiple concurrent jobs. -/
structure ContextManager where
  contexts : Map Uuid JobContext := ∅
  memories : Map Uuid Memory := ∅
  maxJobs : Nat

namespace ContextManager

variable (m : ContextManager)

/-- The contexts that `active_count` counts. -/
def activeContexts : List (Uuid × JobContext) :=
  (m.contexts.entries.filter fun e => e.2.state.isActive).map fun e => (e.1, e.2)

/-- Count of active jobs. -/
def activeCount : Nat := m.activeContexts.length

/-- Create a new job context for a specific user. -/
def createJobForUser (newId : Uuid) (userId title description : String) :
    Except JobError Uuid × ContextManager :=
  if m.maxJobs ≤ m.activeCount then (.error (.maxJobsExceeded m.maxJobs), m)
  else
    (.ok newId,
      { m with
        contexts := m.contexts.insert newId { jobId := newId, userId, title, description }
        memories := m.memories.insert newId { jobId := newId } })

variable (jobId : Uuid)

/-- Get a job context by ID. -/
def getContext : Except JobError JobContext :=
  match m.contexts.lookup jobId with
  | some ctx => .ok ctx
  | none => .error (.notFound jobId)

/-- Update a job context; `f` yields the caller's answer and the new context. -/
def updateContext {α : Type} (f : JobContext → α × JobContext) :
    Except JobError α × ContextManager :=
  match m.contexts.lookup jobId with
  | some ctx => (.ok (f ctx).1, { m with contexts := m.contexts.insert jobId (f ctx).2 })
  | none => (.error (.notFound jobId), m)

/-- Update job memory. -/
def updateMemory {α : Type} (f : Memory → α × Memory) : Except JobError α × ContextManager :=
  match m.memories.lookup jobId with
  | some memory => (.ok (f memory).1, { m with memories := m.memories.insert jobId (f memory).2 })
  | none => (.error (.notFound jobId), m)

/-- `update_context` with a transition: the error text of a transition that the table does not allow. -/
def transition (newState : JobState) (reason : Option String) (now : Time) :
    Except JobError (Except String Unit) × ContextManager :=
  m.updateContext jobId fun ctx =>
    match ctx.transitionTo newState reason now with
    | .ok ctx' => (.ok (), ctx')
    | .error e => (.error e, ctx)

/-- `update_context` with `attempt_recovery`. -/
def recover (now : Time) : Except JobError (Except String Unit) × ContextManager :=
  m.updateContext jobId fun ctx =>
    match ctx.attemptRecovery now with
    | .ok ctx' => (.ok (), ctx')
    | .error e => (.error e, ctx)

/-- The state of a job. -/
def state : Option JobState := (m.contexts.lookup jobId).map (·.state)

/-! ## What the operations do to states -/

section States

variable {m} {jobId : Uuid} {now : Time}

theorem createJobForUser_of_full (newId : Uuid) (userId title description : String) (h : m.maxJobs ≤ m.activeCount) :
    m.createJobForUser newId userId title description = (.error (.maxJobsExceeded m.maxJobs), m) := if_pos h

theorem createJobForUser_of_room (newId : Uuid) (userId title description : String) (h : m.activeCount < m.maxJobs) :
    m.createJobForUser newId userId title description = (.ok newId, { m with
          contexts := m.contexts.insert newId { jobId := newId, userId, title, description }
          memories := m.memories.insert newId { jobId := newId } }) := if_neg (not_le.mpr h)

/-- An update changes the state of its own job. -/
theorem updateContext_state {α : Type} (f : JobContext → α × JobContext) (k : Uuid) :
    (m.updateContext jobId f).2.state k =
      if k = jobId then (m.contexts.lookup jobId).map fun ctx => (f ctx).2.state else m.state k := by
  unfold updateContext state
  cases hctx : m.contexts.lookup jobId with
  | none =>
    by_cases hk : k = jobId
    · subst hk
      simp [hctx]
    · simp [hk]
  | some ctx =>
    show ((m.contexts.insert jobId (f ctx).2).lookup k).map (·.state) = _
    rw [Map.lookup_insert_ite]
    by_cases hk : k = jobId
    · simp [hk]
    · simp [hk]

/-- A transition is made where the table allows it. -/
theorem transition_state (newState : JobState) (reason : Option String) (k : Uuid) :
    (m.transition jobId newState reason now).2.state k =
      if k = jobId then (m.state jobId).map fun s => if s.canTransitionTo newState then newState else s
      else m.state k := by
  unfold transition
  rw [updateContext_state]
  by_cases hk : k = jobId
  · rw [if_pos hk, if_pos hk]
    unfold state
    rw [Option.map_map]
    congr 1
    funext ctx
    by_cases hcan : ctx.state.canTransitionTo newState = true
    · obtain ⟨ctx', hok, hstate⟩ := JobContext.transitionTo_of_can reason now hcan
      simp [hok, hstate, hcan]
    · rw [Bool.not_eq_true] at hcan
      simp [JobContext.transitionTo_of_not reason now hcan, hcan]
  · rw [if_neg hk, if_neg hk]

/-- What a transition answers. -/
theorem transition_ok_iff (newState : JobState) (reason : Option String) :
    (m.transition jobId newState reason now).1 = .ok (.ok ()) ↔
      ∃ s, m.state jobId = some s ∧ s.canTransitionTo newState = true := by
  unfold transition updateContext state
  cases hctx : m.contexts.lookup jobId with
  | none => simp
  | some ctx =>
    by_cases hcan : ctx.state.canTransitionTo newState = true
    · obtain ⟨ctx', hok, _⟩ := JobContext.transitionTo_of_can reason now hcan
      simp [hok, hcan]
    · rw [Bool.not_eq_true] at hcan
      simp [JobContext.transitionTo_of_not reason now hcan, hcan]

/-- A refused transition changes no state. -/
theorem transition_refused {target : JobState} {reason : Option String}
    (h : (m.transition jobId target reason now).1 ≠ .ok (.ok ())) (k : Uuid) :
    (m.transition jobId target reason now).2.state k = m.state k := by
  rw [transition_state]
  by_cases hk : k = jobId
  · subst hk
    rw [if_pos rfl]
    cases hst : m.state k with
    | none => rfl
    | some st =>
      have hno : ¬ st.canTransitionTo target = true := by
        intro hcan
        exact h ((transition_ok_iff target reason).mpr ⟨st, hst, hcan⟩)
      simp [hno]
  · rw [if_neg hk]

/-- A recovery turns a stuck job into one in progress. -/
theorem recover_state (k : Uuid) : (m.recover jobId now).2.state k =
      if k = jobId then (m.state jobId).map fun s => if s = .stuck then .inProgress else s else m.state k := by
  unfold recover
  rw [updateContext_state]
  by_cases hk : k = jobId
  · rw [if_pos hk, if_pos hk]
    unfold state
    rw [Option.map_map]
    congr 1
    funext ctx
    by_cases hstuck : ctx.state = .stuck
    · have hcan : ({ ctx with repairAttempts := ctx.repairAttempts + 1 } : JobContext).state.canTransitionTo
          .inProgress = true := by simp [hstuck, JobState.canTransitionTo]
      obtain ⟨ctx', hok, hstate⟩ := JobContext.transitionTo_of_can (some "Recovery attempt") now hcan
      have hrec : ctx.attemptRecovery now = .ok ctx' := by
        unfold JobContext.attemptRecovery
        rw [if_neg (not_not.mpr hstuck)]
        exact hok
      simp [hrec, hstate, hstuck]
    · have hrec : ctx.attemptRecovery now = .error "Job is not stuck" := if_pos hstuck
      simp [hrec, hstuck]
  · rw [if_neg hk, if_neg hk]

end States
end ContextManager
end Freeclawdia
