import Freeclawdia.Agent.Env

/-!
# `Context.State` — the job state machine

`src/context/state.rs`: the states of a job, the table of allowed transitions, and the context a job is kept
in. Budgets, token counts and the environment of child processes are read by no modelled function and are left
out.

A job that is `Completed` waits for submission: it is **not** terminal, and neither is a `Pending` one.
-/

namespace Freeclawdia

open Rust

/-- State of a job. -/
inductive JobState
  | pending
  | inProgress
  | completed
  | submitted
  | accepted
  | failed
  | stuck
  | cancelled
  deriving DecidableEq

namespace JobState

/-- Does this state allow transitioning to another state? -/
def canTransitionTo : JobState → JobState → Bool
  | pending, inProgress | pending, cancelled => true
  | inProgress, completed | inProgress, failed | inProgress, stuck | inProgress, cancelled => true
  | completed, submitted | completed, failed => true
  | submitted, accepted | submitted, failed => true
  | stuck, inProgress | stuck, failed | stuck, cancelled => true
  | _, _ => false

/-- Is this a terminal state? -/
def isTerminal : JobState → Bool
  | accepted | failed | cancelled => true
  | _ => false

/-- Is the job active (not terminal)? -/
def isActive (s : JobState) : Bool := !s.isTerminal

/-- `Display` of a job state. -/
def display : JobState → String
  | pending => "pending"
  | inProgress => "in_progress"
  | completed => "completed"
  | submitted => "submitted"
  | accepted => "accepted"
  | failed => "failed"
  | stuck => "stuck"
  | cancelled => "cancelled"

end JobState

/-- A state transition event. -/
structure StateTransition where
  fromState : JobState
  toState : JobState
  timestamp : Time
  reason : Option String

/-- Cap of the transition history. -/
def MAX_TRANSITIONS : Nat := 200

/-- Context for a running job. -/
structure JobContext where
  jobId : Uuid
  state : JobState := .pending
  userId : String
  title : String
  description : String
  startedAt : Option Time := none
  completedAt : Option Time := none
  repairAttempts : Nat := 0
  transitions : List StateTransition := []
  metadata : Json := .null

namespace JobContext

variable (ctx : JobContext)

/-- `started_at` and `completed_at` after entering a state. -/
def stamped (newState : JobState) (now : Time) : JobContext :=
  match newState with
  | .inProgress => { ctx with startedAt := some (ctx.startedAt.getD now) }
  | .completed | .accepted | .failed | .cancelled => { ctx with completedAt := some now }
  | _ => ctx

/-- Transition to a new state. -/
def transitionTo (newState : JobState) (reason : Option String) (now : Time) :
    Except String JobContext :=
  if ctx.state.canTransitionTo newState then
    let history := ctx.transitions ++ [⟨ctx.state, newState, now, reason⟩]
    .ok ({ ctx with
      transitions := history.drop (history.length - MAX_TRANSITIONS)
      state := newState }.stamped newState now)
  else .error ("Cannot transition from " ++ ctx.state.display ++ " to " ++ newState.display)

/-- Attempt to recover from stuck state. The attempt counts before the transition is tried. -/
def attemptRecovery (now : Time) : Except String JobContext :=
  if ctx.state ≠ .stuck then .error "Job is not stuck"
  else { ctx with repairAttempts := ctx.repairAttempts + 1 }.transitionTo .inProgress (some "Recovery attempt") now

@[simp] theorem stamped_state (newState : JobState) (now : Time) :
    (ctx.stamped newState now).state = ctx.state := by
  cases newState <;> rfl

variable {ctx : JobContext} {newState : JobState}

theorem transitionTo_of_can (reason : Option String) (now : Time) (h : ctx.state.canTransitionTo newState = true) :
    ∃ ctx', ctx.transitionTo newState reason now = .ok ctx' ∧ ctx'.state = newState := by
  unfold transitionTo
  rw [if_pos h]
  exact ⟨_, rfl, stamped_state _ newState now⟩

theorem transitionTo_of_not (reason : Option String) (now : Time) (h : ctx.state.canTransitionTo newState = false) :
    ctx.transitionTo newState reason now =
      .error ("Cannot transition from " ++ ctx.state.display ++ " to " ++ newState.display) := by
  unfold transitionTo
  rw [if_neg (by simp [h])]

end JobContext
end Freeclawdia
