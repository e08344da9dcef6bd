import Freeclawdia.Context.State
import Freeclawdia.Rust.Str

/-!
# `Agent.Worker` — a job's worker and the scheduler that stops it

`Worker::run` with its execution loop and its plan (`agent/worker.rs`), and `Scheduler::stop`
(`agent/scheduler.rs`), as two processes that share the job's state and the worker's channel. Every `await` of
the source is a point where the other process may run, so a step here is what happens between two of them. The
LLM and the tools answer as they like: their answers are part of the step's label. What only feeds the LLM (the
reasoning context, nudges, event streaming, persistence) is left out.
-/

namespace Freeclawdia

open Rust

/-- The states in which `run` and the plan's caller leave the job alone. -/
def JobState.settled (s : JobState) : Bool := s.isTerminal || s == .completed || s == .stuck

/-- Does an LLM response explicitly signal that a job is complete? (`util.rs`) -/
def llmSignalsCompletion (response : String) : Bool :=
  let lower := toLowercase response
  let positive := ["job is complete", "job is done", "job is finished", "task is complete", "task is done",
    "task is finished", "work is complete", "work is done", "work is finished", "successfully completed",
    "have completed the job", "have completed the task", "have finished the job", "have finished the task",
    "all steps are complete", "all steps are done", "i have completed", "i've completed", "all done",
    "all tasks complete"]
  let negative := ["not complete", "not done", "not finished", "incomplete", "unfinished", "isn't done",
    "isn't complete", "isn't finished", "not yet done", "not yet complete", "not yet finished"]
  if negative.any (contains lower) then false else positive.any (contains lower)

/-! ## Messages, tools and phases -/

/-- Message to send to a worker. -/
inductive WorkerMessage
  | start
  | stop
  | ping
  | userMessage (content : String)
  deriving DecidableEq

/-- A tool that the plan or the LLM selected. -/
structure ToolSelection where
  toolName : String
  parameters : Json

/-- Progress of `execute_tool_inner` for one selection. -/
inductive ToolStatus
  /-- Before the job context is fetched. -/
  | waiting
  /-- The job context was fetched, in this state. -/
  | fetched (state : JobState)
  | finished

/-- A selection on its way. -/
structure ToolTask where
  selection : ToolSelection
  status : ToolStatus

/-- Where the worker is. -/
inductive Phase
  /-- `run`: waiting for the start signal. -/
  | awaitStart
  /-- Asking the LLM for a plan. -/
  | planning
  /-- At the top of the plan's loop, with the actions that remain. -/
  | planNext (actions : List ToolSelection)
  /-- Executing an action of the plan. -/
  | planTool (task : ToolTask) (actions : List ToolSelection)
  /-- Asking the LLM whether the executed plan completed the job. -/
  | planAsk
  /-- The plan returned: is the job settled? -/
  | planCheck
  /-- At the top of the direct loop. -/
  | drain
  /-- The direct loop's check for cancellation. -/
  | cancelCheck
  /-- Asking the LLM for tools, and for a response. -/
  | select
  | respond
  /-- Executing selected tools, in parallel. -/
  | tools (tasks : List ToolTask)
  /-- `mark_completed` or `mark_stuck` inside the loop. -/
  | mark (target : JobState) (inPlan : Bool)
  /-- `run`: the loop returned `Ok(())`. -/
  | finalCheck
  /-- `run`: `mark_completed`, `mark_failed` or `mark_stuck`, then the end. -/
  | finalMark (target : JobState)
  | done

/-- Is the worker inside `execution_loop`, where the job's timeout applies? -/
def Phase.inLoop : Phase → Bool
  | .awaitStart | .finalCheck | .finalMark _ | .done => false
  | _ => true

/-- Where `Scheduler::stop` is; it remembers the job's state at the call. -/
inductive StopPhase
  | idle
  | sending (was : JobState)
  | sleeping (was : JobState)
  | aborting (was : JobState)
  | updating (was : JobState)
  | returning (was : JobState)

/-- What happened, in order. -/
inductive JobEvent
  | tookStop
  | llmCall
  | toolRun (name : String)
  | entered (state : JobState)
  | stopReturned (was now : JobState)
  deriving DecidableEq

/-- The job, its worker and the scheduler. -/
structure JobSystem where
  job : JobState
  channel : List WorkerMessage
  phase : Phase
  iteration : Nat
  consecutiveRateLimits : Nat
  /-- The task was aborted; it ends at one of its next awaits. -/
  aborted : Bool
  /-- The job is in the scheduler's map. -/
  scheduled : Bool
  stop : StopPhase
  log : List JobEvent

/-- What the worker is configured with. -/
structure WorkerConfig where
  usePlanning : Bool
  /-- `max_iterations` of the job's metadata. -/
  maxIterations : Option Nat

def MAX_WORKER_ITERATIONS : Nat := 500
def MAX_CONSECUTIVE_RATE_LIMITS : Nat := 10
def CHANNEL_CAPACITY : Nat := 16

/-- The iteration limit of the execution loop. -/
def WorkerConfig.iterationLimit (cfg : WorkerConfig) : Nat := min (cfg.maxIterations.getD 50) MAX_WORKER_ITERATIONS

/-- What an LLM call returns, as far as the worker tells the cases apart. -/
inductive LlmAnswer (α : Type)
  | ok (value : α)
  | rateLimited
  | error

/-- `RespondResult`. -/
inductive WorkerResponse
  | text (response : String)
  | toolCalls (selections : List ToolSelection)

/-- What the surroundings of a tool do in one step: refuse or fail it, or let it go on. -/
inductive ToolProgress
  | refused
  | goesOn

/-- What the worker's next step is answered with. -/
inductive Answer
  | unit
  | plan (r : LlmAnswer (List ToolSelection))
  | asked (r : LlmAnswer String)
  | selected (r : LlmAnswer (List ToolSelection))
  | responded (r : LlmAnswer WorkerResponse)
  | tool (index : Nat) (progress : ToolProgress)

namespace JobSystem

variable (s : JobSystem)

def goto (p : Phase) : JobSystem := { s with phase := p }

def emit (e : JobEvent) : JobSystem := { s with log := s.log ++ [e] }

/-- `transition_to`, where the table allows it. -/
def transitionTo (target : JobState) : JobSystem :=
  if s.job.canTransitionTo target then { s with job := target, log := s.log ++ [.entered target] } else s

/-- Take the first message of the channel. -/
def popChannel : JobSystem := { s with channel := s.channel.tail }

/-! ## The worker -/

/-- Retry after a rate limit, or give up. -/
def rateLimited : JobSystem :=
  if MAX_CONSECUTIVE_RATE_LIMITS ≤ s.consecutiveRateLimits + 1 then
    { s with consecutiveRateLimits := s.consecutiveRateLimits + 1, phase := .mark .stuck false }
  else { s with consecutiveRateLimits := s.consecutiveRateLimits + 1, phase := .drain }

/-- The end of an iteration. -/
def endIteration : JobSystem := { s with consecutiveRateLimits := 0, phase := .drain }

/-- One step of `execute_tool_inner`. A tool runs unless its surroundings refuse it or the fetched job was
    cancelled. -/
def toolStep (task : ToolTask) (progress : ToolProgress) : ToolTask × JobSystem :=
  match task.status, progress with
  | .waiting, .refused => ({ task with status := .finished }, s)
  | .waiting, .goesOn => ({ task with status := .fetched s.job }, s)
  | .fetched _, .refused => ({ task with status := .finished }, s)
  | .fetched state, .goesOn =>
    if state = .cancelled then ({ task with status := .finished }, s)
    else ({ task with status := .finished }, s.emit (.toolRun task.selection.toolName))
  | .finished, _ => (task, s)

/-- Has every tool returned? -/
def allFinished (tasks : List ToolTask) : Bool :=
  tasks.all fun t => match t.status with
    | .finished => true
    | _ => false

/-- A batch of new tool tasks. -/
def startTools (selections : List ToolSelection) : Phase := .tools (selections.map fun sel => ⟨sel, .waiting⟩)

/-- The worker's next step. -/
def workerStep (cfg : WorkerConfig) (answer : Answer) : Option JobSystem :=
  match s.phase, answer with
  | .awaitStart, .unit =>
    match s.channel with
    | [] => none
    | .stop :: _ => some ((s.popChannel.emit .tookStop).goto .done)
    | _ :: _ => some (s.popChannel.goto (if cfg.usePlanning then .planning else .drain))
  | .planning, .plan r =>
    match r with
    | .ok actions => some ((s.emit .llmCall).goto (.planNext actions))
    | _ => some ((s.emit .llmCall).goto .drain)
  | .planNext [], .unit => some (s.goto .planAsk)
  | .planNext (action :: actions), .unit =>
    match s.channel with
    | [] => some (s.goto (.planTool ⟨action, .waiting⟩ actions))
    | .stop :: _ => some ((s.popChannel.emit .tookStop).goto .planCheck)
    | .userMessage _ :: _ => some (s.popChannel.goto .planCheck)
    | _ :: _ => some s.popChannel
  | .planTool task actions, .tool _ progress =>
    some ((s.toolStep task progress).2.goto (.planTool (s.toolStep task progress).1 actions))
  | .planTool task actions, .unit =>
    match task.status with
    | .finished => some (s.goto (.planNext actions))
    | _ => none
  | .planAsk, .asked r =>
    match r with
    | .ok response =>
      some ((s.emit .llmCall).goto (if llmSignalsCompletion response then .mark .completed true else .planCheck))
    | _ => some ((s.emit .llmCall).goto (.finalMark .failed))
  | .planCheck, .unit => some (s.goto (if s.job.settled then .finalCheck else .drain))
  | .drain, .unit =>
    match s.channel with
    | [] => some (s.goto .cancelCheck)
    | .stop :: _ => some ((s.popChannel.emit .tookStop).goto .finalCheck)
    | _ :: _ => some s.popChannel
  | .cancelCheck, .unit =>
    if s.job = .cancelled then some (s.goto .finalCheck)
    else if cfg.iterationLimit < s.iteration + 1 then
      some ({ s with iteration := s.iteration + 1 }.goto (.mark .stuck false))
    else some ({ s with iteration := s.iteration + 1 }.goto .select)
  | .select, .selected r =>
    match r with
    | .ok [] => some ((s.emit .llmCall).goto .respond)
    | .ok selections => some ((s.emit .llmCall).goto (startTools selections))
    | .rateLimited => some (s.emit .llmCall).rateLimited
    | .error => some ((s.emit .llmCall).goto (.finalMark .failed))
  | .respond, .responded r =>
    match r with
    | .ok (.text response) =>
      if llmSignalsCompletion response then some ((s.emit .llmCall).goto (.mark .completed false))
      else some (s.emit .llmCall).endIteration
    | .ok (.toolCalls selections) => some ((s.emit .llmCall).goto (startTools selections))
    | .rateLimited => some (s.emit .llmCall).rateLimited
    | .error => some ((s.emit .llmCall).goto (.finalMark .failed))
  | .tools tasks, .tool index progress =>
    match tasks[index]? with
    | some task =>
      some ((s.toolStep task progress).2.goto (.tools (tasks.set index (s.toolStep task progress).1)))
    | none => none
  | .tools tasks, .unit => if allFinished tasks then some s.endIteration else none
  | .mark target inPlan, .unit =>
    if s.job.canTransitionTo target then
      some ((s.transitionTo target).goto (if inPlan then .planCheck else .finalCheck))
    else some (s.goto (.finalMark .failed))
  | .finalCheck, .unit => some (s.goto (if s.job.settled then .done else .finalMark .completed))
  | .finalMark target, .unit => some ((s.transitionTo target).goto .done)
  | _, _ => none

/-! ## The scheduler -/

/-- `Scheduler::stop` is called. The scheduler's map is locked until it returns. -/
def stopCall : Option JobSystem :=
  match s.stop with
  | .idle =>
    if s.scheduled then some { s with scheduled := false, stop := .sending s.job }
    else some (s.emit (.stopReturned s.job s.job))
  | _ => none

/-- The next step of `Scheduler::stop`. -/
def stopStep : Option JobSystem :=
  match s.stop with
  | .idle => none
  | .sending was =>
    match s.phase with
    -- the receiver is gone: the failed send is ignored
    | .done => some { s with stop := .sleeping was }
    | _ =>
      if s.channel.length < CHANNEL_CAPACITY then
        some { s with channel := s.channel ++ [.stop], stop := .sleeping was }
      else none
  | .sleeping was => some { s with stop := .aborting was }
  | .aborting was =>
    match s.phase with
    | .done => some { s with stop := .updating was }
    | _ => some { s with aborted := true, stop := .updating was }
  | .updating was => some { s.transitionTo .cancelled with stop := .returning was }
  | .returning was => some { s.emit (.stopReturned was s.job) with stop := .idle }

end JobSystem

/-- The steps of the system. -/
inductive JobStep
  | work (answer : Answer)
  /-- The job's timeout strikes in the execution loop. -/
  | timeout
  /-- An aborted task ends. -/
  | cancel
  | stopCall
  | stopStep
  /-- The scheduler's cleanup task forgets a finished worker. -/
  | cleanup
  /-- `Scheduler::send_message` or a ping. -/
  | send (msg : WorkerMessage)

/-- One step, where it is enabled. -/
def jobStep (cfg : WorkerConfig) (s : JobSystem) : JobStep → Option JobSystem
  | .work answer => s.workerStep cfg answer
  | .timeout => if s.phase.inLoop then some (s.goto (.finalMark .stuck)) else none
  | .cancel => if s.aborted then some (s.goto .done) else none
  | .stopCall => s.stopCall
  | .stopStep => s.stopStep
  | .cleanup =>
    match s.stop, s.phase with
    | .idle, .done => some { s with scheduled := false }
    | _, _ => none
  | .send msg =>
    if msg ≠ .start ∧ msg ≠ .stop ∧ s.channel.length < CHANNEL_CAPACITY then
      some { s with channel := s.channel ++ [msg] }
    else none

/-- A job as `schedule` leaves it: in progress, with `Start` in the worker's channel. -/
def JobSystem.scheduledJob : JobSystem where
  job := .inProgress
  channel := [.start]
  phase := .awaitStart
  iteration := 0
  consecutiveRateLimits := 0
  aborted := false
  scheduled := true
  stop := .idle
  log := []

end Freeclawdia
