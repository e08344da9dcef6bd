import Freeclawdia.Agent.Worker
import Freeclawdia.Context.Manager

/-!
# `Agent.Scheduler` — jobs, their workers and the tasks that clean up

`Scheduler` of `src/agent/scheduler.rs` over any number of jobs, with the spawned worker tasks, the cleanup task
that every scheduled job leaves behind, and `DefaultSelfRepair` (`src/agent/self_repair.rs`), which works on the
job contexts alone. Two things are kept apart, as in the source: the **state** of a job is in its context, the
**worker** of a job is a task, and the scheduler's map `jobs` is what ties the two together.

A worker task is the worker of `Agent.Worker` on its own job: it reads and marks the job's state and nothing else
of the scheduler. The map's write lock is held by `schedule` for one piece, and by `stop` from its first to its
last step (`stopping`); a cleanup task takes the lock twice, once to look and once to remove. What a store
answers is an argument. Sub-tasks are not jobs and are left out.
-/

namespace Freeclawdia

open Rust

/-! ## Workers and scheduler -/

/-- Has the task of a worker in this phase ended? -/
def Phase.isDone : Phase → Bool
  | .done => true
  | _ => false

/-- A spawned worker: its job, what it was given, and where it is. -/
structure WorkerTask where
  jobId : Uuid
  config : WorkerConfig
  approvalContext : Option ApprovalContext
  phase : Phase := .awaitStart
  /-- `Start` is sent before the task is registered. -/
  channel : List WorkerMessage := [.start]
  iteration : Nat := 0
  consecutiveRateLimits : Nat := 0
  aborted : Bool := false

namespace WorkerTask

/-- The worker with its job in the given state, as the worker's own model has it. -/
def view (t : WorkerTask) (job : JobState) : JobSystem where
  job
  channel := t.channel
  phase := t.phase
  iteration := t.iteration
  consecutiveRateLimits := t.consecutiveRateLimits
  aborted := t.aborted
  scheduled := false
  stop := .idle
  log := []

/-- The task after its worker took a step. -/
def update (t : WorkerTask) (s : JobSystem) : WorkerTask :=
  { t with
    phase := s.phase
    channel := s.channel
    iteration := s.iteration
    consecutiveRateLimits := s.consecutiveRateLimits }

end WorkerTask

/-- The cleanup task of a scheduled job: it polls, and once it found the worker finished, it removes. -/
structure CleanupTask where
  jobId : Uuid
  removing : Bool := false

/-- Where a call of `stop` that took a worker out of the map is. -/
inductive StopStage
  | sending
  | sleeping
  | aborting
  | updating

/-- A call of `stop` that holds the map's lock. -/
structure StopCall where
  jobId : Uuid
  handle : Nat
  stage : StopStage

/-- Schedules and manages parallel job execution. A worker's handle is its position in `workers`. -/
structure Scheduler where
  contextManager : ContextManager
  maxParallelJobs : Nat
  usePlanning : Bool := false
  jobs : Map Uuid Nat := ∅
  workers : List WorkerTask := []
  cleanups : List CleanupTask := []
  stopping : Option StopCall := none

namespace Scheduler

variable (s : Scheduler)

/-- `JoinHandle::is_finished`. -/
def isFinished (handle : Nat) : Bool :=
  match s.workers[handle]? with
  | some t => t.phase.isDone
  | none => true

/-- `max_iterations` of a job's metadata. -/
def maxIterations (jobId : Uuid) : Option Nat :=
  match s.contextManager.getContext jobId with
  | .ok ctx =>
    match ctx.metadata.get "max_iterations" with
    | some (.number (.posInt n)) => some n
    | _ => none
  | .error _ => none

/-- Schedule a job with an optional approval context. -/
def scheduleWithContext (jobId : Uuid) (approvalContext : Option ApprovalContext) (now : Time) :
    Except JobError Unit × Scheduler :=
  if (s.jobs.lookup jobId).isSome then (.ok (), s)
  else if s.maxParallelJobs ≤ s.jobs.keys.length then (.error (.maxJobsExceeded s.maxParallelJobs), s)
  else
    match s.contextManager.transition jobId .inProgress (some "Scheduled for execution") now with
    | (.error e, cm) => (.error e, { s with contextManager := cm })
    | (.ok (.error reason), cm) => (.error (.contextError jobId reason), { s with contextManager := cm })
    | (.ok (.ok ()), cm) =>
      (.ok (),
        { s with
          contextManager := cm
          jobs := s.jobs.insert jobId s.workers.length
          workers := s.workers ++
            [{ jobId, config := ⟨s.usePlanning, s.maxIterations jobId⟩, approvalContext }]
          cleanups := s.cleanups ++ [{ jobId }] })

/-! ## Dispatch -/

/-- Apply metadata if provided. -/
def applyMetadata (cm : ContextManager) (jobId : Uuid) : Option Json → Except JobError Unit × ContextManager
  | none => (.ok (), cm)
  | some metadata => cm.updateContext jobId fun ctx => ((), { ctx with metadata })

/-- Persist to the database, if there is one; `saveJob` is what `save_job` answers. -/
def persistJob (cm : ContextManager) (jobId : Uuid) (saveJob : Option (JobContext → Except String Unit)) :
    Except JobError Unit :=
  match saveJob with
  | none => .ok ()
  | some save =>
    match cm.getContext jobId with
    | .error e => .error e
    | .ok ctx => (save ctx).mapError fun e => .failed jobId ("failed to persist job: " ++ e)

/-- What a dispatch is asked for. -/
structure DispatchRequest where
  userId : String
  title : String
  description : String
  metadata : Option Json := none
  approvalContext : Option ApprovalContext := none

/-- Shared implementation for `dispatch_job` and `dispatch_job_with_context`. -/
def dispatchJobInner (newId : Uuid) (req : DispatchRequest) (saveJob : Option (JobContext → Except String Unit))
    (now : Time) : Except JobError Uuid × Scheduler :=
  match s.contextManager.createJobForUser newId req.userId req.title req.description with
  | (.error e, cm) => (.error e, { s with contextManager := cm })
  | (.ok jobId, cm) =>
    match applyMetadata cm jobId req.metadata with
    | (.error e, cm) => (.error e, { s with contextManager := cm })
    | (.ok (), cm) =>
      match persistJob cm jobId saveJob with
      | .error e => (.error e, { s with contextManager := cm })
      | .ok () =>
        match { s with contextManager := cm }.scheduleWithContext jobId req.approvalContext now with
        | (.error e, s') => (.error e, s')
        | (.ok (), s') => (.ok jobId, s')

/-! ## Stopping and cleaning up -/

/-- `stop` is called: it takes the worker out of the map, if it is there, and keeps the lock. -/
def stopCall (jobId : Uuid) : Scheduler :=
  match s.jobs.lookup jobId with
  | some handle => { s with jobs := s.jobs.erase jobId, stopping := some ⟨jobId, handle, .sending⟩ }
  | none => s

/-- Change a worker task. -/
def modifyWorker (handle : Nat) (f : WorkerTask → WorkerTask) : Scheduler :=
  { s with workers := s.workers.modify handle f }

/-- Is there room in the worker's channel? -/
def channelHasRoom (handle : Nat) : Bool :=
  match s.workers[handle]? with
  | some t => decide (t.channel.length < CHANNEL_CAPACITY)
  | none => false

/-- The next step of `stop`. -/
def stopStep (now : Time) : Option Scheduler :=
  match s.stopping with
  | none => none
  | some ⟨jobId, handle, .sending⟩ =>
    -- a failed send, to a worker that is gone, is ignored; a full channel is waited for
    if s.isFinished handle then some { s with stopping := some ⟨jobId, handle, .sleeping⟩ }
    else if s.channelHasRoom handle then
      some { s.modifyWorker handle (fun t => { t with channel := t.channel ++ [.stop] }) with
        stopping := some ⟨jobId, handle, .sleeping⟩ }
    else none
  | some ⟨jobId, handle, .sleeping⟩ => some { s with stopping := some ⟨jobId, handle, .aborting⟩ }
  | some ⟨jobId, handle, .aborting⟩ =>
    if s.isFinished handle then some { s with stopping := some ⟨jobId, handle, .updating⟩ }
    else
      some { s.modifyWorker handle (fun t => { t with aborted := true }) with
        stopping := some ⟨jobId, handle, .updating⟩ }
  | some ⟨jobId, _, .updating⟩ =>
    some { s with
      contextManager := (s.contextManager.transition jobId .cancelled (some "Stopped by scheduler") now).2
      stopping := none }

/-- Clean up finished jobs. -/
def cleanupFinished : Scheduler :=
  { s with jobs := Map.retain (fun _ handle => !s.isFinished handle) s.jobs }

/-- A cleanup task looks: is the job's worker finished, or gone from the map? -/
def cleanupLooks (jobId : Uuid) : Bool :=
  match s.jobs.lookup jobId with
  | some handle => s.isFinished handle
  | none => true

end Scheduler

/-! ## Self-repair -/

/-- A job that was found stuck. -/
structure StuckJob where
  jobId : Uuid
  repairAttempts : Nat

/-- Result of a repair attempt. -/
inductive RepairResult
  | success (message : String)
  | retry (message : String)
  | manualRequired (message : String)

/-- `DefaultSelfRepair::repair_stuck_job`. It changes the job's state and schedules nothing. -/
def repairStuckJob (cm : ContextManager) (maxRepairAttempts : Nat) (job : StuckJob) (now : Time) :
    Except JobError RepairResult × ContextManager :=
  if maxRepairAttempts ≤ job.repairAttempts then
    (.ok (.manualRequired ("Job " ++ Uuid.toString job.jobId ++ " has exceeded maximum repair attempts ("
      ++ toString maxRepairAttempts ++ ")")), cm)
  else
    match cm.recover job.jobId now with
    | (.ok (.ok ()), cm) =>
      (.ok (.success ("Job " ++ Uuid.toString job.jobId ++ " recovered and will be retried")), cm)
    | (.ok (.error e), cm) => (.ok (.retry ("Recovery attempt failed: " ++ e)), cm)
    | (.error e, cm) => (.error e, cm)

/-! ## Interleavings -/

/-- What happens next, and when. -/
inductive SchedulerStep
  /-- The first part of a dispatch: the context, with its metadata. -/
  | create (newId : Uuid) (req : Scheduler.DispatchRequest)
  /-- `schedule`, or the last part of a dispatch. -/
  | schedule (jobId : Uuid) (approvalContext : Option ApprovalContext)
  /-- A worker goes on. -/
  | work (handle : Nat) (answer : Answer)
  /-- The job's timeout strikes, a worker panics, an aborted task ends. -/
  | timeout (handle : Nat)
  | panic (handle : Nat)
  | cancel (handle : Nat)
  | stopCall (jobId : Uuid)
  | stopStep
  | cleanupFinished
  /-- A cleanup task looks, or removes. -/
  | cleanupTest (index : Nat)
  | cleanupRemove (index : Nat)
  | repair (maxRepairAttempts : Nat) (job : StuckJob)
  /-- A follow-up message of the user, through a sender that was cloned while the job was in the map. -/
  | send (handle : Nat) (content : String)

namespace Scheduler

variable (s : Scheduler)

/-- A worker's step: it reads the job's state, and marks it where its own step does. -/
def workStep (handle : Nat) (answer : Answer) (now : Time) : Option Scheduler :=
  match s.workers[handle]? with
  | none => none
  | some t =>
    match s.contextManager.state t.jobId with
    | none => none
    | some job =>
      match (t.view job).workerStep t.config answer with
      | none => none
      | some v =>
        some { s.modifyWorker handle (·.update v) with
          contextManager :=
            if v.job = job then s.contextManager
            else (s.contextManager.transition t.jobId v.job none now).2 }

/-- A worker that has not ended moves to a phase. -/
def moveWorker (handle : Nat) (allowed : WorkerTask → Bool) (p : Phase) : Option Scheduler :=
  match s.workers[handle]? with
  | some t => if allowed t && !t.phase.isDone then some (s.modifyWorker handle fun t => { t with phase := p }) else none
  | none => none

/-- One step at time `now`, where it is enabled. What takes the map's lock waits for a `stop` that has it. -/
def step (s : Scheduler) : SchedulerStep × Time → Option Scheduler
  | (.create newId req, _) =>
    -- `Uuid::new_v4` does not repeat an identifier
    if (s.contextManager.contexts.lookup newId).isSome then none
    else
      match s.contextManager.createJobForUser newId req.userId req.title req.description with
      | (.error _, _) => some s
      | (.ok jobId, cm) => some { s with contextManager := (applyMetadata cm jobId req.metadata).2 }
  | (.schedule jobId approvalContext, now) =>
    if s.stopping.isSome then none else some (s.scheduleWithContext jobId approvalContext now).2
  | (.work handle answer, now) => s.workStep handle answer now
  | (.timeout handle, _) => s.moveWorker handle (fun t => t.phase.inLoop) (.finalMark .stuck)
  | (.panic handle, _) => s.moveWorker handle (fun _ => true) .done
  | (.cancel handle, _) => s.moveWorker handle (fun t => t.aborted) .done
  | (.stopCall jobId, _) => if s.stopping.isSome then none else some (s.stopCall jobId)
  | (.stopStep, now) => s.stopStep now
  | (.cleanupFinished, _) => if s.stopping.isSome then none else some s.cleanupFinished
  | (.cleanupTest index, _) =>
    match s.cleanups[index]? with
    | some ⟨jobId, false⟩ =>
      if s.stopping.isSome then none
      else some { s with cleanups := s.cleanups.set index ⟨jobId, s.cleanupLooks jobId⟩ }
    | _ => none
  | (.cleanupRemove index, _) =>
    match s.cleanups[index]? with
    | some ⟨jobId, true⟩ =>
      if s.stopping.isSome then none
      else some { s with jobs := s.jobs.erase jobId, cleanups := s.cleanups.eraseIdx index }
    | _ => none
  | (.repair maxRepairAttempts job, now) =>
    some { s with contextManager := (repairStuckJob s.contextManager maxRepairAttempts job now).2 }
  | (.send handle content, _) =>
    if s.channelHasRoom handle && !s.isFinished handle then
      some (s.modifyWorker handle fun t => { t with channel := t.channel ++ [.userMessage content] })
    else none

end Scheduler

/-- A scheduler that has just been created. -/
def Scheduler.new (maxJobs maxParallelJobs : Nat) (usePlanning : Bool) : Scheduler :=
  { contextManager := { maxJobs }, maxParallelJobs, usePlanning }

end Freeclawdia
