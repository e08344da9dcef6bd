import Freeclawdia.Agent.Worker
import Freeclawdia.Lib.Runs

/-!
# `Correctness.Stopping` — when stopping a job stops it

A worker that takes `Stop` from its channel just returns `Ok(())`, which its callers also get from an interrupted
plan and from a loop that is finished. So what happens next depends on a race: if the scheduler has cancelled the
job by the time the worker looks at its state again, all is well; if not, the plan's caller goes on with the
direct loop and `run` marks the job completed, which the scheduler's own transition then cannot undo.

`Timely` says that the race ends well, as a condition on the state before each of the worker's steps. In every run
whose steps are timely nothing is done after a stop, and a stopped job is cancelled.
-/

namespace Freeclawdia.Stopping

/-! ## What one step of the worker can do -/

/-- The state a phase is about to mark. -/
def marks : Phase → Option JobState
  | .mark target _ => some target
  | .finalMark target => some target
  | _ => none

/-- The phases in which a worker that took `Stop` may be: it looks at the job, gives up, or is done. -/
def Quiet (p : Phase) : Prop := p = .planCheck ∨ p = .finalCheck ∨ p = .finalMark .stuck ∨ p = .done

/-- The states a worker marks. -/
def Marked (st : JobState) : Prop := st = .completed ∨ st = .failed ∨ st = .stuck

/-- An LLM call or a tool. -/
def IsCall (e : JobEvent) : Prop := e = .llmCall ∨ ∃ name, e = .toolRun name

/-- What a worker's step leaves alone. -/
structure Framed (s s' : JobSystem) : Prop where
  stop : s'.stop = s.stop
  scheduled : s'.scheduled = s.scheduled
  aborted : s'.aborted = s.aborted
  channel : .stop ∈ s'.channel → .stop ∈ s.channel

/-- The kinds of steps a worker takes. -/
inductive WorkerEffect (s s' : JobSystem) : Prop
  /-- It goes on working, perhaps with a call. -/
  | busy (hphase : ¬ Quiet s.phase) (hjob : s'.job = s.job)
      (hlog : s'.log = s.log ∨ ∃ e, IsCall e ∧ s'.log = s.log ++ [e]) (hnext : s'.phase ≠ .done)
      (hmarks : ∀ st, marks s'.phase = some st → Marked st)
  /-- It takes `Stop` from its channel. -/
  | took (hphase : ¬ Quiet s.phase) (hmsg : .stop ∈ s.channel) (hjob : s'.job = s.job)
      (hlog : s'.log = s.log ++ [.tookStop])
      (hnext : s'.phase = .planCheck ∨ s'.phase = .finalCheck ∨ s'.phase = .done)
  /-- It looks at the job. -/
  | looked (hphase : s.phase = .planCheck ∨ s.phase = .finalCheck) (hjob : s'.job = s.job) (hlog : s'.log = s.log)
      (hsettled : s.job.settled = true → s'.phase = .finalCheck ∨ s'.phase = .done)
      (hactive : s.job.settled = false → s'.phase = .drain ∨ s'.phase = .finalMark .completed)
  /-- It marks the job. -/
  | marked (target : JobState) (hphase : marks s.phase = some target)
      (hcan : s.job.canTransitionTo target = true) (hjob : s'.job = target)
      (hlog : s'.log = s.log ++ [.entered target])
      (hnext : s'.phase = .planCheck ∨ s'.phase = .finalCheck ∨ s'.phase = .done)
  /-- It cannot mark the job: an error, which `run` tries to mark as a failure, or the end. -/
  | unmarked (target : JobState) (hphase : marks s.phase = some target)
      (hcan : s.job.canTransitionTo target = false) (hjob : s'.job = s.job) (hlog : s'.log = s.log)
      (hnext : (∃ b, s.phase = .mark target b) ∧ s'.phase = .finalMark .failed ∨ s'.phase = .done)

theorem toolStep_cases (s : JobSystem) (task : ToolTask) (progress : ToolProgress) :
    (s.toolStep task progress).2 = s ∨ ∃ name, (s.toolStep task progress).2 = s.emit (.toolRun name) := by
  unfold JobSystem.toolStep
  split
  · exact Or.inl rfl
  · exact Or.inl rfl
  · exact Or.inl rfl
  · split
    · exact Or.inl rfl
    · exact Or.inr ⟨_, rfl⟩
  · exact Or.inl rfl

variable {s s' : JobSystem} {s₁ : JobSystem}

/-- A step that goes on: some call or none, then the next phase. -/
theorem busy_step (hphase : ¬ Quiet s.phase) (hcall : s₁ = s ∨ s₁ = s.popChannel ∨ ∃ e, IsCall e ∧ s₁ = s.emit e)
    (hframe : s'.job = s₁.job ∧ s'.log = s₁.log ∧ s'.stop = s₁.stop ∧ s'.scheduled = s₁.scheduled ∧
      s'.aborted = s₁.aborted ∧ s'.channel = s₁.channel)
    (hnext : s'.phase ≠ .done) (hmarks : ∀ st, marks s'.phase = some st → Marked st) :
    Framed s s' ∧ WorkerEffect s s' := by
  obtain ⟨hjob, hlog, hstop, hsched, habort, hchan⟩ := hframe
  rcases hcall with rfl | rfl | ⟨e, he, rfl⟩
  · exact ⟨⟨hstop, hsched, habort, fun h => hchan ▸ h⟩, .busy hphase hjob (Or.inl hlog) hnext hmarks⟩
  · refine ⟨⟨hstop, hsched, habort, fun h => ?_⟩, .busy hphase hjob (Or.inl hlog) hnext hmarks⟩
    rw [hchan] at h
    exact List.mem_of_mem_tail h
  · exact ⟨⟨hstop, hsched, habort, fun h => hchan ▸ h⟩, .busy hphase hjob (Or.inr ⟨e, he, hlog⟩) hnext hmarks⟩

variable {p : Phase}

theorem busy_goto (hphase : ¬ Quiet s.phase) (hcall : s₁ = s ∨ s₁ = s.popChannel ∨ ∃ e, IsCall e ∧ s₁ = s.emit e)
    (hnext : p ≠ .done) (hmarks : ∀ st, marks p = some st → Marked st) :
    Framed s (s₁.goto p) ∧ WorkerEffect s (s₁.goto p) :=
  busy_step hphase hcall ⟨rfl, rfl, rfl, rfl, rfl, rfl⟩ hnext hmarks

/-- A step that takes `Stop`. -/
theorem took_step {rest : List WorkerMessage} (hphase : ¬ Quiet s.phase) (hmsg : s.channel = .stop :: rest)
    (hnext : p = .planCheck ∨ p = .finalCheck ∨ p = .done) :
    Framed s ((s.popChannel.emit .tookStop).goto p) ∧ WorkerEffect s ((s.popChannel.emit .tookStop).goto p) := by
  have hmem : .stop ∈ s.channel := by simp [hmsg]
  exact ⟨⟨rfl, rfl, rfl, fun _ => hmem⟩, .took hphase hmem rfl rfl hnext⟩

theorem framed_goto (s : JobSystem) (p : Phase) : Framed s (s.goto p) := ⟨rfl, rfl, rfl, id⟩

theorem framed_transitionTo (s : JobSystem) (target : JobState) (p : Phase) :
    Framed s ((s.transitionTo target).goto p) := by
  unfold JobSystem.transitionTo
  split
  · exact ⟨rfl, rfl, rfl, id⟩
  · exact framed_goto s p

theorem rateLimited_phase (s : JobSystem) :
    s.rateLimited.phase ≠ .done ∧ ∀ st, marks s.rateLimited.phase = some st → Marked st := by
  unfold JobSystem.rateLimited
  split
  · simp [marks, Marked]
  · simp [marks]

theorem rateLimited_frame (s : JobSystem) :
    s.rateLimited.job = s.job ∧ s.rateLimited.log = s.log ∧ s.rateLimited.stop = s.stop ∧
      s.rateLimited.scheduled = s.scheduled ∧ s.rateLimited.aborted = s.aborted ∧
      s.rateLimited.channel = s.channel := by
  unfold JobSystem.rateLimited
  split
  · simp
  · simp

variable {cfg : WorkerConfig} {a : Answer}

/-- **Inversion**: every step of the worker is of one of the kinds. -/
theorem workerStep_effect (h : s.workerStep cfg a = some s') : Framed s s' ∧ WorkerEffect s s' := by
  have hllm : ∃ e, IsCall e ∧ s.emit .llmCall = s.emit e := ⟨_, Or.inl rfl, rfl⟩
  have htool : ∀ task progress, (s.toolStep task progress).2 = s ∨ (s.toolStep task progress).2 = s.popChannel ∨
      ∃ e, IsCall e ∧ (s.toolStep task progress).2 = s.emit e := by
    intro task progress
    rcases toolStep_cases s task progress with h | ⟨name, h⟩
    · exact Or.inl h
    · exact Or.inr (Or.inr ⟨_, Or.inr ⟨name, rfl⟩, h⟩)
  have hlimited := rateLimited_phase (s.emit .llmCall)
  unfold JobSystem.workerStep at h
  split at h
  · -- waiting for the start signal
    next hp =>
      have hq : ¬ Quiet s.phase := by simp [Quiet, hp]
      split at h
      · cases h
      · next rest hc =>
          cases h
          exact took_step hq hc (Or.inr (Or.inr rfl))
      · cases h
        apply busy_goto hq (Or.inr (Or.inl rfl))
        · cases cfg.usePlanning <;> simp
        · cases cfg.usePlanning <;> simp [marks]
  · -- the plan arrives, or fails
    next r hp =>
      have hq : ¬ Quiet s.phase := by simp [Quiet, hp]
      split at h
      · cases h
        exact busy_goto hq (Or.inr (Or.inr hllm)) (by simp) (by simp [marks])
      · cases h
        exact busy_goto hq (Or.inr (Or.inr hllm)) (by simp) (by simp [marks])
  · -- no action is left
    next hp =>
      have hq : ¬ Quiet s.phase := by simp [Quiet, hp]
      cases h
      exact busy_goto hq (Or.inl rfl) (by simp) (by simp [marks])
  · -- before an action of the plan
    next action actions hp =>
      have hq : ¬ Quiet s.phase := by simp [Quiet, hp]
      split at h
      · cases h
        exact busy_goto hq (Or.inl rfl) (by simp) (by simp [marks])
      · next rest hc =>
          cases h
          exact took_step hq hc (Or.inl rfl)
      · cases h
        exact busy_goto hq (Or.inr (Or.inl rfl)) (by simp) (by simp [marks])
      · cases h
        exact busy_step hq (Or.inr (Or.inl rfl)) ⟨rfl, rfl, rfl, rfl, rfl, rfl⟩
          (by simp [JobSystem.popChannel, hp]) (by simp [JobSystem.popChannel, hp, marks])
  · -- an action goes on
    next task actions index progress hp =>
      have hq : ¬ Quiet s.phase := by simp [Quiet, hp]
      cases h
      exact busy_goto hq (htool task progress) (by simp) (by simp [marks])
  · -- an action is finished
    next task actions hp =>
      have hq : ¬ Quiet s.phase := by simp [Quiet, hp]
      split at h
      · cases h
        exact busy_goto hq (Or.inl rfl) (by simp) (by simp [marks])
      · cases h
  · -- the LLM is asked about the executed plan
    next r hp =>
      have hq : ¬ Quiet s.phase := by simp [Quiet, hp]
      split at h
      · cases h
        apply busy_goto hq (Or.inr (Or.inr hllm))
        · split <;> simp
        · split <;> simp [marks, Marked]
      · cases h
        exact busy_goto hq (Or.inr (Or.inr hllm)) (by simp) (by simp [marks, Marked])
  · -- after the plan
    next hp =>
      cases h
      refine ⟨framed_goto s _, .looked (Or.inl hp) rfl rfl ?_ ?_⟩
      · intro hs
        simp [JobSystem.goto, hs]
      · intro hs
        simp [JobSystem.goto, hs]
  · -- the top of the direct loop
    next hp =>
      have hq : ¬ Quiet s.phase := by simp [Quiet, hp]
      split at h
      · cases h
        exact busy_goto hq (Or.inl rfl) (by simp) (by simp [marks])
      · next rest hc =>
          cases h
          exact took_step hq hc (Or.inr (Or.inl rfl))
      · cases h
        exact busy_step hq (Or.inr (Or.inl rfl)) ⟨rfl, rfl, rfl, rfl, rfl, rfl⟩
          (by simp [JobSystem.popChannel, hp]) (by simp [JobSystem.popChannel, hp, marks])
  · -- the check for cancellation
    next hp =>
      have hq : ¬ Quiet s.phase := by simp [Quiet, hp]
      split at h
      · cases h
        exact busy_goto hq (Or.inl rfl) (by simp) (by simp [marks])
      · split at h
        · cases h
          exact busy_step hq (Or.inl rfl) ⟨rfl, rfl, rfl, rfl, rfl, rfl⟩ (by simp [JobSystem.goto])
            (by simp [JobSystem.goto, marks, Marked])
        · cases h
          exact busy_step hq (Or.inl rfl) ⟨rfl, rfl, rfl, rfl, rfl, rfl⟩ (by simp [JobSystem.goto])
            (by simp [JobSystem.goto, marks])
  · -- tools are selected
    next r hp =>
      have hq : ¬ Quiet s.phase := by simp [Quiet, hp]
      split at h
      · cases h
        exact busy_goto hq (Or.inr (Or.inr hllm)) (by simp) (by simp [marks])
      · cases h
        exact busy_goto hq (Or.inr (Or.inr hllm)) (by simp [JobSystem.startTools])
          (by simp [JobSystem.startTools, marks])
      · cases h
        exact busy_step hq (Or.inr (Or.inr hllm)) (rateLimited_frame _) hlimited.1 hlimited.2
      · cases h
        exact busy_goto hq (Or.inr (Or.inr hllm)) (by simp) (by simp [marks, Marked])
  · -- the LLM responds
    next r hp =>
      have hq : ¬ Quiet s.phase := by simp [Quiet, hp]
      split at h
      · split at h
        · cases h
          exact busy_goto hq (Or.inr (Or.inr hllm)) (by simp) (by simp [marks, Marked])
        · cases h
          exact busy_step hq (Or.inr (Or.inr hllm)) ⟨rfl, rfl, rfl, rfl, rfl, rfl⟩
            (by simp [JobSystem.endIteration]) (by simp [JobSystem.endIteration, marks])
      · cases h
        exact busy_goto hq (Or.inr (Or.inr hllm)) (by simp [JobSystem.startTools])
          (by simp [JobSystem.startTools, marks])
      · cases h
        exact busy_step hq (Or.inr (Or.inr hllm)) (rateLimited_frame _) hlimited.1 hlimited.2
      · cases h
        exact busy_goto hq (Or.inr (Or.inr hllm)) (by simp) (by simp [marks, Marked])
  · -- a tool goes on
    next tasks index progress hp =>
      have hq : ¬ Quiet s.phase := by simp [Quiet, hp]
      split at h
      · next task _ =>
          cases h
          exact busy_goto hq (htool task progress) (by simp) (by simp [marks])
      · cases h
  · -- all tools are finished
    next tasks hp =>
      have hq : ¬ Quiet s.phase := by simp [Quiet, hp]
      split at h
      · cases h
        exact busy_step hq (Or.inl rfl) ⟨rfl, rfl, rfl, rfl, rfl, rfl⟩ (by simp [JobSystem.endIteration])
          (by simp [JobSystem.endIteration, marks])
      · cases h
  · -- marking the job inside the loop
    next target inPlan hp =>
      have hmark : marks s.phase = some target := by simp [marks, hp]
      split at h
      · next hcan =>
          cases h
          refine ⟨framed_transitionTo s target _, ?_⟩
          apply WorkerEffect.marked target hmark hcan
          · simp [JobSystem.transitionTo, JobSystem.goto, hcan]
          · simp [JobSystem.transitionTo, JobSystem.goto, hcan]
          · cases inPlan <;> simp [JobSystem.goto]
      · next hcan =>
          cases h
          refine ⟨framed_goto s _, .unmarked target hmark (by simpa using hcan) rfl rfl ?_⟩
          exact Or.inl ⟨⟨inPlan, hp⟩, rfl⟩
  · -- `run` looks at the job
    next hp =>
      cases h
      refine ⟨framed_goto s _, .looked (Or.inr hp) rfl rfl ?_ ?_⟩
      · intro hs
        simp [JobSystem.goto, hs]
      · intro hs
        simp [JobSystem.goto, hs]
  · -- `run` marks the job
    next target hp =>
      have hmark : marks s.phase = some target := by simp [marks, hp]
      cases h
      refine ⟨framed_transitionTo s target _, ?_⟩
      by_cases hcan : s.job.canTransitionTo target = true
      · apply WorkerEffect.marked target hmark hcan
        · simp [JobSystem.transitionTo, JobSystem.goto, hcan]
        · simp [JobSystem.transitionTo, JobSystem.goto, hcan]
        · simp [JobSystem.goto]
      · apply WorkerEffect.unmarked target hmark (by simpa using hcan)
        · simp [JobSystem.transitionTo, JobSystem.goto, hcan]
        · simp [JobSystem.transitionTo, JobSystem.goto, hcan]
        · simp [JobSystem.goto]
  · cases h

/-! ## What a run's log shows -/

/-- After `Stop` was taken there is no LLM call, no tool, and the job does not enter `Completed`. -/
def NothingAfterStop (log : List JobEvent) : Prop :=
  ∀ pre post, log = pre ++ .tookStop :: post → ∀ e ∈ post, ¬ IsCall e ∧ e ≠ .entered .completed

/-- When a stop of a job that was in progress returned, the job was cancelled. -/
def StopsCancel (log : List JobEvent) : Prop :=
  ∀ was now, .stopReturned was now ∈ log → was = .inProgress → now = .cancelled

variable {e : JobEvent} {log : List JobEvent}

theorem nothingAfterStop_snoc (h : NothingAfterStop log) (he : .tookStop ∈ log → ¬ IsCall e ∧ e ≠ .entered .completed) :
    NothingAfterStop (log ++ [e]) := by
  intro pre post heq x hx
  rcases List.eq_nil_or_concat post with rfl | ⟨post', last, rfl⟩
  · simp at hx
  · rw [List.concat_eq_append] at heq hx
    have hsplit : log ++ [e] = (pre ++ .tookStop :: post') ++ [last] := by simpa using heq
    obtain ⟨hlog, hlast⟩ := List.append_inj' hsplit rfl
    injection hlast with hlast _
    rcases List.mem_append.mp hx with hx | hx
    · exact h pre post' hlog x hx
    · rw [List.mem_singleton.mp hx, ← hlast]
      apply he
      rw [hlog]
      simp

theorem stopsCancel_snoc (h : StopsCancel log)
    (he : ∀ was now, e = .stopReturned was now → was = .inProgress → now = .cancelled) : StopsCancel (log ++ [e]) := by
  intro was now hmem hwas
  rcases List.mem_append.mp hmem with hmem | hmem
  · exact h was now hmem hwas
  · exact he was now (List.mem_singleton.mp hmem).symm hwas

/-! ## Runs whose steps are timely -/

/-- The stop is under way and has not yet moved the job. -/
def Pending (p : StopPhase) (was : JobState) : Prop :=
  p = .sending was ∨ p = .sleeping was ∨ p = .aborting was ∨ p = .updating was

/-- **The condition on a step.** A worker that took `Stop` finds the job settled when it looks at it again, after
    its plan and at the end; and while a stop is under way the worker does not complete or fail the job. -/
structure Timely (s : JobSystem) (l : JobStep) : Prop where
  settles : ∀ a, l = .work a → .tookStop ∈ s.log → s.phase = .planCheck ∨ s.phase = .finalCheck →
    s.job.settled = true
  yields : ∀ a, l = .work a → ∀ was target, Pending s.stop was → marks s.phase = some target → target ≠ .stuck →
    s.job.canTransitionTo target = false

/-- The worker is gone or going, or a stop has reached for the job. -/
def Orphaned (s : JobSystem) : Prop :=
  s.phase = .done ∨ .stop ∈ s.channel ∨ s.aborted = true ∨ .tookStop ∈ s.log ∨ s.scheduled = false

/-- **The invariant.** -/
structure Inv (s : JobSystem) : Prop where
  job : s.job = .inProgress ∨ Marked s.job ∨ s.job = .cancelled
  marks : ∀ st, marks s.phase = some st → Marked st
  quiet : .tookStop ∈ s.log → Quiet s.phase
  nothing : NothingAfterStop s.log
  stopping : ∀ was, Pending s.stop was → was = .inProgress →
    s.job = .inProgress ∨ s.job = .stuck ∨ s.job = .cancelled
  returning : ∀ was, s.stop = .returning was → was = .inProgress → s.job = .cancelled
  held : Orphaned s → (∃ was, Pending s.stop was) ∨ s.job ≠ .inProgress
  cancels : StopsCancel s.log

theorem inv_scheduledJob : Inv .scheduledJob where
  job := Or.inl rfl
  marks := by simp [JobSystem.scheduledJob, Stopping.marks]
  quiet := by simp [JobSystem.scheduledJob]
  nothing := by
    intro pre post h
    simp [JobSystem.scheduledJob] at h
  stopping := by simp [JobSystem.scheduledJob, Pending]
  returning := by simp [JobSystem.scheduledJob]
  held := by simp [JobSystem.scheduledJob, Orphaned]
  cancels := by
    intro was now h
    simp [JobSystem.scheduledJob] at h

/-- From a state in progress a worker can mark whatever it marks. -/
theorem marked_allowed {target : JobState} (h : Marked target) : JobState.inProgress.canTransitionTo target = true := by
  rcases h with rfl | rfl | rfl <;> rfl

variable {st : JobState}

theorem settled_ne_inProgress (h : st.settled = true) : st ≠ .inProgress := by
  rintro rfl
  cases h

theorem cancelled_stays (target : JobState) : JobState.cancelled.canTransitionTo target = false := by
  cases target <;> rfl

theorem Marked.ne_inProgress (h : Marked st) : st ≠ .inProgress := by
  rcases h with rfl | rfl | rfl <;> simp

/-- A framed step that keeps the log's stops orphans nothing new, except by ending. -/
theorem orphaned_of_framed (hframe : Framed s s') (hlog : .tookStop ∈ s'.log → .tookStop ∈ s.log) (h : Orphaned s') :
    s'.phase = .done ∨ Orphaned s := by
  rcases h with h | h | h | h | h
  · exact Or.inl h
  · exact Or.inr (Or.inr (Or.inl (hframe.channel h)))
  · exact Or.inr (Or.inr (Or.inr (Or.inl (hframe.aborted ▸ h))))
  · exact Or.inr (Or.inr (Or.inr (Or.inr (Or.inl (hlog h)))))
  · exact Or.inr (Or.inr (Or.inr (Or.inr (Or.inr (hframe.scheduled ▸ h)))))

/-- **The worker's steps keep the invariant.** -/
theorem inv_work (hinv : Inv s) (htime : Timely s (.work a)) (h : s.workerStep cfg a = some s') : Inv s' := by
  obtain ⟨hframe, heffect⟩ := workerStep_effect h
  cases heffect with
  | busy hphase hjob hlog hnext hmarks =>
    have hnot : .tookStop ∉ s.log := fun hm => hphase (hinv.quiet hm)
    have hlog' : .tookStop ∈ s'.log → .tookStop ∈ s.log := by
      rcases hlog with hlog | ⟨e, he, hlog⟩
      · rw [hlog]
        exact id
      · rw [hlog]
        intro hm
        rcases List.mem_append.mp hm with hm | hm
        · exact hm
        · rcases he with rfl | ⟨name, rfl⟩ <;> simp at hm
    refine ⟨by rw [hjob]; exact hinv.job, hmarks, fun hm => absurd (hlog' hm) hnot, ?_, ?_, ?_, ?_, ?_⟩
    · rcases hlog with hlog | ⟨e, _, hlog⟩
      · rw [hlog]
        exact hinv.nothing
      · rw [hlog]
        exact nothingAfterStop_snoc hinv.nothing fun hm => absurd hm hnot
    · rw [hframe.stop, hjob]
      exact hinv.stopping
    · rw [hframe.stop, hjob]
      exact hinv.returning
    · intro ho
      rw [hframe.stop, hjob]
      rcases orphaned_of_framed hframe hlog' ho with hdone | ho
      · exact absurd hdone hnext
      · exact hinv.held ho
    · rcases hlog with hlog | ⟨e, he, hlog⟩
      · rw [hlog]
        exact hinv.cancels
      · rw [hlog]
        apply stopsCancel_snoc hinv.cancels
        rcases he with rfl | ⟨name, rfl⟩ <;> simp
  | took hphase hmsg hjob hlog hnext =>
    have hnot : .tookStop ∉ s.log := fun hm => hphase (hinv.quiet hm)
    refine ⟨by rw [hjob]; exact hinv.job, ?_, ?_, ?_, ?_, ?_, ?_, ?_⟩
    · intro st
      rcases hnext with hn | hn | hn <;> simp [hn, marks]
    · intro _
      rcases hnext with hn | hn | hn <;> simp [hn, Quiet]
    · rw [hlog]
      exact nothingAfterStop_snoc hinv.nothing fun hm => absurd hm hnot
    · rw [hframe.stop, hjob]
      exact hinv.stopping
    · rw [hframe.stop, hjob]
      exact hinv.returning
    · -- there was a `Stop` to take
      intro _
      rw [hframe.stop, hjob]
      exact hinv.held (Or.inr (Or.inl hmsg))
    · rw [hlog]
      exact stopsCancel_snoc hinv.cancels (by simp)
  | looked hphase hjob hlog hsettled hactive =>
    have hlog' : .tookStop ∈ s'.log → .tookStop ∈ s.log := by rw [hlog]; exact id
    refine ⟨by rw [hjob]; exact hinv.job, ?_, ?_, by rw [hlog]; exact hinv.nothing, ?_, ?_, ?_,
      by rw [hlog]; exact hinv.cancels⟩
    · intro st hst
      cases hs : s.job.settled with
      | true => rcases hsettled hs with hn | hn <;> simp [hn, marks] at hst
      | false =>
        rcases hactive hs with hn | hn
        · simp [hn, marks] at hst
        · simp [hn, marks] at hst
          exact Or.inl hst.symm
    · -- the race: the job must be settled already
      intro hm
      have hs := htime.settles a rfl (hlog' hm) hphase
      rcases hsettled hs with hn | hn <;> simp [hn, Quiet]
    · rw [hframe.stop, hjob]
      exact hinv.stopping
    · rw [hframe.stop, hjob]
      exact hinv.returning
    · intro ho
      rw [hframe.stop, hjob]
      rcases orphaned_of_framed hframe hlog' ho with hdone | ho
      · right
        cases hs : s.job.settled with
        | true => exact settled_ne_inProgress hs
        | false => rcases hactive hs with hn | hn <;> simp [hn] at hdone
      · exact hinv.held ho
  | marked target hphase hcan hjob hlog hnext =>
    have htarget := hinv.marks target hphase
    refine ⟨by rw [hjob]; exact Or.inr (Or.inl htarget), ?_, ?_, ?_, ?_, ?_, ?_, ?_⟩
    · intro st
      rcases hnext with hn | hn | hn <;> simp [hn, marks]
    · intro _
      rcases hnext with hn | hn | hn <;> simp [hn, Quiet]
    · rw [hlog]
      apply nothingAfterStop_snoc hinv.nothing
      intro hm
      -- the only mark left to a worker that took `Stop` is "stuck"
      have hstuck : target = .stuck := by
        rcases hinv.quiet hm with hp | hp | hp | hp <;> simp [hp, marks] at hphase
        exact hphase.symm
      simp [hstuck, IsCall]
    · rw [hframe.stop, hjob]
      intro was hpend _
      by_cases hstuck : target = .stuck
      · exact Or.inr (Or.inl hstuck)
      · rw [htime.yields a rfl was target hpend hphase hstuck] at hcan
        cases hcan
    · rw [hframe.stop]
      intro was hret hwas
      rw [hinv.returning was hret hwas, cancelled_stays] at hcan
      cases hcan
    · intro _
      rw [hjob]
      exact Or.inr htarget.ne_inProgress
    · rw [hlog]
      exact stopsCancel_snoc hinv.cancels (by simp)
  | unmarked target hphase hcan hjob hlog hnext =>
    have hlog' : .tookStop ∈ s'.log → .tookStop ∈ s.log := by rw [hlog]; exact id
    refine ⟨by rw [hjob]; exact hinv.job, ?_, ?_, by rw [hlog]; exact hinv.nothing, ?_, ?_, ?_,
      by rw [hlog]; exact hinv.cancels⟩
    · intro st
      rcases hnext with ⟨_, hn⟩ | hn
      · simp only [hn, marks, Option.some.injEq]
        rintro rfl
        exact Or.inr (Or.inl rfl)
      · simp [hn, marks]
    · intro hm
      rcases hnext with ⟨⟨b, hp⟩, _⟩ | hn
      · rcases hinv.quiet (hlog' hm) with hq | hq | hq | hq <;> simp [hp] at hq
      · simp [hn, Quiet]
    · rw [hframe.stop, hjob]
      exact hinv.stopping
    · rw [hframe.stop, hjob]
      exact hinv.returning
    · intro ho
      rw [hframe.stop, hjob]
      right
      intro hin
      rw [hin, marked_allowed (hinv.marks target hphase)] at hcan
      cases hcan

/-- A change of the worker's phase alone, to one that is quiet. -/
theorem inv_goto (hinv : Inv s) (hquiet : Quiet p) (hdone : p = .done → Orphaned s) : Inv (s.goto p) where
  job := hinv.job
  marks := by
    intro st hst
    rcases hquiet with hp | hp | hp | hp <;> simp [JobSystem.goto, hp, Stopping.marks] at hst
    exact Or.inr (Or.inr hst.symm)
  quiet := fun _ => hquiet
  nothing := hinv.nothing
  stopping := hinv.stopping
  returning := hinv.returning
  held := by
    rintro (h | h)
    · exact hinv.held (hdone h)
    · exact hinv.held (Or.inr h)
  cancels := hinv.cancels

/-- The scheduler moves within a stop that is under way. -/
theorem inv_stop_pending (hinv : Inv s) {was : JobState} (hpend : Pending s.stop was) (hpend' : Pending s'.stop was)
    (hjob : s'.job = s.job) (hphase : s'.phase = s.phase) (hlog : s'.log = s.log) : Inv s' where
  job := by rw [hjob]; exact hinv.job
  marks := by rw [hphase]; exact hinv.marks
  quiet := by rw [hphase, hlog]; exact hinv.quiet
  nothing := by rw [hlog]; exact hinv.nothing
  stopping := by
    intro was' hp hwas
    have heq : was' = was := by rcases hp with hp | hp | hp | hp <;> rcases hpend' with hq | hq | hq | hq <;> simp_all
    rw [hjob]
    exact hinv.stopping was hpend (heq ▸ hwas)
  returning := by
    intro was' hret
    rcases hpend' with hq | hq | hq | hq <;> simp [hq] at hret
  held := fun _ => Or.inl ⟨was, hpend'⟩
  cancels := by rw [hlog]; exact hinv.cancels

/-- `Scheduler::stop` is called. -/
theorem inv_stopCall (hinv : Inv s) (h : s.stopCall = some s') : Inv s' := by
  unfold JobSystem.stopCall at h
  split at h
  · next hidle =>
      have hnopend : ¬ ∃ was, Pending s.stop was := by simp [hidle, Pending]
      split at h
      · cases h
        refine ⟨hinv.job, hinv.marks, hinv.quiet, hinv.nothing, ?_, ?_, ?_, hinv.cancels⟩
        · intro was hp hwas
          have hjob : s.job = was := by simpa [Pending] using hp
          exact Or.inl (hjob.trans hwas)
        · simp
        · intro _
          exact Or.inl ⟨s.job, Or.inl rfl⟩
      · next hsched =>
          -- the job is not in the map: nothing is left to stop
          cases h
          have hjob : s.job ≠ .inProgress := by
            rcases hinv.held (Or.inr (Or.inr (Or.inr (Or.inr (by simpa using hsched))))) with hp | hj
            · exact absurd hp hnopend
            · exact hj
          have hlog : .tookStop ∈ s.log ++ [.stopReturned s.job s.job] → .tookStop ∈ s.log := by simp
          refine ⟨hinv.job, hinv.marks, fun hm => hinv.quiet (hlog hm), ?_, hinv.stopping, hinv.returning,
            fun _ => Or.inr hjob, ?_⟩
          · exact nothingAfterStop_snoc hinv.nothing (by simp [IsCall])
          · apply stopsCancel_snoc hinv.cancels
            intro was now heq hwas
            injection heq with hwas' _
            exact absurd (hwas'.trans hwas) hjob
  · cases h

/-- The scheduler's transition: what can still be cancelled is. -/
theorem transitionTo_cancelled_job (s : JobSystem) : (s.transitionTo .cancelled).job ≠ .inProgress ∧
    (s.job = .inProgress ∨ s.job = .stuck ∨ s.job = .cancelled → (s.transitionTo .cancelled).job = .cancelled) ∧
    ((s.transitionTo .cancelled).job = s.job ∨ (s.transitionTo .cancelled).job = .cancelled) := by
  unfold JobSystem.transitionTo
  cases hjob : s.job <;> simp [JobState.canTransitionTo, hjob]

theorem transitionTo_frame (s : JobSystem) (target : JobState) : (s.transitionTo target).phase = s.phase ∧
    ((s.transitionTo target).log = s.log ∨ (s.transitionTo target).log = s.log ++ [.entered target]) := by
  unfold JobSystem.transitionTo
  split
  · exact ⟨rfl, Or.inr rfl⟩
  · exact ⟨rfl, Or.inl rfl⟩

theorem inv_stopStep (hinv : Inv s) (h : s.stopStep = some s') : Inv s' := by
  unfold JobSystem.stopStep at h
  split at h
  · cases h
  · next was hstop =>
      have hpend : Pending s.stop was := Or.inl hstop
      split at h
      · cases h
        exact inv_stop_pending hinv hpend (Or.inr (Or.inl rfl)) rfl rfl rfl
      · split at h
        · cases h
          exact inv_stop_pending hinv hpend (Or.inr (Or.inl rfl)) rfl rfl rfl
        · cases h
  · next was hstop =>
      have hpend : Pending s.stop was := Or.inr (Or.inl hstop)
      cases h
      exact inv_stop_pending hinv hpend (Or.inr (Or.inr (Or.inl rfl))) rfl rfl rfl
  · next was hstop =>
      have hpend : Pending s.stop was := Or.inr (Or.inr (Or.inl hstop))
      split at h
      · cases h
        exact inv_stop_pending hinv hpend (Or.inr (Or.inr (Or.inr rfl))) rfl rfl rfl
      · cases h
        exact inv_stop_pending hinv hpend (Or.inr (Or.inr (Or.inr rfl))) rfl rfl rfl
  · -- the transition
    next was hstop =>
      have hpend : Pending s.stop was := Or.inr (Or.inr (Or.inr hstop))
      obtain ⟨hleft, hcancel, hjob⟩ := transitionTo_cancelled_job s
      obtain ⟨hphase, hlog⟩ := transitionTo_frame s .cancelled
      cases h
      refine ⟨?_, ?_, ?_, ?_, ?_, ?_, fun _ => Or.inr hleft, ?_⟩
      · rcases hjob with hj | hj
        · simp only [hj]
          exact hinv.job
        · exact Or.inr (Or.inr hj)
      · simp only [hphase]
        exact hinv.marks
      · simp only [hphase]
        intro hm
        apply hinv.quiet
        rcases hlog with hl | hl
        · rw [hl] at hm
          exact hm
        · rw [hl] at hm
          simpa using hm
      · rcases hlog with hl | hl
        · simp only [hl]
          exact hinv.nothing
        · simp only [hl]
          exact nothingAfterStop_snoc hinv.nothing (by simp [IsCall])
      · simp [Pending]
      · intro was' hret hwas
        have heq : was = was' := by simpa using hret
        exact hcancel (hinv.stopping was hpend (heq.trans hwas))
      · rcases hlog with hl | hl
        · simp only [hl]
          exact hinv.cancels
        · simp only [hl]
          exact stopsCancel_snoc hinv.cancels (by simp)
  · -- the return
    next was hstop =>
      cases h
      have hnopend : ¬ ∃ w, Pending s.stop w := by simp [hstop, Pending]
      refine ⟨hinv.job, hinv.marks, ?_, ?_, ?_, ?_, ?_, ?_⟩
      · intro hm
        apply hinv.quiet
        simpa [JobSystem.emit] using hm
      · exact nothingAfterStop_snoc hinv.nothing (by simp [IsCall])
      · simp [Pending]
      · simp
      · intro ho
        right
        have hor : Orphaned s := by
          rcases ho with ho | ho | ho | ho | ho
          · exact Or.inl ho
          · exact Or.inr (Or.inl ho)
          · exact Or.inr (Or.inr (Or.inl ho))
          · exact Or.inr (Or.inr (Or.inr (Or.inl (by simpa [JobSystem.emit] using ho))))
          · exact Or.inr (Or.inr (Or.inr (Or.inr ho)))
        rcases hinv.held hor with hp | hj
        · exact absurd hp hnopend
        · exact hj
      · apply stopsCancel_snoc hinv.cancels
        intro was' now heq hwas
        injection heq with hw hnow
        rw [← hnow]
        exact hinv.returning was hstop (hw.trans hwas)

variable {l : JobStep}

/-- **The step lemma.** -/
theorem inv_step (hinv : Inv s) (htime : Timely s l) (h : jobStep cfg s l = some s') : Inv s' := by
  cases l with
  | work a => exact inv_work hinv htime h
  | stopCall => exact inv_stopCall hinv h
  | stopStep => exact inv_stopStep hinv h
  | timeout =>
    simp only [jobStep] at h
    split at h
    · cases h
      exact inv_goto hinv (Or.inr (Or.inr (Or.inl rfl))) (by simp)
    · cases h
  | cancel =>
    simp only [jobStep] at h
    split at h
    · next habort =>
        cases h
        exact inv_goto hinv (Or.inr (Or.inr (Or.inr rfl))) fun _ => Or.inr (Or.inr (Or.inl habort))
    · cases h
  | cleanup =>
    simp only [jobStep] at h
    split at h
    · next hdone =>
        cases h
        exact ⟨hinv.job, hinv.marks, hinv.quiet, hinv.nothing, hinv.stopping, hinv.returning,
          fun _ => hinv.held (Or.inl hdone), hinv.cancels⟩
    · cases h
  | send msg =>
    simp only [jobStep] at h
    split at h
    · next hmsg =>
        cases h
        refine ⟨hinv.job, hinv.marks, hinv.quiet, hinv.nothing, hinv.stopping, hinv.returning, ?_, hinv.cancels⟩
        intro ho
        apply hinv.held
        rcases ho with ho | ho | ho
        · exact Or.inl ho
        · refine Or.inr (Or.inl ?_)
          rcases List.mem_append.mp ho with ho | ho
          · exact ho
          · exact absurd (List.mem_singleton.mp ho).symm hmsg.2.1
        · exact Or.inr (Or.inr ho)
    · cases h

/-! ## Stopping a job -/

/-- What stopping promises, of the log of a run. -/
def Stops (log : List JobEvent) : Prop := NothingAfterStop log ∧ StopsCancel log

/-- **In every run whose steps are timely, stopping a job stops it**: a worker that took `Stop` makes no further
    LLM call, executes no tool and does not complete the job, and a stop of a job in progress returns with the job
    cancelled. -/
theorem stops_of_timely (cfg : WorkerConfig) (steps : List JobStep) (s : JobSystem)
    (run : Runs (jobStep cfg) Timely .scheduledJob steps s) : Stops s.log := by
  have hinv : Inv s := run.invariant inv_scheduledJob fun hinv htime hstep => inv_step hinv htime hstep
  exact ⟨hinv.nothing, hinv.cancels⟩

/-! ## Two races -/

/-- A worker without a plan, and one that plans. -/
def directConfig : WorkerConfig := ⟨false, none⟩
def planConfig : WorkerConfig := ⟨true, none⟩

/-- A planned action. -/
def shellAction : ToolSelection := ⟨"shell", .null⟩

/-- The worker takes `Stop` in the direct loop and wins the race: it completes the job. -/
def completesAfterStop : List JobStep :=
  [.work .unit, .stopCall, .stopStep, .work .unit, .work .unit, .work .unit, .stopStep, .stopStep, .stopStep, .stopStep]

/-- The worker takes `Stop` in its plan and goes on with the direct loop. -/
def callsAfterStop : List JobStep :=
  [.work .unit, .work (.plan (.ok [shellAction])), .stopCall, .stopStep, .work .unit, .work .unit, .work .unit,
    .work .unit, .work (.selected (.ok []))]

/-- **Stop is taken for the end of the job, and for an interrupted plan.** In one run the stopped job is completed,
    and stays so when the stop returns; in the other the worker calls the LLM after it took `Stop`. -/
theorem stop_does_not_stop :
    (¬ ∀ (cfg : WorkerConfig) (steps : List JobStep) (s : JobSystem),
        Runs (jobStep cfg) (fun _ _ => True) .scheduledJob steps s → Stops s.log) ∧
    (∃ s, Runs (jobStep directConfig) (fun _ _ => True) .scheduledJob completesAfterStop s ∧
      s.log = [.tookStop, .entered .completed, .stopReturned .inProgress .completed]) ∧
    ∃ s, Runs (jobStep planConfig) (fun _ _ => True) .scheduledJob callsAfterStop s ∧
      s.log = [.llmCall, .tookStop, .llmCall] := by
  have hrun : ∃ s, completesAfterStop.foldlM (jobStep directConfig) .scheduledJob = some s ∧
      s.log = [.tookStop, .entered .completed, .stopReturned .inProgress .completed] := ⟨_, rfl, rfl⟩
  obtain ⟨s, hs, hlog⟩ := hrun
  refine ⟨?_, ⟨s, .of_foldlM hs, hlog⟩, ⟨_, .of_foldlM rfl, rfl⟩⟩
  intro hall
  have hcancel := (hall directConfig completesAfterStop s (.of_foldlM hs)).2 .inProgress .completed
    (by simp [hlog]) rfl
  cases hcancel

/-- A step is timely when the worker marks nothing and either has not taken `Stop` or finds the job settled. -/
theorem timely_of_unmarked (hmarks : marks s.phase = none) (hstop : .tookStop ∉ s.log ∨ s.job.settled = true) :
    Timely s l where
  settles := by
    intro _ _ hm _
    rcases hstop with hno | hs
    · exact absurd hm hno
    · exact hs
  yields := by
    intro _ _ _ target _ hm
    rw [hmarks] at hm
    cases hm

/-- The scheduler wins the race. -/
theorem stops_when_cancelled_first :
    Stops [.entered .cancelled, .tookStop, .stopReturned .inProgress .cancelled] := by
  have hrun : ∃ s, Runs (jobStep directConfig) Timely .scheduledJob
      [.work .unit, .stopCall, .stopStep, .stopStep, .stopStep, .stopStep, .work .unit, .work .unit, .stopStep] s ∧
      s.log = [.entered .cancelled, .tookStop, .stopReturned .inProgress .cancelled] := by
    refine ⟨_, .snoc (.snoc (.snoc (.snoc (.snoc (.snoc (.snoc (.snoc (.snoc (.refl _)
      (.work .unit) (timely_of_unmarked rfl (Or.inl (by decide))) rfl)
      .stopCall (timely_of_unmarked rfl (Or.inl (by decide))) rfl)
      .stopStep (timely_of_unmarked rfl (Or.inl (by decide))) rfl)
      .stopStep (timely_of_unmarked rfl (Or.inl (by decide))) rfl)
      .stopStep (timely_of_unmarked rfl (Or.inl (by decide))) rfl)
      .stopStep (timely_of_unmarked rfl (Or.inl (by decide))) rfl)
      (.work .unit) (timely_of_unmarked rfl (Or.inr (by decide))) rfl)
      (.work .unit) (timely_of_unmarked rfl (Or.inr (by decide))) rfl)
      .stopStep (timely_of_unmarked rfl (Or.inr (by decide))) rfl, rfl⟩
  obtain ⟨s, hruns, hlog⟩ := hrun
  have hstops := stops_of_timely directConfig _ s hruns
  rw [hlog] at hstops
  exact hstops

end Freeclawdia.Stopping
