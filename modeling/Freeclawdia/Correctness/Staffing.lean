import Freeclawdia.Correctness.Dispatching
import Freeclawdia.Correctness.Stopping

/-!
# `Correctness.Staffing` — jobs in progress and their workers

A job that is in progress is to have a running worker, and a running worker is to be in the scheduler's map. The
job's state and the map are changed by different hands, so neither follows from one function: `Inv` is kept step
by step, over every interleaving of the scheduler, its workers and its cleanup tasks (`inv_step`).

Four steps can break it, and `Orderly` is what they have to meet: a repair puts a stuck job in progress and starts
nobody; a worker that panics leaves its job in progress; a cleanup task removes what it found finished one lock
acquisition earlier, which by then may be a new worker of the same job; and `schedule` takes a finished worker that
was not yet removed for a running one. In a run whose steps are orderly, jobs and workers match at every quiescent
point (`orderly_runs_are_staffed`); `recovered_job_has_no_worker` is a run that ends in a repair.
-/

namespace Freeclawdia.Staffing

open Rust Stopping

/-! ## What is to hold -/

/-- The job has a running worker, and it is in the map. -/
def Staffed (s : Scheduler) (id : Uuid) : Prop :=
  ∃ handle t, s.jobs.lookup id = some handle ∧ s.workers[handle]? = some t ∧ t.jobId = id
    ∧ t.phase.isDone = false

/-- A call of `stop` for the job holds the lock. -/
def BeingStopped (s : Scheduler) (id : Uuid) : Prop := ∃ c, s.stopping = some c ∧ c.jobId = id

/-- No operation is under way: the lock is free and aborted tasks have ended. -/
structure Quiescent (s : Scheduler) : Prop where
  lock : s.stopping = none
  ended : ∀ t ∈ s.workers, t.aborted = true → t.phase.isDone = true

/-- Jobs and workers match. -/
structure Matched (s : Scheduler) : Prop where
  inProgress : ∀ id, s.contextManager.state id = some .inProgress → Staffed s id
  registered : ∀ (handle : Nat) t, s.workers[handle]? = some t → t.phase.isDone = false →
    s.jobs.lookup t.jobId = some handle
  bounded : (s.workers.filter fun t => !t.phase.isDone).length ≤ s.maxParallelJobs

/-- What a step has to meet. -/
def Orderly (s : Scheduler) : SchedulerStep × Time → Prop
  -- a worker in the map is running when its job is scheduled again
  | (.schedule jobId _, _) => ∀ handle, s.jobs.lookup jobId = some handle → s.isFinished handle = false
  | (.panic handle, _) =>
    ∀ t, s.workers[handle]? = some t → s.contextManager.state t.jobId = some .inProgress →
      BeingStopped s t.jobId
  -- what a cleanup task removes has ended
  | (.cleanupRemove index, _) =>
    ∀ c, s.cleanups[index]? = some c → ∀ handle, s.jobs.lookup c.jobId = some handle → s.isFinished handle = true
  | (.repair maxRepairAttempts job, _) =>
    job.repairAttempts < maxRepairAttempts → s.contextManager.state job.jobId = some .stuck →
      Staffed s job.jobId ∨ BeingStopped s job.jobId
  | _ => True

/-- `stop` has turned to the worker: a message or an abort is on its way. -/
def Released (t : WorkerTask) : Prop := .stop ∈ t.channel ∨ t.aborted = true

/-- **The invariant.** -/
structure Inv (s : Scheduler) : Prop where
  handles : ∀ id handle, s.jobs.lookup id = some handle → ∃ t, s.workers[handle]? = some t ∧ t.jobId = id
  owned : ∀ (handle : Nat) t, s.workers[handle]? = some t → t.phase.isDone = false → t.aborted = false →
    s.jobs.lookup t.jobId = some handle ∨ ∃ c, s.stopping = some c ∧ c.handle = handle ∧ c.stage ≠ .updating
  staffed : ∀ id, s.contextManager.state id = some .inProgress → Staffed s id ∨ BeingStopped s id
  room : s.jobs.keys.length ≤ s.maxParallelJobs
  marks : ∀ (handle : Nat) t, s.workers[handle]? = some t → ∀ st, marks t.phase = some st → Marked st
  released : ∀ (handle : Nat) t, s.workers[handle]? = some t → Released t → s.jobs.lookup t.jobId ≠ some handle
  lock : ∀ c, s.stopping = some c →
    s.jobs.lookup c.jobId = none ∧ ∃ t, s.workers[c.handle]? = some t ∧ t.jobId = c.jobId

theorem inv_new (maxJobs maxParallelJobs : Nat) (usePlanning : Bool) :
    Inv (Scheduler.new maxJobs maxParallelJobs usePlanning) where
  handles := fun _ _ h => by cases h
  owned := fun _ _ h => by cases h
  staffed := fun _ h => by cases h
  room := Nat.zero_le _
  marks := fun _ _ h => by cases h
  released := fun _ _ h => by cases h
  lock := fun _ h => by cases h

section Kept

variable {s : Scheduler} (hinv : Inv s)

include hinv

/-- A job that is being stopped is out of the map. -/
theorem Inv.unregistered {id : Uuid} (h : BeingStopped s id) : s.jobs.lookup id = none := by
  obtain ⟨c, hc, rfl⟩ := h
  exact (hinv.lock c hc).1

/-- **At a quiescent point the invariant is what is claimed.** Two running workers of one job would be the same
    entry of the map, so there are at most as many as entries. -/
theorem Inv.matched (hq : Quiescent s) : Matched s := by
  have hregistered : ∀ (handle : Nat) t, s.workers[handle]? = some t → t.phase.isDone = false →
      s.jobs.lookup t.jobId = some handle := by
    intro handle t ht hlive
    have habort : t.aborted = false := by
      by_contra hne
      have hdone := hq.ended t (List.mem_of_getElem? ht) (by simpa using hne)
      rw [hdone] at hlive
      cases hlive
    rcases hinv.owned handle t ht hlive habort with h | ⟨c, hc, _⟩
    · exact h
    · rw [hq.lock] at hc
      cases hc
  refine ⟨?_, hregistered, ?_⟩
  · intro id hid
    rcases hinv.staffed id hid with h | ⟨c, hc, _⟩
    · exact h
    · rw [hq.lock] at hc
      cases hc
  · have hnodup : ((s.workers.filter fun t => !t.phase.isDone).map (·.jobId)).Nodup := by
      rw [List.Nodup, List.pairwise_map]
      refine List.Pairwise.imp_of_mem ?_ (List.Pairwise.filter _ (List.pairwise_iff_getElem.mpr ?_))
        (R := fun t t' => t.phase.isDone = false → t'.phase.isDone = false → t.jobId ≠ t'.jobId)
      · intro t t' ht ht' h
        rw [List.mem_filter] at ht ht'
        exact h (by simpa using ht.2) (by simpa using ht'.2)
      · intro i j hi hj hlt hlive hlive' hsame
        have h₁ := hregistered i s.workers[i] (List.getElem?_eq_getElem hi) hlive
        have h₂ := hregistered j s.workers[j] (List.getElem?_eq_getElem hj) hlive'
        rw [hsame, h₂] at h₁
        have : j = i := Option.some.inj h₁
        omega
    have hsub : ((s.workers.filter fun t => !t.phase.isDone).map (·.jobId)) ⊆ s.jobs.keys := by
      intro id hid
      obtain ⟨t, ht, rfl⟩ := List.mem_map.mp hid
      rw [List.mem_filter] at ht
      obtain ⟨handle, hlt, hget⟩ := List.getElem_of_mem ht.1
      have hlookup := hregistered handle t (by rw [← hget]; exact List.getElem?_eq_getElem hlt) (by simpa using ht.2)
      exact AList.mem_keys.mp (AList.lookup_isSome.mp (by rw [hlookup]; rfl))
    have hle := (List.subperm_of_subset hnodup hsub).length_le
    rw [List.length_map] at hle
    exact hle.trans hinv.room

/-! ## Changes the invariant survives -/

/-- Job states change, and what is put in progress has a worker or is being stopped. -/
theorem Inv.contexts {cm : ContextManager} (hcm : ∀ id, cm.state id = some .inProgress →
      s.contextManager.state id = some .inProgress ∨ Staffed s id ∨ BeingStopped s id) :
    Inv { s with contextManager := cm } where
  handles := hinv.handles
  owned := hinv.owned
  staffed := by
    intro id hid
    rcases hcm id hid with h | h
    · exact hinv.staffed id h
    · exact h
  room := hinv.room
  marks := hinv.marks
  released := hinv.released
  lock := hinv.lock

/-- The cleanup tasks play no part. -/
theorem Inv.cleanups (cleanups : List CleanupTask) : Inv { s with cleanups } where
  handles := hinv.handles
  owned := hinv.owned
  staffed := hinv.staffed
  room := hinv.room
  marks := hinv.marks
  released := hinv.released
  lock := hinv.lock

end Kept

theorem getElem?_modifyWorker (s : Scheduler) (handle k : Nat) (f : WorkerTask → WorkerTask) :
    (s.modifyWorker handle f).workers[k]? = (s.workers[k]?).map fun t => if handle = k then f t else t := by
  show (s.workers.modify handle f)[k]? = _
  rw [List.getElem?_modify]
  rfl

variable {s : Scheduler} {t : WorkerTask}

/-- A worker of the changed list: the changed one, or another. -/
theorem worker_modified {handle k : Nat} {f : WorkerTask → WorkerTask} {t' : WorkerTask} (ht : s.workers[handle]? = some t)
    (hk : (s.modifyWorker handle f).workers[k]? = some t') :
    (k = handle ∧ t' = f t) ∨ (k ≠ handle ∧ s.workers[k]? = some t') := by
  rw [getElem?_modifyWorker] at hk
  by_cases h : handle = k
  · subst h
    rw [ht] at hk
    simp only [Option.map_some, if_true, Option.some.injEq] at hk
    exact Or.inl ⟨rfl, hk.symm⟩
  · refine Or.inr ⟨fun hk' => h hk'.symm, ?_⟩
    simpa [h] using hk

section Worker

variable {s : Scheduler} (hinv : Inv s) {handle : Nat} {f : WorkerTask → WorkerTask} {t : WorkerTask}
  (ht : s.workers[handle]? = some t) (hjob : (f t).jobId = t.jobId)

include ht hjob

/-- A changed worker still belongs to its job. -/
theorem modified_worker {k : Nat} {t₀ : WorkerTask} (h : s.workers[k]? = some t₀) :
    ∃ t', (s.modifyWorker handle f).workers[k]? = some t' ∧ t'.jobId = t₀.jobId := by
  rw [getElem?_modifyWorker, h]
  by_cases hk : handle = k
  · subst hk
    rw [ht] at h
    cases h
    exact ⟨f t, by simp, hjob⟩
  · exact ⟨t₀, by simp [hk], rfl⟩

include hinv

/-- **A worker changes**, and perhaps the states of jobs: it does not come back to life, it marks what workers
    mark, and when it ends, its job is not in progress or it was out of the map. -/
theorem Inv.worker (cm : ContextManager) (hlive : (f t).phase.isDone = false → t.phase.isDone = false)
    (habort : (f t).aborted = false → t.aborted = false)
    (hmarks : ∀ st, Stopping.marks (f t).phase = some st → Marked st)
    (hreleased : Released (f t) → s.jobs.lookup t.jobId ≠ some handle)
    (hstate : ∀ id, cm.state id = some .inProgress → s.contextManager.state id = some .inProgress)
    (hdone : (f t).phase.isDone = true → cm.state t.jobId = some .inProgress → s.jobs.lookup t.jobId ≠ some handle) :
    Inv { s.modifyWorker handle f with contextManager := cm } where
  handles := by
    intro id k hk
    obtain ⟨t₀, h₀, hid⟩ := hinv.handles id k hk
    obtain ⟨t', ht', hsame⟩ := modified_worker ht hjob h₀
    exact ⟨t', ht', hsame.trans hid⟩
  owned := by
    intro k t' hk hlive' habort'
    rcases worker_modified ht hk with ⟨rfl, rfl⟩ | ⟨_, hk'⟩
    · rw [hjob]
      exact hinv.owned k t ht (hlive hlive') (habort habort')
    · exact hinv.owned k t' hk' hlive' habort'
  staffed := by
    intro id hid
    rcases hinv.staffed id (hstate id hid) with ⟨k, t₀, hlookup, h₀, hid₀, hlive₀⟩ | hstop
    · left
      by_cases hk : k = handle
      · subst hk
        rw [ht] at h₀
        cases h₀
        subst hid₀
        -- the registered worker of the job is the changed one: it has not ended
        have hstill : (f t).phase.isDone = false := by
          by_contra hne
          exact hdone (by simpa using hne) hid hlookup
        exact ⟨k, f t, hlookup, by rw [show ({ s.modifyWorker k f with contextManager := cm } : Scheduler).workers =
          (s.modifyWorker k f).workers from rfl, getElem?_modifyWorker, ht]; simp, hjob, hstill⟩
      · refine ⟨k, t₀, hlookup, ?_, hid₀, hlive₀⟩
        show (s.modifyWorker handle f).workers[k]? = some t₀
        rw [getElem?_modifyWorker, h₀]
        simp [Ne.symm hk]
    · exact Or.inr hstop
  room := hinv.room
  marks := by
    intro k t' hk st hst
    rcases worker_modified ht hk with ⟨rfl, rfl⟩ | ⟨_, hk'⟩
    · exact hmarks st hst
    · exact hinv.marks k t' hk' st hst
  released := by
    intro k t' hk hrel
    rcases worker_modified ht hk with ⟨rfl, rfl⟩ | ⟨_, hk'⟩
    · rw [hjob]
      exact hreleased hrel
    · exact hinv.released k t' hk' hrel
  lock := by
    intro c hc
    obtain ⟨hnone, t₀, h₀, hid⟩ := hinv.lock c hc
    obtain ⟨t', ht', hsame⟩ := modified_worker ht hjob h₀
    exact ⟨hnone, t', ht', hsame.trans hid⟩

end Worker

/-! ## The steps -/

section Steps

variable {s s' : Scheduler} (hinv : Inv s) {now : Time} {target : JobState} {id : Uuid}

/-- A transition to anything but `InProgress` puts no job in progress. -/
theorem inProgress_of_transition (hne : target ≠ .inProgress) (reason : Option String) {k : Uuid}
    (h : (s.contextManager.transition id target reason now).2.state k = some .inProgress) :
    s.contextManager.state k = some .inProgress := by
  rw [ContextManager.transition_state] at h
  by_cases hk : k = id
  · subst hk
    rw [if_pos rfl] at h
    obtain ⟨st, hst, hif⟩ := Option.map_eq_some_iff.mp h
    split at hif
    · exact absurd hif hne
    · rw [hst, hif]
  · rw [if_neg hk] at h
    exact h

variable {ws : List WorkerTask} {k : Nat} {new t : WorkerTask}

/-- A worker after one was added: it was there, or it is the new one. -/
theorem worker_added (h : (ws ++ [new])[k]? = some t) : ws[k]? = some t ∨ (k = ws.length ∧ t = new) := by
  rcases lt_or_ge k ws.length with hlt | hge
  · rw [List.getElem?_append_left hlt] at h
    exact Or.inl h
  · rw [List.getElem?_append_right hge, List.getElem?_singleton] at h
    split at h
    · cases h
      exact Or.inr ⟨by omega, rfl⟩
    · cases h

theorem worker_kept (h : ws[k]? = some t) : (ws ++ [new])[k]? = some t := by
  rw [List.getElem?_append_left (List.getElem?_eq_some_iff.mp h).1]
  exact h

include hinv

theorem inv_create {newId : Uuid} {req : Scheduler.DispatchRequest}
    (h : s.step (.create newId req, now) = some s') : Inv s' := by
  simp only [Scheduler.step] at h
  split at h
  · cases h
  · by_cases hfull : s.contextManager.maxJobs ≤ s.contextManager.activeCount
    · rw [ContextManager.createJobForUser_of_full newId _ _ _ hfull] at h
      cases h
      exact hinv
    · rw [ContextManager.createJobForUser_of_room newId _ _ _ (not_le.mp hfull)] at h
      cases h
      refine hinv.contexts ?_
      intro id hid
      have hid' : (Dispatching.createdBy s newId req).contextManager.state id = some .inProgress := hid
      rw [Dispatching.created_state] at hid'
      split at hid'
      · cases hid'
      · exact Or.inl hid'

variable {jobId : Uuid}

/-- **A new worker.** Its handle is new, so it is nobody else's. -/
theorem inv_hired {approvalContext : Option ApprovalContext} {cm : ContextManager} (hnone : s.jobs.lookup jobId = none)
    (hroom : s.jobs.keys.length < s.maxParallelJobs) (hlock : s.stopping = none)
    (hcm : ∀ id, id ≠ jobId → cm.state id = s.contextManager.state id) {config : WorkerConfig}
    (cleanups : List CleanupTask) :
    Inv { s with
      contextManager := cm
      jobs := s.jobs.insert jobId s.workers.length
      workers := s.workers ++ [{ jobId, config, approvalContext }]
      cleanups } where
  handles := by
    intro id k hk
    dsimp only at hk ⊢
    by_cases hid : id = jobId
    · subst hid
      rw [AList.lookup_insert] at hk
      cases hk
      exact ⟨_, List.getElem?_concat_length, rfl⟩
    · rw [AList.lookup_insert_ne hid] at hk
      obtain ⟨t, ht, hjob⟩ := hinv.handles id k hk
      exact ⟨t, worker_kept ht, hjob⟩
  owned := by
    intro k t hk hlive habort
    dsimp only at hk ⊢
    rcases worker_added hk with hk | ⟨rfl, rfl⟩
    · rcases hinv.owned k t hk hlive habort with h | ⟨c, hc, _⟩
      · left
        have hne : t.jobId ≠ jobId := by
          intro he
          rw [he, hnone] at h
          cases h
        rw [AList.lookup_insert_ne hne]
        exact h
      · rw [hlock] at hc
        cases hc
    · exact Or.inl (AList.lookup_insert _)
  staffed := by
    intro id hid
    left
    dsimp only at hid
    by_cases hid' : id = jobId
    · subst hid'
      exact ⟨s.workers.length, _, AList.lookup_insert _, List.getElem?_concat_length, rfl, rfl⟩
    · rw [hcm id hid'] at hid
      rcases hinv.staffed id hid with ⟨k, t, hlookup, ht, hjob, hlive⟩ | ⟨c, hc, _⟩
      · refine ⟨k, t, ?_, ?_, hjob, hlive⟩
        · show (s.jobs.insert jobId s.workers.length).lookup id = some k
          rw [AList.lookup_insert_ne hid']
          exact hlookup
        · exact worker_kept ht
      · rw [hlock] at hc
        cases hc
  room := by
    show (s.jobs.insert jobId s.workers.length).keys.length ≤ s.maxParallelJobs
    rw [Dispatching.keys_insert_length hnone]
    exact hroom
  marks := by
    intro k t hk st hst
    rcases worker_added hk with hk | ⟨_, rfl⟩
    · exact hinv.marks k t hk st hst
    · cases hst
  released := by
    intro k t hk hrel
    dsimp only at hk ⊢
    rcases worker_added hk with hk | ⟨_, rfl⟩
    · have hlt := (List.getElem?_eq_some_iff.mp hk).1
      rw [Map.lookup_insert_ite]
      split
      · intro he
        have : s.workers.length = k := Option.some.inj he
        omega
      · exact hinv.released k t hk hrel
    · simp [Released] at hrel
  lock := by
    intro c hc
    have hc' : s.stopping = some c := hc
    rw [hlock] at hc'
    cases hc'

/-- **Scheduling** keeps the invariant, and when it answers `Ok` without a finished worker in the way, the job has
    a worker. -/
theorem schedule_spec (approvalContext : Option ApprovalContext) (hlock : s.stopping = none)
    (horderly : ∀ handle, s.jobs.lookup jobId = some handle → s.isFinished handle = false) :
    Inv (s.scheduleWithContext jobId approvalContext now).2 ∧
      ((s.scheduleWithContext jobId approvalContext now).1 = .ok () →
        Staffed (s.scheduleWithContext jobId approvalContext now).2 jobId) := by
  unfold Scheduler.scheduleWithContext
  cases hjob : s.jobs.lookup jobId with
  | some handle =>
    refine ⟨hinv, fun _ => ?_⟩
    obtain ⟨t, ht, hid⟩ := hinv.handles jobId handle hjob
    have hlive := horderly handle hjob
    unfold Scheduler.isFinished at hlive
    rw [ht] at hlive
    exact ⟨handle, t, hjob, ht, hid, hlive⟩
  | none =>
    rw [if_neg (by simp)]
    by_cases hfull : s.maxParallelJobs ≤ s.jobs.keys.length
    · rw [if_pos hfull]
      exact ⟨hinv, fun h => by cases h⟩
    · rw [if_neg hfull]
      have hstate : ∀ k, k ≠ jobId →
          (s.contextManager.transition jobId .inProgress (some "Scheduled for execution") now).2.state k
            = s.contextManager.state k := by
        intro k hk
        rw [ContextManager.transition_state, if_neg hk]
      have hrefused :
          (s.contextManager.transition jobId .inProgress (some "Scheduled for execution") now).1 ≠ .ok (.ok ()) →
          ∀ k, (s.contextManager.transition jobId .inProgress (some "Scheduled for execution") now).2.state k
            = s.contextManager.state k := ContextManager.transition_refused
      rcases ht : s.contextManager.transition jobId .inProgress (some "Scheduled for execution") now with ⟨r, cm⟩
      rw [ht] at hstate hrefused
      have hkept : r ≠ .ok (.ok ()) → Inv { s with contextManager := cm } := by
        intro hr
        refine hinv.contexts fun id hid => Or.inl ?_
        rw [← hrefused hr id]
        exact hid
      rcases r with e | e | u
      · exact ⟨hkept nofun, fun h => by cases h⟩
      · exact ⟨hkept nofun, fun h => by cases h⟩
      · refine ⟨?_, fun _ => ?_⟩
        · exact inv_hired hinv hjob (not_le.mp hfull) hlock hstate _
        · exact ⟨s.workers.length, _, AList.lookup_insert _, List.getElem?_concat_length, rfl, rfl⟩

end Steps

/-! ### Workers -/

/-- What a worker's step means for staffing: it was running, it puts nothing in progress, it changes the job's state
    only as the table allows, and it ends with its job in progress only if it was told to stop. -/
structure StepFacts (t : WorkerTask) (job : JobState) (v : JobSystem) : Prop where
  running : t.phase.isDone = false
  aborted : v.aborted = t.aborted
  stop : .stop ∈ v.channel → .stop ∈ t.channel
  allowed : v.job ≠ job → job.canTransitionTo v.job = true ∧ v.job ≠ .inProgress
  ends : v.phase.isDone = true → v.job = .inProgress → .stop ∈ t.channel
  marks : ∀ st, Stopping.marks v.phase = some st → Marked st

variable {p : Phase}

theorem isDone_iff : p.isDone = true ↔ p = .done := by
  cases p <;> simp [Phase.isDone]

/-- A phase that is not the last one. -/
theorem not_isDone (h : p ≠ .done) : p.isDone = false :=
  Bool.eq_false_iff.mpr fun hd => h (isDone_iff.mp hd)

theorem workerStep_facts {job : JobState} {v : JobSystem} {answer : Answer}
    (hmarks : ∀ st, Stopping.marks t.phase = some st → Marked st) (h : (t.view job).workerStep t.config answer = some v) :
    StepFacts t job v := by
  obtain ⟨hframe, heffect⟩ := workerStep_effect h
  have hview : (t.view job).phase = t.phase ∧ (t.view job).job = job := ⟨rfl, rfl⟩
  cases heffect with
  | busy hphase hjob hlog hnext hmarks' =>
    have hjob' : v.job = job := hjob
    refine ⟨?_, hframe.aborted, hframe.channel, fun hne => absurd hjob' hne, ?_, hmarks'⟩
    · exact not_isDone fun hp => hphase (Or.inr (Or.inr (Or.inr hp)))
    · exact fun hdone => absurd (isDone_iff.mp hdone) hnext
  | took hphase hmsg hjob hlog hnext =>
    have hjob' : v.job = job := hjob
    refine ⟨?_, hframe.aborted, hframe.channel, fun hne => absurd hjob' hne, fun _ _ => hmsg, ?_⟩
    · exact not_isDone fun hp => hphase (Or.inr (Or.inr (Or.inr hp)))
    · intro st hst
      rcases hnext with hp | hp | hp <;> rw [hp] at hst <;> cases hst
  | looked hphase hjob hlog hsettled hactive =>
    have hjob' : v.job = job := hjob
    refine ⟨?_, hframe.aborted, hframe.channel, fun hne => absurd hjob' hne, ?_, ?_⟩
    · rcases hphase with hp | hp <;> rw [show t.phase = _ from hp] <;> rfl
    · intro hdone hprogress
      -- a job in progress is not settled, so the worker goes on
      rw [hjob'] at hprogress
      have hno : (t.view job).job.settled = false := by rw [hview.2, hprogress]; rfl
      rcases hactive hno with hp | hp <;> rw [hp] at hdone <;> cases hdone
    · intro st hst
      cases hs : (t.view job).job.settled with
      | true => rcases hsettled hs with hp | hp <;> rw [hp] at hst <;> cases hst
      | false =>
        rcases hactive hs with hp | hp
        · rw [hp] at hst
          cases hst
        · rw [hp] at hst
          cases hst
          exact Or.inl rfl
  | marked target hphase hcan hjob hlog hnext =>
    have htarget : Marked target := hmarks target hphase
    refine ⟨?_, hframe.aborted, hframe.channel, fun _ => ?_, ?_, ?_⟩
    · refine not_isDone fun hp => ?_
      rw [hview.1, hp] at hphase
      cases hphase
    · rw [hjob]
      exact ⟨hcan, htarget.ne_inProgress⟩
    · intro _ hprogress
      rw [hjob] at hprogress
      exact absurd hprogress htarget.ne_inProgress
    · intro st hst
      rcases hnext with hp | hp | hp <;> rw [hp] at hst <;> cases hst
  | unmarked target hphase hcan hjob hlog hnext =>
    have hjob' : v.job = job := hjob
    refine ⟨?_, hframe.aborted, hframe.channel, fun hne => absurd hjob' hne, ?_, ?_⟩
    · refine not_isDone fun hp => ?_
      rw [hview.1, hp] at hphase
      cases hphase
    · intro _ hprogress
      rw [hjob'] at hprogress
      rw [hview.2, hprogress, marked_allowed (hmarks target hphase)] at hcan
      cases hcan
    · intro st hst
      rcases hnext with ⟨_, hp⟩ | hp
      · rw [hp] at hst
        cases hst
        exact Or.inr (Or.inl rfl)
      · rw [hp] at hst
        cases hst

section WorkerSteps

variable {s s' : Scheduler} (hinv : Inv s) {now : Time}

include hinv

variable {handle : Nat}

/-- **A worker's step.** -/
theorem inv_work {answer : Answer} (h : s.workStep handle answer now = some s') : Inv s' := by
  unfold Scheduler.workStep at h
  cases ht : s.workers[handle]? with
  | none =>
    rw [ht] at h
    cases h
  | some t =>
    rw [ht] at h
    dsimp only at h
    cases hjob : s.contextManager.state t.jobId with
    | none =>
      rw [hjob] at h
      cases h
    | some job =>
      rw [hjob] at h
      dsimp only at h
      cases hw : (t.view job).workerStep t.config answer with
      | none =>
        rw [hw] at h
        cases h
      | some v =>
        rw [hw] at h
        cases h
        have hfacts := workerStep_facts (hinv.marks handle t ht) hw
        have hreleased : Released (t.update v) → s.jobs.lookup t.jobId ≠ some handle := by
          rintro (hstop | habort)
          · exact hinv.released handle t ht (Or.inl (hfacts.stop hstop))
          · exact hinv.released handle t ht (Or.inr habort)
        refine hinv.worker ht rfl _ (fun _ => hfacts.running) id hfacts.marks hreleased ?_ ?_
        · intro id hid
          by_cases hsame : v.job = job
          · rw [if_pos hsame] at hid
            exact hid
          · rw [if_neg hsame] at hid
            exact inProgress_of_transition (hfacts.allowed hsame).2 none hid
        · intro hdone hid
          by_cases hsame : v.job = job
          · rw [if_pos hsame, hjob] at hid
            cases hid
            exact hinv.released handle t ht (Or.inl (hfacts.ends hdone hsame))
          · rw [if_neg hsame, ContextManager.transition_state, if_pos rfl, hjob, Option.map_some,
              if_pos (hfacts.allowed hsame).1] at hid
            exact absurd (Option.some.inj hid) (hfacts.allowed hsame).2

/-- A worker is moved to a phase: it marks what workers mark, or it ends with its job not in progress or out of the
    map. -/
theorem inv_move {allowed : WorkerTask → Bool} {p : Phase} (hp : ∀ st, Stopping.marks p = some st → Marked st)
    (hdone : p.isDone = true → ∀ t, s.workers[handle]? = some t → allowed t = true →
      s.contextManager.state t.jobId = some .inProgress → s.jobs.lookup t.jobId ≠ some handle)
    (h : s.moveWorker handle allowed p = some s') : Inv s' := by
  unfold Scheduler.moveWorker at h
  cases ht : s.workers[handle]? with
  | none =>
    rw [ht] at h
    cases h
  | some t =>
    rw [ht] at h
    dsimp only at h
    split at h
    · next hallowed =>
        cases h
        rw [Bool.and_eq_true, Bool.not_eq_true'] at hallowed
        refine hinv.worker ht rfl s.contextManager (fun _ => hallowed.2) id hp ?_ (fun _ hid => hid) ?_
        · exact fun hrel => hinv.released handle t ht hrel
        · exact fun hd hid => hdone hd t ht hallowed.1 hid
    · cases h

theorem inv_send {content : String} (h : s.step (.send handle content, now) = some s') : Inv s' := by
  simp only [Scheduler.step] at h
  split at h
  · next hok =>
      cases h
      rw [Bool.and_eq_true, Bool.not_eq_true'] at hok
      cases ht : s.workers[handle]? with
      | none => simp [Scheduler.channelHasRoom, ht] at hok
      | some t =>
        have hlive : t.phase.isDone = false := by
          have := hok.2
          unfold Scheduler.isFinished at this
          rw [ht] at this
          exact this
        refine hinv.worker ht rfl s.contextManager id id (hinv.marks handle t ht) ?_ (fun _ hid => hid) ?_
        · rintro (hstop | habort)
          · refine hinv.released handle t ht (Or.inl ?_)
            simpa using hstop
          · exact hinv.released handle t ht (Or.inr habort)
        · intro hdone
          rw [show t.phase.isDone = true from hdone] at hlive
          cases hlive
  · cases h

end WorkerSteps

/-! ### Stopping, cleaning up, repair -/

section MapSteps

variable {s s' : Scheduler} (hinv : Inv s) {now : Time}

include hinv

/-- `stop` takes a worker out of the map: from now on the job is being stopped. -/
theorem inv_stopCall (hlock : s.stopping = none) (jobId : Uuid) : Inv (s.stopCall jobId) := by
  unfold Scheduler.stopCall
  cases hjob : s.jobs.lookup jobId with
  | none => exact hinv
  | some handle =>
    refine ⟨?_, ?_, ?_, ?_, hinv.marks, ?_, ?_⟩
    · intro id k hk
      dsimp only at hk
      rw [Map.lookup_erase_ite] at hk
      split at hk
      · cases hk
      · exact hinv.handles id k hk
    · intro k t hk hlive habort
      dsimp only
      rcases hinv.owned k t hk hlive habort with h | ⟨c, hc, _⟩
      · by_cases hid : t.jobId = jobId
        · right
          rw [hid, hjob] at h
          exact ⟨_, rfl, Option.some.inj h, by simp⟩
        · left
          rw [AList.lookup_erase_ne hid]
          exact h
      · rw [hlock] at hc
        cases hc
    · intro id hid
      by_cases hid' : id = jobId
      · exact Or.inr ⟨_, rfl, hid'.symm⟩
      · rcases hinv.staffed id hid with ⟨k, t, hlookup, ht, hid₀, hlive⟩ | ⟨c, hc, _⟩
        · refine Or.inl ⟨k, t, ?_, ht, hid₀, hlive⟩
          show (s.jobs.erase jobId).lookup id = some k
          rw [AList.lookup_erase_ne hid']
          exact hlookup
        · rw [hlock] at hc
          cases hc
    · have hkeys : (s.jobs.erase jobId).keys.length + 1 = s.jobs.keys.length :=
        Dispatching.keys_erase_length (by rw [hjob]; rfl)
      have hroom := hinv.room
      show (s.jobs.erase jobId).keys.length ≤ s.maxParallelJobs
      omega
    · intro k t hk hrel
      dsimp only
      rw [Map.lookup_erase_ite]
      split
      · exact nofun
      · exact hinv.released k t hk hrel
    · intro c hc
      cases hc
      exact ⟨AList.lookup_erase _ _, hinv.handles jobId handle hjob⟩

variable {handle : Nat} {jobId : Uuid}

/-- `stop` goes on to its next stage; before the last one the worker has ended or is aborted. -/
theorem Inv.stage {stage stage' : StopStage} (hc : s.stopping = some ⟨jobId, handle, stage⟩)
    (hlast : stage' = .updating → ∀ t, s.workers[handle]? = some t → t.phase.isDone = true ∨ t.aborted = true) :
    Inv { s with stopping := some ⟨jobId, handle, stage'⟩ } where
  handles := hinv.handles
  owned := by
    intro k t hk hlive habort
    rcases hinv.owned k t hk hlive habort with h | ⟨c, hc', hhandle, _⟩
    · exact Or.inl h
    · right
      rw [hc] at hc'
      cases hc'
      have hk' : handle = k := hhandle
      refine ⟨_, rfl, hk', ?_⟩
      intro hup
      rcases hlast hup t (by rw [hk']; exact hk) with h | h
      · rw [h] at hlive
        cases hlive
      · rw [h] at habort
        cases habort
  staffed := by
    intro id hid
    rcases hinv.staffed id hid with h | ⟨c, hc', rfl⟩
    · exact Or.inl h
    · rw [hc] at hc'
      cases hc'
      exact Or.inr ⟨_, rfl, rfl⟩
  room := hinv.room
  marks := hinv.marks
  released := hinv.released
  lock := by
    intro c hc'
    cases hc'
    exact hinv.lock ⟨jobId, handle, stage⟩ hc

/-- `stop` returns: the job is not in progress any more. -/
theorem inv_stopped (hc : s.stopping = some ⟨jobId, handle, .updating⟩) (reason : Option String) : Inv { s with
      contextManager := (s.contextManager.transition jobId .cancelled reason now).2
      stopping := none } where
  handles := hinv.handles
  owned := by
    intro k t hk hlive habort
    rcases hinv.owned k t hk hlive habort with h | ⟨c, hc', _, hstage⟩
    · exact Or.inl h
    · rw [hc] at hc'
      cases hc'
      exact absurd rfl hstage
  staffed := by
    intro id hid
    have hid' : (s.contextManager.transition jobId .cancelled reason now).2.state id = some .inProgress := hid
    have hbefore := inProgress_of_transition (by decide) reason hid'
    rcases hinv.staffed id hbefore with h | ⟨c, hc', rfl⟩
    · exact Or.inl h
    · rw [hc] at hc'
      cases hc'
      rw [ContextManager.transition_state, if_pos rfl, hbefore] at hid'
      cases hid'
  room := hinv.room
  marks := hinv.marks
  released := hinv.released
  lock := fun _ hc' => by cases hc'

omit hinv in
theorem isFinished_of {handle : Nat} (h : s.isFinished handle = true) {t : WorkerTask}
    (ht : s.workers[handle]? = some t) : t.phase.isDone = true := by
  unfold Scheduler.isFinished at h
  rw [ht] at h
  exact h

/-- **The next step of `stop`.** -/
theorem inv_stopStep (h : s.stopStep now = some s') : Inv s' := by
  unfold Scheduler.stopStep at h
  split at h
  · cases h
  · next jobId handle hc =>
      obtain ⟨hnone, t, ht, hid⟩ := hinv.lock _ hc
      split at h
      · cases h
        exact hinv.stage hc nofun
      · split at h
        · cases h
          -- the message goes to a worker that is out of the map
          refine (hinv.worker ht rfl s.contextManager id id (hinv.marks handle t ht) ?_ (fun _ hid => hid) ?_).stage
            hc nofun
          · intro _
            rw [hid, hnone]
            exact nofun
          · intro _ _
            rw [hid, hnone]
            exact nofun
        · cases h
  · next jobId handle hc =>
      cases h
      exact hinv.stage hc nofun
  · next jobId handle hc =>
      obtain ⟨hnone, t, ht, hid⟩ := hinv.lock _ hc
      split at h
      · next hfin =>
          cases h
          exact hinv.stage hc fun _ t' ht' => Or.inl (isFinished_of hfin ht')
      · cases h
        refine (hinv.worker ht rfl s.contextManager id (fun _ => ?_) (hinv.marks handle t ht) ?_ (fun _ hid => hid)
          ?_).stage hc ?_
        · next habort => cases habort
        · intro _
          rw [hid, hnone]
          exact nofun
        · intro _ _
          rw [hid, hnone]
          exact nofun
        · intro _ t' ht'
          rcases worker_modified ht ht' with ⟨_, rfl⟩ | ⟨hne, _⟩
          · exact Or.inr rfl
          · exact absurd rfl hne
  · next jobId handle hc =>
      cases h
      exact inv_stopped hinv hc _

/-- Entries of finished workers leave the map. -/
theorem Inv.unregister {jobs : Map Uuid Nat} (hlock : s.stopping = none)
    (hsub : ∀ id handle, jobs.lookup id = some handle → s.jobs.lookup id = some handle)
    (hkeep : ∀ id handle, s.jobs.lookup id = some handle → s.isFinished handle = false → jobs.lookup id = some handle)
    (hlen : jobs.keys.length ≤ s.jobs.keys.length) : Inv { s with jobs } where
  handles := fun id handle h => hinv.handles id handle (hsub id handle h)
  owned := by
    intro k t hk hlive habort
    rcases hinv.owned k t hk hlive habort with h | ⟨c, hc, _⟩
    · refine Or.inl (hkeep _ _ h ?_)
      unfold Scheduler.isFinished
      rw [hk]
      exact hlive
    · rw [hlock] at hc
      cases hc
  staffed := by
    intro id hid
    rcases hinv.staffed id hid with ⟨k, t, hlookup, ht, hid₀, hlive⟩ | hstop
    · refine Or.inl ⟨k, t, hkeep _ _ hlookup ?_, ht, hid₀, hlive⟩
      unfold Scheduler.isFinished
      rw [ht]
      exact hlive
    · exact Or.inr hstop
  room := hlen.trans hinv.room
  marks := hinv.marks
  released := fun k t hk hrel h => hinv.released k t hk hrel (hsub _ _ h)
  lock := by
    intro c hc
    have hc' : s.stopping = some c := hc
    rw [hlock] at hc'
    cases hc'

theorem inv_cleanupFinished (hlock : s.stopping = none) : Inv s.cleanupFinished := by
  refine hinv.unregister hlock ?_ ?_ ?_
  · intro id handle h
    rw [Map.lookup_retain] at h
    exact (Option.filter_eq_some_iff.mp h).1
  · intro id handle h hlive
    rw [Map.lookup_retain, h]
    simp [hlive]
  · show ((s.jobs.entries.filter _).map Sigma.fst).length ≤ (s.jobs.entries.map Sigma.fst).length
    rw [List.length_map, List.length_map]
    exact List.length_filter_le _ _

theorem inv_cleanupRemove (hlock : s.stopping = none)
    (horderly : ∀ handle, s.jobs.lookup jobId = some handle → s.isFinished handle = true) :
    Inv { s with jobs := s.jobs.erase jobId } := by
  refine hinv.unregister hlock ?_ ?_ ?_
  · intro id handle h
    rw [Map.lookup_erase_ite] at h
    split at h
    · cases h
    · exact h
  · intro id handle h hlive
    have hne : id ≠ jobId := by
      rintro rfl
      rw [horderly handle h] at hlive
      cases hlive
    rw [AList.lookup_erase_ne hne]
    exact h
  · rw [AList.keys_erase]
    exact List.length_erase_le

/-- A repair that finds the worker still at work, or does nothing. -/
theorem inv_repair {maxRepairAttempts : Nat} {job : StuckJob}
    (horderly : job.repairAttempts < maxRepairAttempts → s.contextManager.state job.jobId = some .stuck →
      Staffed s job.jobId ∨ BeingStopped s job.jobId) :
    Inv { s with contextManager := (repairStuckJob s.contextManager maxRepairAttempts job now).2 } := by
  refine hinv.contexts ?_
  intro id hid
  unfold repairStuckJob at hid
  split at hid
  · exact Or.inl hid
  · next hattempts =>
      have hid' : (s.contextManager.recover job.jobId now).2.state id = some .inProgress := by
        rcases hr : s.contextManager.recover job.jobId now with ⟨e | e | u, cm⟩
        · rw [hr] at hid; exact hid
        · rw [hr] at hid; exact hid
        · rw [hr] at hid; exact hid
      rw [ContextManager.recover_state] at hid'
      split at hid'
      · next hsame =>
          obtain ⟨st, hst, hif⟩ := Option.map_eq_some_iff.mp hid'
          split at hif
          · next hstuck =>
              right
              rw [hsame]
              exact horderly (not_le.mp hattempts) (by rw [hst, hstuck])
          · left
            rw [hsame, hst, hif]
      · exact Or.inl hid'

end MapSteps

/-! ## Runs -/

/-- **Every orderly step keeps the invariant.** -/
theorem inv_step {s' : Scheduler} (hinv : Inv s) {l : SchedulerStep × Time} (horderly : Orderly s l)
    (h : s.step l = some s') : Inv s' := by
  obtain ⟨l, now⟩ := l
  have hfree : ∀ {x : Scheduler}, (if s.stopping.isSome then none else some x) = some s' →
      s.stopping = none ∧ x = s' := by
    intro x hx
    split at hx
    · cases hx
    · next hlock => exact ⟨Option.not_isSome_iff_eq_none.mp hlock, Option.some.inj hx⟩
  cases l with
  | create newId req => exact inv_create hinv h
  | schedule jobId approvalContext =>
    obtain ⟨hlock, rfl⟩ := hfree h
    exact (schedule_spec hinv approvalContext hlock horderly).1
  | work handle answer => exact inv_work hinv h
  | timeout handle =>
    refine inv_move hinv ?_ (fun hdone => by cases hdone) h
    intro st hst
    cases hst
    exact Or.inr (Or.inr rfl)
  | panic handle =>
    refine inv_move hinv (fun _ hst => by cases hst) ?_ h
    intro _ t ht _ hprogress
    rw [hinv.unregistered (horderly t ht hprogress)]
    exact nofun
  | cancel handle =>
    refine inv_move hinv (fun _ hst => by cases hst) ?_ h
    intro _ t ht habort _
    exact hinv.released handle t ht (Or.inr habort)
  | stopCall jobId =>
    obtain ⟨hlock, rfl⟩ := hfree h
    exact inv_stopCall hinv hlock jobId
  | stopStep => exact inv_stopStep hinv h
  | cleanupFinished =>
    obtain ⟨hlock, rfl⟩ := hfree h
    exact inv_cleanupFinished hinv hlock
  | cleanupTest index =>
    simp only [Scheduler.step] at h
    split at h
    · obtain ⟨_, rfl⟩ := hfree h
      exact hinv.cleanups _
    · cases h
  | cleanupRemove index =>
    simp only [Scheduler.step] at h
    split at h
    · next jobId hc =>
        obtain ⟨hlock, rfl⟩ := hfree h
        exact (inv_cleanupRemove hinv hlock (horderly _ hc)).cleanups _
    · cases h
  | repair maxRepairAttempts job =>
    cases h
    exact inv_repair hinv horderly
  | send handle content => exact inv_send hinv h

/-- **Jobs and workers match in every run of orderly steps**, at every quiescent point it reaches; and wherever the
    lock is free, an orderly `schedule` that answers `Ok` leaves the job with a running worker. -/
theorem orderly_runs_are_staffed (maxJobs maxParallelJobs : Nat) (usePlanning : Bool)
    (steps : List (SchedulerStep × Time)) (s : Scheduler)
    (run : Runs Scheduler.step Orderly (Scheduler.new maxJobs maxParallelJobs usePlanning) steps s) :
    (Quiescent s → Matched s) ∧
    (∀ (jobId : Uuid) (approvalContext : Option ApprovalContext) (now : Time), s.stopping = none →
      Orderly s (.schedule jobId approvalContext, now) →
      (s.scheduleWithContext jobId approvalContext now).1 = .ok () →
      Staffed (s.scheduleWithContext jobId approvalContext now).2 jobId) := by
  have hinv : Inv s :=
    run.invariant (P := fun _ s => Inv s) (inv_new _ _ _) fun hinv horderly hstep => inv_step hinv horderly hstep
  refine ⟨hinv.matched, ?_⟩
  intro jobId approvalContext now hlock horderly hok
  exact (schedule_spec hinv approvalContext hlock horderly).2 hok

/-- A job is created, scheduled, times out and is marked stuck; its worker is removed. -/
def stuckSteps : List (SchedulerStep × Time) :=
  [(.create 1 ⟨"user1", "title", "description", none, none⟩, 0), (.schedule 1 none, 1), (.work 0 .unit, 2),
    (.timeout 0, 3), (.work 0 .unit, 4), (.cleanupFinished, 5)]

/-- The same job a moment after it was scheduled: one worker, one entry, and the job in progress. -/
theorem scheduled_job_is_staffed :
    ∃ s : Scheduler, s.contextManager.state 1 = some .inProgress ∧ Matched s := by
  let start := Scheduler.new 1 1 false
  let created := (start.step (.create 1 ⟨"user1", "title", "description", none, none⟩, 0)).getD start
  let scheduled := (created.step (.schedule 1 none, 1)).getD start
  have run : Runs Scheduler.step Orderly start _ scheduled :=
    .snoc (.snoc (.refl start) (.create 1 ⟨"user1", "title", "description", none, none⟩, 0) True.intro
      (rfl : start.step _ = some created)) (.schedule 1 none, 1) (fun _ h => by cases h)
      (rfl : created.step _ = some scheduled)
  refine ⟨scheduled, rfl, (orderly_runs_are_staffed 1 1 false _ scheduled run).1 ⟨rfl, ?_⟩⟩
  intro t ht habort
  have hfresh : t.aborted = false := by
    rw [List.mem_singleton.mp (show t ∈ [_] from ht)]
  rw [hfresh] at habort
  cases habort

/-- Self-repair puts the stuck job in progress again, and nobody works on it. -/
theorem recovered_job_has_no_worker :
    ¬ ∀ (maxJobs maxParallelJobs : Nat) (usePlanning : Bool) (steps : List (SchedulerStep × Time)) (s : Scheduler),
        Runs Scheduler.step (fun _ _ => True) (Scheduler.new maxJobs maxParallelJobs usePlanning) steps s →
        Quiescent s → Matched s := by
  intro hclaim
  obtain ⟨s, hs⟩ : ∃ s, (stuckSteps ++ [(SchedulerStep.repair 3 ⟨1, 0⟩, (6 : Time))]).foldlM Scheduler.step
      (Scheduler.new 1 1 false) = some s := ⟨_, rfl⟩
  have hstate : s.contextManager.state 1 = some .inProgress := by
    have h := congrArg (Option.map fun s => s.contextManager.state 1) hs
    exact (Option.some.inj h).symm
  have hjobs : s.jobs.lookup 1 = none := by
    have h := congrArg (Option.map fun s => s.jobs.lookup 1) hs
    exact (Option.some.inj h).symm
  have hlock : s.stopping = none := by
    have h := congrArg (Option.map fun s => s.stopping) hs
    exact (Option.some.inj h).symm
  have hended : (s.workers.map fun t => t.aborted) = [false] := by
    have h := congrArg (Option.map fun s => s.workers.map fun t => t.aborted) hs
    exact (Option.some.inj h).symm
  have hquiet : Quiescent s := by
    refine ⟨hlock, ?_⟩
    intro t ht habort
    have hmem := List.mem_map_of_mem (f := fun t : WorkerTask => t.aborted) ht
    rw [hended, List.mem_singleton, habort] at hmem
    cases hmem
  obtain ⟨handle, t, hlookup, _⟩ := (hclaim 1 1 false _ s (Runs.of_foldlM hs) hquiet).inProgress 1 hstate
  rw [hjobs] at hlookup
  cases hlookup

end Freeclawdia.Staffing
