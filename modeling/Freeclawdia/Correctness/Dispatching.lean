import Freeclawdia.Agent.Scheduler
import Freeclawdia.Lib.Runs

/-!
# `Correctness.Dispatching` — what a dispatch that fails leaves behind

`dispatch_job` creates a context, stores metadata, persists the job and schedules it. A failure of the first
step leaves nothing; a failure of the third or the fourth leaves the context, `Pending` and therefore active.
Nothing ever removes it. Likewise a job that ended `Completed` stays active. Both use up `max_jobs`.

`createdBy` is the scheduler right after the context was made, and the four ways a dispatch ends are four equations.
In every run of `Scheduler.step` a job without a worker stays as it was created (`Accounted`). So once all jobs with a
worker have ended, the active ones are those that were **left behind**, and the capacity that remains is known exactly.
-/

namespace Freeclawdia.Dispatching

open Rust

/-- The jobs that `active_count` counts. -/
def activeJobs (m : ContextManager) : Set Uuid := { id | ∃ st, m.state id = some st ∧ st.isActive = true }

/-- Is a context counted? -/
def counted (_ : Uuid) (ctx : JobContext) : Bool := ctx.state.isActive

theorem activeCount_eq (m : ContextManager) : m.activeCount = Map.count counted m.contexts := by
  unfold ContextManager.activeCount ContextManager.activeContexts Map.count
  rw [List.length_map, List.countP_eq_length_filter]
  rfl

/-- An identifier that neither a context nor a worker has: what `Uuid::new_v4` draws. -/
structure Fresh (s : Scheduler) (newId : Uuid) : Prop where
  context : s.contextManager.contexts.lookup newId = none
  job : s.jobs.lookup newId = none

/-! ## Creation -/

section Creation

variable (s : Scheduler) (newId : Uuid) (req : Scheduler.DispatchRequest)

/-- The context a dispatch creates, with its metadata. -/
def newContext : JobContext where
  jobId := newId
  userId := req.userId
  title := req.title
  description := req.description
  metadata := req.metadata.getD .null

/-- The scheduler after the context was created. -/
def createdBy : Scheduler :=
  { s with
    contextManager := (Scheduler.applyMetadata
      { s.contextManager with
        contexts := s.contextManager.contexts.insert newId
          { jobId := newId, userId := req.userId, title := req.title, description := req.description }
        memories := s.contextManager.memories.insert newId { jobId := newId } } newId req.metadata).2 }

/-- Metadata cannot fail: the context is there. -/
theorem applyMetadata_created : Scheduler.applyMetadata { s.contextManager with
          contexts := s.contextManager.contexts.insert newId
            { jobId := newId, userId := req.userId, title := req.title, description := req.description }
          memories := s.contextManager.memories.insert newId { jobId := newId } } newId req.metadata
      = (.ok (), (createdBy s newId req).contextManager) := by
  unfold createdBy
  cases req.metadata with
  | none => rfl
  | some metadata => simp [Scheduler.applyMetadata, ContextManager.updateContext]

theorem created_lookup (k : Uuid) : (createdBy s newId req).contextManager.contexts.lookup k =
      if k = newId then some (newContext newId req) else s.contextManager.contexts.lookup k := by
  unfold createdBy newContext Scheduler.applyMetadata
  cases req.metadata with
  | none => exact Map.lookup_insert_ite _ _ _ _
  | some metadata =>
    simp only [ContextManager.updateContext, AList.lookup_insert, Map.lookup_insert_ite, Option.getD_some]
    by_cases hk : k = newId
    · simp [hk]
    · simp [hk]

theorem created_state (k : Uuid) : (createdBy s newId req).contextManager.state k =
      if k = newId then some .pending else s.contextManager.state k := by
  unfold ContextManager.state
  rw [created_lookup]
  split
  · rfl
  · rfl

theorem created_frame : (createdBy s newId req).jobs = s.jobs ∧ (createdBy s newId req).workers = s.workers
      ∧ (createdBy s newId req).maxParallelJobs = s.maxParallelJobs
      ∧ (createdBy s newId req).contextManager.maxJobs = s.contextManager.maxJobs := by
  refine ⟨rfl, rfl, rfl, ?_⟩
  unfold createdBy Scheduler.applyMetadata
  cases req.metadata with
  | none => rfl
  | some metadata => simp [ContextManager.updateContext]

variable {s newId}

theorem activeJobs_created (h : s.contextManager.contexts.lookup newId = none) :
    activeJobs (createdBy s newId req).contextManager ≠ activeJobs s.contextManager := by
  intro heq
  have hnew : newId ∈ activeJobs (createdBy s newId req).contextManager :=
    ⟨.pending, by rw [created_state, if_pos rfl], rfl⟩
  rw [heq] at hnew
  obtain ⟨st, hst, _⟩ := hnew
  unfold ContextManager.state at hst
  rw [h] at hst
  cases hst

end Creation

/-! ## The ways a dispatch ends -/

section Ends

variable {s : Scheduler} {newId : Uuid} {req : Scheduler.DispatchRequest}
  {saveJob : Option (JobContext → Except String Unit)} {now : Time}

/-- The store takes the context, or there is none. -/
def Saves (saveJob : Option (JobContext → Except String Unit)) (ctx : JobContext) : Prop :=
  (saveJob.map fun save => (save ctx).isOk) ≠ some false

instance (saveJob : Option (JobContext → Except String Unit)) (ctx : JobContext) : Decidable (Saves saveJob ctx) :=
  inferInstanceAs (Decidable ((saveJob.map fun save => (save ctx).isOk) ≠ some false))

/-- No context is created. -/
theorem dispatch_refused (h : s.contextManager.maxJobs ≤ s.contextManager.activeCount) :
    s.dispatchJobInner newId req saveJob now = (.error (.maxJobsExceeded s.contextManager.maxJobs), s) := by
  unfold Scheduler.dispatchJobInner
  rw [ContextManager.createJobForUser_of_full newId _ _ _ h]

/-- A context is created, and what follows is persistence and scheduling. -/
theorem dispatch_created (h : s.contextManager.activeCount < s.contextManager.maxJobs) :
    s.dispatchJobInner newId req saveJob now =
      match Scheduler.persistJob (createdBy s newId req).contextManager newId saveJob with
      | .error e => (.error e, createdBy s newId req)
      | .ok () =>
        match (createdBy s newId req).scheduleWithContext newId req.approvalContext now with
        | (.error e, s') => (.error e, s')
        | (.ok (), s') => (.ok newId, s') := by
  unfold Scheduler.dispatchJobInner
  rw [ContextManager.createJobForUser_of_room newId _ _ _ h]
  dsimp only
  rw [applyMetadata_created]
  rfl

theorem persistJob_created : Scheduler.persistJob (createdBy s newId req).contextManager newId saveJob =
      match saveJob with
      | none => .ok ()
      | some save => (save (newContext newId req)).mapError fun e => .failed newId ("failed to persist job: " ++ e) := by
  have hlookup : (createdBy s newId req).contextManager.contexts.lookup newId = some (newContext newId req) := by
    rw [created_lookup, if_pos rfl]
  unfold Scheduler.persistJob ContextManager.getContext
  cases saveJob with
  | none => rfl
  | some save => simp only [hlookup]

/-- The store refuses the job. -/
theorem dispatch_unsaved (h : s.contextManager.activeCount < s.contextManager.maxJobs)
    (hsave : ¬ Saves saveJob (newContext newId req)) :
    ∃ e, s.dispatchJobInner newId req saveJob now = (.error e, createdBy s newId req) := by
  rw [dispatch_created h, persistJob_created]
  cases saveJob with
  | none => exact absurd (by simp [Saves]) hsave
  | some save =>
    cases hs : save (newContext newId req) with
    | ok u => exact absurd (by simp [Saves, hs, Except.isOk, Except.toBool]) hsave
    | error e =>
      dsimp only
      rw [hs]
      exact ⟨_, rfl⟩

theorem persistJob_saved (hsave : Saves saveJob (newContext newId req)) :
    Scheduler.persistJob (createdBy s newId req).contextManager newId saveJob = .ok () := by
  rw [persistJob_created]
  cases saveJob with
  | none => rfl
  | some save =>
    cases hs : save (newContext newId req) with
    | ok u =>
      dsimp only
      rw [hs]
      rfl
    | error e => exact absurd (by simp [hs, Except.isOk, Except.toBool]) hsave

/-- As many workers are registered as may run. -/
theorem dispatch_unscheduled (h : s.contextManager.activeCount < s.contextManager.maxJobs)
    (hsave : Saves saveJob (newContext newId req)) (hfresh : Fresh s newId)
    (hfull : s.maxParallelJobs ≤ s.jobs.keys.length) :
    ∃ e, s.dispatchJobInner newId req saveJob now = (.error e, createdBy s newId req) := by
  have hschedule : (createdBy s newId req).scheduleWithContext newId req.approvalContext now
      = (.error (.maxJobsExceeded s.maxParallelJobs), createdBy s newId req) := by
    unfold Scheduler.scheduleWithContext
    rw [if_neg (by rw [(created_frame s newId req).1, hfresh.job]; simp)]
    exact if_pos hfull
  rw [dispatch_created h, persistJob_saved hsave, hschedule]
  exact ⟨_, rfl⟩

/-- The scheduler after a dispatch that succeeds: the job is in progress and has a worker. -/
def scheduledBy (s : Scheduler) (newId : Uuid) (req : Scheduler.DispatchRequest) (now : Time) : Scheduler :=
  { createdBy s newId req with
    contextManager := ((createdBy s newId req).contextManager.transition newId .inProgress
      (some "Scheduled for execution") now).2
    jobs := s.jobs.insert newId s.workers.length
    workers := s.workers ++
      [{ jobId := newId
         config := ⟨s.usePlanning, (createdBy s newId req).maxIterations newId⟩
         approvalContext := req.approvalContext }]
    cleanups := s.cleanups ++ [{ jobId := newId }] }

theorem dispatch_scheduled (h : s.contextManager.activeCount < s.contextManager.maxJobs)
    (hsave : Saves saveJob (newContext newId req)) (hfresh : Fresh s newId)
    (hroom : s.jobs.keys.length < s.maxParallelJobs) :
    s.dispatchJobInner newId req saveJob now = (.ok newId, scheduledBy s newId req now) := by
  have hok : ((createdBy s newId req).contextManager.transition newId .inProgress
      (some "Scheduled for execution") now).1 = .ok (.ok ()) := by
    rw [ContextManager.transition_ok_iff]
    exact ⟨.pending, by rw [created_state, if_pos rfl], rfl⟩
  have hschedule : (createdBy s newId req).scheduleWithContext newId req.approvalContext now
      = (.ok (), scheduledBy s newId req now) := by
    unfold Scheduler.scheduleWithContext
    rw [if_neg (by rw [(created_frame s newId req).1, hfresh.job]; simp),
      if_neg (by rw [(created_frame s newId req).1]; exact not_le.mpr hroom)]
    rcases ht : (createdBy s newId req).contextManager.transition newId .inProgress
      (some "Scheduled for execution") now with ⟨r, cm⟩
    rw [ht] at hok
    have hr : r = .ok (.ok ()) := hok
    subst hr
    unfold scheduledBy
    rw [ht]
    rfl
  rw [dispatch_created h, persistJob_saved hsave, hschedule]

/-- A dispatch fails, if at all, before a context is created. -/
def Tidy (s : Scheduler) (newId : Uuid) (req : Scheduler.DispatchRequest)
    (saveJob : Option (JobContext → Except String Unit)) : Prop :=
  s.contextManager.maxJobs ≤ s.contextManager.activeCount
    ∨ (Saves saveJob (newContext newId req) ∧ s.jobs.keys.length < s.maxParallelJobs)

instance (s : Scheduler) (newId : Uuid) (req : Scheduler.DispatchRequest)
    (saveJob : Option (JobContext → Except String Unit)) : Decidable (Tidy s newId req saveJob) :=
  inferInstanceAs (Decidable (_ ∨ _))

/-- A dispatch that is not tidy fails and leaves the created context. -/
theorem dispatch_untidy (now : Time) (hfresh : Fresh s newId) (h : ¬ Tidy s newId req saveJob) :
    ∃ e, s.dispatchJobInner newId req saveJob now = (.error e, createdBy s newId req) := by
  unfold Tidy at h
  push Not at h
  obtain ⟨hroom, hfull⟩ := h
  by_cases hsave : Saves saveJob (newContext newId req)
  · exact dispatch_unscheduled hroom hsave hfresh (hfull hsave)
  · exact dispatch_unsaved hroom hsave

/-- **A failed dispatch leaves no trace exactly when it is tidy.** -/
theorem failed_dispatch_iff (hfresh : Fresh s newId) : ((∃ e, (s.dispatchJobInner newId req saveJob now).1 = .error e) →
        activeJobs (s.dispatchJobInner newId req saveJob now).2.contextManager = activeJobs s.contextManager)
      ↔ Tidy s newId req saveJob := by
  constructor
  · intro hclean
    by_contra huntidy
    obtain ⟨e, hd⟩ := dispatch_untidy now hfresh huntidy
    rw [hd] at hclean
    exact activeJobs_created req hfresh.context (hclean ⟨e, rfl⟩)
  · rintro htidy ⟨e, herr⟩
    by_cases hfull : s.contextManager.maxJobs ≤ s.contextManager.activeCount
    · rw [dispatch_refused hfull]
    · rcases htidy with h | ⟨hsave, hroom⟩
      · exact absurd h hfull
      · rw [dispatch_scheduled (not_le.mp hfull) hsave hfresh hroom] at herr
        cases herr

end Ends

/-! ## A dispatch, step by step -/

/-- **A dispatch is steps of the system**: the context, and then, if the job was saved, its scheduling. Other steps may
    come in between. -/
theorem dispatch_steps {s : Scheduler} {newId : Uuid} (req : Scheduler.DispatchRequest)
    (saveJob : Option (JobContext → Except String Unit)) (now : Time) (hfresh : Fresh s newId)
    (hlock : s.stopping = none) :
    ∃ steps ∈ [[(SchedulerStep.create newId req, now)], [(.create newId req, now),
      (.schedule newId req.approvalContext, now)]],
      steps.foldlM Scheduler.step s = some (s.dispatchJobInner newId req saveJob now).2 := by
  have hcreate : s.step (.create newId req, now) = some (if s.contextManager.maxJobs ≤ s.contextManager.activeCount
      then s else createdBy s newId req) := by
    show (if (s.contextManager.contexts.lookup newId).isSome then none else _) = _
    rw [hfresh.context]
    by_cases hfull : s.contextManager.maxJobs ≤ s.contextManager.activeCount
    · rw [ContextManager.createJobForUser_of_full newId _ _ _ hfull, if_pos hfull]
      rfl
    · rw [ContextManager.createJobForUser_of_room newId _ _ _ (not_le.mp hfull), if_neg hfull]
      rfl
  by_cases hfull : s.contextManager.maxJobs ≤ s.contextManager.activeCount
  · refine ⟨_, List.mem_cons_self, ?_⟩
    rw [List.foldlM_cons, hcreate, if_pos hfull, dispatch_refused hfull]
    rfl
  · rw [if_neg hfull] at hcreate
    rw [dispatch_created (not_le.mp hfull)]
    cases hsaved : Scheduler.persistJob (createdBy s newId req).contextManager newId saveJob with
    | error e =>
      refine ⟨_, List.mem_cons_self, ?_⟩
      rw [List.foldlM_cons, hcreate]
      rfl
    | ok u =>
      refine ⟨_, List.mem_cons_of_mem _ List.mem_cons_self, ?_⟩
      have hschedule : (createdBy s newId req).step (.schedule newId req.approvalContext, now)
          = some ((createdBy s newId req).scheduleWithContext newId req.approvalContext now).2 := by
        show (if (createdBy s newId req).stopping.isSome then none else _) = _
        rw [show (createdBy s newId req).stopping = none from hlock]
        rfl
      rw [List.foldlM_cons, hcreate, Option.bind_eq_bind, Option.bind_some, List.foldlM_cons, hschedule]
      dsimp only
      split
      · next hr => rw [hr]; rfl
      · next hr => rw [hr]; rfl

/-! ## Runs of the system -/

section Counting

variable {m : ContextManager} {id : Uuid} {jobs : Map Uuid Nat}

theorem updateContext_maxJobs {α : Type} (m : ContextManager) (id : Uuid) (f : JobContext → α × JobContext) :
    (m.updateContext id f).2.maxJobs = m.maxJobs := by
  unfold ContextManager.updateContext
  cases m.contexts.lookup id with
  | none => rfl
  | some ctx => rfl

theorem keys_insert_length {handle : Nat} (h : jobs.lookup id = none) :
    (jobs.insert id handle).keys.length = jobs.keys.length + 1 := by
  have hnot : id ∉ jobs.keys := fun hmem => AList.lookup_eq_none.mp h (AList.mem_keys.mpr hmem)
  rw [AList.keys_insert, List.length_cons, List.erase_of_not_mem hnot]

theorem keys_erase_length (h : (jobs.lookup id).isSome) : (jobs.erase id).keys.length + 1 = jobs.keys.length := by
  have hmem : id ∈ jobs.keys := AList.mem_keys.mp (AList.lookup_isSome.mp h)
  rw [AList.keys_erase, List.length_erase_of_mem hmem]
  have hpos := List.length_pos_of_mem hmem
  omega

end Counting

/-- The jobs a worker was ever spawned for. -/
def hired (s : Scheduler) : List Uuid := s.workers.map (·.jobId)

/-- Every job that got a worker has ended: it was marked `Completed`, `Failed` or `Cancelled`. -/
def Ended (s : Scheduler) : Prop :=
  ∀ id ∈ hired s, ∃ st ∈ [JobState.completed, .failed, .cancelled], s.contextManager.state id = some st

/-- The jobs **left behind**: those whose dispatch failed after it created them, which no worker was ever spawned for,
    and those that ended `Completed`. -/
def leftBehind (s : Scheduler) : Nat :=
  Map.count (fun id ctx => !decide (id ∈ hired s) || decide (ctx.state = .completed)) s.contextManager.contexts

/-- **The account of the jobs**: without a worker a job stays as it was created, and what the map and a call of `stop`
    speak of had one. -/
structure Accounted (maxJobs : Nat) (s : Scheduler) : Prop where
  capacity : s.contextManager.maxJobs = maxJobs
  pending : ∀ id st, s.contextManager.state id = some st → id ∉ hired s → st = .pending
  mapped : ∀ id, (s.jobs.lookup id).isSome → id ∈ hired s
  stopped : ∀ c, s.stopping = some c → c.jobId ∈ hired s

section Steps

variable {maxJobs : Nat} {s s' : Scheduler} {now : Time}

theorem accounted_new (maxJobs maxParallelJobs : Nat) (usePlanning : Bool) :
    Accounted maxJobs (Scheduler.new maxJobs maxParallelJobs usePlanning) where
  capacity := rfl
  pending := fun _ _ h => by cases h
  mapped := fun _ h => by cases h
  stopped := fun _ h => by cases h

theorem hired_modifyWorker (s : Scheduler) (handle : Nat) {f : WorkerTask → WorkerTask} (hf : ∀ t, (f t).jobId = t.jobId) :
    hired (s.modifyWorker handle f) = hired s := by
  unfold hired Scheduler.modifyWorker
  apply List.ext_getElem?
  intro k
  rw [List.getElem?_map, List.getElem?_map, List.getElem?_modify]
  cases s.workers[k]? with
  | none => rfl
  | some t =>
    show some (if handle = k then f t else t).jobId = some t.jobId
    split
    · rw [hf]
    · rfl

/-- What a step may do: states change where there is a worker, and workers are added. -/
theorem Accounted.keeps (h : Accounted maxJobs s) (hcapacity : s'.contextManager.maxJobs = s.contextManager.maxJobs)
    (hhired : hired s ⊆ hired s')
    (hstate : ∀ id ∉ hired s', s'.contextManager.state id = s.contextManager.state id)
    (hjobs : ∀ id, (s'.jobs.lookup id).isSome → (s.jobs.lookup id).isSome ∨ id ∈ hired s')
    (hstop : ∀ c, s'.stopping = some c → c.jobId ∈ hired s) : Accounted maxJobs s' where
  capacity := hcapacity.trans h.capacity
  pending := by
    intro id st hst hnone
    rw [hstate id hnone] at hst
    exact h.pending id st hst fun hmem => hnone (hhired hmem)
  mapped := by
    intro id hid
    rcases hjobs id hid with hold | hnew
    · exact hhired (h.mapped id hold)
    · exact hnew
  stopped := fun c hc => hhired (hstop c hc)

/-- A worker task changes, and perhaps the state of a job that has a worker. -/
theorem Accounted.works (h : Accounted maxJobs s) {handle : Nat} {f : WorkerTask → WorkerTask}
    (hf : ∀ t, (f t).jobId = t.jobId) (cm : ContextManager) (hcapacity : cm.maxJobs = s.contextManager.maxJobs)
    (hstate : ∀ id ∉ hired s, cm.state id = s.contextManager.state id) (stopping : Option StopCall)
    (hstop : ∀ c, stopping = some c → c.jobId ∈ hired s) :
    Accounted maxJobs { s.modifyWorker handle f with contextManager := cm, stopping } := by
  have hhired : hired { s.modifyWorker handle f with contextManager := cm, stopping } = hired s :=
    hired_modifyWorker s handle hf
  exact h.keeps hcapacity (by rw [hhired]; exact List.Subset.refl _) (fun id hid => hstate id (hhired ▸ hid))
    (fun id hid => Or.inl hid) hstop

/-- A transition changes the state of its own job only. -/
theorem transition_elsewhere (m : ContextManager) {id k : Uuid} (hne : k ≠ id) (target : JobState)
    (reason : Option String) : (m.transition id target reason now).2.state k = m.state k := by
  rw [ContextManager.transition_state, if_neg hne]

theorem accounted_create (h : Accounted maxJobs s) {newId : Uuid} {req : Scheduler.DispatchRequest}
    (hstep : s.step (.create newId req, now) = some s') : Accounted maxJobs s' := by
  change (if (s.contextManager.contexts.lookup newId).isSome then none else _) = some s' at hstep
  split at hstep
  · cases hstep
  · by_cases hfull : s.contextManager.maxJobs ≤ s.contextManager.activeCount
    · rw [ContextManager.createJobForUser_of_full newId _ _ _ hfull] at hstep
      cases hstep
      exact h
    · rw [ContextManager.createJobForUser_of_room newId _ _ _ (not_le.mp hfull)] at hstep
      obtain rfl : createdBy s newId req = s' := Option.some.inj hstep
      refine ⟨(created_frame s newId req).2.2.2.trans h.capacity, ?_, h.mapped, h.stopped⟩
      intro id st hst hnone
      rw [created_state] at hst
      split at hst
      · exact (Option.some.inj hst).symm
      · exact h.pending id st hst hnone

theorem accounted_schedule (h : Accounted maxJobs s) (jobId : Uuid) (approvalContext : Option ApprovalContext) :
    Accounted maxJobs (s.scheduleWithContext jobId approvalContext now).2 := by
  have hcapacity : (s.contextManager.transition jobId .inProgress (some "Scheduled for execution") now).2.maxJobs
      = s.contextManager.maxJobs := updateContext_maxJobs _ _ _
  obtain ⟨r, hr⟩ : ∃ r, r = s.contextManager.transition jobId .inProgress (some "Scheduled for execution") now := ⟨_, rfl⟩
  have hrefused : r.1 ≠ .ok (.ok ()) → ∀ k, r.2.state k = s.contextManager.state k := by
    rw [hr]
    exact ContextManager.transition_refused
  have helsewhere : ∀ k, k ≠ jobId → r.2.state k = s.contextManager.state k := by
    intro k hne
    rw [hr, transition_elsewhere _ hne]
  unfold Scheduler.scheduleWithContext
  split
  · exact h
  · split
    · exact h
    · rw [← hr] at hcapacity ⊢
      rcases r with ⟨e | reason | u, cm⟩
      · exact h.keeps hcapacity (List.Subset.refl _) (fun id _ => hrefused nofun id) (fun id hid => Or.inl hid) h.stopped
      · exact h.keeps hcapacity (List.Subset.refl _) (fun id _ => hrefused nofun id) (fun id hid => Or.inl hid) h.stopped
      · -- The job gets a worker, and only its state changes.
        have hnew : hired { s with
              contextManager := cm
              jobs := s.jobs.insert jobId s.workers.length
              workers := s.workers ++ [{ jobId, config := ⟨s.usePlanning, s.maxIterations jobId⟩, approvalContext }]
              cleanups := s.cleanups ++ [{ jobId }] } = hired s ++ [jobId] := List.map_append
        refine h.keeps hcapacity ?_ (fun id hid => ?_) (fun id hid => ?_) h.stopped
        · rw [hnew]
          exact List.subset_append_left _ _
        · rw [hnew, List.mem_append, List.mem_singleton, not_or] at hid
          exact helsewhere id hid.2
        · rw [hnew, List.mem_append, List.mem_singleton]
          by_cases hsame : id = jobId
          · exact Or.inr (Or.inr hsame)
          · left
            rw [← AList.lookup_insert_ne hsame]
            exact hid

theorem accounted_work (h : Accounted maxJobs s) {handle : Nat} {answer : Answer}
    (hstep : s.workStep handle answer now = some s') : Accounted maxJobs s' := by
  unfold Scheduler.workStep at hstep
  split at hstep
  · cases hstep
  · next t ht =>
      have hmem : t.jobId ∈ hired s := List.mem_map_of_mem (List.mem_of_getElem? ht)
      split at hstep
      · cases hstep
      · split at hstep
        · cases hstep
        · cases hstep
          refine h.works ?_ _ ?_ ?_ s.stopping h.stopped
          · exact fun _ => rfl
          · split
            · rfl
            · exact updateContext_maxJobs _ _ _
          · intro id hid
            split
            · rfl
            · have hne : id ≠ t.jobId := by
                rintro rfl
                exact hid hmem
              exact transition_elsewhere s.contextManager hne _ none

theorem accounted_move (h : Accounted maxJobs s) {handle : Nat} {allowed : WorkerTask → Bool} {p : Phase}
    (hstep : s.moveWorker handle allowed p = some s') : Accounted maxJobs s' := by
  unfold Scheduler.moveWorker at hstep
  split at hstep
  · split at hstep
    · cases hstep
      refine h.works ?_ s.contextManager rfl (fun _ _ => rfl) s.stopping h.stopped
      exact fun _ => rfl
    · cases hstep
  · cases hstep

theorem accounted_stopStep (h : Accounted maxJobs s) (hstep : s.stopStep now = some s') : Accounted maxJobs s' := by
  have hcall : ∀ jobId handle stage stage', s.stopping = some ⟨jobId, handle, stage⟩ →
      ∀ c, some (StopCall.mk jobId handle stage') = some c → c.jobId ∈ hired s := by
    intro jobId handle stage stage' hc c hsome
    cases hsome
    exact h.stopped ⟨jobId, handle, stage⟩ hc
  have hkeep : ∀ stopping, (∀ c, stopping = some c → c.jobId ∈ hired s) → Accounted maxJobs { s with stopping } :=
    fun _ hstop => h.keeps rfl (List.Subset.refl _) (fun _ _ => rfl) (fun _ hid => Or.inl hid) hstop
  unfold Scheduler.stopStep at hstep
  split at hstep
  · cases hstep
  · next hc =>
      split at hstep
      · cases hstep
        exact hkeep _ (hcall _ _ _ _ hc)
      · split at hstep
        · cases hstep
          refine h.works ?_ s.contextManager rfl (fun _ _ => rfl) _ (hcall _ _ _ _ hc)
          exact fun _ => rfl
        · cases hstep
  · next hc =>
      cases hstep
      exact hkeep _ (hcall _ _ _ _ hc)
  · next hc =>
      split at hstep
      · cases hstep
        exact hkeep _ (hcall _ _ _ _ hc)
      · cases hstep
        refine h.works ?_ s.contextManager rfl (fun _ _ => rfl) _ (hcall _ _ _ _ hc)
        exact fun _ => rfl
  · next jobId handle hc =>
      cases hstep
      have hmem : jobId ∈ hired s := h.stopped _ hc
      refine h.keeps (updateContext_maxJobs _ _ _) (List.Subset.refl _) ?_ (fun _ hid => Or.inl hid) nofun
      intro id hid
      have hne : id ≠ jobId := by
        rintro rfl
        exact hid hmem
      exact transition_elsewhere s.contextManager hne _ _

/-- A repair touches stuck jobs only, and those had a worker. -/
theorem accounted_repair (h : Accounted maxJobs s) (maxRepairAttempts : Nat) (job : StuckJob) :
    Accounted maxJobs { s with contextManager := (repairStuckJob s.contextManager maxRepairAttempts job now).2 } := by
  have hrecover : Accounted maxJobs { s with contextManager := (s.contextManager.recover job.jobId now).2 } := by
    refine h.keeps (updateContext_maxJobs _ _ _) (List.Subset.refl _) ?_ (fun _ hid => Or.inl hid) h.stopped
    intro id hid
    have hnone : id ∉ hired s := hid
    show (s.contextManager.recover job.jobId now).2.state id = s.contextManager.state id
    rw [ContextManager.recover_state]
    split
    · next hsame =>
        rw [← hsame]
        cases hst : s.contextManager.state id with
        | none => rfl
        | some st =>
          rw [h.pending id st hst hnone]
          rfl
    · rfl
  unfold repairStuckJob
  split
  · exact h
  · generalize s.contextManager.recover job.jobId now = r at hrecover ⊢
    rcases r with ⟨e | e | u, cm⟩
    · exact hrecover
    · exact hrecover
    · exact hrecover

/-- **Every step keeps the account.** -/
theorem accounted_step (h : Accounted maxJobs s) {l : SchedulerStep × Time} (hstep : s.step l = some s') :
    Accounted maxJobs s' := by
  obtain ⟨l, now⟩ := l
  -- while a stop holds the lock no such step is possible
  have hfree : ∀ {x : Scheduler}, (if s.stopping.isSome then none else some x) = some s' → x = s' := by
    intro x hx
    split at hx
    · cases hx
    · exact Option.some.inj hx
  have hmap : ∀ jobs cleanups, (∀ id, (jobs.lookup id).isSome → (s.jobs.lookup id).isSome) →
      Accounted maxJobs { s with jobs, cleanups } :=
    fun jobs cleanups hjobs => h.keeps rfl (List.Subset.refl _) (fun _ _ => rfl)
      (fun id hid => Or.inl (hjobs id hid)) h.stopped
  have herase : ∀ jobId id, ((s.jobs.erase jobId).lookup id).isSome → (s.jobs.lookup id).isSome := by
    intro jobId id hid
    by_cases hsame : id = jobId
    · rw [hsame, AList.lookup_erase] at hid
      cases hid
    · rw [AList.lookup_erase_ne hsame] at hid
      exact hid
  cases l with
  | create newId req => exact accounted_create h hstep
  | schedule jobId approvalContext =>
    obtain rfl := hfree hstep
    exact accounted_schedule h jobId approvalContext
  | work handle answer => exact accounted_work h hstep
  | timeout handle => exact accounted_move h hstep
  | panic handle => exact accounted_move h hstep
  | cancel handle => exact accounted_move h hstep
  | stopCall jobId =>
    obtain rfl := hfree hstep
    unfold Scheduler.stopCall
    split
    · next hlookup =>
        refine h.keeps rfl (List.Subset.refl _) (fun _ _ => rfl) (fun id hid => Or.inl (herase jobId id hid)) ?_
        intro c hc
        cases hc
        exact h.mapped jobId (by rw [hlookup]; rfl)
    · exact h
  | stopStep => exact accounted_stopStep h hstep
  | cleanupFinished =>
    obtain rfl := hfree hstep
    refine hmap _ _ fun id hid => ?_
    rw [Map.lookup_retain] at hid
    cases hlookup : s.jobs.lookup id with
    | none =>
      rw [hlookup] at hid
      cases hid
    | some handle => rfl
  | cleanupTest index =>
    simp only [Scheduler.step] at hstep
    split at hstep
    · obtain rfl := hfree hstep
      exact hmap _ _ fun _ hid => hid
    · cases hstep
  | cleanupRemove index =>
    simp only [Scheduler.step] at hstep
    split at hstep
    · obtain rfl := hfree hstep
      exact hmap _ _ (herase _)
    · cases hstep
  | repair maxRepairAttempts job =>
    cases hstep
    exact accounted_repair h maxRepairAttempts job
  | send handle content =>
    simp only [Scheduler.step] at hstep
    split at hstep
    · cases hstep
      refine h.works ?_ s.contextManager rfl (fun _ _ => rfl) s.stopping h.stopped
      exact fun _ => rfl
    · cases hstep

/-- **When every job with a worker has ended**, the jobs that count are those left behind. -/
theorem Accounted.active (h : Accounted maxJobs s) (hended : Ended s) : s.contextManager.activeCount = leftBehind s := by
  rw [activeCount_eq]
  unfold leftBehind Map.count
  refine List.countP_congr fun e he => ?_
  have hlookup : s.contextManager.contexts.lookup e.1 = some e.2 := AList.mem_lookup_iff.mpr he
  have hstate : s.contextManager.state e.1 = some e.2.state := by
    unfold ContextManager.state
    rw [hlookup]
    rfl
  by_cases hmem : e.1 ∈ hired s
  · obtain ⟨st, hst, hsome⟩ := hended e.1 hmem
    rw [hstate] at hsome
    have hsame : e.2.state = st := Option.some.inj hsome
    simp only [counted, hmem, hsame]
    simp only [List.mem_cons, List.not_mem_nil, or_false] at hst
    rcases hst with rfl | rfl | rfl
    · decide
    · decide
    · decide
  · have hpending := h.pending e.1 _ hstate hmem
    simp [counted, hmem, hpending, JobState.isActive, JobState.isTerminal]

end Steps

/-- **What dispatches leave behind.** A failed dispatch leaves the set of active jobs alone exactly when it
    fails before its context is created. And in every run of the scheduler, its workers and its cleanup tasks: once
    every job that got a worker has ended, a further job can be created exactly when fewer jobs were left behind
    than are allowed. -/
theorem dispatch_capacity_iff (s : Scheduler) (newId : Uuid) (req : Scheduler.DispatchRequest)
    (saveJob : Option (JobContext → Except String Unit)) (now : Time) :
    (Fresh s newId →
      (((∃ e, (s.dispatchJobInner newId req saveJob now).1 = .error e) →
          activeJobs (s.dispatchJobInner newId req saveJob now).2.contextManager = activeJobs s.contextManager)
        ↔ Tidy s newId req saveJob)) ∧
    (∀ (maxJobs maxParallelJobs : Nat) (usePlanning : Bool) (steps : List (SchedulerStep × Time)) (s : Scheduler),
      Runs Scheduler.step (fun _ _ => True) (Scheduler.new maxJobs maxParallelJobs usePlanning) steps s → Ended s →
      ∀ (newId : Uuid) (userId title description : String),
      ((s.contextManager.createJobForUser newId userId title description).1 = .ok newId ↔ leftBehind s < maxJobs)) := by
  refine ⟨failed_dispatch_iff, ?_⟩
  clear s newId req saveJob now
  intro maxJobs maxParallelJobs usePlanning steps s run hended newId userId title description
  have haccount : Accounted maxJobs s := run.invariant (P := fun _ s => Accounted maxJobs s) (accounted_new _ _ _)
    fun h _ hstep => accounted_step h hstep
  have hcount := haccount.active hended
  have hmax := haccount.capacity
  by_cases hroom : leftBehind s < maxJobs
  · rw [ContextManager.createJobForUser_of_room newId _ _ _ (by omega)]
    simp [hroom]
  · rw [ContextManager.createJobForUser_of_full newId _ _ _ (by omega)]
    simp [hroom]

/-- A dispatch that asks for nothing special. -/
def plainRequest : Scheduler.DispatchRequest := ⟨"user1", "title", "description", none, none⟩

/-- A store that fails. -/
def brokenStore : Option (JobContext → Except String Unit) := some fun _ => .error "disk full"

/-- A job is dispatched, and its worker marks it `Failed` when the model cannot be asked. -/
def failingJob : List (SchedulerStep × Time) :=
  [(.create 1 plainRequest, 0), (.schedule 1 none, 0), (.work 0 .unit, 1), (.work 0 .unit, 2), (.work 0 .unit, 3),
    (.work 0 (.selected .error), 4), (.work 0 .unit, 5)]

/-- A job is dispatched, and its worker marks it `Completed` when the model says so. -/
def completedJob : List (SchedulerStep × Time) :=
  [(.create 1 plainRequest, 0), (.schedule 1 none, 0), (.work 0 .unit, 1), (.work 0 .unit, 2), (.work 0 .unit, 3),
    (.work 0 (.selected (.ok [])), 4), (.work 0 (.responded (.ok (.text "The job is complete."))), 5),
    (.work 0 .unit, 6), (.work 0 .unit, 7)]

/-- One job that fails, and whose cleanup task has removed it: the next one can be created. -/
theorem capacity_after_failed_job :
    Tidy (Scheduler.new 1 1 false) 1 plainRequest none ∧
      ∃ s : Scheduler, hired s = [1] ∧ (s.contextManager.createJobForUser 2 "user1" "title" "description").1 = .ok 2 := by
  refine ⟨((dispatch_capacity_iff (Scheduler.new 1 1 false) 1 plainRequest none 0).1 ⟨rfl, rfl⟩).mp ?_, ?_⟩
  · rw [dispatch_scheduled (by decide) (by decide) ⟨rfl, rfl⟩ (by decide)]
    rintro ⟨e, he⟩
    cases he
  · obtain ⟨s, hs⟩ : ∃ s, (failingJob ++ [(SchedulerStep.cleanupTest 0, (6 : Time)),
    (.cleanupRemove 0, 7)]).foldlM Scheduler.step
        (Scheduler.new 1 1 false) = some s := ⟨_, rfl⟩
    have hhired : hired s = [1] := by
      have h := congrArg (Option.map hired) hs
      exact (Option.some.inj h).symm
    have hstate : s.contextManager.state 1 = some .failed := by
      have h := congrArg (Option.map fun s => s.contextManager.state 1) hs
      exact (Option.some.inj h).symm
    have hleft : leftBehind s = 0 := by
      have h := congrArg (Option.map leftBehind) hs
      exact (Option.some.inj h).symm
    refine ⟨s, hhired, ?_⟩
    refine ((dispatch_capacity_iff s 1 plainRequest none 0).2 1 1 false _ s (Runs.of_foldlM hs) ?_ 2 _ _ _).mpr ?_
    · intro id hid
      rw [hhired, List.mem_singleton] at hid
      rw [hid]
      exact ⟨.failed, by decide, hstate⟩
    · rw [hleft]
      exact Nat.one_pos

/-- A store that fails leaves an active context behind. So does a second dispatch between the end of a failed job and
    its cleanup: the manager has room for it, the scheduler has none. A job that ended `Completed` stays active too. After
    each of them every job that got a worker has ended, and the next dispatch is refused. -/
theorem failed_dispatch_uses_capacity :
    ((∃ e, ((Scheduler.new 1 1 false).dispatchJobInner 1 plainRequest brokenStore 0).1 = .error e) ∧
      activeJobs ((Scheduler.new 1 1 false).dispatchJobInner 1 plainRequest brokenStore 0).2.contextManager
        ≠ activeJobs (Scheduler.new 1 1 false).contextManager) ∧
    (∀ steps ∈ [[(SchedulerStep.create 1 plainRequest, (0 : Time))],
        failingJob ++ [(.create 2 plainRequest, 6), (.schedule 2 none, 6), (.cleanupTest 0, 7), (.cleanupRemove 0, 8)],
        completedJob ++ [(.cleanupTest 0, 8), (.cleanupRemove 0, 9)]],
      ∃ s, steps.foldlM Scheduler.step (Scheduler.new 1 1 false) = some s ∧ s.jobs.keys = [] ∧ Ended s ∧
        (s.contextManager.createJobForUser 3 "user1" "title" "description").1 ≠ .ok 3) := by
  have huntidy : ¬ Tidy (Scheduler.new 1 1 false) 1 plainRequest brokenStore := by decide
  obtain ⟨e, hd⟩ := dispatch_untidy 0 ⟨rfl, rfl⟩ huntidy
  refine ⟨⟨⟨e, by rw [hd]⟩, ?_⟩, ?_⟩
  · rw [hd]
    exact activeJobs_created plainRequest rfl
  · intro steps hsteps
    simp only [List.mem_cons, List.not_mem_nil, or_false] at hsteps
    rcases hsteps with rfl | rfl | rfl
    · exact ⟨_, rfl, rfl, nofun, nofun⟩
    · refine ⟨_, rfl, rfl, fun id hid => ?_, nofun⟩
      rw [List.mem_singleton.mp hid]
      exact ⟨.failed, by decide, rfl⟩
    · refine ⟨_, rfl, rfl, fun id hid => ?_, nofun⟩
      rw [List.mem_singleton.mp hid]
      exact ⟨.completed, by decide, rfl⟩

end Freeclawdia.Dispatching
