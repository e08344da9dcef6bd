import Freeclawdia.Orchestrator.JobManager

/-!
# `Correctness.ContainerLifecycle` — token, grants, handle and container of a job

The four resources of a job are released one after the other, so that a token outlives the state of its handle for as
long as a call is between two of its sections, and grants their token likewise. Beyond that they agree (`Lifecycle`), in
every run whose steps are `Orderly`: a job is created once, a worker completes a job whose container is recorded, and
only a stopped handle is cleaned up. A container that cannot be started stays behind, which `Lifecycle.afterError` says.
-/

namespace Freeclawdia.Orchestrator

open Rust

variable {t t' : Nat} {s s' s'' : Shared} {o : Op} {i : Input} {job job' : Uuid}

/-! ## What is asked of a run -/

/-- The creation of a job is over. -/
def Shared.Settled (s : Shared) (job : Uuid) : Prop := job ∈ s.created ∧ ∀ t, (t, job) ∉ s.creating

/-- What a step has to meet; no request to Docker or to the file system has to succeed. -/
def Orderly (_ : Nat) (o : Op) (_ : Input) (s : Shared) : Prop :=
  match o with
  | .createToken job => job ∉ s.created
  | .completeHandle job _ => ∃ h, s.containers.lookup job = some h ∧ h.containerId ≠ ""
  | .cleanupHandle job => (∀ t, (t, job) ∉ s.reading) ∧ ∀ h, s.containers.lookup job = some h → h.state = .stopped
  | _ => True

/-! ## The invariant -/

/-- How the books, the maps and Docker agree. -/
structure Inv (s : Shared) : Prop where
  oneCreator : ∀ t t' job, (t, job) ∈ s.creating → (t', job) ∈ s.creating → t = t'
  createdOf : ∀ t job, (t, job) ∈ s.creating → job ∈ s.created
  ofContainer : ∀ c ∈ s.docker, c.jobId ∈ s.created
  fresh : ∀ t job h, (t, job) ∈ s.creating → s.containers.lookup job = some h → h.state = .creating ∧ h.containerId = ""
  handled : ∀ job h, s.containers.lookup job = some h → job ∈ s.created
  ids : ∀ job h, s.containers.lookup job = some h → h.containerId ≠ "" →
    ∀ c ∈ s.docker, c.jobId = job → c.id = h.containerId
  stoppedOf : ∀ job, job ∈ s.stopped → s.Settled job
  notRunning : ∀ job h, job ∈ s.stopped → s.containers.lookup job = some h → h.state ≠ .running
  tokens : ∀ job, (s.tokens.lookup job).isSome →
    (∃ h, s.containers.lookup job = some h ∧ (h.state = .creating ∨ h.state = .running)) ∨ ∃ t, (t, job) ∈ s.pending
  grants : ∀ job, (s.credentialGrants.lookup job).isSome →
    (s.tokens.lookup job).isSome ∨ ∃ t, (t, job) ∈ s.revoking
  readable : ∀ t job, (t, job) ∈ s.reading → ∃ h, s.containers.lookup job = some h ∧ h.containerId ≠ ""

/-- What one task relies on. -/
structure Rely (t : Nat) (s s' : Shared) : Prop where
  creating : ∀ job, (t, job) ∈ s'.creating ↔ (t, job) ∈ s.creating
  pending : ∀ job, (t, job) ∈ s'.pending ↔ (t, job) ∈ s.pending
  revoking : ∀ job, (t, job) ∈ s'.revoking ↔ (t, job) ∈ s.revoking
  reading : ∀ job, (t, job) ∈ s'.reading ↔ (t, job) ∈ s.reading
  failed : t ∈ s'.failed ↔ t ∈ s.failed
  unstarted : t ∈ s'.unstarted ↔ t ∈ s.unstarted
  token : ∀ job, (t, job) ∈ s.creating → s'.tokens.lookup job = s.tokens.lookup job
  settled : ∀ job, s.Settled job → s'.Settled job
  docker : ∀ job, (t, job) ∈ s.creating ∨ s.Settled job → ∀ c ∈ s'.docker, c.jobId = job →
    ∃ c' ∈ s.docker, c'.id = c.id ∧ c'.jobId = job

theorem Rely.refl (t : Nat) (s : Shared) : Rely t s s :=
  ⟨fun _ => Iff.rfl, fun _ => Iff.rfl, fun _ => Iff.rfl, fun _ => Iff.rfl, Iff.rfl, Iff.rfl, fun _ _ => rfl,
    fun _ h => h, fun _ _ c hc hjob => ⟨c, hc, rfl, hjob⟩⟩

theorem Rely.trans (hr : Rely t s s') (hr' : Rely t s' s'') : Rely t s s'' where
  creating job := (hr'.creating job).trans (hr.creating job)
  pending job := (hr'.pending job).trans (hr.pending job)
  revoking job := (hr'.revoking job).trans (hr.revoking job)
  reading job := (hr'.reading job).trans (hr.reading job)
  failed := hr'.failed.trans hr.failed
  unstarted := hr'.unstarted.trans hr.unstarted
  token job h := (hr'.token job ((hr.creating job).mpr h)).trans (hr.token job h)
  settled job h := hr'.settled job (hr.settled job h)
  docker job h c hc hjob := by
    have h' : (t, job) ∈ s'.creating ∨ s'.Settled job := h.imp (hr.creating job).mpr (hr.settled job)
    obtain ⟨c', hc', hid, hjob'⟩ := hr'.docker job h' c hc hjob
    obtain ⟨c'', hc'', hid', hjob''⟩ := hr.docker job h c' hc' hjob'
    exact ⟨c'', hc'', hid'.trans hid, hjob''⟩

/-- What a call knows when it comes to an operation. -/
def Knows (t : Nat) (o : Op) (s : Shared) : Prop :=
  match o with
  | .storeGrants job _ => (s.tokens.lookup job).isSome
  | .insertHandle job _ _ _ => (t, job) ∈ s.creating
  | .createContainer job _ => (t, job) ∈ s.creating
  | .setRunning job id => (t, job) ∈ s.creating ∧ ∀ c ∈ s.docker, c.jobId = job → c.id = id
  | .dropHandle job => (t, job) ∈ s.creating ∧ s.tokens.lookup job = none
  | .setStopped job => s.Settled job
  | .revokeToken job => s.Settled job ∨ (t, job) ∈ s.creating
  | _ => True

theorem not_settled (hcreating : (t, job) ∈ s.creating) : ¬s.Settled job :=
  fun hsettled => hsettled.2 t hcreating

theorem Inv.settled_of_id (h : Inv s) {handle : ContainerHandle} (hlookup : s.containers.lookup job = some handle)
    (hid : handle.containerId ≠ "") : s.Settled job :=
  ⟨h.handled job handle hlookup, fun t hcreating => hid (h.fresh t job handle hcreating hlookup).2⟩

theorem lookup_modifyHandle (s : Shared) (job job' : Uuid) (f : ContainerHandle → ContainerHandle) :
    (s.modifyHandle job f).containers.lookup job' =
      if job' = job then (s.containers.lookup job).map f else s.containers.lookup job' := by
  unfold Shared.modifyHandle
  cases hlookup : s.containers.lookup job with
  | none =>
    by_cases heq : job' = job
    · rw [if_pos heq, heq]
      exact hlookup
    · rw [if_neg heq]
  | some h => exact Map.lookup_insert_ite s.containers job job' (f h)

/-- A change of the handle leaves the rest. -/
theorem modifyHandle_eq (s : Shared) (job : Uuid) (f : ContainerHandle → ContainerHandle) :
    s.modifyHandle job f = { s with containers := (s.modifyHandle job f).containers } := by
  unfold Shared.modifyHandle
  split <;> rfl

/-! ## One operation -/

section Steps

attribute [local simp] Shared.Settled Map.lookup_insert_ite Map.lookup_erase_ite

theorem inv_createToken (hinv : Inv s) (hnew : job ∉ s.created) (token : String) : Inv { s with
      tokens := s.tokens.insert job token
      created := job :: s.created
      creating := (t, job) :: s.creating
      pending := (t, job) :: s.pending } := by
  obtain ⟨oneCreator, createdOf, ofContainer, fresh, handled, ids, stoppedOf, notRunning, tokens, grants, readable⟩ := hinv
  -- Nothing there is belongs to the new job.
  constructor <;> simp at * <;> grind

theorem inv_storeGrants (hinv : Inv s) (htoken : (s.tokens.lookup job).isSome) (new : List CredentialGrant) :
    Inv { s with credentialGrants := s.credentialGrants.insert job new } := by
  refine { hinv with grants := fun job' hsome => ?_ }
  change ((s.credentialGrants.insert job new).lookup job').isSome at hsome
  rw [Map.lookup_insert_ite] at hsome
  split at hsome
  next heq => exact .inl (heq ▸ htoken)
  next => exact hinv.grants job' hsome

variable {h : ContainerHandle}

theorem inv_insertHandle (hinv : Inv s) (hcreating : (t, job) ∈ s.creating) (hstate : h.state = .creating)
    (hid : h.containerId = "") : Inv { s with
      containers := s.containers.insert job h
      pending := s.pending.filter (· ≠ (t, job)) } := by
  obtain ⟨oneCreator, createdOf, ofContainer, fresh, handled, ids, stoppedOf, notRunning, tokens, grants, readable⟩ := hinv
  constructor <;> simp at * <;> grind

theorem inv_createContainer (hinv : Inv s) (hcreating : (t, job) ∈ s.creating) (id : String) (spec : ContainerSpec) :
    Inv { s with docker := ⟨id, job, spec, false⟩ :: s.docker } := by
  obtain ⟨oneCreator, createdOf, ofContainer, fresh, handled, ids, stoppedOf, notRunning, tokens, grants, readable⟩ := hinv
  constructor <;> simp at * <;> grind

/-- The containers stay what they are, or some of them are gone. -/
theorem inv_docker (hinv : Inv s) {containers : List Container}
    (hfrom : ∀ c ∈ containers, ∃ c' ∈ s.docker, c'.id = c.id ∧ c'.jobId = c.jobId) :
    Inv { s with docker := containers } := by
  refine { hinv with ofContainer := fun c hc => ?_, ids := fun job h hlookup hid c hc hjob => ?_ }
  · obtain ⟨c', hc', -, hjob⟩ := hfrom c hc
    exact hjob ▸ hinv.ofContainer c' hc'
  · obtain ⟨c', hc', hid', hjob'⟩ := hfrom c hc
    exact hid' ▸ hinv.ids job h hlookup hid c' hc' (hjob'.trans hjob)

/-- The handle of one job is changed. -/
structure Changed (s : Shared) (job : Uuid) (f : ContainerHandle → ContainerHandle)
    (containers : Map Uuid ContainerHandle) :
    Prop where
  self : containers.lookup job = (s.containers.lookup job).map f
  other : ∀ job', job' ≠ job → containers.lookup job' = s.containers.lookup job'

theorem changed_modifyHandle (s : Shared) (job : Uuid) (f : ContainerHandle → ContainerHandle) :
    Changed s job f (s.modifyHandle job f).containers :=
  ⟨by rw [lookup_modifyHandle, if_pos rfl], fun job' hne => by rw [lookup_modifyHandle, if_neg hne]⟩

variable {f : ContainerHandle → ContainerHandle} {containers : Map Uuid ContainerHandle}

theorem Changed.kept (hc : Changed s job f containers) (hh : s.containers.lookup job' = some h) :
    containers.lookup job' = some (if job' = job then f h else h) := by
  split
  next heq => rw [heq, hc.self, ← heq, hh]; rfl
  next hne => rw [hc.other job' hne, hh]

theorem Changed.was (hc : Changed s job f containers) (hh : containers.lookup job' = some h) :
    ∃ h', s.containers.lookup job' = some h' ∧ h = if job' = job then f h' else h' := by
  by_cases heq : job' = job
  · subst heq
    rw [hc.self] at hh
    obtain ⟨h', hh', rfl⟩ := Option.map_eq_some_iff.mp hh
    exact ⟨h', hh', (if_pos rfl).symm⟩
  · rw [hc.other job' heq] at hh
    exact ⟨h, hh, (if_neg heq).symm⟩

theorem mem_filter_ne {pairs : List (Nat × Uuid)} {p q : Nat × Uuid} :
    p ∈ pairs.filter (· ≠ q) ↔ p ∈ pairs ∧ p ≠ q := by
  simp

theorem inv_setRunning (hinv : Inv s) (hcreating : (t, job) ∈ s.creating) {id : String}
    (hown : ∀ c ∈ s.docker, c.jobId = job → c.id = id) :
    Inv { s.modifyHandle job fun h => { h with containerId := id, state := .running } with
      creating := s.creating.filter (· ≠ (t, job)) } := by
  have hchanged := changed_modifyHandle s job fun h => { h with containerId := id, state := .running }
  rw [modifyHandle_eq]
  generalize (s.modifyHandle job fun h => { h with containerId := id, state := .running }).containers = containers at *
  have hnot := not_settled hcreating
  constructor
  case oneCreator =>
    exact fun t₁ t₂ job' h₁ h₂ => hinv.oneCreator t₁ t₂ job' (mem_filter_ne.mp h₁).1 (mem_filter_ne.mp h₂).1
  case createdOf => exact fun t' job' h => hinv.createdOf t' job' (mem_filter_ne.mp h).1
  case ofContainer => exact hinv.ofContainer
  case fresh =>
    intro t' job' h hmem hh
    obtain ⟨hin, hne⟩ := mem_filter_ne.mp hmem
    have hjob : job' ≠ job := by
      rintro rfl
      exact hne (by rw [hinv.oneCreator t' t job' hin hcreating])
    change containers.lookup job' = some h at hh
    rw [hchanged.other job' hjob] at hh
    exact hinv.fresh t' job' h hin hh
  case handled =>
    intro job' h hh
    obtain ⟨h', hh', -⟩ := hchanged.was hh
    exact hinv.handled job' h' hh'
  case ids =>
    intro job' h hh hid c hc hjob
    obtain ⟨h', hh', rfl⟩ := hchanged.was hh
    by_cases heq : job' = job
    · rw [if_pos heq]
      exact hown c hc (hjob.trans heq)
    · rw [if_neg heq] at hid ⊢
      exact hinv.ids job' h' hh' hid c hc hjob
  case stoppedOf =>
    intro job' hmem
    have hsettled := hinv.stoppedOf job' hmem
    exact ⟨hsettled.1, fun t' h => hsettled.2 t' (mem_filter_ne.mp h).1⟩
  case notRunning =>
    intro job' h hmem hh
    have hjob : job' ≠ job := by
      rintro rfl
      exact hnot (hinv.stoppedOf job' hmem)
    rw [hchanged.other job' hjob] at hh
    exact hinv.notRunning job' h hmem hh
  case tokens =>
    intro job' htoken
    rcases hinv.tokens job' htoken with ⟨h, hh, hstate⟩ | hpending
    · refine .inl ⟨_, hchanged.kept hh, ?_⟩
      split
      · exact .inr rfl
      · exact hstate
    · exact .inr hpending
  case grants => exact hinv.grants
  case readable =>
    intro t' job' hreading
    obtain ⟨h, hh, hid⟩ := hinv.readable t' job' hreading
    refine ⟨_, hchanged.kept hh, ?_⟩
    -- A handle with an id is not the one that gets its id now.
    have hne : job' ≠ job := fun heq => hid (hinv.fresh t job h hcreating (heq ▸ hh)).2
    rw [if_neg hne]
    exact hid

theorem inv_dropHandle (hinv : Inv s) (hcreating : (t, job) ∈ s.creating) (htoken : s.tokens.lookup job = none) :
    Inv { s with
      containers := s.containers.erase job
      creating := s.creating.filter (· ≠ (t, job)) } := by
  obtain ⟨oneCreator, createdOf, ofContainer, fresh, handled, ids, stoppedOf, notRunning, tokens, grants, readable⟩ := hinv
  constructor <;> simp at * <;> grind

theorem inv_stopHandle (hinv : Inv s) (hsettled : s.Settled job) (f : ContainerHandle → ContainerHandle)
    (hf : ∀ h, (f h).containerId = h.containerId) : Inv (s.stopHandle t job f) := by
  have hchanged := changed_modifyHandle s job fun h => { f h with state := .stopped }
  unfold Shared.stopHandle
  rw [modifyHandle_eq]
  generalize (s.modifyHandle job fun h => { f h with state := .stopped }).containers = containers at *
  have hid : ∀ job' h, (if job' = job then { f h with state := .stopped } else h).containerId = h.containerId := by
    intro job' h
    split
    · exact hf h
    · rfl
  constructor
  case oneCreator => exact hinv.oneCreator
  case createdOf => exact hinv.createdOf
  case ofContainer => exact hinv.ofContainer
  case fresh =>
    intro t' job' h hmem hh
    have hjob : job' ≠ job := by
      rintro rfl
      exact hsettled.2 t' hmem
    rw [hchanged.other job' hjob] at hh
    exact hinv.fresh t' job' h hmem hh
  case handled =>
    intro job' h hh
    obtain ⟨h', hh', -⟩ := hchanged.was hh
    exact hinv.handled job' h' hh'
  case ids =>
    intro job' h hh hne c hc hjob
    obtain ⟨h', hh', rfl⟩ := hchanged.was hh
    rw [hid] at hne ⊢
    exact hinv.ids job' h' hh' hne c hc hjob
  case stoppedOf =>
    intro job' hmem
    split at hmem
    · rcases List.mem_cons.mp hmem with rfl | hmem
      · exact hsettled
      · exact hinv.stoppedOf job' hmem
    · exact hinv.stoppedOf job' hmem
  case notRunning =>
    intro job' h hmem hh
    obtain ⟨h', hh', rfl⟩ := hchanged.was hh
    split
    · nofun
    next hne =>
      refine hinv.notRunning job' h' ?_ hh'
      split at hmem
      · exact (List.mem_cons.mp hmem).resolve_left hne
      · exact hmem
  case tokens =>
    intro job' htoken
    by_cases heq : job' = job
    · exact .inr ⟨t, heq ▸ List.mem_cons_self ..⟩
    rcases hinv.tokens job' htoken with ⟨h, hh, hstate⟩ | ⟨t', hpending⟩
    · exact .inl ⟨h, by rw [hchanged.kept hh, if_neg heq], hstate⟩
    · exact .inr ⟨t', List.mem_cons_of_mem _ hpending⟩
  case grants => exact hinv.grants
  case readable =>
    intro t' job' hreading
    obtain ⟨h, hh, hne⟩ := hinv.readable t' job' hreading
    exact ⟨_, hchanged.kept hh, by rw [hid]; exact hne⟩

theorem inv_revokeToken (hinv : Inv s) : Inv { s with
      tokens := s.tokens.erase job
      pending := s.pending.filter (· ≠ (t, job))
      revoking := (t, job) :: s.revoking } := by
  obtain ⟨oneCreator, createdOf, ofContainer, fresh, handled, ids, stoppedOf, notRunning, tokens, grants, readable⟩ := hinv
  constructor <;> simp at * <;> grind

theorem inv_revokeGrants (hinv : Inv s) : Inv { s with
      credentialGrants := s.credentialGrants.erase job
      revoking := s.revoking.filter (· ≠ (t, job)) } := by
  obtain ⟨oneCreator, createdOf, ofContainer, fresh, handled, ids, stoppedOf, notRunning, tokens, grants, readable⟩ := hinv
  constructor <;> simp at * <;> grind

theorem inv_cleanup (hinv : Inv s) (hreading : ∀ t, (t, job) ∉ s.reading)
    (hstopped : ∀ h, s.containers.lookup job = some h → h.state = .stopped) :
    Inv { s with containers := s.containers.erase job } := by
  obtain ⟨oneCreator, createdOf, ofContainer, fresh, handled, ids, stoppedOf, notRunning, tokens, grants, readable⟩ := hinv
  constructor <;> simp at * <;> grind

end Steps

variable {pairs : List (Nat × Uuid)}

theorem mem_cons_other (hne : t' ≠ t) (job job' : Uuid) : (t', job') ∈ (t, job) :: pairs ↔ (t', job') ∈ pairs := by
  simp [hne]

theorem mem_filter_other (hne : t' ≠ t) (job job' : Uuid) :
    (t', job') ∈ pairs.filter (· ≠ (t, job)) ↔ (t', job') ∈ pairs := by
  simp [hne]

theorem settled_filter (hsettled : s.Settled job') (p : Nat × Uuid) :
    job' ∈ s.created ∧ ∀ t, (t, job') ∉ s.creating.filter (· ≠ p) :=
  ⟨hsettled.1, fun t h => hsettled.2 t (mem_filter_ne.mp h).1⟩

theorem rely_noteDocker (hne : t' ≠ t) (s : Shared) (answer : Except String Unit) : Rely t' s (s.noteDocker t answer) := by
  cases answer with
  | ok => exact Rely.refl t' s
  | error e => exact { Rely.refl t' s with failed := by simp [Shared.noteDocker, hne] }

/-- **What an operation of one task is to the others.** -/
theorem rely_perform (hinv : Inv s) (horderly : Orderly t o i s) (hknows : Knows t o s) {a : Ans o}
    (hop : perform t o i s = some (a, s')) (hne : t' ≠ t) : Rely t' s s' := by
  -- one case for each operation; another task owns other jobs
  cases o with
  | createToken job =>
    cases hop
    refine { Rely.refl t' s with
      creating := mem_cons_other hne job
      pending := mem_cons_other hne job
      token := fun job' h => ?_
      settled := fun job' h => ?_
      docker := fun job' h c hc hjob => ⟨c, hc, rfl, hjob⟩ }
    · have hjob : job' ≠ job := fun heq => horderly (heq ▸ hinv.createdOf t' job' h)
      exact AList.lookup_insert_ne hjob
    · refine ⟨List.mem_cons_of_mem job h.1, fun t'' hmem => ?_⟩
      rcases List.mem_cons.mp hmem with heq | hmem
      · exact horderly ((Prod.mk.inj heq).2 ▸ h.1)
      · exact h.2 t'' hmem
  | storeGrants job grants =>
    cases hop
    split
    · exact Rely.refl t' s
    · exact { Rely.refl t' s with }
  | insertHandle job mode projectDir task =>
    cases hop
    exact { Rely.refl t' s with pending := mem_filter_other hne job }
  | connectDocker =>
    cases hop
    exact rely_noteDocker hne s i.docker
  | cacheDocker =>
    cases hop
    exact { Rely.refl t' s with }
  | createContainer job spec =>
    simp only [perform] at hop
    split at hop
    · cases hop
      exact Rely.refl t' s
    · split at hop
      · cases hop
      · cases hop
        refine { Rely.refl t' s with docker := fun job' h c hc hjob => ?_ }
        rcases List.mem_cons.mp hc with rfl | hc
        · obtain rfl : job = job' := hjob
          rcases h with hcreating | hsettled
          · exact absurd (hinv.oneCreator t' t job hcreating hknows) hne
          · exact absurd hsettled (not_settled hknows)
        · exact ⟨c, hc, rfl, hjob⟩
  | startContainer id =>
    simp only [perform] at hop
    split at hop
    · cases hop
      exact { Rely.refl t' s with unstarted := by simp [hne] }
    · cases hop
      refine { Rely.refl t' s with docker := fun job' _ c hc hjob => ?_ }
      obtain ⟨c', hc', rfl⟩ := List.mem_map.mp hc
      refine ⟨c', hc', ?_⟩
      split at hjob
      next heq =>
        rw [if_pos heq]
        exact ⟨rfl, hjob⟩
      next heq =>
        rw [if_neg heq]
        exact ⟨rfl, hjob⟩
  | setRunning job id =>
    cases hop
    rw [modifyHandle_eq]
    exact { Rely.refl t' s with
      creating := mem_filter_other hne job
      settled := fun job' h => settled_filter h (t, job)
      docker := fun job' _ c hc hjob => ⟨c, hc, rfl, hjob⟩ }
  | dropHandle job =>
    cases hop
    exact { Rely.refl t' s with
      creating := mem_filter_other hne job
      settled := fun job' h => settled_filter h (t, job)
      docker := fun job' _ c hc hjob => ⟨c, hc, rfl, hjob⟩ }
  | completeHandle job result =>
    cases hop
    unfold Shared.stopHandle
    rw [modifyHandle_eq]
    exact { Rely.refl t' s with
      pending := mem_cons_other hne job
      reading := mem_cons_other hne job }
  | containerIdOf job =>
    cases hop
    exact { Rely.refl t' s with reading := mem_filter_other hne job }
  | stopContainer id =>
    cases hop
    exact rely_noteDocker hne s i.docker
  | removeContainer id =>
    simp only [perform] at hop
    split at hop
    · cases hop
      exact rely_noteDocker hne s _
    · cases hop
      refine { Rely.refl t' s with docker := fun job' _ c hc hjob => ?_ }
      exact ⟨c, (List.mem_filter.mp hc).1, rfl, hjob⟩
  | setStopped job =>
    cases hop
    unfold Shared.stopHandle
    rw [modifyHandle_eq]
    exact { Rely.refl t' s with pending := mem_cons_other hne job }
  | revokeToken job =>
    cases hop
    refine { Rely.refl t' s with
      pending := mem_filter_other hne job
      revoking := mem_cons_other hne job
      token := fun job' h => ?_ }
    have hjob : job' ≠ job := by
      rintro rfl
      rcases hknows with hsettled | hcreating
      · exact hsettled.2 t' h
      · exact hne (hinv.oneCreator t' t job' h hcreating)
    exact AList.lookup_erase_ne hjob
  | revokeGrants job =>
    cases hop
    exact { Rely.refl t' s with revoking := mem_filter_other hne job }
  | cleanupHandle job =>
    cases hop
    exact { Rely.refl t' s with }
  | _ =>
    cases hop
    exact Rely.refl t' s

theorem reading_stopHandle (s : Shared) (t : Nat) (job : Uuid) (f : ContainerHandle → ContainerHandle) :
    (s.stopHandle t job f).reading = s.reading := by
  unfold Shared.stopHandle
  rw [modifyHandle_eq]

theorem inv_noteDocker (hinv : Inv s) (t : Nat) (answer : Except String Unit) : Inv (s.noteDocker t answer) := by
  cases answer with
  | ok => exact hinv
  | error e => exact { hinv with }

/-- **The invariant is kept.** -/
theorem inv_perform (hinv : Inv s) (horderly : Orderly t o i s) (hknows : Knows t o s) {a : Ans o}
    (hop : perform t o i s = some (a, s')) : Inv s' := by
  cases o with
  | createToken job =>
    cases hop
    exact inv_createToken hinv horderly _
  | storeGrants job grants =>
    cases hop
    split
    · exact hinv
    · exact inv_storeGrants hinv hknows grants
  | insertHandle job mode projectDir task =>
    cases hop
    exact inv_insertHandle hinv hknows rfl rfl
  | connectDocker =>
    cases hop
    exact inv_noteDocker hinv t i.docker
  | cacheDocker =>
    cases hop
    exact { hinv with }
  | createContainer job spec =>
    simp only [perform] at hop
    split at hop
    · cases hop
      exact hinv
    · split at hop
      · cases hop
      · cases hop
        exact inv_createContainer hinv hknows _ spec
  | startContainer id =>
    simp only [perform] at hop
    split at hop
    · cases hop
      exact { hinv with }
    · cases hop
      refine inv_docker hinv fun c hc => ?_
      obtain ⟨c', hc', rfl⟩ := List.mem_map.mp hc
      refine ⟨c', hc', ?_⟩
      split <;> exact ⟨rfl, rfl⟩
  | setRunning job id =>
    cases hop
    exact inv_setRunning hinv hknows.1 hknows.2
  | dropHandle job =>
    cases hop
    exact inv_dropHandle hinv hknows.1 hknows.2
  | completeHandle job result =>
    cases hop
    obtain ⟨h, hlookup, hid⟩ := horderly
    have hstopped := inv_stopHandle (t := t) hinv (hinv.settled_of_id hlookup hid)
      (fun h => { h with completionResult := some result }) fun _ => rfl
    refine { hstopped with readable := fun t' job' hreading => ?_ }
    rcases List.mem_cons.mp hreading with heq | hreading
    · obtain ⟨rfl, rfl⟩ := Prod.mk.inj heq
      exact ⟨_, (changed_modifyHandle s job' _).kept hlookup, by rw [if_pos rfl]; exact hid⟩
    · rw [← reading_stopHandle s t job] at hreading
      exact hstopped.readable t' job' hreading
  | containerIdOf job =>
    cases hop
    exact { hinv with readable := fun t' job' h => hinv.readable t' job' (mem_filter_ne.mp h).1 }
  | stopContainer id =>
    cases hop
    exact inv_noteDocker hinv t i.docker
  | removeContainer id =>
    simp only [perform] at hop
    split at hop
    · cases hop
      exact inv_noteDocker hinv t _
    · cases hop
      exact inv_docker hinv fun c hc => ⟨c, (List.mem_filter.mp hc).1, rfl, rfl⟩
  | setStopped job =>
    cases hop
    exact inv_stopHandle hinv hknows id fun _ => rfl
  | revokeToken job =>
    cases hop
    exact inv_revokeToken hinv
  | revokeGrants job =>
    cases hop
    exact inv_revokeGrants hinv
  | cleanupHandle job =>
    cases hop
    exact inv_cleanup hinv horderly.1 horderly.2
  | _ =>
    cases hop
    exact hinv

/-! ## The outline -/

variable {config : ContainerJobConfig} {base : Path} {id : String}

/-- No container of the job is left. -/
def Shared.Clear (s : Shared) (job : Uuid) : Prop := ∀ c ∈ s.docker, c.jobId ≠ job

/-- A call has nothing left to do. -/
def Idle (t : Nat) (s : Shared) : Prop :=
  ∀ job, (t, job) ∉ s.creating ∧ (t, job) ∉ s.pending ∧ (t, job) ∉ s.revoking ∧ (t, job) ∉ s.reading

/-- What a call that has returned promises. -/
def Promise (t : Nat) : (c : Call) → Out c → Shared → Prop
  | .createJob job .., .error _, s => s.Settled job ∧ (t ∉ s.unstarted → s.Clear job)
  | .stopJob job, .ok (), s => s.Settled job ∧ (t ∉ s.failed → s.Clear job)
  | .completeJob job _, .ok (), s => s.Settled job ∧ (t ∉ s.failed → s.Clear job)
  | _, _, _ => True

theorem Rely.clear (hr : Rely t s s') (hjob : (t, job) ∈ s.creating ∨ s.Settled job) (hclear : s.Clear job) :
    s'.Clear job := by
  intro c hc heq
  obtain ⟨c', hc', -, hjob'⟩ := hr.docker job hjob c hc heq
  exact hclear c' hc' hjob'

theorem Idle.rely (hidle : Idle t s) (hr : Rely t s s') : Idle t s' := by
  intro job
  rw [hr.creating, hr.pending, hr.revoking, hr.reading]
  exact hidle job

theorem Promise.rely {c : Call} {out : Out c} (h : Promise t c out s) (hr : Rely t s s') : Promise t c out s' := by
  have hreleased : ∀ job, s.Settled job ∧ (t ∉ s.failed → s.Clear job) →
      s'.Settled job ∧ (t ∉ s'.failed → s'.Clear job) := by
    intro job hjob
    refine ⟨hr.settled job hjob.1, fun hfailed => ?_⟩
    rw [hr.failed] at hfailed
    exact hr.clear (.inr hjob.1) (hjob.2 hfailed)
  cases c with
  | createJob job task projectDir mode grants =>
    cases out with
    | error e =>
      refine ⟨hr.settled job h.1, fun hstarted => ?_⟩
      rw [hr.unstarted] at hstarted
      exact hr.clear (.inr h.1) (h.2 hstarted)
    | ok token => exact True.intro
  | stopJob job =>
    cases out with
    | error e => exact True.intro
    | ok u => exact hreleased job h
  | completeJob job result =>
    cases out with
    | error e => exact True.intro
    | ok u => exact hreleased job h
  | cleanupJob job => exact True.intro

def lifecycle (config : ContainerJobConfig) (base : Path) : Outline (machine config base) where
  Inv := Inv
  Rely := Rely
  Pre t s := Idle t s
  Allowed := Orderly
  Post t c out s := Idle t s ∧ Promise t c out s
  rely_refl := Rely.refl
  rely_trans := Rely.trans
  pre_stable := Idle.rely
  post_stable h hr _ := ⟨h.1.rely hr, h.2.rely hr⟩

/-- One operation: the others may have come in before it. -/
theorem holds_perf (o : Op) {Q : Ans o → Shared → Prop}
    (h : ∀ s' i a s'', Rely t s s' → Inv s' → Orderly t o i s' → perform t o i s' = some (a, s'') →
      Knows t o s' ∧ Q a s'') : (lifecycle config base).Holds t Q (perf o) s := by
  apply Outline.holds_op
  intro s' hrely hinv i a s'' hop horderly
  obtain ⟨hknows, hQ⟩ := h s' i a s'' hrely hinv horderly hop
  exact ⟨⟨inv_perform hinv horderly hknows hop, fun t' hne => rely_perform hinv horderly hknows hop hne⟩,
    Outline.holds_ret hQ⟩

/-- What the books say about the task of a call for one job. -/
structure Own (t : Nat) (job : Uuid) (creating pending revoking reading : Bool) (s : Shared) : Prop where
  creating : ∀ job', (t, job') ∈ s.creating ↔ creating = true ∧ job' = job
  pending : ∀ job', (t, job') ∈ s.pending ↔ pending = true ∧ job' = job
  revoking : ∀ job', (t, job') ∈ s.revoking ↔ revoking = true ∧ job' = job
  reading : ∀ job', (t, job') ∈ s.reading ↔ reading = true ∧ job' = job

variable {cr pe rv rd : Bool}

/-- These four books are all it looks at. -/
theorem Own.same (h : Own t job cr pe rv rd s) (hbooks : s'.creating = s.creating ∧ s'.pending = s.pending ∧
    s'.revoking = s.revoking ∧ s'.reading = s.reading) : Own t job cr pe rv rd s' := by
  obtain ⟨hcreating, hpending, hrevoking, hreading⟩ := hbooks
  exact ⟨hcreating ▸ h.creating, hpending ▸ h.pending, hrevoking ▸ h.revoking, hreading ▸ h.reading⟩

theorem Own.rely (hown : Own t job cr pe rv rd s) (hr : Rely t s s') : Own t job cr pe rv rd s' where
  creating job' := (hr.creating job').trans (hown.creating job')
  pending job' := (hr.pending job').trans (hown.pending job')
  revoking job' := (hr.revoking job').trans (hown.revoking job')
  reading job' := (hr.reading job').trans (hown.reading job')

theorem own_of_idle (hidle : Idle t s) (job : Uuid) : Own t job false false false false s where
  creating job' := by simp [(hidle job').1]
  pending job' := by simp [(hidle job').2.1]
  revoking job' := by simp [(hidle job').2.2.1]
  reading job' := by simp [(hidle job').2.2.2]

theorem Own.idle (hown : Own t job false false false false s) : Idle t s := by
  intro job'
  simp [hown.creating, hown.pending, hown.revoking, hown.reading]

variable {b : Bool}

theorem own_cons (h : ∀ job', (t, job') ∈ pairs ↔ b = true ∧ job' = job) (job' : Uuid) :
    (t, job') ∈ (t, job) :: pairs ↔ true = true ∧ job' = job := by
  rw [List.mem_cons, h job']
  grind

theorem own_filter (h : ∀ job', (t, job') ∈ pairs ↔ b = true ∧ job' = job) (job' : Uuid) :
    (t, job') ∈ pairs.filter (· ≠ (t, job)) ↔ false = true ∧ job' = job := by
  rw [mem_filter_ne, h job']
  grind

/-- A statement about the containers of a job and about who creates it. -/
structure Stable (t : Nat) (J : Shared → Prop) : Prop where
  rely : ∀ s s', Rely t s s' → J s → J s'
  frame : ∀ s s', s'.docker = s.docker → s'.created = s.created → s'.creating = s.creating → s'.failed = s.failed →
    s'.unstarted = s.unstarted → J s → J s'

variable {J : Shared → Prop}

/-- Get a connection: when there is none, that is noted. -/
theorem holds_docker (hrely : ∀ s s', Rely t s s' → J s → J s') (hconnected : ∀ s, J s → J { s with connected := true })
    (hfailed : ∀ s, J s → J { s with failed := t :: s.failed }) (h : J s) : (lifecycle config base).Holds t
      (fun (r : Except OrchestratorError Unit) (s : Shared) => J s ∧ ∀ e, r = .error e → t ∈ s.failed) docker s := by
  unfold docker
  refine Outline.Holds.bind (Q := fun (_ : Bool) (s : Shared) => J s) ?_ fun cached s h => ?_
  · refine holds_perf .cachedDocker fun s' i a s'' hr _ _ hop => ⟨True.intro, ?_⟩
    cases hop
    exact hrely s s' hr h
  cases cached with
  | true => exact Outline.holds_ret ⟨h, nofun⟩
  | false =>
    refine Outline.Holds.bind (Q := fun (r : Except String Unit) (s : Shared) => J s ∧ ∀ e, r = .error e → t ∈ s.failed) ?_
      fun r s hr => ?_
    · refine holds_perf .connectDocker fun s' i a s'' hr _ _ hop => ⟨True.intro, ?_⟩
      cases hop
      have hJ := hrely s s' hr h
      cases hanswer : i.docker with
      | ok u => exact ⟨hJ, nofun⟩
      | error e => exact ⟨hfailed s' hJ, fun _ _ => List.mem_cons_self ..⟩
    cases r with
    | error e => exact Outline.holds_ret ⟨hr.1, fun _ _ => hr.2 e rfl⟩
    | ok u =>
      refine Outline.Holds.bind (Q := fun (_ : Unit) (s : Shared) => J s) ?_ fun _ s h => Outline.holds_ret ⟨h, nofun⟩
      refine holds_perf .cacheDocker fun s' i a s'' hr' _ _ hop => ⟨True.intro, ?_⟩
      cases hop
      exact hconnected s' (hrely s s' hr' hr.1)

/-- The token and the grants are removed. -/
theorem holds_revoke (hstable : Stable t J) (hown : Own t job cr pe false rd s) (hJ : J s)
    (hjob : ∀ s, J s → s.Settled job ∨ cr = true) :
    (lifecycle config base).Holds t (fun _ (s : Shared) => Own t job cr false false rd s ∧ J s ∧
      (cr = true → s.tokens.lookup job = none)) (revoke job) s := by
  unfold revoke
  refine Outline.Holds.bind (Q := fun (_ : Unit) (s : Shared) => Own t job cr false true rd s ∧ J s ∧
    (cr = true → s.tokens.lookup job = none)) ?_ fun _ s ⟨hown, hJ, htoken⟩ => ?_
  · refine holds_perf (.revokeToken job) fun s' i a s'' hr _ _ hop => ?_
    cases hop
    have hown' := hown.rely hr
    have hJ' := hstable.rely s s' hr hJ
    refine ⟨(hjob s' hJ').imp id fun hcr => (hown'.creating job).mpr ⟨hcr, rfl⟩, ?_,
      hstable.frame s' _ rfl rfl rfl rfl rfl hJ', fun _ => AList.lookup_erase job s'.tokens⟩
    exact ⟨hown'.creating, own_filter hown'.pending, own_cons hown'.revoking, hown'.reading⟩
  · refine holds_perf (.revokeGrants job) fun s' i a s'' hr _ _ hop => ⟨True.intro, ?_⟩
    cases hop
    have hown' := hown.rely hr
    refine ⟨⟨hown'.creating, hown'.pending, own_filter hown'.revoking, hown'.reading⟩,
      hstable.frame s' _ rfl rfl rfl rfl rfl (hstable.rely s s' hr hJ), fun hcr => ?_⟩
    exact (hr.token job ((hown.creating job).mpr ⟨hcr, rfl⟩)).trans (htoken hcr)

/-! ## Creation -/

/-- A job is being created, with the containers `ids` so far. -/
structure Making (t : Nat) (job : Uuid) (ids : List String) (s : Shared) : Prop where
  own : Own t job true false false false s
  token : (s.tokens.lookup job).isSome
  containers : ∀ c ∈ s.docker, c.jobId = job → c.id ∈ ids

variable {ids : List String}

theorem Making.rely (h : Making t job ids s) (hr : Rely t s s') : Making t job ids s' where
  own := h.own.rely hr
  token := by
    rw [hr.token job ((h.own.creating job).mpr ⟨rfl, rfl⟩)]
    exact h.token
  containers c hc hjob := by
    obtain ⟨c', hc', hid, hjob'⟩ := hr.docker job (.inl ((h.own.creating job).mpr ⟨rfl, rfl⟩)) c hc hjob
    exact hid ▸ h.containers c' hc' hjob'

theorem holds_bindMount (hrely : ∀ s s', Rely t s s' → J s → J s') (projectDir : Option Path) (h : J s) :
    (lifecycle config base).Holds t (fun _ (s : Shared) => J s) (bindMount base projectDir job) s := by
  have hasked : ∀ (o : Op) (s : Shared), (∃ p, o = .canonicalize p ∨ o = .createDirAll p) → J s →
      (lifecycle config base).Holds t (fun _ (s : Shared) => J s) (perf o) s := by
    rintro o s ⟨p, rfl | rfl⟩ h
    · refine holds_perf (.canonicalize p) fun s' i a s'' hr _ _ hop => ⟨True.intro, ?_⟩
      cases hop
      exact hrely s s' hr h
    · refine holds_perf (.createDirAll p) fun s' i a s'' hr _ _ hop => ⟨True.intro, ?_⟩
      cases hop
      exact hrely s s' hr h
  cases projectDir with
  | none => exact Outline.holds_ret h
  | some dir =>
    refine Outline.Holds.bind (Q := fun (_ : Except OrchestratorError Path) (s : Shared) => J s) ?_ fun r s h => ?_
    · unfold validateBindMountPath
      refine (hasked _ s ⟨dir, .inl rfl⟩ h).bind fun r s h => ?_
      cases r with
      | error e => exact Outline.holds_ret h
      | ok canonical =>
        refine Outline.holds_ite (fun _ => Outline.holds_ret h) fun _ => ?_
        refine (hasked _ s ⟨base, .inr rfl⟩ h).bind fun r s h => ?_
        cases r with
        | error e => exact Outline.holds_ret h
        | ok u =>
          refine (hasked _ s ⟨base, .inl rfl⟩ h).bind fun r s h => ?_
          cases r with
          | error e => exact Outline.holds_ret h
          | ok canonicalBase => exact Outline.holds_ite (fun _ => Outline.holds_ret h) fun _ => Outline.holds_ret h
    · cases r <;> exact Outline.holds_ret h

/-- A creation is to be given up: a container it made is there only if it could not be started. -/
def Failing (t : Nat) (job : Uuid) (s : Shared) : Prop :=
  ∃ ids, Making t job ids s ∧ (t ∉ s.unstarted → ids = [])

/-- What holds after a failure, and what after a success. -/
def Attempted {ε α : Type} (failed : Shared → Prop) (done : α → Shared → Prop) : Except ε α → Shared → Prop
  | .error _ => failed
  | .ok a => done a

/-- A creation that fails leaves no container but one that could not be started, and one that succeeds records it. -/
theorem holds_createJobInner (token : String) (projectDir : Option Path) (mode : JobMode) (h : Making t job [] s) :
    (lifecycle config base).Holds t (Attempted (Failing t job) fun _ => Idle t)
      (createJobInner config base job token projectDir mode) s := by
  have hrely : ∀ ids s s', Rely t s s' → Making t job ids s → Making t job ids s' := fun ids s s' hr h => h.rely hr
  unfold createJobInner
  refine (holds_docker (hrely []) (fun s h => ⟨h.own.same ⟨rfl, rfl, rfl, rfl⟩, h.token,
    h.containers⟩) (fun s h => ⟨h.own.same ⟨rfl, rfl, rfl, rfl⟩, h.token,
    h.containers⟩) h).bind fun r s ⟨h, _⟩ => ?_
  cases r with
  | error e => exact Outline.holds_ret ⟨[], h, fun _ => rfl⟩
  | ok u =>
    refine (holds_bindMount (hrely []) projectDir h).bind fun r s h => ?_
    cases r with
    | error e => exact Outline.holds_ret ⟨[], h, fun _ => rfl⟩
    | ok bind =>
      refine Outline.Holds.bind (Q := Attempted (Making t job []) fun id => Making t job [id]) ?_ fun r s h => ?_
      · refine holds_perf (.createContainer job (containerSpec config job token bind mode))
          fun s' i a s'' hr _ _ hop => ?_
        have h' := h.rely hr
        refine ⟨(h'.own.creating job).mpr ⟨rfl, rfl⟩, ?_⟩
        simp only [perform] at hop
        split at hop
        · cases hop
          exact h'
        · split at hop
          · cases hop
          · cases hop
            refine ⟨h'.own.same ⟨rfl, rfl, rfl, rfl⟩, h'.token, fun c hc hjob => ?_⟩
            rcases List.mem_cons.mp hc with rfl | hc
            · exact List.mem_singleton.mpr rfl
            · exact absurd (h'.containers c hc hjob) List.not_mem_nil
      cases r with
      | error e => exact Outline.holds_ret ⟨[], h, fun _ => rfl⟩
      | ok id =>
        refine Outline.Holds.bind (Q := Attempted (Failing t job) fun _ => Making t job [id]) ?_ fun r s h => ?_
        · refine holds_perf (.startContainer id) fun s' i a s'' hr _ _ hop => ⟨True.intro, ?_⟩
          have h' := h.rely hr
          simp only [perform] at hop
          split at hop
          · -- The container stays, and that is noted.
            cases hop
            exact ⟨[id], ⟨h'.own.same ⟨rfl, rfl, rfl, rfl⟩, h'.token, h'.containers⟩,
              fun hstarted => absurd (List.mem_cons_self ..) hstarted⟩
          · cases hop
            refine ⟨h'.own.same ⟨rfl, rfl, rfl, rfl⟩, h'.token, fun c hc hjob => ?_⟩
            obtain ⟨c', hc', rfl⟩ := List.mem_map.mp hc
            have hsame : (if c'.id = id then { c' with started := true } else c').id = c'.id ∧
                (if c'.id = id then { c' with started := true } else c').jobId = c'.jobId := by
              split <;> exact ⟨rfl, rfl⟩
            rw [hsame.1]
            exact h'.containers c' hc' (hsame.2.symm.trans hjob)
        · cases r with
          | error e => exact Outline.holds_ret h
          | ok u =>
          refine Outline.Holds.bind (Q := fun (_ : Unit) (s : Shared) => Idle t s) ?_ fun _ s h => Outline.holds_ret h
          refine holds_perf (.setRunning job id) fun s' i a s'' hr _ _ hop => ?_
          have h' := h.rely hr
          refine ⟨⟨(h'.own.creating job).mpr ⟨rfl, rfl⟩, fun c hc hjob => ?_⟩, ?_⟩
          · exact List.mem_singleton.mp (h'.containers c hc hjob)
          · cases hop
            rw [modifyHandle_eq]
            have hown : Own t job false false false false
                { s' with
                  containers := (s'.modifyHandle job fun h => { h with containerId := id, state := .running }).containers
                  creating := s'.creating.filter (· ≠ (t, job)) } :=
              ⟨own_filter h'.own.creating, h'.own.pending, h'.own.revoking, h'.own.reading⟩
            exact hown.idle

theorem holds_createJob (task : String) (projectDir : Option Path) (mode : JobMode) (grants : List CredentialGrant)
    (hidle : Idle t s) : (lifecycle config base).Holds t
      (fun (r : Except OrchestratorError String) (s : Shared) => Idle t s ∧
        Promise t (.createJob job task projectDir mode grants) r s)
      (createJob config base job task projectDir mode grants) s := by
  unfold createJob
  refine Outline.Holds.bind (Q := fun (_ : String) (s : Shared) => Own t job true true false false s ∧
    (s.tokens.lookup job).isSome ∧ s.Clear job) ?_ fun token s h => ?_
  · refine holds_perf (.createToken job) fun s' i a s'' hr hinv' horderly hop => ⟨True.intro, ?_⟩
    cases hop
    have hown := (own_of_idle hidle job).rely hr
    refine ⟨⟨own_cons hown.creating, own_cons hown.pending, hown.revoking, hown.reading⟩, ?_, ?_⟩
    · show ((s'.tokens.insert job _).lookup job).isSome
      rw [AList.lookup_insert]
      rfl
    · exact fun c hc heq => horderly (heq ▸ hinv'.ofContainer c hc)
  have hstable : ∀ s s' : Shared, Rely t s s' → (Own t job true true false false s ∧ (s.tokens.lookup job).isSome ∧
    s.Clear job) →
      (Own t job true true false false s' ∧ (s'.tokens.lookup job).isSome ∧ s'.Clear job) := by
    intro s s' hr ⟨hown, htoken, hclear⟩
    have hcreating := (hown.creating job).mpr ⟨rfl, rfl⟩
    exact ⟨hown.rely hr, by rw [hr.token job hcreating]; exact htoken, hr.clear (.inl hcreating) hclear⟩
  refine Outline.Holds.bind (Q := fun (_ : Unit) (s : Shared) => Own t job true true false false s ∧
    (s.tokens.lookup job).isSome ∧ s.Clear job) ?_ fun _ s h => ?_
  · refine holds_perf (.storeGrants job grants) fun s' i a s'' hr _ _ hop => ?_
    have h' := hstable s s' hr h
    cases hop
    refine ⟨h'.2.1, ?_⟩
    split
    · exact h'
    · exact ⟨h'.1.same ⟨rfl, rfl, rfl, rfl⟩, h'.2⟩
  refine Outline.Holds.bind (Q := fun (_ : Unit) (s : Shared) => Making t job [] s) ?_ fun _ s h => ?_
  · refine holds_perf (.insertHandle job mode projectDir task) fun s' i a s'' hr _ _ hop => ?_
    obtain ⟨hown, htoken, hclear⟩ := hstable s s' hr h
    cases hop
    refine ⟨(hown.creating job).mpr ⟨rfl, rfl⟩, ⟨hown.creating, own_filter hown.pending, hown.revoking, hown.reading⟩,
      htoken, fun c hc hjob => absurd hjob (hclear c hc)⟩
  refine (holds_createJobInner token projectDir mode h).bind fun r s h => ?_
  cases r with
  | ok u => exact Outline.holds_ret ⟨h, True.intro⟩
  | error e =>
    obtain ⟨ids, h, hids⟩ := h
    have hclear : t ∉ s.unstarted → s.Clear job := by
      intro hstarted c hc hjob
      have hmem := h.containers c hc hjob
      rw [hids hstarted] at hmem
      cases hmem
    have hkept : ∀ s s' : Shared, Rely t s s' → (t, job) ∈ s.creating → (t ∉ s.unstarted → s.Clear job) →
        t ∉ s'.unstarted → s'.Clear job := by
      intro s s' hr hcreating h hstarted
      rw [hr.unstarted] at hstarted
      exact hr.clear (.inl hcreating) (h hstarted)
    have hrevoke : Stable t fun s : Shared => (t, job) ∈ s.creating ∧ (t ∉ s.unstarted → s.Clear job) := by
      refine ⟨fun s s' hr h => ⟨(hr.creating job).mpr h.1, hkept s s' hr h.1 h.2⟩, ?_⟩
      intro s s' hdocker _ hcreating _ hunstarted h
      rw [hcreating, hunstarted]
      exact ⟨h.1, fun hstarted c hc => h.2 hstarted c (hdocker ▸ hc)⟩
    refine (holds_revoke hrevoke h.own ⟨(h.own.creating job).mpr ⟨rfl, rfl⟩, hclear⟩ fun _ _ => .inr rfl).bind
      fun _ s ⟨hown, ⟨hcreating, hclear⟩, htoken⟩ => ?_
    refine Outline.Holds.bind (Q := fun (_ : Unit) (s : Shared) =>
      Idle t s ∧ s.Settled job ∧ (t ∉ s.unstarted → s.Clear job)) ?_ fun _ s h => Outline.holds_ret h
    refine holds_perf (.dropHandle job) fun s' i a s'' hr hinv' _ hop => ?_
    have hown' := hown.rely hr
    have hcreating' := (hr.creating job).mpr hcreating
    cases hop
    refine ⟨⟨hcreating', (hr.token job hcreating).trans (htoken rfl)⟩, ?_, ?_, hkept s s' hr hcreating hclear⟩
    · have hown : Own t job false false false false
          { s' with containers := s'.containers.erase job, creating := s'.creating.filter (· ≠ (t, job)) } :=
        ⟨own_filter hown'.creating, hown'.pending, hown'.revoking, hown'.reading⟩
      exact hown.idle
    · refine ⟨hinv'.createdOf t job hcreating', fun t' hmem => ?_⟩
      obtain ⟨hin, hne⟩ := mem_filter_ne.mp hmem
      exact hne (by rw [hinv'.oneCreator t' t job hin hcreating'])

/-! ## Release -/

/-- The creation of the job is over, and a container there may be has this id. -/
def Targeted (job : Uuid) (id : String) (s : Shared) : Prop :=
  s.Settled job ∧ ∀ c ∈ s.docker, c.jobId = job → c.id = id

/-- Unless something failed for this task, no container of the job is left. -/
def Released (t : Nat) (job : Uuid) (s : Shared) : Prop := s.Settled job ∧ (t ∉ s.failed → s.Clear job)

theorem Targeted.rely (h : Targeted job id s) (hr : Rely t s s') : Targeted job id s' := by
  refine ⟨hr.settled job h.1, fun c hc hjob => ?_⟩
  obtain ⟨c', hc', hid, hjob'⟩ := hr.docker job (.inr h.1) c hc hjob
  exact hid ▸ h.2 c' hc' hjob'

theorem Released.rely (h : Released t job s) (hr : Rely t s s') : Released t job s' := by
  refine ⟨hr.settled job h.1, fun hfailed => ?_⟩
  rw [hr.failed] at hfailed
  exact hr.clear (.inr h.1) (h.2 hfailed)

theorem released_stable (t : Nat) (job : Uuid) : Stable t (Released t job) where
  rely _ _ hr h := h.rely hr
  frame s s' hdocker hcreated hcreating hfailed _ h := by
    unfold Released Shared.Settled Shared.Clear at *
    rw [hdocker, hcreated, hcreating, hfailed]
    exact h

theorem own_noteDocker (hown : Own t job cr pe rv rd s) (answer : Except String Unit) :
    Own t job cr pe rv rd (s.noteDocker t answer) := by
  cases answer with
  | ok u => exact hown
  | error e => exact hown.same ⟨rfl, rfl, rfl, rfl⟩

theorem targeted_noteDocker (h : Targeted job id s) (answer : Except String Unit) :
    Targeted job id (s.noteDocker t answer) := by
  cases answer <;> exact h

theorem holds_stopAndRemove (hown : Own t job false pe false false s) (htarget : Targeted job id s) :
    (lifecycle config base).Holds t (fun _ (s : Shared) => Own t job false pe false false s ∧ Released t job s)
      (stopAndRemove id) s := by
  unfold stopAndRemove
  refine Outline.Holds.bind (Q := fun (_ : Except String Unit) (s : Shared) => Own t job false pe false false s ∧
    Targeted job id s) ?_ fun _ s ⟨hown, htarget⟩ => ?_
  · refine holds_perf (.stopContainer id) fun s' i a s'' hr _ _ hop => ⟨True.intro, ?_⟩
    cases hop
    exact ⟨own_noteDocker (hown.rely hr) _, targeted_noteDocker (htarget.rely hr) _⟩
  refine Outline.Holds.bind (Q := fun (_ : Except String Unit) (s : Shared) => Own t job false pe false false s ∧
    Released t job s) ?_ fun _ s h => Outline.holds_ret h
  refine holds_perf (.removeContainer id) fun s' i a s'' hr _ _ hop => ⟨True.intro, ?_⟩
  have hown' := hown.rely hr
  have htarget' := htarget.rely hr
  simp only [perform] at hop
  split at hop
  · cases hop
    exact ⟨own_noteDocker hown' _, htarget'.1, fun hfailed => absurd (List.mem_cons_self ..) hfailed⟩
  · cases hop
    refine ⟨hown'.same ⟨rfl, rfl, rfl, rfl⟩, htarget'.1, fun _ c hc hjob => ?_⟩
    obtain ⟨hin, hid⟩ := List.mem_filter.mp hc
    exact absurd (htarget'.2 c hin hjob) (by simpa using hid)

theorem holds_stopJob (hidle : Idle t s) : (lifecycle config base).Holds t
      (fun (r : Except OrchestratorError Unit) (s : Shared) => Idle t s ∧
        Promise t (.stopJob job) r s) (stopJob job) s := by
  unfold stopJob
  refine Outline.Holds.bind (Q := fun (found : Option String) (s : Shared) => Own t job false false false false s ∧
    ∀ id, found = some id → id ≠ "" → Targeted job id s) ?_ fun found s ⟨hown, htarget⟩ => ?_
  · refine holds_perf (.containerIdOf job) fun s' i a s'' hr hinv _ hop => ⟨True.intro, ?_⟩
    cases hop
    have hown := (own_of_idle hidle job).rely hr
    refine ⟨⟨hown.creating, hown.pending, hown.revoking, own_filter hown.reading⟩, fun id hid hne => ?_⟩
    obtain ⟨h, hlookup, rfl⟩ := Option.map_eq_some_iff.mp hid
    exact ⟨hinv.settled_of_id hlookup hne, hinv.ids job h hlookup hne⟩
  cases found with
  | none => exact Outline.holds_ret ⟨hown.idle, True.intro⟩
  | some id =>
    refine Outline.holds_ite (fun _ => Outline.holds_ret ⟨hown.idle, True.intro⟩) fun hne => ?_
    refine (holds_docker (J := fun s => Own t job false false false false s ∧ Targeted job id s)
      (fun s s' hr h => ⟨h.1.rely hr, h.2.rely hr⟩)
      (fun s h => ⟨h.1.same ⟨rfl, rfl, rfl, rfl⟩, h.2⟩)
      (fun s h => ⟨h.1.same ⟨rfl, rfl, rfl, rfl⟩, h.2⟩)
      ⟨hown, htarget id rfl hne⟩).bind fun r s ⟨⟨hown, htarget⟩, _⟩ => ?_
    cases r with
    | error e => exact Outline.holds_ret ⟨hown.idle, True.intro⟩
    | ok u =>
      refine (holds_stopAndRemove hown htarget).bind fun _ s ⟨hown, hreleased⟩ => ?_
      refine Outline.Holds.bind (Q := fun (_ : Unit) (s : Shared) => Own t job false true false false s ∧
        Released t job s) ?_ fun _ s ⟨hown, hreleased⟩ => ?_
      · refine holds_perf (.setStopped job) fun s' i a s'' hr _ _ hop => ?_
        cases hop
        have hown' := hown.rely hr
        have hreleased' := hreleased.rely hr
        refine ⟨hreleased'.1, ?_⟩
        unfold Shared.stopHandle
        rw [modifyHandle_eq]
        exact ⟨⟨hown'.creating, own_cons hown'.pending, hown'.revoking, hown'.reading⟩, hreleased'⟩
      · refine (holds_revoke (released_stable t job) hown hreleased fun s h => .inl h.1).bind
          fun _ s ⟨hown, hreleased, _⟩ => ?_
        exact Outline.holds_ret ⟨hown.idle, hreleased⟩

theorem holds_completeJob (result : CompletionResult) (hidle : Idle t s) : (lifecycle config base).Holds t
      (fun (r : Except OrchestratorError Unit) (s : Shared) => Idle t s ∧ Promise t (.completeJob job result) r s)
      (completeJob job result) s := by
  unfold completeJob
  refine Outline.Holds.bind (Q := fun (_ : Unit) (s : Shared) => Own t job false true false true s) ?_ fun _ s hown => ?_
  · refine holds_perf (.completeHandle job result) fun s' i a s'' hr _ _ hop => ⟨True.intro, ?_⟩
    cases hop
    have hown := (own_of_idle hidle job).rely hr
    unfold Shared.stopHandle
    rw [modifyHandle_eq]
    exact ⟨hown.creating, own_cons hown.pending, hown.revoking, own_cons hown.reading⟩
  refine Outline.Holds.bind (Q := fun (found : Option String) (s : Shared) => Own t job false true false false s ∧
    ∃ id, found = some id ∧ id ≠ "" ∧ Targeted job id s) ?_ fun found s ⟨hown, id, hfound, hne, htarget⟩ => ?_
  · refine holds_perf (.containerIdOf job) fun s' i a s'' hr hinv _ hop => ⟨True.intro, ?_⟩
    cases hop
    have hown' := hown.rely hr
    -- The handle is still there: it is not cleaned up before its id has been read.
    obtain ⟨h, hlookup, hid⟩ := hinv.readable t job ((hown'.reading job).mpr ⟨rfl, rfl⟩)
    refine ⟨⟨hown'.creating, hown'.pending, hown'.revoking, own_filter hown'.reading⟩, h.containerId, ?_, hid,
      hinv.settled_of_id hlookup hid, hinv.ids job h hlookup hid⟩
    rw [hlookup]
    rfl
  subst hfound
  refine Outline.Holds.bind (Q := fun (_ : Unit) (s : Shared) => Own t job false true false false s ∧ Released t job s) ?_
    fun _ s ⟨hown, hreleased⟩ => ?_
  · unfold stopCompleted
    refine Outline.holds_ite (fun heq => absurd heq hne) fun _ => ?_
    refine (holds_docker (J := fun s => Own t job false true false false s ∧ Targeted job id s)
      (fun s s' hr h => ⟨h.1.rely hr, h.2.rely hr⟩)
      (fun s h => ⟨h.1.same ⟨rfl, rfl, rfl, rfl⟩, h.2⟩)
      (fun s h => ⟨h.1.same ⟨rfl, rfl, rfl, rfl⟩, h.2⟩)
      ⟨hown, htarget⟩).bind fun r s ⟨⟨hown, htarget⟩, hfailed⟩ => ?_
    cases r with
    | error e => exact Outline.holds_ret ⟨hown, htarget.1, fun h => absurd (hfailed e rfl) h⟩
    | ok u => exact holds_stopAndRemove hown htarget
  · refine (holds_revoke (released_stable t job) hown hreleased fun s h => .inl h.1).bind
      fun _ s ⟨hown, hreleased, _⟩ => ?_
    exact Outline.holds_ret ⟨hown.idle, hreleased⟩

theorem holds_body (c : Call) (hidle : Idle t s) :
    (lifecycle config base).Holds t (fun out (s : Shared) => Idle t s ∧ Promise t c out s) (body config base c) s := by
  cases c with
  | createJob job task projectDir mode grants => exact holds_createJob task projectDir mode grants hidle
  | stopJob job => exact holds_stopJob hidle
  | completeJob job result => exact holds_completeJob result hidle
  | cleanupJob job =>
    refine holds_perf (.cleanupHandle job) fun s' i a s'' hr _ _ hop => ⟨True.intro, ?_, True.intro⟩
    cases hop
    exact fun job' => hidle.rely hr job'

/-! ## All runs -/

/-- How the four resources of a job agree. -/
structure Lifecycle (cfg : (machine config base).Config) : Prop where
  stopped : ∀ job h, job ∈ cfg.shared.stopped → cfg.shared.containers.lookup job = some h → h.state ≠ .running
  token : ∀ job token, cfg.shared.validate job token = true →
    (∃ h, cfg.shared.containers.lookup job = some h ∧ (h.state = .creating ∨ h.state = .running)) ∨
      ∃ t, cfg.Running t ∧ (t, job) ∈ cfg.shared.pending
  grants : ∀ job, (cfg.shared.credentialGrants.lookup job).isSome →
    (∃ token, cfg.shared.validate job token = true) ∨ ∃ t, cfg.Running t ∧ (t, job) ∈ cfg.shared.revoking
  afterError : ∀ t job task projectDir mode grants e,
    cfg.Returned t (.createJob job task projectDir mode grants) (.error e) → t ∉ cfg.shared.unstarted →
    cfg.shared.Clear job
  afterStop : ∀ t job, cfg.Returned t (.stopJob job) (.ok ()) → t ∉ cfg.shared.failed → cfg.shared.Clear job
  afterComplete : ∀ t job result, cfg.Returned t (.completeJob job result) (.ok ()) → t ∉ cfg.shared.failed →
    cfg.shared.Clear job

/-- The same without a call between two of its sections, and after every error. -/
structure AsClaimed (cfg : (machine config base).Config) : Prop where
  stopped : ∀ job h, job ∈ cfg.shared.stopped → cfg.shared.containers.lookup job = some h → h.state ≠ .running
  token : ∀ job token, cfg.shared.validate job token = true →
    ∃ h, cfg.shared.containers.lookup job = some h ∧ (h.state = .creating ∨ h.state = .running)
  grants : ∀ job, (cfg.shared.credentialGrants.lookup job).isSome → ∃ token, cfg.shared.validate job token = true
  afterError : ∀ t job task projectDir mode grants e,
    cfg.Returned t (.createJob job task projectDir mode grants) (.error e) → cfg.shared.Clear job
  afterStop : ∀ t job, cfg.Returned t (.stopJob job) (.ok ()) → t ∉ cfg.shared.failed → cfg.shared.Clear job
  afterComplete : ∀ t job result, cfg.Returned t (.completeJob job result) (.ok ()) → t ∉ cfg.shared.failed →
    cfg.shared.Clear job

theorem validate_iff {token : String} : s.validate job token = true ↔ s.tokens.lookup job = some token := by
  unfold Shared.validate
  cases s.tokens.lookup job <;> simp

theorem inv_empty : Inv {} := by
  constructor <;> simp

/-- **The resources of a job agree** in every state an orderly run comes to. -/
theorem lifecycle_agrees {ls : List (machine config base).Label} {cfg : (machine config base).Config}
    (run : Runs (machine config base).step ((machine config base).StepsMeet Orderly) ((machine config base).initial {})
      ls cfg) : Lifecycle cfg := by
  have hgood := (lifecycle config base).run run inv_empty (fun t job => by simp) (fun _ hmeets htask => hmeets _ _ _ htask)
    fun c _ hpre => holds_body c hpre
  have hrunning : ∀ t, ¬Idle t cfg.shared → cfg.Running t := by
    intro t hbusy
    cases htask : cfg.tasks t with
    | none => exact absurd (hgood.pre t htask) hbusy
    | some task =>
      obtain ⟨c, rest⟩ := task
      cases rest with
      | ret out => exact absurd (hgood.post htask).1 hbusy
      | op o next => exact ⟨c, o, next, htask⟩
  have hinv : Inv cfg.shared := hgood.inv
  refine ⟨hinv.notRunning, fun job token hvalid => ?_, fun job hsome => ?_, ?_, ?_, ?_⟩
  · have htoken : (cfg.shared.tokens.lookup job).isSome := by rw [validate_iff.mp hvalid]; rfl
    refine (hinv.tokens job htoken).imp id fun ⟨t, hpending⟩ => ⟨t, ?_, hpending⟩
    exact hrunning t fun hidle => (hidle job).2.1 hpending
  · refine (hinv.grants job hsome).imp (fun htoken => ?_) fun ⟨t, hrevoking⟩ => ⟨t, ?_, hrevoking⟩
    · obtain ⟨token, htoken⟩ := Option.isSome_iff_exists.mp htoken
      exact ⟨token, validate_iff.mpr htoken⟩
    · exact hrunning t fun hidle => (hidle job).2.2.1 hrevoking
  · exact fun t job task projectDir mode grants e hret hstarted => (hgood.post hret).2.2 hstarted
  · exact fun t job hret hfailed => (hgood.post hret).2.2 hfailed
  · exact fun t job result hret hfailed => (hgood.post hret).2.2 hfailed

/-! ## Two runs -/

/-- `Orderly`, computed. -/
def orderly (_ : Nat) (o : Op) (_ : Input) (s : Shared) : Bool :=
  match o with
  | .createToken job => !s.created.contains job
  | .completeHandle job _ => (s.containers.lookup job).any fun h => h.containerId ≠ ""
  | .cleanupHandle job =>
    s.reading.all (fun p => p.2 ≠ job) && (s.containers.lookup job).all fun h => h.state = .stopped
  | _ => true

theorem orderly_sound (t : Nat) (o : Op) (i : Input) (s : Shared) (h : orderly t o i s = true) : Orderly t o i s := by
  cases o with
  | createToken job => simpa [orderly, Orderly] using h
  | completeHandle job result =>
    obtain ⟨handle, hlookup, hid⟩ := (Option.any_eq_true _ _).mp h
    exact ⟨handle, hlookup, by simpa using hid⟩
  | cleanupHandle job =>
    obtain ⟨hreading, hstate⟩ := Bool.and_eq_true_iff.mp h
    refine ⟨fun t' hmem => ?_, fun handle hlookup => ?_⟩
    · simpa using List.all_eq_true.mp hreading _ hmem
    · simpa [hlookup] using hstate
  | _ => exact True.intro

def someConfig : ContainerJobConfig :=
  ⟨"ironclaw-worker:latest", 2048, 1024, 50051, none, none, "sonnet", 50, 4096, []⟩

def projects : Path := ⟨true, ["home", "u", ".ironclaw", "projects"]⟩

/-- What a task does next, `n` times, with Docker doing what it is asked for. -/
def steps (t n : Nat) : List (machine someConfig projects).Label :=
  List.replicate n (.step t ⟨[7], 0, .ok (), "c0ffee", .error ""⟩)

def creation : (machine someConfig projects).Label :=
    .start 0 (.createJob 1 "task" none .worker [⟨"github_token", "GITHUB_TOKEN"⟩])

def completion : (machine someConfig projects).Label := .start 1 (.completeJob 1 ⟨true, none⟩)

/-- The worker reports after the container has been recorded. -/
def reportedAfter : List (machine someConfig projects).Label := creation :: steps 0 9 ++ completion :: steps 1 7

/-- The container is created and cannot be started. -/
def startFails : List (machine someConfig projects).Label :=
  creation :: steps 0 7 ++ .step 0 ⟨[7], 0, .error "no space left on device", "c0ffee", .error ""⟩ :: steps 0 3

/-- The worker reports before it. -/
def reportedBefore : List (machine someConfig projects).Label :=
  creation :: steps 0 8 ++ completion :: steps 1 4 ++ steps 0 1

/-- The state of the handle of job 1, whether a token of it validates, and how many containers there are. -/
def seen (cfg : (machine someConfig projects).Config) : Option ContainerState × Bool × Nat :=
  ((cfg.shared.containers.lookup 1).map ContainerHandle.state, cfg.shared.validate 1 "07", cfg.shared.docker.length)

/-- The labels are a run of steps that meet the condition, ending as seen and with all that is promised. -/
def Releases (ls : List (machine someConfig projects).Label) (ends : Option ContainerState × Bool × Nat) : Prop :=
  ∃ cfg, Runs (machine someConfig projects).step ((machine someConfig projects).StepsMeet Orderly)
    ((machine someConfig projects).initial {}) ls cfg ∧ seen cfg = ends ∧ Lifecycle cfg

/-- A reported job leaves nothing; one whose container could not be started leaves the container and nothing else. -/
theorem resources_released :
    Releases reportedAfter (some .stopped, false, 0) ∧ Releases startFails (none, false, 1) := by
  have hboth : ∀ run ∈ [(reportedAfter, some ContainerState.stopped, false, 0), (startFails, none, false, 1)],
      Releases run.1 run.2 := by
    intro run hrun
    have hcomputed : (run.1.foldlM
        (fun cfg l => if Machine.stepsMeet orderly cfg l then (machine someConfig projects).step cfg l else none)
        ((machine someConfig projects).initial {})).map seen = some run.2 := by
      simp only [List.mem_cons, List.not_mem_nil, or_false] at hrun
      rcases hrun with rfl | rfl
      · decide
      · decide
    obtain ⟨cfg, hls, hseen⟩ := Option.map_eq_some_iff.mp hcomputed
    have run := Runs.of_checked (C := (machine someConfig projects).StepsMeet Orderly)
      (Machine.stepsMeet_sound orderly_sound) hls
    exact ⟨cfg, run, hseen, lifecycle_agrees run⟩
  exact ⟨hboth _ List.mem_cons_self, hboth _ (List.mem_cons_of_mem _ List.mem_cons_self)⟩

/-- A token validates before there is a handle; a report that comes before the id is recorded leaves the container, and
the job runs again after it was stopped. -/
theorem resources_apart :
    (∃ cfg, Runs (machine someConfig projects).step (fun _ _ => True) ((machine someConfig projects).initial {})
      (creation :: steps 0 1) cfg ∧ seen cfg = (none, true, 0) ∧ ¬AsClaimed cfg) ∧
    ∃ cfg, Runs (machine someConfig projects).step (fun _ _ => True) ((machine someConfig projects).initial {})
      reportedBefore cfg ∧ seen cfg = (some .running, false, 1) ∧ ¬AsClaimed cfg := by
  constructor
  · have hcomputed : ((creation :: steps 0 1).foldlM (machine someConfig projects).step
        ((machine someConfig projects).initial {})).map seen = some (none, true, 0) := by
      decide
    obtain ⟨cfg, hls, hseen⟩ := Option.map_eq_some_iff.mp hcomputed
    refine ⟨cfg, Runs.of_foldlM hls, hseen, fun h => ?_⟩
    obtain ⟨hstate, hrest⟩ := Prod.mk.inj hseen
    obtain ⟨handle, hlookup, -⟩ := h.token 1 "07" (Prod.mk.inj hrest).1
    rw [hlookup] at hstate
    cases hstate
  · have hcomputed : (reportedBefore.foldlM (machine someConfig projects).step
        ((machine someConfig projects).initial {})).map (fun cfg => (seen cfg, cfg.shared.stopped)) =
          some ((some .running, false, 1), [1]) := by
      decide
    obtain ⟨cfg, hls, hobserved⟩ := Option.map_eq_some_iff.mp hcomputed
    obtain ⟨hseen, hstopped⟩ := Prod.mk.inj hobserved
    refine ⟨cfg, Runs.of_foldlM hls, hseen, fun h => ?_⟩
    obtain ⟨handle, hlookup, hstate⟩ := Option.map_eq_some_iff.mp (Prod.mk.inj hseen).1
    exact h.stopped 1 handle (by rw [hstopped]; exact List.mem_singleton.mpr rfl) hlookup hstate

end Freeclawdia.Orchestrator
