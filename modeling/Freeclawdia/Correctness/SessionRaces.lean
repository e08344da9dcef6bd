import Freeclawdia.Agent.SessionResolution

/-!
# `Correctness.SessionRaces` — what concurrent resolution agrees on

Nothing these calls do takes a session from its user or a thread from its session. Mappings are all that can be lost: the
section that stores one does not look at the one that is there. `Unstored` is the condition that it never finds a usable
one, and under it every usable mapping stays (`Keeps`), so a call that has returned can count on the mapping it left.
-/

namespace Freeclawdia.Resolution

open Rust

variable {t : Nat} {o : Op} {i : Input} {s s' s'' : Shared} {key : ThreadKey} {tid : Uuid} {session : Nat} {user : String}

/-- What concurrent resolution promises of the calls that have returned. -/
structure SingleValued (cfg : machine.Config) : Prop where
  threads : ∀ t t' user channel externalThreadId out out',
    cfg.Returned t (.resolveThread user channel externalThreadId) out →
    cfg.Returned t' (.resolveThread user channel externalThreadId) out' →
    t ∈ cfg.shared.missed → t' ∈ cfg.shared.missed → out.2 = out'.2
  sessions : ∀ t t' c c' out out', cfg.Returned t c out → cfg.Returned t' c' out' → c.user = c'.user →
    out.session = out'.session
  reachable : ∀ t user channel externalThreadId out,
    cfg.Returned t (.resolveThread user channel externalThreadId) out → cfg.shared.holds out.1 out.2 = true →
    cfg.shared.threadMap.lookup ⟨user, channel, externalThreadId⟩ = some out.2

/-- A mapping is stored for a key only while that key has no usable one. -/
def Unstored (_ : Nat) (o : Op) (_ : Input) (s : Shared) : Prop :=
  match o with
  | .adoptMapping key tid => s.threadMap.hasValue tid = false → s.usable key = none
  | .insertMapping key _ => s.usable key = none
  | _ => True

/-! ## What every section keeps -/

/-- Sessions stay with their users, threads with their sessions, and usable mappings with their keys. -/
structure Keeps (s s' : Shared) : Prop where
  sessions : ∀ user session, s.sessions.lookup user = some session → s'.sessions.lookup user = some session
  threads : ∀ session tid, s.holds session tid = true → s'.holds session tid = true
  mappings : ∀ key tid, s.usable key = some tid → s'.usable key = some tid

theorem Keeps.refl (s : Shared) : Keeps s s := ⟨fun _ _ h => h, fun _ _ h => h, fun _ _ h => h⟩

theorem Keeps.trans (h : Keeps s s') (h' : Keeps s' s'') : Keeps s s'' where
  sessions user session hlookup := h'.sessions user session (h.sessions user session hlookup)
  threads session tid hheld := h'.threads session tid (h.threads session tid hheld)
  mappings key tid hmapped := h'.mappings key tid (h.mappings key tid hmapped)

theorem usable_eq_some_iff : s.usable key = some tid ↔ s.threadMap.lookup key = some tid ∧
      ∃ session, s.sessions.lookup key.userId = some session ∧ s.holds session tid = true := by
  unfold Shared.usable
  rw [Option.filter_eq_some_iff, Option.any_eq_true]

/-- As long as mappings are left alone. -/
theorem keeps_of_mapped (hmap : s'.threadMap = s.threadMap)
    (hsessions : ∀ user session, s.sessions.lookup user = some session → s'.sessions.lookup user = some session)
    (hthreads : ∀ session tid, s.holds session tid = true → s'.holds session tid = true) : Keeps s s' where
  sessions := hsessions
  threads := hthreads
  mappings key tid hmapped := by
    obtain ⟨hlookup, session, hsession, hheld⟩ := usable_eq_some_iff.mp hmapped
    refine usable_eq_some_iff.mpr ⟨?_, session, hsessions _ _ hsession, hthreads _ _ hheld⟩
    rw [hmap]
    exact hlookup

/-- Storing a mapping where there is no usable one. -/
theorem keeps_insertMapping (hunused : s.usable key = none) (tid : Uuid) :
    Keeps s { s with threadMap := s.threadMap.insert key tid } where
  sessions _ _ h := h
  threads _ _ h := h
  mappings key' tid' hmapped := by
    obtain ⟨hlookup, hheld⟩ := usable_eq_some_iff.mp hmapped
    refine usable_eq_some_iff.mpr ⟨?_, hheld⟩
    have hne : key' ≠ key := by
      rintro rfl
      rw [hunused] at hmapped
      cases hmapped
    show (s.threadMap.insert key tid).lookup key' = some tid'
    rw [AList.lookup_insert_ne hne]
    exact hlookup

variable {sess : Session}

theorem holds_append (h : (s.objects[session]?.bind fun sess => sess.threads.lookup tid).isSome = true) :
    ((s.objects ++ [sess])[session]?.bind fun sess => sess.threads.lookup tid).isSome = true := by
  cases hobject : s.objects[session]? with
  | none =>
    rw [hobject] at h
    cases h
  | some object =>
    rw [hobject] at h
    rw [List.getElem?_append_left (List.getElem?_eq_some_iff.mp hobject).1, hobject]
    exact h

theorem keeps_insertSession (s : Shared) (user : String) (i : Input) : Keeps s (s.insertSession user i).2 := by
  unfold Shared.insertSession
  split
  next => exact Keeps.refl s
  next hnone =>
    apply keeps_of_mapped
    · rfl
    · intro user' session hlookup
      have hne : user' ≠ user := by
        rintro rfl
        rw [hnone] at hlookup
        cases hlookup
      show (s.sessions.insert user s.objects.length).lookup user' = some session
      rw [AList.lookup_insert_ne hne]
      exact hlookup
    · exact fun session tid h => holds_append h

/-- A session that gets a thread keeps those it has. -/
theorem isSome_createThread (newId : Uuid) (now : Time) (h : (sess.threads.lookup tid).isSome = true) :
    ((sess.createThread newId now).threads.lookup tid).isSome = true := by
  show ((Map.insertIfAbsent newId (Thread.withId newId) sess.threads).lookup tid).isSome = true
  by_cases heq : tid = newId
  · rw [heq, Map.lookup_insertIfAbsent_self]
    rfl
  · rw [Map.lookup_insertIfAbsent_ne _ _ heq]
    exact h

theorem keeps_createThread (s : Shared) (session : Nat) (i : Input) : Keeps s (s.createThread session i) := by
  apply keeps_of_mapped
  · rfl
  · exact fun _ _ h => h
  · intro session' tid h
    unfold Shared.holds Shared.createThread at *
    simp only [List.getElem?_modify]
    cases hobject : s.objects[session']? with
    | none =>
      rw [hobject] at h
      cases h
    | some sess =>
      rw [hobject] at h
      split
      · exact isSome_createThread i.threadId i.now h
      · exact h

/-- A session object that exists holds the thread that is created in it. -/
theorem holds_createThread (h : session < s.objects.length) (i : Input) :
    (s.createThread session i).holds session i.threadId = true := by
  unfold Shared.holds Shared.createThread
  simp only [List.getElem?_modify, List.getElem?_eq_getElem h, if_true]
  show ((Map.insertIfAbsent i.threadId (Thread.withId i.threadId) s.objects[session].threads).lookup i.threadId).isSome
    = true
  rw [Map.lookup_insertIfAbsent_self]
  rfl

/-- **Every section keeps these**, under the condition. -/
theorem keeps_perform (hunstored : Unstored t o i s) : Keeps s (perform t o i s).2 := by
  cases o with
  | findSession user => exact Keeps.refl s
  | insertSession user => exact keeps_insertSession s user i
  | findMapping key session =>
    simp only [perform]
    split
    · exact Keeps.refl s
    · exact keeps_of_mapped rfl (fun _ _ h => h) fun _ _ h => h
  | mappedElsewhere tid => exact Keeps.refl s
  | holdsThread session tid => exact Keeps.refl s
  | adoptMapping key tid =>
    simp only [perform]
    split
    next => exact Keeps.refl s
    next hfree => exact keeps_insertMapping (hunstored (Bool.eq_false_iff.mpr hfree)) tid
  | createThread session => exact keeps_createThread s session i
  | insertMapping key tid => exact keeps_insertMapping hunstored tid
  | ensureUndoManager tid => exact keeps_of_mapped rfl (fun _ _ h => h) fun _ _ h => h
  | insertUndoManager tid => exact keeps_of_mapped rfl (fun _ _ h => h) fun _ _ h => h

/-! ## The outline -/

/-- What a call that has returned can count on. -/
def Post : (c : Call) → Out c → Shared → Prop
  | .getOrCreateSession user, session, s => s.sessions.lookup user = some session
  | .resolveThread user channel externalThreadId, out, s =>
    s.sessions.lookup user = some out.1 ∧ s.usable ⟨user, channel, externalThreadId⟩ = some out.2

def agreement : Outline machine where
  Inv _ := True
  Rely _ s s' := Keeps s s'
  Pre _ _ := True
  Allowed := Unstored
  Post _ c out s := Post c out s
  rely_refl _ s := Keeps.refl s
  rely_trans h h' := h.trans h'
  pre_stable _ _ := True.intro
  post_stable := by
    intro t c out s s' hpost hkeeps _
    cases c with
    | getOrCreateSession user => exact hkeeps.sessions _ _ hpost
    | resolveThread user channel externalThreadId => exact ⟨hkeeps.sessions _ _ hpost.1, hkeeps.mappings _ _ hpost.2⟩

/-- One section: the others may have come in before it, and they keep what is known. -/
theorem holds_perf (o : Op) {Q : Ans o → Shared → Prop}
    (h : ∀ s', Keeps s s' → ∀ i, Unstored t o i s' → Q (perform t o i s').1 (perform t o i s').2) :
    agreement.Holds t Q (perf o) s := by
  apply Outline.holds_op
  intro s' hrely _ i a s'' hperform hunstored
  obtain ⟨rfl, rfl⟩ := Prod.mk.inj (Option.some.inj hperform)
  exact ⟨⟨True.intro, fun _ _ => keeps_perform hunstored⟩, Outline.holds_ret (h s' hrely i hunstored)⟩

theorem lookup_insertSession (s : Shared) (user : String) (i : Input) :
    (s.insertSession user i).2.sessions.lookup user = some (s.insertSession user i).1 := by
  -- The re-check: whoever inserted a session first has it returned.
  unfold Shared.insertSession
  split
  next session hlookup => exact hlookup
  next => exact AList.lookup_insert _

theorem holds_getOrCreateSession (user : String) (s : Shared) :
    agreement.Holds t (fun (session : Nat) (s : Shared) => s.sessions.lookup user = some session)
      (getOrCreateSession user) s := by
  apply Outline.Holds.bind (Q := fun (found : Option Nat) (s : Shared) =>
    ∀ session, found = some session → s.sessions.lookup user = some session)
  · exact holds_perf (.findSession user) fun s' _ i _ session h => h
  · intro found s hfound
    cases found with
    | some session => exact Outline.holds_ret (hfound session rfl)
    | none =>
      show agreement.Holds t _ (perf (Op.insertSession user)) s
      exact holds_perf (.insertSession user) fun s' _ i _ => lookup_insertSession s' user i

/-- The mapping of the key is usable and leads to the thread. -/
def Mapped (key : ThreadKey) (session : Nat) (tid : Uuid) (s : Shared) : Prop :=
  s.sessions.lookup key.userId = some session ∧ s.usable key = some tid

theorem Mapped.keeps (h : Mapped key session tid s) (hkeeps : Keeps s s') : Mapped key session tid s' :=
  ⟨hkeeps.sessions _ _ h.1, hkeeps.mappings _ _ h.2⟩

theorem mapped_insertMapping (hsession : s.sessions.lookup key.userId = some session)
    (hheld : s.holds session tid = true) : Mapped key session tid { s with threadMap := s.threadMap.insert key tid } :=
  ⟨hsession, usable_eq_some_iff.mpr ⟨AList.lookup_insert _, session, hsession, hheld⟩⟩

theorem holds_findMapping (key : ThreadKey) (hsession : s.sessions.lookup key.userId = some session) :
    agreement.Holds t (fun (found : Option Uuid) (s : Shared) =>
        s.sessions.lookup key.userId = some session ∧ ∀ tid, found = some tid → s.usable key = some tid)
      (perf (Op.findMapping key session)) s := by
  refine holds_perf (.findMapping key session) fun s' hkeeps i _ => ?_
  have hsession' := hkeeps.sessions _ _ hsession
  simp only [perform]
  split
  next tid hfound =>
    refine ⟨hsession', fun tid' htid' => ?_⟩
    cases htid'
    obtain ⟨hlookup, hheld⟩ := Option.filter_eq_some_iff.mp hfound
    exact usable_eq_some_iff.mpr ⟨hlookup, session, hsession', hheld⟩
  next => exact ⟨hsession', fun _ h => by cases h⟩

theorem holds_adoptThread (hsession : s.sessions.lookup key.userId = some session) (extUuid : Uuid) :
    agreement.Holds t (fun (adopted : Bool) (s : Shared) =>
        s.sessions.lookup key.userId = some session ∧ (adopted = true → Mapped key session extUuid s))
      (adoptThread key session extUuid) s := by
  have hno : ∀ s : Shared, s.sessions.lookup key.userId = some session →
      s.sessions.lookup key.userId = some session ∧ (false = true → Mapped key session extUuid s) :=
    fun s h => ⟨h, fun hfalse => by cases hfalse⟩
  unfold adoptThread
  apply Outline.Holds.bind (Q := fun (_ : Bool) (s : Shared) => s.sessions.lookup key.userId = some session)
  · exact holds_perf (.mappedElsewhere extUuid) fun s' hkeeps i _ => hkeeps.sessions _ _ hsession
  intro mapped s hsession
  cases mapped with
  | true => exact Outline.holds_ret (hno s hsession)
  | false =>
    apply Outline.Holds.bind (Q := fun (held : Bool) (s : Shared) =>
      s.sessions.lookup key.userId = some session ∧ (held = true → s.holds session extUuid = true))
    · exact holds_perf (.holdsThread session extUuid) fun s' hkeeps i _ =>
        ⟨hkeeps.sessions _ _ hsession, fun h => h⟩
    intro held s ⟨hsession, hheld⟩
    cases held with
    | false => exact Outline.holds_ret (hno s hsession)
    | true =>
      apply Outline.Holds.bind (Q := fun (stored : Bool) (s : Shared) =>
        s.sessions.lookup key.userId = some session ∧ (stored = true → Mapped key session extUuid s))
      · refine holds_perf (.adoptMapping key extUuid) fun s' hkeeps i _ => ?_
        have hsession' := hkeeps.sessions _ _ hsession
        simp only [perform]
        split
        · exact hno s' hsession'
        · exact ⟨hsession', fun _ => mapped_insertMapping hsession' (hkeeps.threads _ _ (hheld rfl))⟩
      intro stored s ⟨hsession, hstored⟩
      cases stored with
      | false => exact Outline.holds_ret (hno s hsession)
      | true =>
        apply Outline.Holds.bind (Q := fun (_ : Unit) (s : Shared) => Mapped key session extUuid s)
        · exact holds_perf (.ensureUndoManager extUuid) fun s' hkeeps i hunstored =>
            ((hstored rfl).keeps hkeeps).keeps (keeps_perform hunstored)
        · exact fun _ s hmapped => Outline.holds_ret ⟨hmapped.1, fun _ => hmapped⟩

theorem holds_createMapped (hsession : s.sessions.lookup key.userId = some session) :
    agreement.Holds t (fun (tid : Uuid) (s : Shared) => Mapped key session tid s) (createMapped key session) s := by
  unfold createMapped
  apply Outline.Holds.bind (Q := fun (tid : Uuid) (s : Shared) =>
    s.sessions.lookup key.userId = some session ∧ s.holds session tid = true)
  · refine holds_perf (.createThread session) fun s' hkeeps i _ => ?_
    have hsession' := hkeeps.sessions _ _ hsession
    exact ⟨hsession', holds_createThread (s'.refs _ _ hsession') i⟩
  intro tid s ⟨hsession, hheld⟩
  apply Outline.Holds.bind (Q := fun (_ : Unit) (s : Shared) => Mapped key session tid s)
  · exact holds_perf (.insertMapping key tid) fun s' hkeeps i _ =>
      mapped_insertMapping (hkeeps.sessions _ _ hsession) (hkeeps.threads _ _ hheld)
  intro _ s hmapped
  apply Outline.Holds.bind (Q := fun (_ : Unit) (s : Shared) => Mapped key session tid s)
  · exact holds_perf (.insertUndoManager tid) fun s' hkeeps i hunstored =>
      (hmapped.keeps hkeeps).keeps (keeps_perform hunstored)
  · exact fun _ s hmapped => Outline.holds_ret hmapped

theorem holds_resolveThread (user channel : String) (externalThreadId : Option String) (s : Shared) :
    agreement.Holds t (fun (out : Nat × Uuid) (s : Shared) => Mapped ⟨user, channel, externalThreadId⟩ out.1 out.2 s)
      (resolveThread user channel externalThreadId) s := by
  have hcreate : ∀ session s, s.sessions.lookup user = some session →
      agreement.Holds t (fun (out : Nat × Uuid) (s : Shared) => Mapped ⟨user, channel, externalThreadId⟩ out.1 out.2 s)
        (createMapped ⟨user, channel, externalThreadId⟩ session >>= fun tid => pure (session, tid)) s :=
    fun session s hsession => (holds_createMapped hsession).bind fun _ s hmapped => Outline.holds_ret hmapped
  unfold resolveThread
  apply (holds_getOrCreateSession user s).bind
  intro session s hsession
  apply (holds_findMapping ⟨user, channel, externalThreadId⟩ hsession).bind
  intro found s ⟨hsession, hfound⟩
  cases found with
  | some tid => exact Outline.holds_ret ⟨hsession, hfound tid rfl⟩
  | none =>
    cases hext : externalThreadId.bind Uuid.parseStr with
    | none => exact hcreate session s hsession
    | some extUuid =>
      apply (holds_adoptThread hsession extUuid).bind
      intro adopted s ⟨hsession, hadopted⟩
      cases adopted with
      | true => exact Outline.holds_ret (hadopted rfl)
      | false => exact hcreate session s hsession

/-! ## Runs -/

/-- **Concurrent resolution is single-valued** in every run that stores no mapping over a usable one. -/
theorem resolution_single_valued {s : Shared} {ls : List machine.Label} {cfg : machine.Config}
    (run : Runs machine.step (machine.StepsMeet Unstored) (machine.initial s) ls cfg) : SingleValued cfg := by
  have hgood : agreement.Good cfg := by
    refine Outline.run run True.intro (fun _ => True.intro) (fun _ hC htask => hC _ _ _ htask) ?_
    intro t s c _ _
    cases c with
    | getOrCreateSession user => exact holds_getOrCreateSession user s
    | resolveThread user channel externalThreadId => exact holds_resolveThread user channel externalThreadId s
  have hsession : ∀ t c out, cfg.Returned t c out → cfg.shared.sessions.lookup c.user = some out.session := by
    intro t c out hreturned
    have hpost := hgood.post hreturned
    cases c with
    | getOrCreateSession user => exact hpost
    | resolveThread user channel externalThreadId => exact hpost.1
  refine ⟨?_, ?_, ?_⟩
  · intro t t' user channel externalThreadId out out' hreturned hreturned' _ _
    have hmapped : Mapped ⟨user, channel, externalThreadId⟩ out.1 out.2 cfg.shared := hgood.post hreturned
    have hmapped' : Mapped ⟨user, channel, externalThreadId⟩ out'.1 out'.2 cfg.shared := hgood.post hreturned'
    exact Option.some.inj (hmapped.2.symm.trans hmapped'.2)
  · intro t t' c c' out out' hreturned hreturned' huser
    have hlookup := hsession t c out hreturned
    rw [huser, hsession t' c' out' hreturned'] at hlookup
    exact (Option.some.inj hlookup).symm
  · intro t user channel externalThreadId out hreturned _
    have hmapped : Mapped ⟨user, channel, externalThreadId⟩ out.1 out.2 cfg.shared := hgood.post hreturned
    exact (usable_eq_some_iff.mp hmapped.2).1

/-- `Unstored`, computed. -/
def unstored (_ : Nat) (o : Op) (_ : Input) (s : Shared) : Bool :=
  match o with
  | .adoptMapping key tid => s.threadMap.hasValue tid || (s.usable key).isNone
  | .insertMapping key _ => (s.usable key).isNone
  | _ => true

theorem unstored_sound {t : Nat} {o : Op} {i : Input} {s : Shared} (h : unstored t o i s = true) : Unstored t o i s := by
  unfold Unstored
  split
  next key tid =>
    intro hfree
    simpa [unstored, hfree] using h
  next key tid => simpa [unstored] using h
  next => exact True.intro

/-- Nobody has a session. -/
def nobody : Shared := { refs := by intro user session h; cases h }

/-- One section of a call, with the identifier its thread would get. -/
def sectionOf (t : Nat) (threadId : Uuid) : machine.Label := .step t ⟨7, threadId, 0⟩

def message : machine.Call := .resolveThread "alice" "web" none

/-- A message and, once it is resolved, another one. -/
def oneAfterTheOther : List machine.Label :=
  [.start 0 message] ++ List.replicate 6 (sectionOf 0 1) ++ [.start 1 message] ++ List.replicate 2 (sectionOf 1 2)

theorem one_after_the_other :
    ∃ cfg, Runs machine.step (machine.StepsMeet Unstored) (machine.initial nobody) oneAfterTheOther cfg
      ∧ SingleValued cfg := by
  have hrun : ∃ cfg, Runs machine.step (machine.StepsMeet Unstored) (machine.initial nobody) oneAfterTheOther cfg :=
    ⟨_, Runs.of_checked (machine.stepsMeet_sound fun _ _ _ _ => unstored_sound) rfl⟩
  obtain ⟨cfg, run⟩ := hrun
  exact ⟨cfg, run, resolution_single_valued run⟩

/-- Two messages that both look for the mapping before either stores one. -/
def bothAtOnce : List machine.Label :=
  [.start 0 message, .start 1 message] ++ List.replicate 3 (sectionOf 0 1) ++ List.replicate 2 (sectionOf 1 2)
    ++ List.replicate 3 (sectionOf 0 1) ++ List.replicate 3 (sectionOf 1 2)

/-- They get different threads, and the first of them is no longer found. -/
theorem first_messages_part :
    ∃ cfg, Runs machine.step (fun _ _ => True) (machine.initial nobody) bothAtOnce cfg ∧ ¬ SingleValued cfg := by
  refine ⟨_, Runs.of_foldlM rfl, ?_⟩
  intro h
  have hsame := h.threads 0 1 "alice" "web" none (0, 1) (0, 2) rfl rfl (by decide) (by decide)
  revert hsame
  decide

end Freeclawdia.Resolution
