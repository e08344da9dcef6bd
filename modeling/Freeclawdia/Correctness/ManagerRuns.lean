import Freeclawdia.Agent.AgentLoop

/-!
# `Correctness.ManagerRuns` — runs of the session manager

The operations that reach the session manager while messages are handled, as one type `Op`, and what each
does to the two questions the thread map is about: which threads a user's session holds, and which thread a
key maps to. Every lemma states its operation's effect for **all** users, threads and keys, so that later
arguments never unfold an operation again.
-/

namespace Freeclawdia.SessionManager

open Rust

/-! ## Hydration as an operation of the manager -/

/-- The manager's part of `maybe_hydrate_thread`: insert and register a thread the session does not have. -/
def hydrateIfAbsent (m : SessionManager) (user channel : String) (tid : Uuid)
    (messages : List ChatMessage) (newSessionId : Uuid) (now : Time) : SessionManager :=
  if (m.getOrCreateSession user newSessionId now).holdsThread user tid then
    m.getOrCreateSession user newSessionId now
  else (m.getOrCreateSession user newSessionId now).hydrateThread user channel tid messages now

/-- What `maybe_hydrate_thread` does to the manager. -/
theorem maybeHydrateThread_manager {W : Type} (env : Env W) (msg : IncomingMessage) {external : String}
    {tid : Uuid} (now : Time) (st : AgentState W) (hp : Uuid.parseStr external = some tid) : ∃ messages newSessionId,
      (maybeHydrateThread env msg external now st).manager
        = st.manager.hydrateIfAbsent msg.userId msg.channel tid messages newSessionId now := by
  unfold maybeHydrateThread hydrateIfAbsent
  rw [hp]
  refine ⟨hydrationMessages (loadHistory env tid (ensureSession env msg.userId now st)).1,
    (st.trace.draw env).1, ?_⟩
  by_cases hheld : (ensureSession env msg.userId now st).manager.holdsThread msg.userId tid = true
  · have hheld' : (st.manager.getOrCreateSession msg.userId (st.trace.draw env).1 now).holdsThread
        msg.userId tid = true := hheld
    simp only [hheld, hheld', if_true]
    rfl
  · have hheld' : ¬ (st.manager.getOrCreateSession msg.userId (st.trace.draw env).1 now).holdsThread
        msg.userId tid = true := hheld
    simp only [hheld, hheld', hydrateMissing, loadHistory_manager]
    rfl

/-- An operation that reaches the session manager. -/
inductive Op
  /-- `resolve_thread`. -/
  | resolve (user channel : String) (externalThreadId : Option String)
      (newSessionId newThreadId : Uuid) (now : Time)
  /-- `maybe_hydrate_thread`, which calls `register_thread` for a thread the session does not have. -/
  | hydrate (user channel : String) (tid : Uuid) (messages : List ChatMessage)
      (newSessionId : Uuid) (now : Time)
  /-- `remove_thread`. -/
  | remove (user : String) (tid : Uuid) (newSessionId : Uuid) (now : Time)
  /-- `prune_stale_sessions`. -/
  | prune (now : Time) (maxIdle : Duration) (busy₁ busy₂ : String → Bool)
  /-- `/new`. -/
  | newThread (user : String) (newThreadId : Uuid) (now : Time)
  /-- `/thread <id>`. -/
  | switchThread (user : String) (tid : Uuid) (now : Time)
  /-- Whatever a handler does to one thread. -/
  | turn (user : String) (tid : Uuid) (change : Thread → Thread)

/-- The effect of an operation; `none` when pruning panics. -/
def Op.apply (m : SessionManager) : Op → Option SessionManager
  | resolve user channel external sid tid now => some (m.resolveThread user channel external sid tid now).2
  | hydrate user channel tid messages sid now =>
    some (m.hydrateIfAbsent user channel tid messages sid now)
  | remove user tid sid now => some (m.removeThread user tid sid now)
  | prune now maxIdle busy₁ busy₂ => m.pruneStaleSessions now maxIdle busy₁ busy₂
  | newThread user tid now => some (m.modifySession user (Session.createThread · tid now))
  | switchThread user tid now => some (m.modifySession user fun s => (s.switchThread tid now).2)
  | turn user tid change => some (m.modifySession user (Session.modifyThread · tid change))

/-! ## Which threads are held -/

/-- The user's session holds the thread. -/
def Holds (m : SessionManager) (user : String) (tid : Uuid) : Prop := m.holdsThread user tid = true

instance (m : SessionManager) (user : String) (tid : Uuid) : Decidable (m.Holds user tid) :=
  inferInstanceAs (Decidable (_ = true))

variable (m : SessionManager) (user : String)

theorem holds_iff (tid : Uuid) : m.Holds user tid ↔ ∃ s t, m.session user = some s ∧ s.threads.lookup tid = some t := by
  unfold Holds holdsThread
  rw [Option.isSome_iff_exists]
  constructor
  · rintro ⟨t, h⟩
    obtain ⟨s, hs, ht⟩ := Option.bind_eq_some_iff.mp h
    exact ⟨s, t, hs, ht⟩
  · rintro ⟨s, t, hs, ht⟩
    exact ⟨t, Option.bind_eq_some_iff.mpr ⟨s, hs, ht⟩⟩

/-- Two managers with the same sessions hold the same threads. -/
theorem holds_congr {m m' : SessionManager} (h : m'.sessions = m.sessions) (user : String) (tid : Uuid) :
    m'.Holds user tid ↔ m.Holds user tid := by
  unfold Holds holdsThread session
  rw [h]

theorem holds_getOrCreateSession (sid : Uuid) (now : Time) (user' : String) (tid : Uuid) :
    (m.getOrCreateSession user sid now).Holds user' tid ↔ m.Holds user' tid := by
  rw [holds_iff, holds_iff]
  show (∃ s t, (Map.insertIfAbsent user (Session.new sid user now) m.sessions).lookup user' = some s ∧ _)
    ↔ _
  by_cases hu : user' = user
  · subst hu
    rw [Map.lookup_insertIfAbsent_self]
    cases hs : m.sessions.lookup user' with
    | none =>
      -- A new session has no threads.
      constructor
      · rintro ⟨s, t, hsome, ht⟩
        rw [← Option.some.inj hsome] at ht
        exact absurd ht (by simp [Session.new])
      · rintro ⟨s, t, hsome, _⟩
        have : m.sessions.lookup user' = some s := hsome
        rw [hs] at this
        cases this
    | some s₀ => simp [session, hs]
  · rw [Map.lookup_insertIfAbsent_ne _ _ hu]
    rfl

/-- A change to one session that keeps the set of its threads, up to one thread that may come in. -/
theorem holds_modifySession (f : Session → Session) (extra : Uuid → Prop)
    (hf : ∀ s tid, (∃ t, (f s).threads.lookup tid = some t) ↔ (∃ t, s.threads.lookup tid = some t) ∨ extra tid)
    (user' : String) (tid : Uuid) : (m.modifySession user f).Holds user' tid
      ↔ m.Holds user' tid ∨ (user' = user ∧ (m.session user).isSome ∧ extra tid) := by
  rw [holds_iff, holds_iff]
  by_cases hu : user' = user
  · subst hu
    rw [session_modifySession_self]
    cases hs : m.session user' with
    | none => simp
    | some s =>
      have := hf s tid
      simpa using this
  · rw [session_modifySession_ne m user f hu]
    simp [hu]

theorem lookup_createThread (s : Session) (newId : Uuid) (now : Time) (tid : Uuid) :
    (∃ t, (s.createThread newId now).threads.lookup tid = some t)
      ↔ (∃ t, s.threads.lookup tid = some t) ∨ tid = newId := by
  show (∃ t, (Map.insertIfAbsent newId (Thread.withId newId) s.threads).lookup tid = some t) ↔ _
  by_cases h : tid = newId
  · subst h
    rw [Map.lookup_insertIfAbsent_self]
    simp
  · rw [Map.lookup_insertIfAbsent_ne _ _ h]
    simp [h]

theorem lookup_insertHydrated (thread : Thread) (now : Time) (s : Session) (tid : Uuid) :
    (∃ t, (insertHydrated thread now s).threads.lookup tid = some t)
      ↔ (∃ t, s.threads.lookup tid = some t) ∨ tid = thread.id := by
  show (∃ t, (s.threads.insert thread.id thread).lookup tid = some t) ↔ _
  rw [Map.lookup_insert_ite]
  by_cases h : tid = thread.id
  · simp [h]
  · simp [h]

@[simp] theorem hydratedThread_id (tid : Uuid) (messages : List ChatMessage) :
    (hydratedThread tid messages).id = tid := by
  unfold hydratedThread
  split <;> rfl

/-- After `getOrCreateSession` the user has a session. -/
theorem session_getOrCreateSession_isSome (sid : Uuid) (now : Time) :
    ((m.getOrCreateSession user sid now).session user).isSome := by
  show ((Map.insertIfAbsent user (Session.new sid user now) m.sessions).lookup user).isSome
  rw [Map.lookup_insertIfAbsent_self]
  rfl

/-- Making sure there is a session changes neither what a key maps to nor what can be adopted. -/
theorem mapped_getOrCreateSession (sid : Uuid) (now : Time) (key : ThreadKey) :
    (m.getOrCreateSession user sid now).mapped key = m.mapped key := by
  unfold mapped
  congr 1
  funext tid
  exact Bool.eq_iff_iff.mpr (holds_getOrCreateSession m user sid now key.userId tid)

theorem adoptable_getOrCreateSession (sid : Uuid) (now : Time) (user' : String) (external : Option String) :
    (m.getOrCreateSession user sid now).adoptable user' external = m.adoptable user' external := by
  have hheld : ∀ tid, (m.getOrCreateSession user sid now).holdsThread user' tid = m.holdsThread user' tid :=
    fun tid => Bool.eq_iff_iff.mpr (holds_getOrCreateSession m user sid now user' tid)
  unfold adoptable
  simp only [hheld]
  rfl

/-- **A thread is adopted** when the external id names it, no key maps to it and the session holds it. -/
theorem adoptable_eq_some_iff {external : Option String} {tid : Uuid} : m.adoptable user external = some tid ↔
      external.bind Uuid.parseStr = some tid ∧ m.threadMap.hasValue tid = false ∧ m.Holds user tid := by
  unfold adoptable
  cases external.bind Uuid.parseStr with
  | none => simp
  | some extUuid =>
    simp only [Option.some.injEq]
    split
    · rename_i hvalue
      refine iff_of_false (fun h => by cases h) ?_
      rintro ⟨rfl, hfree, _⟩
      rw [hfree] at hvalue
      cases hvalue
    · rename_i hvalue
      split
      · rename_i hheld
        constructor
        · intro h
          obtain rfl := Option.some.inj h
          exact ⟨rfl, Bool.eq_false_iff.mpr hvalue, hheld⟩
        · exact fun h => congrArg some h.1
      · rename_i hheld
        refine iff_of_false (fun h => by cases h) ?_
        rintro ⟨rfl, _, h⟩
        exact hheld h

/-! ## Resolving -/

section Resolve

variable (m : SessionManager) (user channel : String) (external : Option String) (sid newTid : Uuid) (now : Time)

/-- The key of a resolution. -/
def keyOf (user channel : String) (external : Option String) : ThreadKey :=
  { userId := user, channel, externalThreadId := external }

/-- **Everything `resolve_thread` can do.** It returns the held thread the key maps to; or adopts a held
    thread no key maps to, named by its own identifier; or creates a thread. -/
theorem resolveThread_cases :
    let r := m.resolveThread user channel external sid newTid now
    let m₀ := m.getOrCreateSession user sid now
    (m₀.mapped (keyOf user channel external) = some r.1 ∧ r.2 = m₀)
      ∨ (m₀.mapped (keyOf user channel external) = none ∧ m₀.adoptable user external = some r.1
          ∧ r.2.sessions = m₀.sessions
          ∧ r.2.threadMap = m₀.threadMap.insert (keyOf user channel external) r.1)
      ∨ (m₀.mapped (keyOf user channel external) = none ∧ m₀.adoptable user external = none ∧ r.1 = newTid
          ∧ r.2.sessions = (m₀.modifySession user (Session.createThread · newTid now)).sessions
          ∧ r.2.threadMap = m₀.threadMap.insert (keyOf user channel external) newTid) := by
  intro r m₀
  cases hmap : m₀.mapped (keyOf user channel external) with
  | some tid =>
    have hr : r = (tid, m₀) := by
      show m.resolveThread user channel external sid newTid now = _
      unfold resolveThread
      simp only [show m.getOrCreateSession user sid now = m₀ from rfl]
      rw [show m₀.mapped { userId := user, channel, externalThreadId := external } = some tid from hmap]
    rw [hr]
    exact Or.inl ⟨rfl, rfl⟩
  | none =>
    cases had : m₀.adoptable user external with
    | some tid =>
      have hr : r = (tid, { m₀ with
          threadMap := m₀.threadMap.insert (keyOf user channel external) tid
          undoManagers := Map.insertIfAbsent tid UndoManager.new m₀.undoManagers }) := by
        show m.resolveThread user channel external sid newTid now = _
        unfold resolveThread
        simp only [show m.getOrCreateSession user sid now = m₀ from rfl]
        rw [show m₀.mapped { userId := user, channel, externalThreadId := external } = none from hmap, had]
        rfl
      rw [hr]
      exact Or.inr (Or.inl ⟨rfl, rfl, rfl, rfl⟩)
    | none =>
      have hr : r = (newTid, { m₀.modifySession user (Session.createThread · newTid now) with
          threadMap := (m₀.modifySession user (Session.createThread · newTid now)).threadMap.insert
            (keyOf user channel external) newTid
          undoManagers := (m₀.modifySession user (Session.createThread · newTid now)).undoManagers.insert
            newTid UndoManager.new }) := by
        show m.resolveThread user channel external sid newTid now = _
        unfold resolveThread
        simp only [show m.getOrCreateSession user sid now = m₀ from rfl]
        rw [show m₀.mapped { userId := user, channel, externalThreadId := external } = none from hmap, had]
        rfl
      rw [hr]
      refine Or.inr (Or.inr ⟨rfl, rfl, rfl, rfl, ?_⟩)
      show (m₀.modifySession user _).threadMap.insert _ _ = _
      rw [threadMap_modifySession]

/-- The key maps to the returned thread afterwards, and no other key changes. -/
theorem lookup_resolveThread (key : ThreadKey) :
    (m.resolveThread user channel external sid newTid now).2.threadMap.lookup key
      = if key = keyOf user channel external then some (m.resolveThread user channel external sid newTid now).1
        else m.threadMap.lookup key := by
  have h0 : (m.getOrCreateSession user sid now).threadMap = m.threadMap := rfl
  rcases resolveThread_cases m user channel external sid newTid now with
    ⟨hmap, hm⟩ | ⟨_, _, _, hmap⟩ | ⟨_, _, hr, _, hmap⟩
  · rw [hm]
    by_cases hk : key = keyOf user channel external
    · rw [if_pos hk, hk]
      exact (Option.filter_eq_some_iff.mp hmap).1
    · rw [if_neg hk, h0]
  · rw [hmap, Map.lookup_insert_ite, h0]
  · rw [hmap, Map.lookup_insert_ite, h0, hr]

/-- The returned thread is held afterwards, and nothing else changes. -/
theorem holds_resolveThread (user' : String) (tid : Uuid) :
    (m.resolveThread user channel external sid newTid now).2.Holds user' tid ↔ m.Holds user' tid
        ∨ (user' = user ∧ tid = (m.resolveThread user channel external sid newTid now).1) := by
  rcases resolveThread_cases m user channel external sid newTid now with
    ⟨hmap, hm⟩ | ⟨_, had, hs, _⟩ | ⟨_, _, hr, hs, _⟩
  · have hheld : m.Holds user (m.resolveThread user channel external sid newTid now).1 := by
      rw [← holds_getOrCreateSession m user sid now]
      exact (Option.filter_eq_some_iff.mp hmap).2
    rw [hm, holds_getOrCreateSession]
    constructor
    · exact Or.inl
    · rintro (h | ⟨rfl, rfl⟩)
      · exact h
      · exact hheld
  · have hheld : m.Holds user (m.resolveThread user channel external sid newTid now).1 := by
      rw [adoptable_getOrCreateSession] at had
      exact ((adoptable_eq_some_iff m user).mp had).2.2
    rw [holds_congr hs, holds_getOrCreateSession]
    constructor
    · exact Or.inl
    · rintro (h | ⟨rfl, rfl⟩)
      · exact h
      · exact hheld
  · rw [holds_congr hs, holds_modifySession _ _ _ (· = newTid) (fun s tid => lookup_createThread s newTid now tid),
      holds_getOrCreateSession, hr]
    simp [session_getOrCreateSession_isSome]

/-- What the returned thread is: the one the key maps to, or one that no key maps to, or the new one. -/
theorem resolveThread_result :
    (m.threadMap.lookup (keyOf user channel external) = some (m.resolveThread user channel external sid newTid now).1)
      ∨ (∀ key, m.threadMap.lookup key ≠ some (m.resolveThread user channel external sid newTid now).1)
      ∨ (m.resolveThread user channel external sid newTid now).1 = newTid := by
  rcases resolveThread_cases m user channel external sid newTid now with
    ⟨hmap, _⟩ | ⟨_, had, _, _⟩ | ⟨_, _, hr, _, _⟩
  · exact Or.inl (Option.filter_eq_some_iff.mp hmap).1
  · rw [adoptable_getOrCreateSession] at had
    exact Or.inr (Or.inl (Map.hasValue_eq_false_iff.mp ((adoptable_eq_some_iff m user).mp had).2.1))
  · exact Or.inr (Or.inr hr)

/-- A key that maps to a held thread resolves to it. -/
theorem resolveThread_of_mapped {tid : Uuid}
    (hmap : m.threadMap.lookup (keyOf user channel external) = some tid) (hheld : m.Holds user tid) :
    (m.resolveThread user channel external sid newTid now).1 = tid := by
  have hmapped : (m.getOrCreateSession user sid now).mapped (keyOf user channel external) = some tid := by
    apply Option.filter_eq_some_iff.mpr
    refine ⟨hmap, ?_⟩
    have := (holds_getOrCreateSession m user sid now user tid).mpr hheld
    exact this
  rcases resolveThread_cases m user channel external sid newTid now with
    ⟨h, _⟩ | ⟨h, _⟩ | ⟨h, _⟩
  · exact Option.some.inj (h.symm.trans hmapped)
  · rw [hmapped] at h; cases h
  · rw [hmapped] at h; cases h

end Resolve

/-! ## Hydrating, removing, pruning -/

section Others

variable (m : SessionManager) (user channel : String) (tid : Uuid) (messages : List ChatMessage)
  (sid : Uuid) (now : Time)

/-- The key a hydrated thread is registered under. -/
def canonicalKey (user channel : String) (tid : Uuid) : ThreadKey :=
  keyOf user channel (some (Uuid.toString tid))

theorem hydrateThread_eq {s : Session} (hs : m.session user = some s) :
    (m.hydrateThread user channel tid messages now).sessions
        = m.sessions.insert user (insertHydrated (hydratedThread tid messages) now s)
      ∧ (m.hydrateThread user channel tid messages now).threadMap
        = m.threadMap.insert (canonicalKey user channel tid) tid := by
  unfold hydrateThread
  rw [hs]
  refine ⟨?_, rfl⟩
  show Map.insertIfAbsent user _ (m.sessions.insert user _) = _
  unfold Map.insertIfAbsent
  rw [AList.lookup_insert]
  rfl

/-- Hydrating a thread the session has only makes sure there is a session. -/
theorem hydrateIfAbsent_of_holds (h : m.Holds user tid) :
    m.hydrateIfAbsent user channel tid messages sid now = m.getOrCreateSession user sid now := by
  unfold hydrateIfAbsent
  have hheld : (m.getOrCreateSession user sid now).holdsThread user tid = true :=
    (holds_getOrCreateSession m user sid now user tid).mpr h
  rw [if_pos hheld]

/-- Hydrating a missing thread changes the user's session and binds the canonical key. -/
theorem hydrateIfAbsent_of_not_holds (h : ¬ m.Holds user tid) :
    (m.hydrateIfAbsent user channel tid messages sid now).sessions
        = ((m.getOrCreateSession user sid now).modifySession user
            (insertHydrated (hydratedThread tid messages) now)).sessions
      ∧ (m.hydrateIfAbsent user channel tid messages sid now).threadMap
        = m.threadMap.insert (canonicalKey user channel tid) tid := by
  unfold hydrateIfAbsent
  have hheld : ¬ (m.getOrCreateSession user sid now).holdsThread user tid = true := fun hh =>
    h ((holds_getOrCreateSession m user sid now user tid).mp hh)
  rw [if_neg hheld]
  obtain ⟨s, hs⟩ := Option.isSome_iff_exists.mp (session_getOrCreateSession_isSome m user sid now)
  obtain ⟨hsess, hmap⟩ := hydrateThread_eq (m.getOrCreateSession user sid now) user channel tid messages now hs
  refine ⟨?_, hmap⟩
  rw [hsess]
  unfold modifySession
  rw [hs]

/-- Hydration makes the user hold the thread, and changes nothing else. -/
theorem holds_hydrateIfAbsent (user' : String) (tid' : Uuid) :
    (m.hydrateIfAbsent user channel tid messages sid now).Holds user' tid'
      ↔ m.Holds user' tid' ∨ (user' = user ∧ tid' = tid) := by
  by_cases hheld : m.Holds user tid
  · rw [hydrateIfAbsent_of_holds m user channel tid messages sid now hheld, holds_getOrCreateSession]
    constructor
    · exact Or.inl
    · rintro (h | ⟨rfl, rfl⟩)
      · exact h
      · exact hheld
  · rw [holds_congr (hydrateIfAbsent_of_not_holds m user channel tid messages sid now hheld).1,
      holds_modifySession _ _ _ (· = (hydratedThread tid messages).id)
        (fun s tid' => lookup_insertHydrated (hydratedThread tid messages) now s tid'),
      holds_getOrCreateSession, hydratedThread_id]
    simp [session_getOrCreateSession_isSome]

/-- Hydrating a thread the session has changes no key; otherwise its canonical key maps to it. -/
theorem lookup_hydrateIfAbsent (key : ThreadKey) :
    (m.hydrateIfAbsent user channel tid messages sid now).threadMap.lookup key
      = if ¬ m.Holds user tid ∧ key = canonicalKey user channel tid then some tid else m.threadMap.lookup key := by
  by_cases hheld : m.Holds user tid
  · rw [hydrateIfAbsent_of_holds m user channel tid messages sid now hheld, if_neg (fun h => h.1 hheld)]
    rfl
  · rw [(hydrateIfAbsent_of_not_holds m user channel tid messages sid now hheld).2, Map.lookup_insert_ite]
    by_cases hk : key = canonicalKey user channel tid
    · rw [if_pos hk, if_pos ⟨hheld, hk⟩]
    · rw [if_neg hk, if_neg (fun h => hk h.2)]

theorem holds_removeThread (user' : String) (tid' : Uuid) : (m.removeThread user tid sid now).Holds user' tid'
      ↔ m.Holds user' tid' ∧ ¬ (user' = user ∧ tid' = tid) := by
  have hsess : (m.removeThread user tid sid now).sessions
      = ((m.getOrCreateSession user sid now).modifySession user (dropThread tid)).sessions := rfl
  rw [holds_congr hsess, ← holds_getOrCreateSession m user sid now, holds_iff, holds_iff]
  by_cases hu : user' = user
  · subst hu
    rw [session_modifySession_self]
    cases hs : (m.getOrCreateSession user' sid now).session user' with
    | none => simp
    | some s =>
      have hdrop : (dropThread tid s).threads.lookup tid'
          = if tid' = tid then none else s.threads.lookup tid' := Map.lookup_erase_ite _ _ _
      by_cases ht : tid' = tid
      · simp [hdrop, ht]
      · simp [hdrop, ht]
  · rw [session_modifySession_ne _ _ _ hu]
    simp [hu]

theorem lookup_removeThread (key : ThreadKey) : (m.removeThread user tid sid now).threadMap.lookup key
      = (m.threadMap.lookup key).filter fun v => v != tid := by
  show (Map.retain _ ((m.getOrCreateSession user sid now).modifySession user _).threadMap).lookup key = _
  rw [Map.lookup_retain, threadMap_modifySession]
  rfl

/-- **Everything pruning can do**: it drops the sessions and the keys of one set of users. -/
theorem pruneStaleSessions_eq {m m' : SessionManager} {maxIdle : Duration} {busy₁ busy₂ : String → Bool}
    (h : m.pruneStaleSessions now maxIdle busy₁ busy₂ = some m') : ∃ cutoff, pruneCutoff now maxIdle = some cutoff
      ∧ (∀ user', m'.session user' = if user' ∈ m.staleUsers cutoff busy₁ then none else m.session user')
      ∧ ∀ key, m'.threadMap.lookup key
          = if key.userId ∈ m.staleUsers cutoff busy₁ then none else m.threadMap.lookup key := by
  obtain ⟨cutoff, hc, rfl⟩ := Option.map_eq_some_iff.mp h
  refine ⟨cutoff, hc, ?_, ?_⟩
  · intro user'
    exact Map.lookup_eraseAll _ _ _
  · intro key
    show (Map.retain _ m.threadMap).lookup key = _
    rw [Map.lookup_retain]
    by_cases hk : key.userId ∈ m.staleUsers cutoff busy₁
    · simp [hk]
    · cases m.threadMap.lookup key <;> simp [hk]

end Others

end Freeclawdia.SessionManager
