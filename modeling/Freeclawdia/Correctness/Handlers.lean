import Freeclawdia.Correctness.Loop
import Freeclawdia.Correctness.ManagerRuns
import Freeclawdia.Lib.Log

/-!
# `Correctness.Handlers` — handlers that run no tools

Most of what `handle_message` does neither runs a tool nor raises or takes an approval request: locating the
thread, undo and redo, compaction, clearing, persistence. `Calm st st'` says so of a change of state: requests
may disappear but none appears or moves, and the events logged are inputs, answers and model calls over plain
messages. It composes, and there is one lemma for each handler, so that a property of approval requests is
proved by looking at the two places that do touch them.
-/

namespace Freeclawdia

open Rust

variable {W : Type}

/-- The approval request stored on a thread. -/
def AgentState.pendingAt (st : AgentState W) (user : String) (tid : Uuid) : Option PendingApproval :=
  (st.thread user tid).bind (·.pendingApproval)

/-- A message that neither asks for tools nor carries a result. -/
def ChatMessage.Plain (m : ChatMessage) : Prop := m.role ≠ .tool ∧ m.toolCalls = none

/-- Messages that neither ask for tools nor carry their results. -/
def Plain (messages : List ChatMessage) : Prop := ∀ m ∈ messages, m.Plain

theorem ChatMessage.plain_user (content : String) : (ChatMessage.user content).Plain :=
  ⟨fun h => (by cases h), rfl⟩

theorem ChatMessage.plain_system (content : String) : (ChatMessage.system content).Plain :=
  ⟨fun h => (by cases h), rfl⟩

theorem ChatMessage.plain_assistant (content : String) : (ChatMessage.assistant content).Plain :=
  ⟨fun h => (by cases h), rfl⟩

/-- Events of handlers that run no tools. -/
def Benign : Event → Prop
  | .llm messages => Plain messages
  | .asked .. => True
  | .answered .. => True
  | _ => False

/-- No request appears or moves, and only benign events are logged. -/
structure Calm (st st' : AgentState W) : Prop where
  log : Log.Grows Benign st.trace.log st'.trace.log
  pending : ∀ user tid p, st'.pendingAt user tid = some p → st.pendingAt user tid = some p

namespace Calm

variable {st st' st'' : AgentState W}

theorem refl (st : AgentState W) : Calm st st := ⟨Log.Grows.refl _ _, fun _ _ _ h => h⟩

theorem trans (h : Calm st st') (h' : Calm st' st'') : Calm st st'' :=
  ⟨h.log.trans h'.log, fun user tid p hp => h.pending user tid p (h'.pending user tid p hp)⟩

/-- Changes outside the sessions and the log. -/
theorem of_same (hs : st'.manager.sessions = st.manager.sessions) (hl : st'.trace.log = st.trace.log) :
    Calm st st' := by
  refine ⟨?_, ?_⟩
  · rw [hl]
    exact Log.Grows.refl _ _
  · intro user tid p hp
    unfold AgentState.pendingAt AgentState.thread SessionManager.session at hp ⊢
    rw [← hs]
    exact hp

/-- Changes to the trace alone. -/
theorem of_trace {tr : Trace W} (hl : Log.Grows Benign st.trace.log tr.log) : Calm st { st with trace := tr } :=
  ⟨hl, fun _ _ _ h => h⟩

theorem emit (st : AgentState W) {e : Event} (he : Benign e) : Calm st (st.emit e) :=
  of_trace (Log.Grows.snoc he _)

theorem asked (st : AgentState W) (user content : String) : Calm st (st.emit (.asked user content)) :=
  emit st trivial

theorem answered (st : AgentState W) (user content : String) : Calm st (st.emit (.answered user content)) :=
  emit st trivial

/-- A change to one thread that does not add a request. -/
theorem modifyThread (st : AgentState W) (user : String) (tid : Uuid) {f : Thread → Thread}
    (hf : ∀ t, st.thread user tid = some t → ∀ p, (f t).pendingApproval = some p →
      t.pendingApproval = some p) : Calm st (st.modifyThread user tid f) := by
  refine ⟨Log.Grows.refl _ _, ?_⟩
  intro user' tid' p hp
  unfold AgentState.pendingAt at hp ⊢
  by_cases h : user' = user ∧ tid' = tid
  · obtain ⟨rfl, rfl⟩ := h
    rw [AgentState.thread_modifyThread_self] at hp
    cases ht : st.thread user' tid' with
    | none => rw [ht] at hp; cases hp
    | some t =>
      rw [ht] at hp
      exact hf t ht p hp
  · rw [AgentState.thread_modifyThread_ne st user tid f h] at hp
    exact hp

/-- A change of the sessions after which every thread with a request was there before. -/
theorem of_threads (hl : st'.trace.log = st.trace.log)
    (hs : ∀ user tid t, st'.thread user tid = some t → t.pendingApproval ≠ none →
      st.thread user tid = some t) : Calm st st' := by
  refine ⟨?_, ?_⟩
  · rw [hl]
    exact Log.Grows.refl _ _
  · intro user tid p hp
    obtain ⟨t, ht, hpt⟩ := Option.bind_eq_some_iff.mp hp
    unfold AgentState.pendingAt
    rw [hs user tid t ht (by rw [hpt]; simp)]
    exact hpt

theorem setUndo (st : AgentState W) (tid : Uuid) (mgr : UndoManager) : Calm st (st.setUndo tid mgr) :=
  of_same rfl rfl

theorem undoManager (st : AgentState W) (tid : Uuid) : Calm st (st.undoManager tid).2 :=
  of_same rfl rfl

theorem draw (env : Env W) (st : AgentState W) : Calm st (st.draw env).2 := of_same rfl rfl

end Calm

/-! ## Persistence -/

section Persistence

variable (env : Env W) (tid : Uuid) (user : String) (st : AgentState W)

/-- Storing a message changes neither sessions nor log. -/
theorem persistMessage_same (role content : String) : (persistMessage env tid user role content st).manager = st.manager
      ∧ (persistMessage env tid user role content st).trace.log = st.trace.log := by
  unfold persistMessage AgentState.callStore
  split
  · rcases env.storeCall st.trace.world with ⟨_ | _, w⟩
    · exact ⟨rfl, rfl⟩
    · rcases hcall : env.storeCall w with ⟨_ | _, w'⟩
      · simp [hcall]
      · simp [hcall]
  · exact ⟨rfl, rfl⟩

/-- Storing a message raises no request. -/
theorem persistMessage_calm (role content : String) : Calm st (persistMessage env tid user role content st) := by
  obtain ⟨hm, hl⟩ := persistMessage_same env tid user st role content
  exact Calm.of_same (by rw [hm]) hl

theorem persistToolCalls_calm (toolCalls : List TurnToolCall) :
    Calm st (persistToolCalls env tid user toolCalls st) := by
  unfold persistToolCalls
  split
  · exact Calm.refl st
  · exact persistMessage_calm env tid user st _ _

/-- The threads after an answer; persisting touches none. -/
theorem completeAnswer_thread (response : String) (user' : String) (tid' : Uuid) :
    (completeAnswer env user tid response st).thread user' tid'
      = (st.modifyThread user tid (Thread.completeTurn · response)).thread user' tid' := by
  have hcalls : ∀ (toolCalls : List TurnToolCall) (st : AgentState W),
      (persistToolCalls env tid user toolCalls st).manager = st.manager := by
    intro toolCalls st
    unfold persistToolCalls
    split
    · rfl
    · exact (persistMessage_same env tid user st _ _).1
  unfold completeAnswer AgentState.thread
  rw [show persistAssistantResponse env tid user = persistMessage env tid user "assistant" from rfl,
    (persistMessage_same env tid user _ _ _).1, hcalls]
  rfl

/-- Answering a turn. -/
theorem completeAnswer_calm (response : String) : Calm st (completeAnswer env user tid response st) := by
  have hturn : Calm st ((st.modifyThread user tid (Thread.completeTurn · response)).emit
      (.answered user response)) :=
    (Calm.modifyThread (f := (Thread.completeTurn · response)) st user tid fun _ _ _ h => h).trans
      (Calm.answered _ user response)
  unfold completeAnswer
  exact hturn.trans ((persistToolCalls_calm env tid user _ _).trans
    (persistMessage_calm env tid user _ _ _))

/-- The thread enters the authentication mode, and its turn is completed. -/
theorem handleAuthIntercept_thread (extName instructions : String) (user' : String) (tid' : Uuid) :
    (handleAuthIntercept env user tid extName instructions st).thread user' tid' = (st.modifyThread user tid fun t =>
          (t.enterAuthMode extName).completeTurn instructions).thread user' tid' := by
  unfold handleAuthIntercept
  cases ht : st.thread user tid with
  | none =>
    by_cases hloc : user' = user ∧ tid' = tid
    · obtain ⟨rfl, rfl⟩ := hloc
      rw [AgentState.thread_modifyThread_self, ht]
      rfl
    · rw [AgentState.thread_modifyThread_ne _ user tid _ hloc]
  | some t =>
    unfold AgentState.thread
    dsimp only
    rw [show persistAssistantResponse env tid user = persistMessage env tid user "assistant" from rfl,
      (persistMessage_same env tid user _ _ _).1]
    rfl

theorem handleAuthIntercept_calm (extName instructions : String) :
    Calm st (handleAuthIntercept env user tid extName instructions st) := by
  unfold handleAuthIntercept
  split
  · exact Calm.refl st
  · have hturn : Calm st ((st.modifyThread user tid fun t =>
        (t.enterAuthMode extName).completeTurn instructions).emit (.answered user instructions)) :=
      (Calm.modifyThread (f := fun t => (t.enterAuthMode extName).completeTurn instructions) st user tid
        fun _ _ _ h => h).trans (Calm.answered _ user instructions)
    exact hturn.trans (persistMessage_calm env tid user _ _ _)

end Persistence

/-! ## Locating the thread -/

section Locate

variable (m : SessionManager)

/-- The thread of a session a manager holds. -/
def SessionManager.thread (user : String) (tid : Uuid) : Option Thread :=
  (m.session user).bind fun s => s.threads.lookup tid

theorem SessionManager.thread_congr {m m' : SessionManager} (h : m'.sessions = m.sessions) (user : String)
    (tid : Uuid) : m'.thread user tid = m.thread user tid := by
  unfold SessionManager.thread SessionManager.session
  rw [h]

/-- A new session has no threads. -/
theorem SessionManager.thread_getOrCreateSession (user : String) (sid : Uuid)
    (now : Time) (user' : String) (tid : Uuid) :
    (m.getOrCreateSession user sid now).thread user' tid = m.thread user' tid := by
  show ((Map.insertIfAbsent user (Session.new sid user now) m.sessions).lookup user').bind _ = _
  by_cases hu : user' = user
  · subst hu
    rw [Map.lookup_insertIfAbsent_self]
    unfold SessionManager.thread SessionManager.session
    cases m.sessions.lookup user' with
    | none => rfl
    | some s => rfl
  · rw [Map.lookup_insertIfAbsent_ne _ _ hu]
    rfl

variable {user' : String} {t : Thread} {tid : Uuid}

/-- Creating a thread: the threads from before, and an empty one. -/
theorem SessionManager.thread_createThread (user : String) (newTid : Uuid) (now : Time)
    (h : (m.modifySession user (Session.createThread · newTid now)).thread user' tid = some t) :
    m.thread user' tid = some t
      ∨ (user' = user ∧ tid = newTid ∧ t = Thread.withId newTid ∧ m.thread user' tid = none) := by
  unfold SessionManager.thread at h ⊢
  by_cases hu : user' = user
  · subst hu
    rw [session_modifySession_self] at h
    cases hs : m.session user' with
    | none => rw [hs] at h; cases h
    | some s =>
      rw [hs] at h
      have hlook : (Map.insertIfAbsent newTid (Thread.withId newTid) s.threads).lookup tid = some t := h
      by_cases ht : tid = newTid
      · subst ht
        rw [Map.lookup_insertIfAbsent_self] at hlook
        cases hold : s.threads.lookup tid with
        | none =>
          rw [hold] at hlook
          exact Or.inr ⟨rfl, rfl, (Option.some.inj hlook).symm, hold⟩
        | some t₀ =>
          rw [hold] at hlook
          exact Or.inl (hold.trans hlook)
      · rw [Map.lookup_insertIfAbsent_ne _ _ ht] at hlook
        exact Or.inl hlook
  · rw [session_modifySession_ne m user _ hu] at h
    exact Or.inl h

/-- Resolving: the threads from before, and possibly the new one. -/
theorem SessionManager.thread_resolveThread (user channel : String) (external : Option String)
    (sid newTid : Uuid) (now : Time)
    (h : (m.resolveThread user channel external sid newTid now).2.thread user' tid = some t) :
    m.thread user' tid = some t
      ∨ (user' = user ∧ tid = newTid ∧ t = Thread.withId newTid ∧ m.thread user' tid = none) := by
  rcases resolveThread_cases m user channel external sid newTid now with
    ⟨_, hm⟩ | ⟨_, _, hs, _⟩ | ⟨_, _, _, hs, _⟩
  · rw [hm, thread_getOrCreateSession] at h
    exact Or.inl h
  · rw [thread_congr hs, thread_getOrCreateSession] at h
    exact Or.inl h
  · rw [thread_congr hs] at h
    have hcreated := thread_createThread _ user newTid now h
    rw [thread_getOrCreateSession] at hcreated
    exact hcreated

/-- Hydrating into an existing session puts the conversation's thread in. -/
theorem SessionManager.thread_hydrateThread (user channel : String) (tid : Uuid)
    (messages : List ChatMessage) (now : Time) {tid' : Uuid}
    (h : (m.hydrateThread user channel tid messages now).thread user' tid' = some t) :
    m.thread user' tid' = some t ∨ (user' = user ∧ tid' = tid ∧ t = hydratedThread tid messages) := by
  cases hs : m.session user with
  | none =>
    unfold hydrateThread at h
    rw [hs] at h
    exact Or.inl h
  | some s =>
    have hsess := (hydrateThread_eq m user channel tid messages now hs).1
    unfold thread session at h
    rw [hsess, Map.lookup_insert_ite] at h
    by_cases hu : user' = user
    · subst hu
      rw [if_pos rfl] at h
      have hlook : (s.threads.insert (hydratedThread tid messages).id
          (hydratedThread tid messages)).lookup tid' = some t := h
      rw [hydratedThread_id, Map.lookup_insert_ite] at hlook
      by_cases ht : tid' = tid
      · rw [if_pos ht] at hlook
        exact Or.inr ⟨rfl, ht, (Option.some.inj hlook).symm⟩
      · rw [if_neg ht] at hlook
        unfold thread
        rw [hs]
        exact Or.inl hlook
    · rw [if_neg hu] at h
      exact Or.inl h

variable (env : Env W) (msg : IncomingMessage) (now : Time) (st : AgentState W)

/-- Reading the history: the stored rows, or nothing. -/
theorem loadHistory_rows (tid : Uuid) :
    (loadHistory env tid st).1 = st.store.listMessages tid ∨ (loadHistory env tid st).1 = [] := by
  unfold loadHistory AgentState.callStore
  split
  · rcases env.storeCall st.trace.world with ⟨_ | _, w⟩
    · exact Or.inr rfl
    · exact Or.inl rfl
  · exact Or.inr rfl

theorem loadHistory_same (tid : Uuid) :
    (loadHistory env tid st).2.store = st.store ∧ (loadHistory env tid st).2.trace.log = st.trace.log := by
  unfold loadHistory AgentState.callStore
  split
  · rcases env.storeCall st.trace.world with ⟨_ | _, w⟩
    · exact ⟨rfl, rfl⟩
    · exact ⟨rfl, rfl⟩
  · exact ⟨rfl, rfl⟩

variable {user : String}

/-- **Hydration**: a thread is from before, or it is the thread of the conversation the message names. -/
theorem maybeHydrateThread_thread (external : String)
    (h : (maybeHydrateThread env msg external now st).thread user tid = some t) : st.thread user tid = some t
      ∨ (user = msg.userId ∧ Uuid.parseStr external = some tid ∧ st.thread user tid = none
          ∧ ∃ rows, (rows = st.store.listMessages tid ∨ rows = [])
            ∧ t = hydratedThread tid (hydrationMessages rows)) := by
  have hens : ∀ user tid, (ensureSession env msg.userId now st).thread user tid = st.thread user tid :=
    fun user tid => SessionManager.thread_getOrCreateSession st.manager msg.userId _ now user tid
  unfold maybeHydrateThread at h
  cases hp : Uuid.parseStr external with
  | none =>
    rw [hp] at h
    exact Or.inl h
  | some tid₀ =>
    simp only [hp] at h
    split at h
    · rw [hens] at h
      exact Or.inl h
    · rename_i hheld
      have h' : ((loadHistory env tid₀ (ensureSession env msg.userId now st)).2.manager.hydrateThread
          msg.userId msg.channel tid₀
          (hydrationMessages (loadHistory env tid₀ (ensureSession env msg.userId now st)).1) now).thread
          user tid = some t := h
      rw [loadHistory_manager] at h'
      rcases SessionManager.thread_hydrateThread _ msg.userId msg.channel tid₀ _ now h' with
        hold | ⟨hu, ht, hthread⟩
      · exact Or.inl ((hens user tid).symm.trans hold)
      · subst hu ht
        refine Or.inr ⟨rfl, rfl, ?_, _, loadHistory_rows env (ensureSession env msg.userId now st) tid,
          hthread⟩
        rw [← hens]
        exact Option.not_isSome_iff_eq_none.mp hheld

theorem maybeHydrateThread_same (external : String) : (maybeHydrateThread env msg external now st).store = st.store
      ∧ (maybeHydrateThread env msg external now st).trace.log = st.trace.log := by
  unfold maybeHydrateThread
  split
  · exact ⟨rfl, rfl⟩
  · split
    · exact ⟨rfl, rfl⟩
    · exact loadHistory_same env (ensureSession env msg.userId now st) _

/-- **Locating the thread of a message**: a thread is from before, or empty, or the thread of the conversation
    the message names. -/
theorem locateThread_thread (h : (locateThread env msg now st).2.thread user tid = some t) : st.thread user tid = some t
      ∨ (user = msg.userId ∧ (t = Thread.withId tid
            ∨ (msg.threadId.bind Uuid.parseStr = some tid ∧ st.thread user tid = none
              ∧ t = hydratedThread tid (hydrationMessages (st.store.listMessages tid))))) := by
  unfold locateThread at h
  cases hext : msg.threadId with
  | none =>
    rw [hext] at h
    rcases SessionManager.thread_resolveThread _ msg.userId msg.channel none _ _ now h with
      hold | ⟨hu, ht, hthread, _⟩
    · exact Or.inl hold
    · exact Or.inr ⟨hu, Or.inl (by rw [hthread, ht])⟩
  | some external =>
    rw [hext] at h
    rcases SessionManager.thread_resolveThread _ msg.userId msg.channel (some external) _ _ now h with
      hold | ⟨hu, ht, hthread, _⟩
    · rcases maybeHydrateThread_thread env msg now st external hold with
        hold | ⟨hu, hp, hnone, rows, hrows, hthread⟩
      · exact Or.inl hold
      · refine Or.inr ⟨hu, ?_⟩
        rcases hrows with rfl | rfl
        · exact Or.inr ⟨hp, hnone, hthread⟩
        · exact Or.inl hthread
    · exact Or.inr ⟨hu, Or.inl (by rw [hthread, ht])⟩

theorem locateThread_same : (locateThread env msg now st).2.store = st.store
      ∧ (locateThread env msg now st).2.trace.log = st.trace.log := by
  unfold locateThread
  cases msg.threadId with
  | none => exact ⟨rfl, rfl⟩
  | some external => exact maybeHydrateThread_same env msg now st external

theorem hydratedThread_pendingApproval (tid : Uuid) (messages : List ChatMessage) :
    (hydratedThread tid messages).pendingApproval = none := by
  unfold hydratedThread
  split
  · rfl
  · rfl

/-- A thread with a request is from before. -/
theorem locateThread_pending (h : (locateThread env msg now st).2.thread user tid = some t)
    (hp : t.pendingApproval ≠ none) :
    st.thread user tid = some t := by
  rcases locateThread_thread env msg now st h with hold | ⟨_, rfl | ⟨_, _, rfl⟩⟩
  · exact hold
  · exact absurd rfl hp
  · exact absurd (hydratedThread_pendingApproval _ _) hp

/-- Finding the thread of a message raises no request. -/
theorem locateThread_calm : Calm st (locateThread env msg now st).2 :=
  Calm.of_threads (locateThread_same env msg now st).2 fun _ _ _ h hp =>
    locateThread_pending env msg now st h hp

end Locate

/-! ## Model calls over plain messages -/

theorem Plain.append {ms ms' : List ChatMessage} (h : Plain ms) (h' : Plain ms') : Plain (ms ++ ms') := by
  intro m hm
  rcases List.mem_append.mp hm with hm | hm
  · exact h m hm
  · exact h' m hm

/-- The messages of turns carry no tool calls. -/
theorem turnsMessages_plain (turns : List Turn) : Plain (turnsMessages turns) := by
  intro m hm
  obtain ⟨turn, _, hm⟩ := List.mem_flatMap.mp hm
  rcases List.mem_cons.mp hm with rfl | hm
  · exact ChatMessage.plain_user _
  · obtain ⟨r, _, rfl⟩ : ∃ r, turn.response = some r ∧ ChatMessage.assistant r = m := by
      simpa using hm
    exact ChatMessage.plain_assistant r

/-- The messages of a thread are plain: tool results are not kept between turns. -/
theorem Thread.messages_plain (t : Thread) : Plain t.messages := turnsMessages_plain t.turns

theorem completeText_log (env : Env W) (messages : List ChatMessage) (tr : Trace W) :
    (completeText env messages tr).2.log = tr.log ++ [.llm messages] := by
  unfold completeText Trace.complete
  rcases env.complete ⟨messages, []⟩ tr.world with ⟨_ | _, w⟩
  · rfl
  · rfl

theorem generateSummary_log (env : Env W) (messages : List ChatMessage) (tr : Trace W) :
    Log.Grows Benign tr.log (generateSummary env messages tr).2.log := by
  unfold generateSummary
  rw [completeText_log]
  refine Log.Grows.snoc ?_ tr.log
  intro m hm
  rcases List.mem_cons.mp hm with rfl | hm
  · exact ChatMessage.plain_system _
  · rw [List.mem_singleton.mp hm]
    exact ChatMessage.plain_user _

/-! ## Compaction -/

section Compaction

variable (env : Env W) (thread : Thread) (tr : Trace W)

/-- **Compaction drops turns at most.** -/
def Compacted (r : Thread × Trace W) : Prop :=
  (r.1 = thread ∨ ∃ keep, r.1 = thread.truncateTurns keep) ∧ Log.Grows Benign tr.log r.2.log

theorem compactWithSummary_spec (keepRecent : Nat) :
    Compacted thread tr (compactWithSummary env thread keepRecent tr).2 := by
  unfold compactWithSummary
  split
  · exact ⟨Or.inl rfl, Log.Grows.refl _ _⟩
  · have hlog := generateSummary_log env
      (turnsMessages (thread.turns.take (thread.turns.length - keepRecent))) tr
    rcases hsum : generateSummary env
      (turnsMessages (thread.turns.take (thread.turns.length - keepRecent))) tr with ⟨_ | summary, tr'⟩
    · rw [hsum] at hlog
      exact ⟨Or.inl rfl, hlog⟩
    · rw [hsum] at hlog
      dsimp only
      split
      · exact ⟨Or.inr ⟨keepRecent, rfl⟩, hlog⟩
      · exact ⟨Or.inr ⟨keepRecent, rfl⟩, hlog⟩

theorem compactToWorkspace_spec : Compacted thread tr (compactToWorkspace env thread tr).2 := by
  unfold compactToWorkspace
  split
  · split
    · exact ⟨Or.inl rfl, Log.Grows.refl _ _⟩
    · exact ⟨Or.inr ⟨10, rfl⟩, Log.Grows.refl _ _⟩
  · exact ⟨Or.inr ⟨5, rfl⟩, Log.Grows.refl _ _⟩

/-- Whatever the strategy, compaction drops turns at most. -/
theorem compactThread_spec (strategy : CompactionStrategy) :
    Compacted thread tr (compactThread env thread strategy tr).2 := by
  cases strategy with
  | summarize keepRecent => exact compactWithSummary_spec env thread tr keepRecent
  | truncate keepRecent => exact ⟨Or.inr ⟨keepRecent, rfl⟩, Log.Grows.refl _ _⟩
  | moveToWorkspace => exact compactToWorkspace_spec env thread tr

theorem autoCompact_spec : Compacted thread tr (autoCompact env thread tr) := by
  unfold autoCompact
  split
  · exact ⟨Or.inl rfl, Log.Grows.refl _ _⟩
  · exact compactThread_spec env thread tr _

theorem Compacted.pendingApproval {thread : Thread} {tr : Trace W} {r : Thread × Trace W}
    (h : Compacted thread tr r) : r.1.pendingApproval = thread.pendingApproval := by
  rcases h.1 with h | ⟨keep, h⟩
  · rw [h]
  · rw [h]
    unfold Thread.truncateTurns
    split
    · rfl
    · rfl

end Compaction

/-! ## The handlers -/

section Handlers

variable (env : Env W) (user : String) (tid : Uuid) (st : AgentState W)

/-- `/compact` raises no request. -/
theorem processCompact_calm : Calm st (processCompact env user tid st).2 := by
  unfold processCompact
  cases ht : st.thread user tid with
  | none => exact Calm.refl st
  | some thread =>
    have hspec := compactThread_spec env thread st.trace
      ((env.suggestCompaction thread.messages).getD (.summarize 5))
    have hstored : ∀ r : Thread × Trace W, Compacted thread st.trace r →
        Calm st ({ st with trace := r.2 }.modifyThread user tid fun _ => r.1) := by
      intro r hr
      refine (Calm.of_trace hr.2).trans (Calm.modifyThread _ user tid ?_)
      intro t ht' p hp
      have hsame : st.thread user tid = some t := ht'
      rw [ht] at hsame
      rw [← Option.some.inj hsame, ← hr.pendingApproval]
      exact hp
    have hcalm := hstored _ hspec
    dsimp only
    rcases hc : compactThread env thread ((env.suggestCompaction thread.messages).getD (.summarize 5))
      st.trace with ⟨_ | result, thread', tr'⟩
    · rw [hc] at hcalm
      exact hcalm
    · rw [hc] at hcalm
      exact hcalm

/-- Storing an undo manager and restoring a thread from a checkpoint. -/
theorem restore_calm (mgr : UndoManager) (messages : List ChatMessage) :
    Calm st ((st.setUndo tid mgr).modifyThread user tid (Thread.restoreFromMessages · messages)) :=
  (Calm.setUndo st tid mgr).trans (Calm.modifyThread _ user tid fun _ _ _ h => h)

/-- `/undo` and `/redo` raise no request. -/
theorem moveInHistory_calm (possible : UndoManager → Bool)
    (move : UndoManager → Uuid → Nat → List ChatMessage → Option Checkpoint × UndoManager) (nothing failed : String)
    (moved : Checkpoint → UndoManager → String) :
    Calm st (moveInHistory env possible move nothing failed moved user tid st).2 := by
  have hmgr := Calm.undoManager st tid
  unfold moveInHistory
  dsimp only
  split
  · exact hmgr
  · split
    · exact hmgr
    · split
      · exact hmgr.trans ((Calm.draw env _).trans (restore_calm user tid _ _ _))
      · exact hmgr.trans ((Calm.draw env _).trans (Calm.setUndo _ tid _))

theorem processResume_calm (checkpointId : Uuid) : Calm st (processResume user tid checkpointId st).2 := by
  have hmgr := Calm.undoManager st tid
  unfold processResume
  dsimp only
  split
  · exact hmgr
  · split
    · exact hmgr.trans (Calm.setUndo _ tid _)
    · exact hmgr.trans (restore_calm user tid _ _ _)

/-- `/interrupt` raises no request. -/
theorem processInterrupt_calm : Calm st (processInterrupt user tid st).2 := by
  unfold processInterrupt
  split
  · exact Calm.refl st
  · split
    · exact Calm.modifyThread st user tid fun _ _ _ h => h
    · exact Calm.refl st

/-- `/clear` raises no request. -/
theorem processClear_calm : Calm st (processClear user tid st).2 := by
  unfold processClear
  split
  · exact Calm.refl st
  · refine (Calm.modifyThread (f := fun t => { t with turns := [], state := .idle }) st user tid
      fun _ _ _ h => h).trans ?_
    exact (Calm.undoManager _ tid).trans (Calm.setUndo _ tid _)

theorem processNewThread_calm (now : Time) : Calm st (processNewThread env user now st).2 := by
  unfold processNewThread
  refine (Calm.draw env st).trans (Calm.of_threads rfl ?_)
  intro user' tid' t ht hp
  rcases SessionManager.thread_createThread _ user _ now ht with hold | ⟨_, _, rfl, _⟩
  · exact hold
  · exact absurd rfl hp

theorem processSwitchThread_calm (target : Uuid) (now : Time) : Calm st (processSwitchThread user target now st).2 := by
  unfold processSwitchThread
  split
  · refine Calm.of_threads rfl ?_
    intro user' tid' t ht _
    -- Switching keeps the map of threads.
    have hsame : (st.manager.modifySession user fun s => (s.switchThread target now).2).thread user' tid'
        = st.manager.thread user' tid' := by
      unfold SessionManager.thread
      by_cases hu : user' = user
      · subst hu
        rw [SessionManager.session_modifySession_self]
        cases st.manager.session user' with
        | none => rfl
        | some s =>
          show (s.switchThread target now).2.threads.lookup tid' = s.threads.lookup tid'
          unfold Session.switchThread
          split
          · rfl
          · rfl
      · rw [SessionManager.session_modifySession_ne _ user _ hu]
    exact hsame.symm.trans ht
  · exact Calm.refl st

theorem questionContext_plain (instruction question : String) {messages : List ChatMessage}
    (h : Plain messages) : Plain (questionContext instruction question messages) := by
  unfold questionContext
  refine Plain.append ?_ ?_
  · intro m hm
    rcases List.mem_cons.mp hm with rfl | hm
    · exact ChatMessage.plain_system _
    · exact h m (List.mem_of_mem_drop hm)
  · intro m hm
    rw [List.mem_singleton.mp hm]
    exact ChatMessage.plain_user _

theorem askAboutThread_calm (instruction question empty heading failure : String) :
    Calm st (askAboutThread env instruction question empty heading failure user tid st).2 := by
  unfold askAboutThread
  cases st.thread user tid with
  | none => exact Calm.refl st
  | some thread =>
    dsimp only
    split
    · exact Calm.refl st
    · have hlog := completeText_log env (questionContext instruction question thread.messages) st.trace
      have hcalm : Calm st { st with
          trace := (completeText env (questionContext instruction question thread.messages) st.trace).2 } := by
        refine Calm.of_trace ?_
        rw [hlog]
        have hbenign : Benign (.llm (questionContext instruction question thread.messages)) :=
          questionContext_plain instruction question thread.messages_plain
        exact Log.Grows.snoc hbenign _
      rcases hc : completeText env (questionContext instruction question thread.messages) st.trace with
        ⟨_ | text, tr⟩
      · rw [hc] at hcalm
        exact hcalm
      · rw [hc] at hcalm
        exact hcalm

/-- A checkpoint raises no request. -/
theorem checkpointTurn_calm (thread : Thread) : Calm st (checkpointTurn env tid thread st) :=
  (Calm.undoManager st tid).trans ((Calm.draw env _).trans (Calm.setUndo _ tid _))

/-- Opening a turn with a thread that has the request of the one it replaces. -/
theorem openTurn_calm (content : String) (thread : Thread)
    (hp : ∀ t, st.thread user tid = some t → thread.pendingApproval = t.pendingApproval) :
    Calm st (openTurn env user tid content thread st) := by
  have hthread : Calm st (st.modifyThread user tid fun _ => thread) := by
    refine Calm.modifyThread st user tid ?_
    intro t ht p h
    rw [← hp t ht]
    exact h
  unfold openTurn
  refine hthread.trans ((checkpointTurn_calm env tid _ thread).trans ?_)
  refine (Calm.modifyThread (f := (Thread.startTurn · content)) _ user tid fun _ _ _ h => h).trans ?_
  exact (Calm.asked _ user content).trans (persistMessage_calm env tid user _ _ _)

theorem runHooks_calm (event : HookEvent) : Calm st (st.runHooks env event).2 := Calm.of_same rfl rfl

/-- The response hooks raise no request. -/
theorem transformResponse_calm (response : String) : Calm st (transformResponse env user tid response st).2 := by
  have hhooks := runHooks_calm env st (.responseTransform user (Uuid.toString tid) response)
  unfold transformResponse
  split
  all_goals
    rename_i hr
    rw [hr] at hhooks
    exact hhooks

/-- The inbound hooks move the world at most. -/
theorem inboundHook_state (msg : IncomingMessage) (submission : Submission) : (inboundHook env msg submission st).2 = st
      ∨ ∃ event, (inboundHook env msg submission st).2 = (st.runHooks env event).2 := by
  unfold inboundHook
  split
  · rename_i content
    refine Or.inr ⟨.inbound msg.userId msg.channel content msg.threadId, ?_⟩
    split
    all_goals
      rename_i hr
      rw [hr]
  · exact Or.inl rfl

theorem inboundHook_calm (msg : IncomingMessage) (submission : Submission) :
    Calm st (inboundHook env msg submission st).2 := by
  rcases inboundHook_state env st msg submission with h | ⟨event, h⟩
  · rw [h]
    exact Calm.refl st
  · rw [h]
    exact runHooks_calm env st event

theorem inboundHook_manager (msg : IncomingMessage) (submission : Submission) :
    (inboundHook env msg submission st).2.manager = st.manager := by
  rcases inboundHook_state env st msg submission with h | ⟨event, h⟩
  · rw [h]
  · rw [h]
    rfl

/-- A rejection raises no request. -/
theorem rejectApproval_calm (pending : PendingApproval) : Calm st (rejectApproval env user tid pending st).2 := by
  unfold rejectApproval
  refine (Calm.modifyThread (f := fun t =>
    t.clearPendingApproval.completeTurn (rejectionText pending.toolName)) st user tid
      fun _ _ _ h => (by cases h)).trans ?_
  exact (Calm.answered _ user _).trans (persistMessage_calm env tid user _ _ _)

theorem processAuthToken_calm (pending : PendingAuth) (content : String) :
    Calm st (processAuthToken env user tid pending content st).2 := by
  have hclear : Calm st (st.modifyThread user tid fun t => { t with pendingAuth := none }) :=
    Calm.modifyThread st user tid fun _ _ _ h => h
  unfold processAuthToken
  dsimp only
  split
  · split
    · split
      · exact hclear.trans (Calm.of_same rfl rfl)
      · exact hclear.trans (Calm.of_same rfl rfl)
    · refine Calm.trans ?_ (Calm.modifyThread (f := (Thread.enterAuthMode · pending.extensionName)) _ user tid
        fun _ _ _ h => h)
      exact hclear.trans (Calm.of_same rfl rfl)
    · exact hclear.trans (Calm.of_same rfl rfl)
  · exact hclear

end Handlers
end Freeclawdia
