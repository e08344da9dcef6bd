import Freeclawdia.Correctness.Messages
import Mathlib.Data.Multiset.Bind
import Mathlib.Tactic.Abel

/-!
# `Correctness.Requests` — approval requests through a turn

Where a turn touches approval requests: `raiseApproval` stores one, an approving submission takes one off
its thread and runs its call. The chains of handlers in between are summed up once (`finishTurn_cases`,
`resumeApproved_cases`, `replayDeferred_cases`) as calm changes around the tool runs.

`openApprovals` is the multiset of requests stored anywhere. It never grows by a calm change, gains at most
the request that is raised, and loses the one that is taken, so it serves as the balance of the credits of
`Lib.Log`.
-/

namespace Freeclawdia

open Rust

variable {W : Type}

/-! ## The requests stored anywhere -/

/-- The requests of a session. -/
def Session.openApprovals (s : Session) : Multiset PendingApproval :=
  s.threads.tally fun t => single t.pendingApproval

/-- The requests of all sessions. -/
def AgentState.openApprovals (st : AgentState W) : Multiset PendingApproval :=
  st.manager.sessions.tally Session.openApprovals

/-- The threads of a user; none without a session. -/
def AgentState.threadsOf (st : AgentState W) (user : String) : Map Uuid Thread :=
  ((st.manager.session user).map (·.threads)).getD ∅

section Balance

variable {st st' : AgentState W}

theorem share_threadsOf (st : AgentState W) (user : String) (tid : Uuid) :
    Map.share (fun t => single t.pendingApproval) (st.threadsOf user) tid = single (st.pendingAt user tid) := by
  unfold Map.share AgentState.threadsOf AgentState.pendingAt AgentState.thread
  cases st.manager.session user with
  | none => rfl
  | some s =>
    show ((s.threads.lookup tid).map _).getD 0 = single ((s.threads.lookup tid).bind _)
    cases s.threads.lookup tid with
    | none => rfl
    | some t => rfl

theorem share_sessions (st : AgentState W) (user : String) : Map.share Session.openApprovals st.manager.sessions user
      = (st.threadsOf user).tally fun t => single t.pendingApproval := by
  unfold Map.share AgentState.threadsOf SessionManager.session
  cases st.manager.sessions.lookup user with
  | none => rfl
  | some s => rfl

/-- Where no request appears, the balance does not grow. -/
theorem openApprovals_le (h : ∀ user tid, single (st'.pendingAt user tid) ≤ single (st.pendingAt user tid)) :
    st'.openApprovals ≤ st.openApprovals := by
  refine Map.tally_le ?_
  intro user
  rw [share_sessions, share_sessions]
  refine Map.tally_le ?_
  intro tid
  rw [share_threadsOf, share_threadsOf]
  exact h user tid

variable {user : String} {tid : Uuid}

/-- Where one location changes, the balance changes by what is there. -/
theorem openApprovals_change
    (h : ∀ user' tid', ¬ (user' = user ∧ tid' = tid) → st'.pendingAt user' tid' = st.pendingAt user' tid') :
    st'.openApprovals + single (st.pendingAt user tid) = st.openApprovals + single (st'.pendingAt user tid) := by
  have huser : (st'.threadsOf user).tally (fun t => single t.pendingApproval)
        + single (st.pendingAt user tid)
      = (st.threadsOf user).tally (fun t => single t.pendingApproval) + single (st'.pendingAt user tid) := by
    rw [← share_threadsOf, ← share_threadsOf]
    refine Map.tally_change ?_
    intro tid' htid
    rw [share_threadsOf, share_threadsOf, h user tid' fun hc => htid hc.2]
  have hall : st'.openApprovals + Map.share Session.openApprovals st.manager.sessions user
      = st.openApprovals + Map.share Session.openApprovals st'.manager.sessions user := by
    refine Map.tally_change ?_
    intro user' huser'
    rw [share_sessions, share_sessions]
    refine le_antisymm (Map.tally_le ?_) (Map.tally_le ?_)
    · intro tid'
      rw [share_threadsOf, share_threadsOf, h user' tid' fun hc => huser' hc.1]
    · intro tid'
      rw [share_threadsOf, share_threadsOf, h user' tid' fun hc => huser' hc.1]
  rw [share_sessions, share_sessions] at hall
  -- Cancel the user's total, which both equations have.
  refine add_right_cancel (b := (st.threadsOf user).tally fun t => single t.pendingApproval) ?_
  calc st'.openApprovals + single (st.pendingAt user tid)
          + (st.threadsOf user).tally (fun t => single t.pendingApproval)
      = st'.openApprovals + (st.threadsOf user).tally (fun t => single t.pendingApproval)
          + single (st.pendingAt user tid) := add_right_comm _ _ _
    _ = st.openApprovals + (st'.threadsOf user).tally (fun t => single t.pendingApproval)
          + single (st.pendingAt user tid) := by rw [hall]
    _ = st.openApprovals + ((st'.threadsOf user).tally (fun t => single t.pendingApproval)
          + single (st.pendingAt user tid)) := add_assoc _ _ _
    _ = st.openApprovals + ((st.threadsOf user).tally (fun t => single t.pendingApproval)
          + single (st'.pendingAt user tid)) := by rw [huser]
    _ = st.openApprovals + single (st'.pendingAt user tid)
          + (st.threadsOf user).tally (fun t => single t.pendingApproval) := by
        rw [← add_assoc, add_right_comm]

/-- A calm change never adds to the balance. -/
theorem Calm.openApprovals (h : Calm st st') : st'.openApprovals ≤ st.openApprovals := by
  refine openApprovals_le ?_
  intro user tid
  cases hp : st'.pendingAt user tid with
  | none => exact Multiset.zero_le _
  | some p => rw [h.pending user tid p hp]

variable {user' : String} {tid' : Uuid}

theorem pendingAt_modifyThread_ne (st : AgentState W) (f : Thread → Thread) (h : ¬ (user' = user ∧ tid' = tid)) :
    (st.modifyThread user tid f).pendingAt user' tid' = st.pendingAt user' tid' := by
  unfold AgentState.pendingAt
  rw [AgentState.thread_modifyThread_ne st user tid f h]

theorem pendingAt_modifyThread_self (st : AgentState W) (user : String) (tid : Uuid) (f : Thread → Thread) :
    (st.modifyThread user tid f).pendingAt user tid = (st.thread user tid).bind fun t => (f t).pendingApproval := by
  unfold AgentState.pendingAt
  rw [AgentState.thread_modifyThread_self]
  cases st.thread user tid with
  | none => rfl
  | some t => rfl

variable {p : PendingApproval}

/-- A calm change that takes a request lowers the balance by it. -/
theorem Calm.openApprovals_taken (h : Calm st st') (hp : st.pendingAt user tid = some p)
    (htaken : st'.pendingAt user tid = none) : st'.openApprovals + {p} ≤ st.openApprovals := by
  -- Compare both with the state in which only that request is gone.
  let mid := st.modifyThread user tid fun t => { t with pendingApproval := none }
  have hmid : mid.pendingAt user tid = none := by
    rw [pendingAt_modifyThread_self]
    cases st.thread user tid with
    | none => rfl
    | some t => rfl
  have hle : st'.openApprovals ≤ mid.openApprovals := by
    refine openApprovals_le ?_
    intro user' tid'
    by_cases hloc : user' = user ∧ tid' = tid
    · obtain ⟨rfl, rfl⟩ := hloc
      rw [htaken, hmid]
    · rw [pendingAt_modifyThread_ne st _ hloc]
      cases hp' : st'.pendingAt user' tid' with
      | none => exact Multiset.zero_le _
      | some p' => rw [h.pending user' tid' p' hp']
  have heq : mid.openApprovals + single (st.pendingAt user tid)
      = st.openApprovals + single (mid.pendingAt user tid) :=
    openApprovals_change fun user' tid' hloc => pendingAt_modifyThread_ne st _ hloc
  rw [hp, hmid] at heq
  calc st'.openApprovals + {p} ≤ mid.openApprovals + {p} := add_le_add_left hle {p}
    _ = st.openApprovals + 0 := heq
    _ = st.openApprovals := add_zero _

/-- Raising a request adds it to the balance at most; the one it replaces is dropped. -/
theorem raiseApproval_openApprovals (st : AgentState W) (user : String) (tid : Uuid) (pending : PendingApproval) :
    (raiseApproval user tid pending st).2.openApprovals ≤ st.openApprovals + {pending} := by
  have heq : (st.modifyThread user tid (Thread.awaitApproval · pending)).openApprovals
        + single (st.pendingAt user tid)
      = st.openApprovals
        + single ((st.modifyThread user tid (Thread.awaitApproval · pending)).pendingAt user tid) :=
    openApprovals_change fun user' tid' hloc => pendingAt_modifyThread_ne st _ hloc
  have hnew : single ((st.modifyThread user tid (Thread.awaitApproval · pending)).pendingAt user tid)
      ≤ {pending} := by
    rw [pendingAt_modifyThread_self]
    cases st.thread user tid with
    | none => exact Multiset.zero_le _
    | some t => exact le_rfl
  calc (raiseApproval user tid pending st).2.openApprovals
      = (st.modifyThread user tid (Thread.awaitApproval · pending)).openApprovals := rfl
    _ ≤ (st.modifyThread user tid (Thread.awaitApproval · pending)).openApprovals
          + single (st.pendingAt user tid) := Multiset.le_add_right _ _
    _ = st.openApprovals
          + single ((st.modifyThread user tid (Thread.awaitApproval · pending)).pendingAt user tid) := heq
    _ ≤ st.openApprovals + {pending} := add_le_add_right hnew _

theorem raiseApproval_pendingAt (st : AgentState W) (user : String) (tid : Uuid) (pending : PendingApproval)
    (h : (raiseApproval user tid pending st).2.pendingAt user' tid' = some p) :
    st.pendingAt user' tid' = some p ∨ p = pending := by
  have h' : (st.modifyThread user tid (Thread.awaitApproval · pending)).pendingAt user' tid' = some p := h
  by_cases hloc : user' = user ∧ tid' = tid
  · obtain ⟨rfl, rfl⟩ := hloc
    rw [pendingAt_modifyThread_self] at h'
    obtain ⟨t, _, ht⟩ := Option.bind_eq_some_iff.mp h'
    exact Or.inr (Option.some.inj ht).symm
  · rw [pendingAt_modifyThread_ne st _ hloc] at h'
    exact Or.inl h'

end Balance

/-! ## The loop on the agent's state -/

section Turn

variable (env : Env W) (user : String) (tid : Uuid) (st : AgentState W)

theorem kept_pendingApproval {o o' : Option Thread} (h : o'.map Thread.kept = o.map Thread.kept) :
    o'.bind (·.pendingApproval) = o.bind (·.pendingApproval) := by
  have hkept : ∀ o : Option Thread, o.bind (·.pendingApproval) = (o.map Thread.kept).bind (·.pendingApproval) := by
    intro o
    cases o with
    | none => rfl
    | some t => rfl
  rw [hkept o', hkept o, h]

/-- The loop moves no request. -/
theorem runLoop_pendingAt (context : List ChatMessage) (user' : String) (tid' : Uuid) :
    (runLoop env user tid context st).2.pendingAt user' tid' = st.pendingAt user' tid' := by
  unfold runLoop
  cases hs : st.manager.session user with
  | none => rfl
  | some s =>
    have hframe := runAgenticLoop_frame env user tid context s st.trace
    dsimp only
    unfold AgentState.pendingAt AgentState.thread SessionManager.session
    by_cases hu : user' = user
    · subst hu
      have hs' : st.manager.sessions.lookup user' = some s := hs
      rw [AList.lookup_insert, hs']
      exact kept_pendingApproval (hframe.threads tid')
    · rw [AList.lookup_insert_ne hu]

theorem runLoop_openApprovals (context : List ChatMessage) :
    (runLoop env user tid context st).2.openApprovals = st.openApprovals := by
  refine le_antisymm (openApprovals_le ?_) (openApprovals_le ?_)
  · intro user' tid'
    rw [runLoop_pendingAt]
  · intro user' tid'
    rw [runLoop_pendingAt]

/-- **How a turn ends**: calmly, or with the loop's request stored on the thread. -/
theorem finishTurn_cases (result : Except Error AgenticLoopResult) : Calm st (finishTurn env user tid result st).2
      ∨ ∃ pending, result = .ok (.needApproval pending)
          ∧ (finishTurn env user tid result st).2 = (raiseApproval user tid pending st).2 := by
  unfold finishTurn
  split
  · exact Or.inl (Calm.refl st)
  · split
    · exact Or.inl (Calm.refl st)
    · split
      · left
        exact (transformResponse_calm env user tid st _).trans (completeAnswer_calm env tid user _ _)
      · exact Or.inr ⟨_, rfl, rfl⟩
      · exact Or.inl (Calm.modifyThread st user tid fun _ _ _ h => h)

theorem finishApproval_cases (result : Except Error AgenticLoopResult) :
    Calm st (finishApproval env user tid result st).2 ∨ ∃ pending, result = .ok (.needApproval pending)
          ∧ (finishApproval env user tid result st).2 = (raiseApproval user tid pending st).2 := by
  unfold finishApproval
  split
  · exact Or.inl (Calm.refl st)
  · split
    · exact Or.inl (completeAnswer_calm env tid user st _)
    · exact Or.inr ⟨_, rfl, rfl⟩
    · exact Or.inl (Calm.modifyThread st user tid fun _ _ _ h => h)

/-! ## Resuming a request -/

theorem noteAlways_calm (toolName : String) (always : Bool) : Calm st (noteAlways user toolName always st) := by
  unfold noteAlways
  split
  · refine Calm.of_threads rfl ?_
    intro user' tid' t ht _
    unfold AgentState.thread at ht ⊢
    by_cases hu : user' = user
    · subst hu
      dsimp only at ht
      rw [SessionManager.session_modifySession_self] at ht
      cases hs : st.manager.session user' with
      | none => rw [hs] at ht; cases ht
      | some s => rw [hs] at ht; exact ht
    · dsimp only at ht
      rw [SessionManager.session_modifySession_ne _ user _ hu] at ht
      exact ht
  · exact Calm.refl st

variable (pending : PendingApproval)

theorem grantApproval_calm (always : Bool) :
    Calm st (grantApproval user tid pending always st) :=
  (noteAlways_calm user st pending.toolName always).trans
    (Calm.modifyThread _ user tid fun _ _ _ h => h)

theorem interceptFirstAuth_calm (tc : ToolCall) (result : Except Error String) (p : DeferredPostflight W) :
    Calm p.state (interceptFirstAuth env user tid tc result p).state := by
  unfold interceptFirstAuth
  split
  · exact handleAuthIntercept_calm env tid user p.state _ _
  · exact Calm.refl _

theorem deferredPostflight_calm (rs : List (ToolCall × Except Error String)) (p : DeferredPostflight W) :
    Calm p.state (rs.foldl (deferredPostflightCall env user tid) p).state := by
  induction rs generalizing p with
  | nil => exact Calm.refl _
  | cons r rest ih =>
    have hrecord : Calm p.state
        (p.state.modifyThread user tid (Thread.modifyLastTurn (recordResult r.2))) :=
      Calm.modifyThread p.state user tid fun _ _ _ h => h
    have hcall : Calm p.state (deferredPostflightCall env user tid p r).state :=
      hrecord.trans (interceptFirstAuth_calm env user tid r.1 r.2 { p with
        state := p.state.modifyThread user tid (Thread.modifyLastTurn (recordResult r.2)) })
    exact hcall.trans (ih _)

/-- **How the deferred preflight splits its calls**: it got through all of them, or it stopped at the call
    behind the ones it got through. -/
theorem deferredPreflight_splits (auto : List String) (w : W) (deferred : List ToolCall) (idx : Nat) :
    deferredPreflight env auto w idx deferred = (deferred, none)
      ∨ ∃ passed tc rest tool, deferred = passed ++ tc :: rest
          ∧ deferredPreflight env auto w idx deferred = (passed, some (idx + passed.length, tc, tool)) := by
  induction deferred generalizing idx with
  | nil => exact Or.inl rfl
  | cons tc rest ih =>
    unfold deferredPreflight
    split
    · rename_i tool _
      exact Or.inr ⟨[], tc, rest, tool, rfl, rfl⟩
    · rcases ih (idx + 1) with h | ⟨passed, tc', rest', tool, hrest, h⟩
      · rw [h]
        exact Or.inl rfl
      · rw [h]
        refine Or.inr ⟨tc :: passed, tc', rest', tool, by rw [hrest]; rfl, ?_⟩
        rw [List.length_cons, Nat.add_assoc, Nat.add_comm 1]

/-- The calls the deferred preflight lets through, and the one it stops at, are deferred calls. -/
theorem deferredPreflight_mem (auto : List String) (w : W) (deferred : List ToolCall) (idx : Nat) :
    (∀ tc ∈ (deferredPreflight env auto w idx deferred).1, tc ∈ deferred)
      ∧ ∀ i tc tool, (deferredPreflight env auto w idx deferred).2 = some (i, tc, tool) → tc ∈ deferred := by
  rcases deferredPreflight_splits env auto w deferred idx with h | ⟨passed, tc, rest, tool, hsplit, h⟩
  · rw [h]
    exact ⟨fun _ htc => htc, fun _ _ _ hnone => by cases hnone⟩
  · rw [h, hsplit]
    refine ⟨fun tc' htc => List.mem_append_left _ htc, ?_⟩
    intro i tc' tool' hsome
    cases hsome
    exact List.mem_append_right _ List.mem_cons_self

/-- Positions apart, the calls handed to the executor. -/
theorem positioned_calls (calls : List ToolCall) (k : Nat) :
    ((calls.zipIdx k).map fun t => (t.2, t.1)).map Prod.snd = calls := by
  induction calls generalizing k with
  | nil => rfl
  | cons tc rest ih => exact congrArg (tc :: ·) (ih (k + 1))

variable (deferred : List ToolCall)

/-- The trace after the deferred calls that may run have run. -/
def deferredTrace : Trace W :=
  (executeRunnable env (st.autoApproved user) .deferred
    ((deferredPreflight env (st.autoApproved user) st.trace.world 0 deferred).1.zipIdx.map fun t => (t.2, t.1))
    st.trace).2

/-- What the post-flight of the deferred calls ends with. -/
def deferredPostflight (context : List ChatMessage) : DeferredPostflight W :=
  (deferredResults (deferredPreflight env (st.autoApproved user) st.trace.world 0 deferred).1
      (executeRunnable env (st.autoApproved user) .deferred
        ((deferredPreflight env (st.autoApproved user) st.trace.world 0 deferred).1.zipIdx.map
          fun t => (t.2, t.1)) st.trace).1).foldl (deferredPostflightCall env user tid)
    { state := { st with trace := deferredTrace env user st deferred }, context }

/-- **How the deferred calls end**: with token instructions, with a request for the first of them that needs
    approval, or with the loop going on. -/
theorem replayDeferred_cases (context : List ChatMessage) :
    Calm { st with trace := deferredTrace env user st deferred }
        (deferredPostflight env user tid st deferred context).state
      ∧ ((replayDeferred env user tid deferred context st).2
            = (deferredPostflight env user tid st deferred context).state
        ∨ (∃ idx tc tool,
            (deferredPreflight env (st.autoApproved user) st.trace.world 0 deferred).2 = some (idx, tc, tool)
            ∧ (replayDeferred env user tid deferred context st).2
              = (raiseApproval user tid
                  (pendingFor ((deferredPostflight env user tid st deferred context).state.draw env).1 tc tool
                    (deferredPostflight env user tid st deferred context).context (deferred.drop (idx + 1)))
                  ((deferredPostflight env user tid st deferred context).state.draw env).2).2)
        ∨ ((deferredPreflight env (st.autoApproved user) st.trace.world 0 deferred).2 = none
            ∧ (replayDeferred env user tid deferred context st).2
              = (finishApproval env user tid
                  (runLoop env user tid (deferredPostflight env user tid st deferred context).context
                    (deferredPostflight env user tid st deferred context).state).1
                  (runLoop env user tid (deferredPostflight env user tid st deferred context).context
                    (deferredPostflight env user tid st deferred context).state).2).2)) := by
  refine ⟨deferredPostflight_calm env user tid _
    { state := { st with trace := deferredTrace env user st deferred }, context }, ?_⟩
  have heq : replayDeferred env user tid deferred context st
      = afterDeferred env user tid deferred
          (deferredPreflight env (st.autoApproved user) st.trace.world 0 deferred).2
          (deferredPostflight env user tid st deferred context) := rfl
  rw [heq]
  unfold afterDeferred
  split
  · exact Or.inl rfl
  · rcases (deferredPreflight env (st.autoApproved user) st.trace.world 0 deferred).2 with
      _ | ⟨idx, tc, tool⟩
    · exact Or.inr (Or.inr ⟨rfl, rfl⟩)
    · exact Or.inr (Or.inl ⟨idx, tc, tool, rfl, rfl⟩)

/-- The run of an approved call. -/
def approvedRun : Except Error String × Trace W :=
  executeChatTool env (st.autoApproved user) (.approved pending.requestId) pending.call st.trace

/-- **Resuming a request**: its call runs; then the turn is answered with token instructions, or the deferred
    calls are replayed. -/
theorem resumeApproved_cases (always : Bool) :
    ∃ st₁, Calm st st₁ ∧ ∃ st₂, Calm { st₁ with trace := (approvedRun env user st₁ pending).2 } st₂
      ∧ ((resumeApproved env user tid pending always st).2 = st₂
        ∨ ∃ content, (resumeApproved env user tid pending always st).2
            = (replayDeferred env user tid pending.deferredToolCalls
                (pending.contextMessages
                  ++ [ChatMessage.toolResult pending.toolCallId pending.toolName content]) st₂).2) := by
  refine ⟨grantApproval user tid pending always st, grantApproval_calm user tid st pending always, ?_⟩
  have hrecord : Calm { grantApproval user tid pending always st with
        trace := (approvedRun env user (grantApproval user tid pending always st) pending).2 }
      (executeApproved env user tid pending (grantApproval user tid pending always st)).2 :=
    Calm.modifyThread _ user tid fun _ _ _ h => h
  unfold resumeApproved
  rcases hex : executeApproved env user tid pending (grantApproval user tid pending always st) with
    ⟨result, st₁⟩
  rw [hex] at hrecord
  dsimp only
  rcases checkAuthRequired env pending.toolName result with _ | ⟨ext, instructions⟩
  · exact ⟨st₁, hrecord, Or.inr ⟨_, rfl⟩⟩
  · exact ⟨_, hrecord.trans (handleAuthIntercept_calm env tid user st₁ ext instructions), Or.inl rfl⟩

end Turn

/-! ## Runs of messages -/

/-- A message and the time it is handled at. -/
structure Incoming where
  msg : IncomingMessage
  now : Time

/-- One message handled. -/
def messageStep (env : Env W) (cmds : CommandEnv W) (st : AgentState W) (i : Incoming) :
    Option (AgentState W) :=
  some (handleMessage env cmds i.msg i.now st).2

theorem messageStep_eq {env : Env W} {cmds : CommandEnv W} {st st' : AgentState W} {i : Incoming}
    (h : messageStep env cmds st i = some st') : st' = (handleMessage env cmds i.msg i.now st).2 :=
  (Option.some.inj h).symm

/-! ## Credits held by stored requests -/

section Held

variable {A : Type} {gain spend : Event → Multiset A} {g : PendingApproval → Multiset A}
  {st st' : AgentState W} {X Y : Multiset A}

/-- The log is funded with what the stored requests stand for and, besides, `X`. -/
def Held (gain spend : Event → Multiset A) (g : PendingApproval → Multiset A) (X : Multiset A)
    (st : AgentState W) : Prop :=
  Log.Funded gain spend (st.openApprovals.bind g + X) st.trace.log

theorem bind_le_bind {M M' : Multiset PendingApproval} (h : M' ≤ M) : M'.bind g ≤ M.bind g := by
  obtain ⟨N, rfl⟩ := Multiset.le_iff_exists_add.mp h
  rw [Multiset.add_bind]
  exact Multiset.le_add_right _ _

theorem Held.start (store : ConversationStore) (w : W) : Held gain spend g 0 (AgentState.start store w) :=
  Log.Funded.nil

/-- Through a calm change the credits stay. -/
theorem Held.calm (h : Held gain spend g X st) (hc : Calm st st')
    (hb : ∀ e, Benign e → spend e = 0 ∧ gain e = 0) : Held gain spend g X st' := by
  have hlog : Log.Funded gain spend (st.openApprovals.bind g + X) st'.trace.log := h.grows hc.log hb
  exact hlog.mono (add_le_add_left (bind_le_bind hc.openApprovals) X)

variable {p : PendingApproval} {user : String} {tid : Uuid}

/-- Taking a request puts what it stands for at hand. -/
theorem Held.taken (h : Held gain spend g X st) (hc : Calm st st') (hb : ∀ e, Benign e → spend e = 0 ∧ gain e = 0)
    (hp : st.pendingAt user tid = some p) (htaken : st'.pendingAt user tid = none) :
    Held gain spend g (X + g p) st' := by
  have hlog : Log.Funded gain spend (st.openApprovals.bind g + X) st'.trace.log := h.grows hc.log hb
  refine hlog.mono ?_
  have hle := bind_le_bind (g := g) (hc.openApprovals_taken hp htaken)
  rw [Multiset.add_bind, Multiset.singleton_bind] at hle
  calc st'.openApprovals.bind g + (X + g p) = st'.openApprovals.bind g + g p + X := by
        rw [add_comm X, add_assoc]
    _ ≤ st.openApprovals.bind g + X := add_le_add_left hle X

/-- Raising a request hands over what it stands for, out of `Y` or of what the event earns. -/
theorem Held.raise (h : Held gain spend g (X + Y) st) (hspend : spend (.raised p) = 0) (hg : g p ≤ Y + gain (.raised p)) :
    Held gain spend g X (raiseApproval user tid p st).2 := by
  have hlog : Log.Funded gain spend (st.openApprovals.bind g + (X + Y) + gain (.raised p))
      (st.trace.log ++ [.raised p]) := Log.Funded.earn h hspend
  have hle := bind_le_bind (g := g) (raiseApproval_openApprovals st user tid p)
  rw [Multiset.add_bind, Multiset.singleton_bind] at hle
  refine Log.Funded.mono hlog ?_
  calc (raiseApproval user tid p st).2.openApprovals.bind g + X
      ≤ st.openApprovals.bind g + g p + X := add_le_add_left hle X
    _ ≤ st.openApprovals.bind g + (Y + gain (.raised p)) + X :=
        add_le_add_left (add_le_add_right hg _) X
    _ = st.openApprovals.bind g + (X + Y) + gain (.raised p) := by
        abel

/-- A change of the trace alone. -/
theorem Held.trace {tr : Trace W} (h : Log.Funded gain spend (st.openApprovals.bind g + X) tr.log) :
    Held gain spend g X { st with trace := tr } := h

end Held

end Freeclawdia
