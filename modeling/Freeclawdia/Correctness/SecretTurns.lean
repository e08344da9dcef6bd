import Freeclawdia.Agent.AgentLoop
import Freeclawdia.Correctness.Secrecy

/-!
# `Correctness.SecretTurns` — a turn does not tell two secrets apart

From batches to the agentic loop and from there to user input. Two states show the same (`SameState`) when their
sessions differ in what a waiting request carries and in nothing else; the stored messages are the same. The loop
keeps that (`agenticLoop_same`) and so does a turn (`processUserInput_same`).
-/

namespace Freeclawdia.Secrecy

open Rust Redaction

variable {W : Type} {sens : String → List String} {mask : String → Json → Json} {R : W → W → Prop} {env : Env W}
  (hb : Blind env sens mask R)

/-! ## The exchange with the model -/

section Exchange

/-- Masking keeps the roles, so it commutes with the cut before the last user message. -/
theorem splitLastUser_show (c : List ChatMessage) : splitLastUser (showContext mask c)
      = (splitLastUser c).map fun parts => (showContext mask parts.1, showContext mask parts.2) := by
  induction c with
  | nil => rfl
  | cons m rest ih =>
    show splitLastUser (showMessage mask m :: showContext mask rest) = _
    unfold splitLastUser
    rw [ih]
    cases splitLastUser rest with
    | some parts => rfl
    | none =>
      show (if m.role = .user then _ else _) = _
      by_cases hrole : m.role = .user
      · rw [if_pos hrole, if_pos hrole]
        rfl
      · rw [if_neg hrole, if_neg hrole]
        rfl

theorem filter_show (p : Role → Bool) (c : List ChatMessage) :
    (showContext mask c).filter (fun m => p m.role) = showContext mask (c.filter fun m => p m.role) := by
  unfold showContext
  rw [List.filter_map]
  rfl

theorem compactMessages_show (c : List ChatMessage) :
    showContext mask (compactMessagesForRetry c) = compactMessagesForRetry (showContext mask c) := by
  unfold compactMessagesForRetry
  rw [splitLastUser_show]
  cases splitLastUser c with
  | none =>
    show showContext mask (_ ++ _) = _ ++ _
    rw [filter_show (fun r => r = .system), filter_show (fun r => r ≠ .system)]
    exact List.map_append
  | some parts =>
    obtain ⟨before, tail⟩ := parts
    show showContext mask (_ ++ _ ++ _) = _ ++ _ ++ _
    rw [filter_show (fun r => r = .system)]
    unfold showContext
    rw [List.map_append, List.map_append, List.isEmpty_map]
    cases before with
    | nil => rfl
    | cons m ms => rfl

variable {c c' : List ChatMessage}

variable {tr tr' : Trace W}

include hb in
/-- The model is asked the same and answers alike. -/
theorem complete_same (tools : List ToolDefinition)
    (hc : showContext mask c = showContext mask c') (htr : SameTrace R tr tr') :
    ShowRun (Except.map (showResponse mask)) R (tr.complete env ⟨c, tools⟩) (tr'.complete env ⟨c', tools⟩) := by
  obtain ⟨hresponse, hworld⟩ := hb.complete htr.world tools hc
  have hsent : SameTrace R (tr.emit (.llm c)) (tr'.emit (.llm c')) := htr.emit rfl
  exact ⟨hresponse, hsent.withWorld hworld⟩

section Responses

variable {r r' : LlmResponse} (h : showResponse mask r = showResponse mask r')

include h in
theorem response_content : r.content = r'.content := by
  have hcontent : (showResponse mask r).content = (showResponse mask r').content := by rw [h]
  exact hcontent

include h in
theorem response_calls : r.toolCalls.map (showCall mask) = r'.toolCalls.map (showCall mask) := by
  have hcalls : (showResponse mask r).toolCalls = (showResponse mask r').toolCalls := by rw [h]
  exact hcalls

include h in
/-- Answers that look alike are read alike. -/
theorem readToolAnswer_same (tools : List ToolDefinition) :
    showRespond mask (readToolAnswer env tools r) = showRespond mask (readToolAnswer env tools r') := by
  have hcalls := response_calls h
  have hnil : r.toolCalls.isEmpty = r'.toolCalls.isEmpty := by
    rw [← @List.isEmpty_map _ _ _ (showCall mask), hcalls, List.isEmpty_map]
  unfold readToolAnswer
  rw [response_content h, hnil]
  split
  · show RespondResult.toolCalls (r.toolCalls.map _) _ = RespondResult.toolCalls (r'.toolCalls.map _) _
    rw [hcalls]
  · rfl

end Responses

include hb in
/-- One exchange with the model, from contexts that look alike. -/
theorem respondWithTools_same (hc : showContext mask c = showContext mask c')
    (tools : List ToolDefinition) (prompt : String) (force : Bool) (htr : SameTrace R tr tr') :
    ShowRun (Except.map (showRespond mask)) R (respondWithTools env ⟨c, tools, prompt, force⟩ tr)
      (respondWithTools env ⟨c', tools, prompt, force⟩ tr') := by
  have hprompted : showContext mask (ChatMessage.system prompt :: c)
      = showContext mask (ChatMessage.system prompt :: c') := congrArg (ChatMessage.system prompt :: ·) hc
  unfold respondWithTools
  dsimp only
  split
  · have hanswer := complete_same hb [] hprompted htr
    rcases hanswer.cases with ⟨e, tr₁, tr₁', hr, hr', hsame⟩ | ⟨r, r', tr₁, tr₁', hr, hr', hshown, hsame⟩
    · rw [hr, hr']
      exact ⟨rfl, hsame⟩
    · rw [hr, hr']
      refine ⟨?_, hsame⟩
      dsimp only
      rw [response_content hshown]
  · have hanswer := complete_same hb tools hprompted htr
    rcases hanswer.cases with ⟨e, tr₁, tr₁', hr, hr', hsame⟩ | ⟨r, r', tr₁, tr₁', hr, hr', hshown, hsame⟩
    · rw [hr, hr']
      exact ⟨rfl, hsame⟩
    · rw [hr, hr']
      exact ⟨congrArg Except.ok (readToolAnswer_same hshown tools), hsame⟩

/-- What an exchange shows: the answer and the context that was answered. -/
def showExchange (mask : String → Json → Json) (r : RespondResult × List ChatMessage) :
    RespondResult × List ChatMessage := (showRespond mask r.1, showContext mask r.2)

include hb in
theorem exchange_same (prompts : Prompts) (tools : List ToolDefinition) (force : Bool)
    (hc : showContext mask c = showContext mask c') (htr : SameTrace R tr tr') :
    ShowRun (Except.map (showExchange mask)) R (exchange env prompts tools force c tr)
      (exchange env prompts tools force c' tr') := by
  have hpair : ∀ {r r' : RespondResult} {d d' : List ChatMessage}, showRespond mask r = showRespond mask r' →
      showContext mask d = showContext mask d' → showExchange mask (r, d) = showExchange mask (r', d') := by
    intro r r' d d' hr hd
    show (showRespond mask r, showContext mask d) = (showRespond mask r', showContext mask d')
    rw [hr, hd]
  have hcompacted : showContext mask (compactMessagesForRetry c) = showContext mask (compactMessagesForRetry c') := by
    rw [compactMessages_show, compactMessages_show, hc]
  unfold exchange
  dsimp only
  generalize (if force then prompts.withoutTools else prompts.withTools) = prompt
  have hfirst := respondWithTools_same hb hc tools prompt force htr
  rcases hfirst.cases with ⟨e, tr₁, tr₁', hr, hr', hsame⟩ | ⟨r, r', tr₁, tr₁', hr, hr', hshown, hsame⟩
  · rw [hr, hr']
    cases e with
    | invalidResponse provider reason => exact ⟨rfl, hsame⟩
    | other text => exact ⟨rfl, hsame⟩
    | contextLengthExceeded used limit =>
      have hretry := respondWithTools_same hb hcompacted (if force then [] else tools) prompt force hsame
      dsimp only
      rcases hretry.cases with ⟨e, tr₂, tr₂', hr, hr', hsame⟩ | ⟨r, r', tr₂, tr₂', hr, hr', hshown, hsame⟩
      · rw [hr, hr']
        exact ⟨rfl, hsame⟩
      · rw [hr, hr']
        exact ⟨congrArg Except.ok (hpair hshown hcompacted), hsame⟩
  · rw [hr, hr']
    exact ⟨congrArg Except.ok (hpair hshown hc), hsame⟩

end Exchange

/-! ## The loop -/

/-- Whether the thread was interrupted shows. -/
theorem isInterrupted_same {s s' : Session} (hs : SameSession mask s s') (tid : Uuid) :
    isInterrupted s tid = isInterrupted s' tid := by
  have hshown : ∀ s : Session, isInterrupted s tid
      = ((s.threads.lookup tid).map (showThread mask)).any fun t => decide (t.state = .interrupted) := by
    intro s
    unfold isInterrupted
    cases s.threads.lookup tid with
    | none => rfl
    | some t => rfl
  rw [hshown s, hshown s', hs.threads]

include hb in
/-- **The loop shows the same.** Induction on the iterations that remain. -/
theorem agenticLoop_same (user : String) (tid : Uuid) (prompts : Prompts) (n nudges : Nat) {c c' : List ChatMessage}
    (hc : showContext mask c = showContext mask c') {s s' : Session} (hs : SameSession mask s s') {tr tr' : Trace W}
    (htr : SameTrace R tr tr') : (agenticLoop env user tid prompts n nudges c s tr).1.map (showResult mask)
        = (agenticLoop env user tid prompts n nudges c' s' tr').1.map (showResult mask)
      ∧ SameSession mask (agenticLoop env user tid prompts n nudges c s tr).2.1
        (agenticLoop env user tid prompts n nudges c' s' tr').2.1
      ∧ SameTrace R (agenticLoop env user tid prompts n nudges c s tr).2.2
        (agenticLoop env user tid prompts n nudges c' s' tr').2.2 := by
  induction n generalizing nudges c c' s s' tr tr' with
  | zero => exact ⟨rfl, hs, htr⟩
  | succ n ih =>
    -- what the loop asks first shows: the interruption, the cost limit and the offer
    unfold agenticLoop
    rw [isInterrupted_same hs tid, ← hb.costLimit htr.world, ← hb.toolDefinitions htr.world]
    split
    · exact ⟨rfl, hs, htr⟩
    · cases env.costLimit tr.world with
      | some limit => exact ⟨rfl, hs, htr⟩
      | none =>
        dsimp only
        generalize env.maxToolIterations + 1 - n = iteration
        have hnudged : showContext mask (nudgedContext env iteration c)
            = showContext mask (nudgedContext env iteration c') := by
          unfold nudgedContext
          split
          · exact showContext_append hc _
          · exact hc
        have hanswer := exchange_same hb prompts (env.toolDefinitions tr.world) (forceText env iteration) hnudged htr
        rcases hanswer.cases with
          ⟨e, tr₁, tr₁', hr, hr', htr₁⟩ | ⟨⟨r, d⟩, ⟨r', d'⟩, tr₁, tr₁', hr, hr', hshown, htr₁⟩
        · rw [hr, hr']
          exact ⟨rfl, hs, htr₁⟩
        · rw [hr, hr']
          obtain ⟨hrespond, hd⟩ : showRespond mask r = showRespond mask r'
              ∧ showContext mask d = showContext mask d' := Prod.mk.inj hshown
          cases r with
          | text text =>
            cases r' with
            | toolCalls calls' content' => cases hrespond
            | text text' =>
              obtain rfl : text = text' := RespondResult.text.inj hrespond
              dsimp only
              split
              · exact ih (nudges + 1) (showContext_append hd _) hs htr₁
              · exact ⟨rfl, hs, htr₁⟩
          | toolCalls calls content =>
            cases r' with
            | text text' => cases hrespond
            | toolCalls calls' content' =>
              obtain ⟨hcalls, rfl⟩ := RespondResult.toolCalls.inj hrespond
              dsimp only
              have hbatch := runBatch_same hb user tid hcalls content hd hs htr₁
              generalize runBatch env user tid calls content d s tr₁ = batch at hbatch ⊢
              generalize runBatch env user tid calls' content d' s' tr₁' = batch' at hbatch ⊢
              obtain ⟨b, s₁, tr₂⟩ := batch
              obtain ⟨b', s₁', tr₂'⟩ := batch'
              obtain ⟨hbatch, hs₁, htr₂⟩ := hbatch
              cases b with
              | continues e =>
                cases b' with
                | finished result' => cases hbatch
                | continues e' => exact ih 0 (BatchResult.continues.inj hbatch) hs₁ htr₂
              | finished result =>
                cases b' with
                | continues e' => cases hbatch
                | finished result' => exact ⟨congrArg Except.ok (BatchResult.finished.inj hbatch), hs₁, htr₂⟩

/-! ## States -/

section Threads

variable {t t' : Thread} (h : showThread mask t = showThread mask t')

include h in
include h in
theorem thread_state : t.state = t'.state := by
  have hstate : (showThread mask t).state = (showThread mask t').state := by rw [h]
  exact hstate

include h in
theorem thread_turns : t.turns = t'.turns := by
  have hturns : (showThread mask t).turns = (showThread mask t').turns := by rw [h]
  exact hturns

include h in
theorem thread_pendingAuth : t.pendingAuth = t'.pendingAuth := by
  have hauth : (showThread mask t).pendingAuth = (showThread mask t').pendingAuth := by rw [h]
  exact hauth

include h in
theorem thread_pending : t.pendingApproval.map (showPending mask) = t'.pendingApproval.map (showPending mask) := by
  have hpending : (showThread mask t).pendingApproval = (showThread mask t').pendingApproval := by rw [h]
  exact hpending

include h in
theorem thread_messages : t.messages = t'.messages := by
  unfold Thread.messages
  rw [thread_turns h]

include h in
theorem thread_turnNumber : t.turnNumber = t'.turnNumber := by
  unfold Thread.turnNumber
  rw [thread_turns h]

end Threads

/-- Session managers that show the same. -/
structure SameManager (mask : String → Json → Json) (m m' : SessionManager) : Prop where
  sessions : ∀ user, Option.Rel (SameSession mask) (m.session user) (m'.session user)
  threadMap : m.threadMap = m'.threadMap
  undoManagers : m.undoManagers = m'.undoManagers

/-- States that show the same. -/
structure SameState (mask : String → Json → Json) (R : W → W → Prop) (st st' : AgentState W) : Prop where
  manager : SameManager mask st.manager st'.manager
  store : st.store = st'.store
  trace : SameTrace R st.trace st'.trace

/-- Results that are the same, with states that show the same. -/
abbrev SameStep {α : Type} (mask : String → Json → Json) (R : W → W → Prop) (r r' : α × AgentState W) : Prop :=
  SameRun (SameState mask R) r r'

theorem SameManager.modifySession {m m' : SessionManager} (h : SameManager mask m m') (user : String)
    {f g : Session → Session} (hfg : ∀ s s', SameSession mask s s' → SameSession mask (f s) (g s')) :
    SameManager mask (m.modifySession user f) (m'.modifySession user g) := by
  refine ⟨fun user' => ?_, ?_, ?_⟩
  · by_cases huser : user' = user
    · subst huser
      rw [SessionManager.session_modifySession_self, SessionManager.session_modifySession_self]
      have hsession := h.sessions user'
      revert hsession
      generalize m.session user' = o
      generalize m'.session user' = o'
      rintro (⟨hsame⟩ | _)
      · exact Option.Rel.some (hfg _ _ hsame)
      · exact Option.Rel.none
    · rw [SessionManager.session_modifySession_ne _ _ _ huser, SessionManager.session_modifySession_ne _ _ _ huser]
      exact h.sessions user'
  · rw [SessionManager.threadMap_modifySession, SessionManager.threadMap_modifySession, h.threadMap]
  · rw [SessionManager.undoManagers_modifySession, SessionManager.undoManagers_modifySession, h.undoManagers]

namespace SameState

variable {st st' : AgentState W} (h : SameState mask R st st')

include h

variable (user : String) (tid : Uuid)

/-- A thread is there in both, and shows the same, or in neither. -/
theorem thread_cases : (st.thread user tid = none ∧ st'.thread user tid = none)
      ∨ ∃ t t', st.thread user tid = some t ∧ st'.thread user tid = some t'
        ∧ showThread mask t = showThread mask t' := by
  unfold AgentState.thread
  have hsession := h.manager.sessions user
  cases hs : st.manager.session user with
  | none =>
    rw [hs] at hsession
    cases hs' : st'.manager.session user with
    | none => exact Or.inl ⟨rfl, rfl⟩
    | some s' => rw [hs'] at hsession; cases hsession
  | some s =>
    rw [hs] at hsession
    cases hs' : st'.manager.session user with
    | none => rw [hs'] at hsession; cases hsession
    | some s' =>
      rw [hs'] at hsession
      obtain ⟨hsame⟩ := hsession
      exact option_map_cases (hsame.threads tid)

theorem holdsThread : st.manager.holdsThread user tid = st'.manager.holdsThread user tid := by
  show (st.thread user tid).isSome = (st'.thread user tid).isSome
  rcases h.thread_cases user tid with ⟨ht, ht'⟩ | ⟨t, t', ht, ht', _⟩
  · rw [ht, ht']
  · rw [ht, ht']
    rfl

theorem autoApproved : st.autoApproved user = st'.autoApproved user := by
  unfold AgentState.autoApproved
  have hsession := h.manager.sessions user
  cases hs : st.manager.session user with
  | none =>
    rw [hs] at hsession
    cases hs' : st'.manager.session user with
    | none => rfl
    | some s' => rw [hs'] at hsession; cases hsession
  | some s =>
    rw [hs] at hsession
    cases hs' : st'.manager.session user with
    | none => rw [hs'] at hsession; cases hsession
    | some s' =>
      rw [hs'] at hsession
      obtain ⟨hsame⟩ := hsession
      exact hsame.autoApprovedTools

theorem modifySession {f g : Session → Session} (hfg : ∀ s s', SameSession mask s s' → SameSession mask (f s) (g s')) :
    SameState mask R { st with manager := st.manager.modifySession user f }
      { st' with manager := st'.manager.modifySession user g } :=
  ⟨h.manager.modifySession user hfg, h.store, h.trace⟩

theorem modifyThread {f g : Thread → Thread}
    (hfg : ∀ t t', showThread mask t = showThread mask t' → showThread mask (f t) = showThread mask (g t')) :
    SameState mask R (st.modifyThread user tid f) (st'.modifyThread user tid g) :=
  h.modifySession user fun _ _ hs => hs.modifyThread tid hfg

theorem overlook {f : Thread → Thread} (hf : Overlooks mask f) :
    SameState mask R (st.modifyThread user tid f) (st'.modifyThread user tid f) :=
  h.modifySession user fun _ _ hs => hs.overlook tid hf

theorem setThread {t t' : Thread} (ht : showThread mask t = showThread mask t') :
    SameState mask R (st.modifyThread user tid fun _ => t) (st'.modifyThread user tid fun _ => t') :=
  h.modifyThread user tid fun _ _ _ => ht

theorem withTrace {tr tr' : Trace W} (htr : SameTrace R tr tr') :
    SameState mask R { st with trace := tr } { st' with trace := tr' } :=
  ⟨h.manager, h.store, htr⟩

theorem emit {e e' : Event} (he : hookView e = hookView e') : SameState mask R (st.emit e) (st'.emit e') :=
  h.withTrace (h.trace.emit he)

theorem draw : SameStep mask R (st.draw env) (st'.draw env) := by
  refine ⟨congrArg env.newV4 h.trace.drawn, h.withTrace ⟨h.trace.world, ?_, h.trace.hooks⟩⟩
  show st.trace.drawn + 1 = st'.trace.drawn + 1
  rw [h.trace.drawn]

theorem withUndo (u : Map Uuid UndoManager) :
    SameState mask R { st with manager := { st.manager with undoManagers := u } }
      { st' with manager := { st'.manager with undoManagers := u } } :=
  ⟨⟨h.manager.sessions, h.manager.threadMap, rfl⟩, h.store, h.trace⟩

theorem setUndo (mgr : UndoManager) : SameState mask R (st.setUndo tid mgr) (st'.setUndo tid mgr) := by
  unfold AgentState.setUndo
  rw [h.manager.undoManagers]
  exact h.withUndo _

theorem undoManager : SameStep mask R (st.undoManager tid) (st'.undoManager tid) := by
  unfold AgentState.undoManager SessionManager.getUndoManager
  rw [h.manager.undoManagers]
  exact ⟨rfl, h.withUndo _⟩

include hb in
theorem runHooks (event : HookEvent) : SameStep mask R (st.runHooks env event) (st'.runHooks env event) := by
  obtain ⟨hresult, htrace⟩ := runHooks_same hb event h.trace
  exact ⟨hresult, h.withTrace htrace⟩

include hb in
theorem callStore : SameStep mask R (st.callStore env) (st'.callStore env) := by
  obtain ⟨hok, hworld⟩ := hb.storeCall h.trace.world
  exact ⟨hok, h.withTrace (h.trace.withWorld hworld)⟩

theorem withStore (db : ConversationStore) : SameState mask R { st with store := db } { st' with store := db } :=
  ⟨h.manager, rfl, h.trace⟩

end SameState

/-! ## A turn -/

section Turns

variable {st st' : AgentState W} (h : SameState mask R st st')

include hb h

variable (user : String) (tid : Uuid)

theorem persistMessage_same (user role content : String) :
    SameState mask R (persistMessage env tid user role content st) (persistMessage env tid user role content st') := by
  unfold persistMessage
  split
  · have hfirst := h.callStore hb
    obtain ⟨ok, st₁, st₁', hfst, hsnd, h₁⟩ := pair_cases hfirst
    rw [hfst, hsnd]
    cases ok with
    | false => exact h₁
    | true =>
      dsimp only
      rw [h₁.store]
      have hsecond := (h₁.withStore (st₁'.store.ensureConversation tid user)).callStore hb
      obtain ⟨ok, st₂, st₂', hfst, hsnd, h₂⟩ := pair_cases hsecond
      rw [hfst, hsnd]
      cases ok with
      | false => exact h₂
      | true =>
        dsimp only
        rw [h₂.store]
        exact h₂.withStore _
  · exact h

theorem persistToolCalls_same (user : String) (calls : List TurnToolCall) :
    SameState mask R (persistToolCalls env tid user calls st) (persistToolCalls env tid user calls st') := by
  unfold persistToolCalls
  split
  · exact h
  · exact persistMessage_same hb h tid user _ _

/-- Completing a turn with one response. -/
theorem completeAnswer_same (response : String) :
    SameState mask R (completeAnswer env user tid response st) (completeAnswer env user tid response st') := by
  have h₁ : SameState mask R ((st.modifyThread user tid (Thread.completeTurn · response)).emit (.answered user response))
      ((st'.modifyThread user tid (Thread.completeTurn · response)).emit (.answered user response)) := by
    have hcompleted : Overlooks mask (Thread.completeTurn · response) := fun t => rfl
    exact (h.overlook user tid hcompleted).emit rfl
  unfold completeAnswer
  dsimp only
  generalize (st.modifyThread user tid (Thread.completeTurn · response)).emit (.answered user response) = st₁ at h₁ ⊢
  generalize (st'.modifyThread user tid (Thread.completeTurn · response)).emit (.answered user response) = st₁' at h₁ ⊢
  have hcalls : (((st₁.thread user tid).bind fun t => t.turns.getLast?).map (·.toolCalls)).getD []
      = (((st₁'.thread user tid).bind fun t => t.turns.getLast?).map (·.toolCalls)).getD [] := by
    rcases h₁.thread_cases user tid with ⟨ht, ht'⟩ | ⟨t, t', ht, ht', hshown⟩
    · rw [ht, ht']
    · rw [ht, ht', Option.bind_some, Option.bind_some, thread_turns hshown]
  rw [hcalls]
  exact persistMessage_same hb (persistToolCalls_same hb h₁ tid user _) tid user _ _

omit hb in
/-- A request that is raised displays the same. -/
theorem raiseApproval_same {pending pending' : PendingApproval}
    (hpending : showPending mask pending = showPending mask pending') :
    SameStep mask R (raiseApproval user tid pending st) (raiseApproval user tid pending' st') := by
  refine ⟨?_, (h.modifyThread user tid fun t t' ht => ?_).emit rfl⟩
  · have hid : (showPending mask pending).requestId = (showPending mask pending').requestId := by rw [hpending]
    have hname : (showPending mask pending).toolName = (showPending mask pending').toolName := by rw [hpending]
    have htext : (showPending mask pending).description = (showPending mask pending').description := by rw [hpending]
    have hdisplay : (showPending mask pending).displayParameters = (showPending mask pending').displayParameters := by
      rw [hpending]
    show SubmissionResult.needApproval pending.requestId pending.toolName pending.description pending.displayParameters
      = .needApproval pending'.requestId pending'.toolName pending'.description pending'.displayParameters
    rw [show pending.requestId = pending'.requestId from hid, show pending.toolName = pending'.toolName from hname,
      show pending.description = pending'.description from htext,
      show pending.displayParameters = pending'.displayParameters from hdisplay]
  · show { showThread mask t with state := .awaitingApproval, pendingApproval := some (showPending mask pending) }
      = { showThread mask t' with state := .awaitingApproval, pendingApproval := some (showPending mask pending') }
    rw [ht, hpending]

theorem transformResponse_same (response : String) :
    SameStep mask R (transformResponse env user tid response st) (transformResponse env user tid response st') := by
  have hrun := h.runHooks hb (.responseTransform user (Uuid.toString tid) response)
  unfold transformResponse
  obtain ⟨result, st₁, st₁', hfst, hsnd, h₁⟩ := pair_cases hrun
  rw [hfst, hsnd]
  rcases result with e | modified | reason
  · cases e with
    | rejected reason => exact ⟨rfl, h₁⟩
    | executionFailed reason => exact ⟨rfl, h₁⟩
    | timeout t => exact ⟨rfl, h₁⟩
  · cases modified with
    | none => exact ⟨rfl, h₁⟩
    | some text => exact ⟨rfl, h₁⟩
  · exact ⟨rfl, h₁⟩

/-- What the end of a turn does with the loop's result; the turn after an approval differs in the hooks alone. -/
theorem settle_same {result result' : Except Error AgenticLoopResult}
    (hresult : result.map (showResult mask) = result'.map (showResult mask)) :
    SameStep mask R (finishTurn env user tid result st) (finishTurn env user tid result' st')
      ∧ SameStep mask R (finishApproval env user tid result st) (finishApproval env user tid result' st') := by
  unfold finishTurn finishApproval
  rcases h.thread_cases user tid with ⟨ht, ht'⟩ | ⟨t, t', ht, ht', hshown⟩
  · rw [ht, ht']
    exact ⟨⟨rfl, h⟩, rfl, h⟩
  · rw [ht, ht']
    dsimp only
    rw [thread_state hshown]
    rcases map_eq_map hresult with ⟨e, rfl, rfl⟩ | ⟨r, r', rfl, rfl, hr⟩
    · have hfailed : SameState mask R (st.modifyThread user tid (Thread.failTurn · e.display))
          (st'.modifyThread user tid (Thread.failTurn · e.display)) := h.overlook user tid fun t => rfl
      refine ⟨?_, rfl, hfailed⟩
      split
      · exact ⟨rfl, h⟩
      · exact ⟨rfl, hfailed⟩
    · cases r with
      | response text =>
        cases r' with
        | needApproval pending' => cases hr
        | response text' =>
          obtain rfl : text = text' := AgenticLoopResult.response.inj hr
          refine ⟨?_, rfl, completeAnswer_same hb h user tid text⟩
          split
          · exact ⟨rfl, h⟩
          · have htransformed := transformResponse_same hb h user tid text
            dsimp only
            obtain ⟨response, st₁, st₁', hfst, hsnd, h₁⟩ := pair_cases htransformed
            rw [hfst, hsnd]
            exact ⟨rfl, completeAnswer_same hb h₁ user tid response⟩
      | needApproval pending =>
        cases r' with
        | response text' => cases hr
        | needApproval pending' =>
          obtain ⟨hreport, hraised⟩ := raiseApproval_same h user tid (AgenticLoopResult.needApproval.inj hr)
          refine ⟨?_, congrArg Except.ok hreport, hraised⟩
          split
          · exact ⟨rfl, h⟩
          · exact ⟨congrArg Except.ok hreport, hraised⟩

/-- The loop on the session of the user. -/
theorem runLoop_same {c c' : List ChatMessage} (hc : showContext mask c = showContext mask c') :
    (runLoop env user tid c st).1.map (showResult mask) = (runLoop env user tid c' st').1.map (showResult mask)
      ∧ SameState mask R (runLoop env user tid c st).2 (runLoop env user tid c' st').2 := by
  unfold runLoop
  have hsession := h.manager.sessions user
  generalize hs : st.manager.session user = o at hsession ⊢
  generalize hs' : st'.manager.session user = o' at hsession ⊢
  cases hsession with
  | none => exact ⟨rfl, h⟩
  | some hsame =>
    rename_i s s'
    have hprompts : (⟨env.systemPrompt (env.toolDefinitions st.trace.world), env.systemPrompt []⟩ : Prompts)
        = ⟨env.systemPrompt (env.toolDefinitions st'.trace.world), env.systemPrompt []⟩ := by
      rw [hb.toolDefinitions h.trace.world]
    obtain ⟨hresult, hsession, htrace⟩ := agenticLoop_same hb user tid
      ⟨env.systemPrompt (env.toolDefinitions st.trace.world), env.systemPrompt []⟩ (env.maxToolIterations + 1) 0 hc
      hsame h.trace
    dsimp only
    unfold runAgenticLoop
    rw [← hprompts]
    refine ⟨hresult, ⟨fun user' => ?_, h.manager.threadMap, h.manager.undoManagers⟩, h.store, htrace⟩
    show Option.Rel _ ((st.manager.sessions.insert user _).lookup user')
      ((st'.manager.sessions.insert user _).lookup user')
    rw [Map.lookup_insert_ite, Map.lookup_insert_ite]
    split
    · exact Option.Rel.some hsession
    · exact h.manager.sessions user'

end Turns

/-! ## User input -/

section Input

variable {tr tr' : Trace W}

include hb in
theorem completeText_same {c c' : List ChatMessage} (hc : showContext mask c = showContext mask c')
    (htr : SameTrace R tr tr') : SameRun (SameTrace R) (completeText env c tr) (completeText env c' tr') := by
  have hanswer := complete_same hb [] hc htr
  unfold completeText
  rcases hanswer.cases with ⟨e, tr₁, tr₁', hr, hr', hsame⟩ | ⟨r, r', tr₁, tr₁', hr, hr', hshown, hsame⟩
  · rw [hr, hr']
    exact ⟨rfl, hsame⟩
  · rw [hr, hr']
    refine ⟨?_, hsame⟩
    dsimp only
    rw [response_content hshown]

include hb in
theorem writeToWorkspace_same (content : String) (htr : SameTrace R tr tr') :
    SameRun (SameTrace R) (writeToWorkspace env content tr) (writeToWorkspace env content tr') := by
  obtain ⟨hok, hworld⟩ := hb.workspaceAppend htr.world content
  exact ⟨hok, htr.withWorld hworld⟩

theorem truncateTurns_show (keep : Nat) : Overlooks mask (Thread.truncateTurns · keep) := by
  intro t
  show showThread mask (if t.turns.length > keep then _ else _) = if t.turns.length > keep then _ else _
  split
  · rfl
  · rfl

variable {t t' : Thread} (ht : showThread mask t = showThread mask t')

include ht in
theorem truncateTurns_same (keep : Nat) :
    showThread mask (t.truncateTurns keep) = showThread mask (t'.truncateTurns keep) := by
  rw [truncateTurns_show keep t, truncateTurns_show keep t', ht]

include hb ht in
/-- Compaction reads the turns, which are the same. -/
theorem compactThread_same (strategy : CompactionStrategy) (htr : SameTrace R tr tr') :
    (compactThread env t strategy tr).1 = (compactThread env t' strategy tr').1
      ∧ showThread mask (compactThread env t strategy tr).2.1 = showThread mask (compactThread env t' strategy tr').2.1
      ∧ SameTrace R (compactThread env t strategy tr).2.2 (compactThread env t' strategy tr').2.2 := by
  have hturns := thread_turns ht
  have hcut : ∀ keep, compactTruncate t keep = ((compactTruncate t' keep).1, t.truncateTurns keep) := by
    intro keep
    have hkept : (t.truncateTurns keep).turns = (t'.truncateTurns keep).turns :=
      thread_turns (truncateTurns_same ht keep)
    unfold compactTruncate
    rw [hkept, hturns]
  cases strategy with
  | truncate keep =>
    show Except.ok (compactTruncate t keep).1 = Except.ok (compactTruncate t' keep).1
      ∧ showThread mask (compactTruncate t keep).2 = showThread mask (compactTruncate t' keep).2 ∧ SameTrace R tr tr'
    rw [hcut keep]
    exact ⟨rfl, truncateTurns_same ht keep, htr⟩
  | summarize keep =>
    unfold compactThread compactWithSummary
    dsimp only
    rw [hturns]
    split
    · exact ⟨rfl, ht, htr⟩
    · unfold generateSummary
      have hanswer := completeText_same hb (rfl : showContext mask
        [ChatMessage.system summaryPrompt, ChatMessage.user ("Please summarize this conversation:\n\n"
          ++ join "\n\n" ((turnsMessages (t'.turns.take (t'.turns.length - keep))).map describeMessage))] = _) htr
      obtain ⟨a, tr₁, tr₁', hfst, hsnd, htr₁⟩ := pair_cases hanswer
      rw [hfst, hsnd]
      cases a with
      | error e => exact ⟨rfl, ht, htr₁⟩
      | ok summary =>
        cases env.hasWorkspace with
        | false => exact ⟨rfl, truncateTurns_same ht keep, htr₁⟩
        | true =>
          obtain ⟨hwritten, htr₂⟩ := writeToWorkspace_same hb summary htr₁
          refine ⟨?_, truncateTurns_same ht keep, htr₂⟩
          show Except.ok (CompactionResult.mk _ (writeToWorkspace env summary tr₁).1)
            = Except.ok (CompactionResult.mk _ (writeToWorkspace env summary tr₁').1)
          rw [hwritten]
  | moveToWorkspace =>
    unfold compactThread compactToWorkspace
    dsimp only
    rw [hturns, hcut 5]
    cases env.hasWorkspace with
    | false => exact ⟨rfl, truncateTurns_same ht 5, htr⟩
    | true =>
      rw [if_pos rfl, if_pos rfl]
      split
      · exact ⟨rfl, ht, htr⟩
      · obtain ⟨hwritten, htr₁⟩ := writeToWorkspace_same hb
          (join "\n" ((t'.turns.take (t'.turns.length - 10)).map formatTurn)) htr
        refine ⟨?_, truncateTurns_same ht 10, htr₁⟩
        show Except.ok (CompactionResult.mk _ (writeToWorkspace env _ tr).1)
          = Except.ok (CompactionResult.mk _ (writeToWorkspace env _ tr').1)
        rw [hwritten]

include hb ht in
/-- Compaction looks at what shows. -/
theorem autoCompact_same (htr : SameTrace R tr tr') :
    showThread mask (autoCompact env t tr).1 = showThread mask (autoCompact env t' tr').1
      ∧ SameTrace R (autoCompact env t tr).2 (autoCompact env t' tr').2 := by
  unfold autoCompact
  rw [thread_messages ht]
  cases env.suggestCompaction t'.messages with
  | none => exact ⟨ht, htr⟩
  | some strategy => exact (compactThread_same hb ht strategy htr).2

variable {st st' : AgentState W} (h : SameState mask R st st')

variable (env) in
include ht h in
theorem checkpointTurn_same (tid : Uuid) :
    SameState mask R (checkpointTurn env tid t st) (checkpointTurn env tid t' st') := by
  have hundo := h.undoManager tid
  unfold checkpointTurn
  obtain ⟨mgr, st₁, st₁', hfst, hsnd, h₁⟩ := pair_cases hundo
  rw [hfst, hsnd]
  obtain ⟨hid, h₂⟩ := h₁.draw
  dsimp only
  rw [hid, thread_turnNumber ht, thread_messages ht]
  exact h₂.setUndo tid _

include hb ht h in
/-- Opening a turn with one input. -/
theorem openTurn_same (user : String) (tid : Uuid) (content : String) :
    SameState mask R (openTurn env user tid content t st) (openTurn env user tid content t' st') := by
  unfold openTurn
  dsimp only
  have hset := h.setThread user tid ht
  have hcheck := checkpointTurn_same env ht hset tid
  have hstarted : Overlooks mask (Thread.startTurn · content) := fun t => rfl
  exact persistMessage_same hb ((hcheck.overlook user tid hstarted).emit rfl) tid user _ _

/-- The commands of the user, which look at the world, do not tell either. -/
structure BlindCommands (cmds : CommandEnv W) (env : Env W) (R : W → W → Prop) : Prop where
  jobOrCommand : ∀ {w w'}, R w w' → ∀ intent user channel,
    (handleJobOrCommand cmds intent user channel w).1 = (handleJobOrCommand cmds intent user channel w').1
      ∧ R (handleJobOrCommand cmds intent user channel w).2 (handleJobOrCommand cmds intent user channel w').2
  systemCommand : ∀ {w w'}, R w w' → ∀ command args channel,
    (handleSystemCommand cmds command args channel w).1 = (handleSystemCommand cmds command args channel w').1
      ∧ R (handleSystemCommand cmds command args channel w).2 (handleSystemCommand cmds command args channel w').2
  heartbeat : ∀ {w w'}, R w w' → (processHeartbeat env cmds w).1 = (processHeartbeat env cmds w').1
    ∧ R (processHeartbeat env cmds w).2 (processHeartbeat env cmds w').2
  jobStatus : ∀ {w w'}, R w w' → ∀ user jobId,
    processJobStatus cmds user jobId w = processJobStatus cmds user jobId w'
  jobCancel : ∀ {w w'}, R w w' → ∀ user jobId,
    (processJobCancel cmds user jobId w).1 = (processJobCancel cmds user jobId w').1
      ∧ R (processJobCancel cmds user jobId w).2 (processJobCancel cmds user jobId w').2
  auth : ∀ {w w'}, R w w' → ∀ extension token, (env.auth extension token w).1 = (env.auth extension token w').1
    ∧ R (env.auth extension token w).2 (env.auth extension token w').2
  activate : ∀ {w w'}, R w w' → ∀ extension, (env.activate extension w).1 = (env.activate extension w').1
    ∧ R (env.activate extension w).2 (env.activate extension w').2

variable {cmds : CommandEnv W} (hcmds : BlindCommands cmds env R)

include hb hcmds h in
/-- **User input shows the same.** -/
theorem processUserInput_same (msg : IncomingMessage) (tid : Uuid) (content : String) :
    SameStep mask R (processUserInput env cmds msg tid content st) (processUserInput env cmds msg tid content st') := by
  unfold processUserInput
  rcases h.thread_cases msg.userId tid with ⟨ht, ht'⟩ | ⟨t, t', ht, ht', hshown⟩
  · rw [ht, ht']
    exact ⟨rfl, h⟩
  · rw [ht, ht']
    dsimp only
    rw [thread_state hshown]
    cases refuseInput env t'.state content with
    | some message => exact ⟨rfl, h⟩
    | none =>
      cases Router.routeCommand content with
      | some intent =>
        obtain ⟨hreply, hworld⟩ := hcmds.jobOrCommand h.trace.world intent msg.userId msg.channel
        exact ⟨hreply, h.withTrace (h.trace.withWorld hworld)⟩
      | none =>
        dsimp only
        obtain ⟨hcompact, htrace⟩ := autoCompact_same hb hshown h.trace
        have hopen := openTurn_same hb hcompact (h.withTrace htrace) msg.userId tid content
        have hmessages : ((autoCompact env t st.trace).1.startTurn content).messages
            = ((autoCompact env t' st'.trace).1.startTurn content).messages := by
          unfold Thread.messages Thread.startTurn
          rw [thread_turns hcompact]
        rw [hmessages]
        obtain ⟨hresult, hloop⟩ := runLoop_same hb hopen msg.userId tid
          (rfl : showContext mask ((autoCompact env t' st'.trace).1.startTurn content).messages = _)
        exact (settle_same hb hloop msg.userId tid hresult).1

end Input

end Freeclawdia.Secrecy
