import Freeclawdia.Correctness.SecretTurns

/-!
# `Correctness.SecretMessages` — no message tells two secrets apart

What is left of the handlers: approval with the calls deferred behind it, undo and redo, interruption, compaction, the
commands, tokens, hydration and thread resolution. Together they give `handleMessage_same`: whatever a user sends, the
reply is the same and the states show the same. Over a run of messages this is `messages_same`.
-/

namespace Freeclawdia.Secrecy

open Rust Redaction

variable {W : Type} {sens : String → List String} {mask : String → Json → Json} {R : W → W → Prop} {env : Env W}
  (hb : Blind env sens mask R)

/-! ## Approval -/

section Pending

variable {p p' : PendingApproval} (h : showPending mask p = showPending mask p')

include h in
theorem pending_requestId : p.requestId = p'.requestId := by
  have hid : (showPending mask p).requestId = (showPending mask p').requestId := by rw [h]
  exact hid

include h in
theorem pending_toolName : p.toolName = p'.toolName := by
  have hname : (showPending mask p).toolName = (showPending mask p').toolName := by rw [h]
  exact hname

include h in
theorem pending_toolCallId : p.toolCallId = p'.toolCallId := by
  have hid : (showPending mask p).toolCallId = (showPending mask p').toolCallId := by rw [h]
  exact hid

include h in
theorem pending_context : showContext mask p.contextMessages = showContext mask p'.contextMessages := by
  have hcontext : (showPending mask p).contextMessages = (showPending mask p').contextMessages := by rw [h]
  exact hcontext

include h in
theorem pending_deferred : p.deferredToolCalls.map (showCall mask) = p'.deferredToolCalls.map (showCall mask) := by
  have hdeferred : (showPending mask p).deferredToolCalls = (showPending mask p').deferredToolCalls := by rw [h]
  exact hdeferred

include h in
theorem pending_call : showCall mask p.call = showCall mask p'.call := by
  have hparams : (showPending mask p).parameters = (showPending mask p').parameters := by rw [h]
  show ToolCall.mk p.toolCallId p.toolName (mask p.toolName p.parameters)
    = ToolCall.mk p'.toolCallId p'.toolName (mask p'.toolName p'.parameters)
  rw [show mask p.toolName p.parameters = mask p'.toolName p'.parameters from hparams, pending_toolCallId h,
    pending_toolName h]

end Pending

section Approval

include hb in
/-- The walk over the deferred calls lets the same through and stops at the same one. -/
theorem deferredPreflight_same (auto : List String) {w w' : W} (hw : R w w') {calls calls' : List ToolCall}
    (h : calls.map (showCall mask) = calls'.map (showCall mask)) (idx : Nat) :
    (deferredPreflight env auto w idx calls).1.map (showCall mask)
        = (deferredPreflight env auto w' idx calls').1.map (showCall mask)
      ∧ (deferredPreflight env auto w idx calls).2.map (fun a => (a.1, showCall mask a.2.1, a.2.2))
        = (deferredPreflight env auto w' idx calls').2.map (fun a => (a.1, showCall mask a.2.1, a.2.2))
      ∧ ∀ a ∈ (deferredPreflight env auto w idx calls).2, a.2.2.sensitiveParams = sens a.2.1.name := by
  induction calls generalizing calls' idx with
  | nil =>
    obtain rfl : calls' = [] := List.map_eq_nil_iff.mp h.symm
    exact ⟨rfl, rfl, fun a ha => by cases ha⟩
  | cons tc rest ih =>
    obtain ⟨tc', rest', rfl, htc, hrest⟩ := List.map_eq_cons_iff.mp h.symm
    have htc := htc.symm
    have hwaits : (env.tool w tc.name).filter (fun t => needsApproval t tc auto)
        = (env.tool w' tc'.name).filter (fun t => needsApproval t tc' auto) := by
      rw [← hb.tool hw, ← call_name htc]
      cases htool : env.tool w tc.name with
      | none => rfl
      | some tool =>
        have hneeds : needsApproval tool tc auto = needsApproval tool tc' auto := by
          unfold needsApproval
          rw [hb.approval hw htool (call_mask htc), call_name htc]
        rw [Option.filter_some, Option.filter_some, hneeds]
    obtain ⟨hrunnable, happroval, hsens⟩ := ih hrest.symm (idx + 1)
    unfold deferredPreflight
    rw [← hwaits]
    cases hstop : (env.tool w tc.name).filter fun t => needsApproval t tc auto with
    | some tool =>
      refine ⟨rfl, ?_, ?_⟩
      · show some (idx, showCall mask tc, tool) = some (idx, showCall mask tc', tool)
        rw [htc]
      · rintro a ⟨⟩
        have hregistered := hb.registered hw tc.name
        rw [(Option.filter_eq_some_iff.mp hstop).1] at hregistered
        exact hregistered
    | none =>
      refine ⟨?_, happroval, hsens⟩
      show showCall mask tc :: _ = showCall mask tc' :: _
      rw [htc]
      exact congrArg _ hrunnable

/-- A result with its call masked. -/
def showRan (mask : String → Json → Json) (r : ToolCall × Except Error String) : ToolCall × Except Error String :=
  (showCall mask r.1, r.2)

theorem deferredResults_same {runnable runnable' : List ToolCall}
    (h : runnable.map (showCall mask) = runnable'.map (showCall mask)) (results : List (Nat × Except Error String)) :
    (deferredResults runnable results).map (showRan mask) = (deferredResults runnable' results).map (showRan mask) := by
  have hshown : ∀ calls : List ToolCall, (deferredResults calls results).map (showRan mask)
      = deferredResults (calls.map (showCall mask)) results := by
    intro calls
    unfold deferredResults
    rw [List.zipIdx_map, List.map_map, List.map_map]
    rfl
  rw [hshown runnable, hshown runnable', h]

/-- Post-flights of deferred calls that show the same. -/
structure SameDeferred (mask : String → Json → Json) (R : W → W → Prop) (p p' : DeferredPostflight W) : Prop where
  state : SameState mask R p.state p'.state
  context : showContext mask p.context = showContext mask p'.context
  deferredAuth : p.deferredAuth = p'.deferredAuth

variable {st st' : AgentState W} (h : SameState mask R st st') (user : String) (tid : Uuid)

include hb h in
theorem handleAuthIntercept_same (extName instructions : String) :
    SameState mask R (handleAuthIntercept env user tid extName instructions st)
      (handleAuthIntercept env user tid extName instructions st') := by
  unfold handleAuthIntercept
  rcases h.thread_cases user tid with ⟨ht, ht'⟩ | ⟨t, t', ht, ht', _⟩
  · rw [ht, ht']
    exact h
  · rw [ht, ht']
    have hintercepted : Overlooks mask fun t => (t.enterAuthMode extName).completeTurn instructions := fun t => rfl
    exact persistMessage_same hb ((h.overlook user tid hintercepted).emit rfl) tid user _ _

include hb in
theorem deferredPostflightCall_same {p p' : DeferredPostflight W} (hp : SameDeferred mask R p p')
    {r r' : ToolCall × Except Error String} (hr : showRan mask r = showRan mask r') :
    SameDeferred mask R (deferredPostflightCall env user tid p r) (deferredPostflightCall env user tid p' r') := by
  obtain ⟨tc, result⟩ := r
  obtain ⟨tc', result'⟩ := r'
  obtain ⟨htc, rfl⟩ : showCall mask tc = showCall mask tc' ∧ result = result' := Prod.mk.inj hr
  have hrecorded : SameState mask R (p.state.modifyThread user tid (Thread.modifyLastTurn (recordResult result)))
      (p'.state.modifyThread user tid (Thread.modifyLastTurn (recordResult result))) :=
    hp.state.overlook user tid fun t => rfl
  have hintercepted : SameDeferred mask R
      (interceptFirstAuth env user tid tc result
        { p with state := p.state.modifyThread user tid (Thread.modifyLastTurn (recordResult result)) })
      (interceptFirstAuth env user tid tc' result
        { p' with state := p'.state.modifyThread user tid (Thread.modifyLastTurn (recordResult result)) }) := by
    unfold interceptFirstAuth
    dsimp only
    rw [hp.deferredAuth, call_name htc]
    cases p'.deferredAuth with
    | some text => exact ⟨hrecorded, hp.context, rfl⟩
    | none =>
      cases checkAuthRequired env tc'.name result with
      | none => exact ⟨hrecorded, hp.context, rfl⟩
      | some auth => exact ⟨handleAuthIntercept_same hb hrecorded user tid _ _, hp.context, rfl⟩
  refine ⟨hintercepted.state, ?_, hintercepted.deferredAuth⟩
  unfold deferredPostflightCall
  dsimp only
  rw [call_id htc, call_name htc]
  exact showContext_append hintercepted.context _

include hb in
theorem deferredPostflight_same {rs rs' : List (ToolCall × Except Error String)}
    (hrs : rs.map (showRan mask) = rs'.map (showRan mask)) {p p' : DeferredPostflight W} (hp : SameDeferred mask R p p') :
    SameDeferred mask R (rs.foldl (deferredPostflightCall env user tid) p)
      (rs'.foldl (deferredPostflightCall env user tid) p') := by
  induction rs generalizing rs' p p' with
  | nil =>
    obtain rfl : rs' = [] := List.map_eq_nil_iff.mp hrs.symm
    exact hp
  | cons r rest ih =>
    obtain ⟨r', rest', rfl, hr, hrest⟩ := List.map_eq_cons_iff.mp hrs.symm
    exact ih hrest.symm (deferredPostflightCall_same hb user tid hp hr.symm)

include hb in
theorem afterDeferred_same {deferred deferred' : List ToolCall}
    (hdeferred : deferred.map (showCall mask) = deferred'.map (showCall mask))
    {approval approval' : Option (Nat × ToolCall × Tool)}
    (happroval : approval.map (fun a => (a.1, showCall mask a.2.1, a.2.2)) =
      approval'.map fun a => (a.1, showCall mask a.2.1, a.2.2))
    (hsens : ∀ a ∈ approval, a.2.2.sensitiveParams = sens a.2.1.name) {p p' : DeferredPostflight W}
    (hp : SameDeferred mask R p p') : SameStep mask R (afterDeferred env user tid deferred approval p)
      (afterDeferred env user tid deferred' approval' p') := by
  unfold afterDeferred
  rw [hp.deferredAuth]
  cases p'.deferredAuth with
  | some text => exact ⟨rfl, hp.state⟩
  | none =>
    cases approval with
    | none =>
      rw [Option.map_eq_none_iff.mp happroval.symm]
      obtain ⟨hresult, hloop⟩ := runLoop_same hb hp.state user tid hp.context
      exact (settle_same hb hloop user tid hresult).2
    | some a =>
      obtain ⟨a', rfl, ha'⟩ := Option.map_eq_some_iff.mp happroval.symm
      obtain ⟨idx, tc, tool⟩ := a
      obtain ⟨idx', tc', tool'⟩ := a'
      obtain ⟨rfl, htc, rfl⟩ : idx' = idx ∧ showCall mask tc' = showCall mask tc ∧ tool' = tool := by simpa using ha'
      have hrest : (deferred.drop (idx' + 1)).map (showCall mask) = (deferred'.drop (idx' + 1)).map (showCall mask) := by
        rw [List.map_drop, hdeferred, List.map_drop]
      have hdraw : SameStep mask R (p.state.draw env) (p'.state.draw env) := hp.state.draw
      dsimp only
      obtain ⟨newId, st₁, st₁', hfst, hsnd, h₁⟩ := pair_cases hdraw
      rw [hfst, hsnd]
      obtain ⟨hreport, hraised⟩ := raiseApproval_same h₁ user tid
        (showPending_same hb htc.symm (hsens _ rfl) hp.context hrest newId)
      exact ⟨congrArg Except.ok hreport, hraised⟩

include hb h in
/-- **The calls deferred behind an approval show the same.** -/
theorem replayDeferred_same {deferred deferred' : List ToolCall}
    (hdeferred : deferred.map (showCall mask) = deferred'.map (showCall mask)) {c c' : List ChatMessage}
    (hc : showContext mask c = showContext mask c') :
    SameStep mask R (replayDeferred env user tid deferred c st) (replayDeferred env user tid deferred' c' st') := by
  obtain ⟨hrunnable, happroval, hsens⟩ :=
    deferredPreflight_same hb (st.autoApproved user) h.trace.world hdeferred 0
  have htasks : (((deferredPreflight env (st.autoApproved user) st.trace.world 0 deferred).1.zipIdx.map
        fun t => (t.2, t.1)).map (showTask mask))
      = (((deferredPreflight env (st.autoApproved user) st'.trace.world 0 deferred').1.zipIdx.map
        fun t => (t.2, t.1)).map (showTask mask)) := by
    have hshown : ∀ calls : List ToolCall, (calls.zipIdx.map fun t => (t.2, t.1)).map (showTask mask)
        = (calls.map (showCall mask)).zipIdx.map fun t => (t.2, t.1) := by
      intro calls
      rw [List.zipIdx_map, List.map_map, List.map_map]
      rfl
    rw [hshown, hshown, hrunnable]
  obtain ⟨hresults, htrace⟩ := executeRunnable_same hb (st.autoApproved user) .deferred htasks h.trace
  unfold replayDeferred
  rw [← h.autoApproved user]
  dsimp only
  rw [hresults]
  refine afterDeferred_same hb user tid hdeferred happroval hsens ?_
  exact deferredPostflight_same hb user tid (deferredResults_same hrunnable _) ⟨h.withTrace htrace, hc, rfl⟩

include h in
theorem grantApproval_same {p p' : PendingApproval} (hp : showPending mask p = showPending mask p') (always : Bool) :
    SameState mask R (grantApproval user tid p always st) (grantApproval user tid p' always st') := by
  unfold grantApproval
  have hnoted : SameState mask R (noteAlways user p.toolName always st) (noteAlways user p'.toolName always st') := by
    unfold noteAlways
    rw [pending_toolName hp]
    split
    · refine h.modifySession user fun s s' hs => ⟨hs.id, hs.userId, hs.activeThread, hs.lastActiveAt, ?_, hs.threads⟩
      show s.autoApprovedTools.insert p'.toolName = s'.autoApprovedTools.insert p'.toolName
      rw [hs.autoApprovedTools]
    · exact h
  exact hnoted.overlook user tid fun t => rfl

include hb h in
/-- **An approved call resumes the same.** -/
theorem resumeApproved_same {p p' : PendingApproval} (hp : showPending mask p = showPending mask p') (always : Bool) :
    SameStep mask R (resumeApproved env user tid p always st) (resumeApproved env user tid p' always st') := by
  have hgranted := grantApproval_same h user tid hp always
  unfold resumeApproved executeApproved
  generalize grantApproval user tid p always st = st₁ at hgranted ⊢
  generalize grantApproval user tid p' always st' = st₁' at hgranted ⊢
  have hrun := executeChatTool_same hb (st₁.autoApproved user) (.approved p.requestId) (pending_call hp) hgranted.trace
  rw [← hgranted.autoApproved user, ← pending_requestId hp]
  obtain ⟨result, tr, tr', hfst, hsnd, htrace⟩ := pair_cases hrun
  rw [hfst, hsnd]
  have hrecorded : SameState mask R
      ({ st₁ with trace := tr }.modifyThread user tid (Thread.modifyLastTurn (recordResult result)))
      ({ st₁' with trace := tr' }.modifyThread user tid (Thread.modifyLastTurn (recordResult result))) :=
    (hgranted.withTrace htrace).overlook user tid fun t => rfl
  dsimp only
  rw [← pending_toolName hp]
  cases checkAuthRequired env p.toolName result with
  | some auth => exact ⟨rfl, handleAuthIntercept_same hb hrecorded user tid _ _⟩
  | none =>
    dsimp only
    rw [← pending_toolCallId hp]
    exact replayDeferred_same hb hrecorded user tid (pending_deferred hp) (showContext_append (pending_context hp) _)

include hb h in
/-- **Approval shows the same**, whatever is answered. -/
theorem processApproval_same (requestId : Option Uuid) (approved always : Bool) :
    SameStep mask R (processApproval env user tid requestId approved always st)
      (processApproval env user tid requestId approved always st') := by
  unfold processApproval
  rcases h.thread_cases user tid with ⟨ht, ht'⟩ | ⟨t, t', ht, ht', hshown⟩
  · rw [ht, ht']
    exact ⟨rfl, h⟩
  · rw [ht, ht']
    dsimp only
    rw [thread_state hshown]
    split
    · exact ⟨rfl, h⟩
    · have hpending := thread_pending hshown
      have htaken : showThread mask t.takePendingApproval.2 = showThread mask t'.takePendingApproval.2 := by
        show { showThread mask t with pendingApproval := none } = { showThread mask t' with pendingApproval := none }
        rw [hshown]
      unfold Thread.takePendingApproval at htaken ⊢
      rcases option_map_cases hpending with ⟨hp, hp'⟩ | ⟨p, p', hp, hp', hps⟩
      · rw [hp, hp']
        exact ⟨rfl, h⟩
      · rw [hp, hp'] at htaken ⊢
        have h₁ := h.setThread user tid htaken
        dsimp only
        rw [pending_requestId hps]
        split
        · refine ⟨rfl, h₁.modifyThread user tid fun t t' ht => ?_⟩
          show { showThread mask t with state := .awaitingApproval, pendingApproval := some (showPending mask p) }
            = { showThread mask t' with state := .awaitingApproval, pendingApproval := some (showPending mask p') }
          rw [ht, hps]
        · split
          · exact resumeApproved_same hb h₁ user tid hps always
          · unfold rejectApproval
            rw [pending_toolName hps]
            have hrejected : Overlooks mask fun t =>
                t.clearPendingApproval.completeTurn (rejectionText p'.toolName) := fun t => rfl
            exact ⟨rfl, persistMessage_same hb ((h₁.overlook user tid hrejected).emit rfl) tid user _ _⟩

end Approval

/-! ## The other handlers -/

section Handlers

variable {st st' : AgentState W} (h : SameState mask R st st')

theorem restoreFromMessages_show (messages : List ChatMessage) :
    Overlooks mask (Thread.restoreFromMessages · messages) := fun _ => rfl

variable (env) in
include h in
theorem moveInHistory_same (possible : UndoManager → Bool)
    (move : UndoManager → Uuid → Nat → List ChatMessage → Option Checkpoint × UndoManager) (nothing failed : String)
    (moved : Checkpoint → UndoManager → String) (user : String) (tid : Uuid) :
    SameStep mask R (moveInHistory env possible move nothing failed moved user tid st)
      (moveInHistory env possible move nothing failed moved user tid st') := by
  have hundo := h.undoManager tid
  unfold moveInHistory
  obtain ⟨mgr, st₁, st₁', hfst, hsnd, h₁⟩ := pair_cases hundo
  rw [hfst, hsnd]
  dsimp only
  split
  · exact ⟨rfl, h₁⟩
  · rcases h₁.thread_cases user tid with ⟨ht, ht'⟩ | ⟨t, t', ht, ht', hshown⟩
    · rw [ht, ht']
      exact ⟨rfl, h₁⟩
    · rw [ht, ht']
      have hdraw : SameStep mask R (st₁.draw env) (st₁'.draw env) := h₁.draw
      dsimp only
      obtain ⟨newId, st₂, st₂', hfst, hsnd, h₂⟩ := pair_cases hdraw
      rw [hfst, hsnd]
      dsimp only
      rw [thread_turnNumber hshown, thread_messages hshown]
      rcases move mgr newId t'.turnNumber t'.messages with ⟨_ | checkpoint, mgr'⟩
      · exact ⟨rfl, h₂.setUndo tid mgr'⟩
      · exact ⟨rfl, (h₂.setUndo tid mgr').overlook user tid (restoreFromMessages_show _)⟩

variable (user : String) (tid : Uuid)

include h in
theorem processResume_same (checkpointId : Uuid) :
    SameStep mask R (processResume user tid checkpointId st) (processResume user tid checkpointId st') := by
  have hundo := h.undoManager tid
  unfold processResume
  obtain ⟨mgr, st₁, st₁', hfst, hsnd, h₁⟩ := pair_cases hundo
  rw [hfst, hsnd]
  dsimp only
  rcases mgr.restore checkpointId with ⟨_ | checkpoint, mgr'⟩
  · exact ⟨rfl, h₁⟩
  · rcases h₁.thread_cases user tid with ⟨ht, ht'⟩ | ⟨t, t', ht, ht', _⟩
    · rw [ht, ht']
      exact ⟨rfl, h₁.setUndo tid mgr'⟩
    · rw [ht, ht']
      exact ⟨rfl, (h₁.setUndo tid mgr').overlook user tid (restoreFromMessages_show _)⟩

include h in
theorem processInterrupt_same : SameStep mask R (processInterrupt user tid st) (processInterrupt user tid st') := by
  unfold processInterrupt
  rcases h.thread_cases user tid with ⟨ht, ht'⟩ | ⟨t, t', ht, ht', hshown⟩
  · rw [ht, ht']
    exact ⟨rfl, h⟩
  · rw [ht, ht']
    dsimp only
    rw [thread_state hshown]
    split
    · exact ⟨rfl, h.overlook user tid fun t => rfl⟩
    · exact ⟨rfl, h⟩

include h in
theorem processClear_same : SameStep mask R (processClear user tid st) (processClear user tid st') := by
  unfold processClear
  rcases h.thread_cases user tid with ⟨ht, ht'⟩ | ⟨t, t', ht, ht', _⟩
  · rw [ht, ht']
    exact ⟨rfl, h⟩
  · rw [ht, ht']
    have hcleared : Overlooks mask fun t => { t with turns := [], state := .idle } := fun t => rfl
    have hundo := (h.overlook user tid hcleared).undoManager tid
    dsimp only
    obtain ⟨mgr, st₁, st₁', hfst, hsnd, h₁⟩ := pair_cases hundo
    rw [hfst, hsnd]
    exact ⟨rfl, h₁.setUndo tid _⟩

variable {s s' : Session}

/-- Creating a thread that is not there, and switching to one. -/
theorem SameSession.createThread (hs : SameSession mask s s') (newId : Uuid) (now : Time) :
    SameSession mask (s.createThread newId now) (s'.createThread newId now) := by
  refine ⟨hs.id, hs.userId, rfl, rfl, hs.autoApprovedTools, fun tid => ?_⟩
  show ((Map.insertIfAbsent newId _ s.threads).lookup tid).map _ =
    ((Map.insertIfAbsent newId _ s'.threads).lookup tid).map _
  by_cases htid : tid = newId
  · subst htid
    have hat := hs.threads tid
    rw [Map.lookup_insertIfAbsent_self, Map.lookup_insertIfAbsent_self]
    rcases option_map_cases hat with ⟨ht, ht'⟩ | ⟨t, t', ht, ht', hshown⟩
    · rw [ht, ht']
    · rw [ht, ht']
      exact congrArg some hshown
  · rw [Map.lookup_insertIfAbsent_ne _ _ htid, Map.lookup_insertIfAbsent_ne _ _ htid]
    exact hs.threads tid

theorem SameSession.switchThread (hs : SameSession mask s s') (target : Uuid) (now : Time) :
    SameSession mask (s.switchThread target now).2 (s'.switchThread target now).2 := by
  have hheld : (s.threads.lookup target).isSome = (s'.threads.lookup target).isSome := by
    have hat := congrArg Option.isSome (hs.threads target)
    simpa using hat
  unfold Session.switchThread
  rw [hheld]
  split
  · exact ⟨hs.id, hs.userId, rfl, rfl, hs.autoApprovedTools, hs.threads⟩
  · exact hs

variable (env) in
include h in
theorem processNewThread_same (user : String) (now : Time) :
    SameStep mask R (processNewThread env user now st) (processNewThread env user now st') := by
  have hdraw : SameStep mask R (st.draw env) (st'.draw env) := h.draw
  unfold processNewThread
  obtain ⟨newId, st₁, st₁', hfst, hsnd, h₁⟩ := pair_cases hdraw
  rw [hfst, hsnd]
  exact ⟨rfl, h₁.modifySession user fun s s' hs => hs.createThread newId now⟩

include h in
theorem processSwitchThread_same (target : Uuid) (now : Time) :
    SameStep mask R (processSwitchThread user target now st) (processSwitchThread user target now st') := by
  unfold processSwitchThread
  rw [h.holdsThread user target]
  split
  · exact ⟨rfl, h.modifySession user fun s s' hs => hs.switchThread target now⟩
  · exact ⟨rfl, h⟩

include hb h in
theorem processCompact_same : SameStep mask R (processCompact env user tid st) (processCompact env user tid st') := by
  unfold processCompact
  rcases h.thread_cases user tid with ⟨ht, ht'⟩ | ⟨t, t', ht, ht', hshown⟩
  · rw [ht, ht']
    exact ⟨rfl, h⟩
  · rw [ht, ht']
    dsimp only
    rw [thread_messages hshown]
    have hcompact := compactThread_same hb hshown ((env.suggestCompaction t'.messages).getD (.summarize 5)) h.trace
    generalize compactThread env t ((env.suggestCompaction t'.messages).getD (.summarize 5)) st.trace = c at hcompact ⊢
    generalize compactThread env t' ((env.suggestCompaction t'.messages).getD (.summarize 5)) st'.trace = c'
      at hcompact ⊢
    obtain ⟨result, u, tr⟩ := c
    obtain ⟨result', u', tr'⟩ := c'
    obtain ⟨rfl, hu, htr⟩ : result = result' ∧ showThread mask u = showThread mask u' ∧ SameTrace R tr tr' := hcompact
    have hset := (h.withTrace htr).setThread user tid hu
    cases result with
    | error e => exact ⟨rfl, hset⟩
    | ok result =>
      refine ⟨?_, hset⟩
      dsimp only
      rw [thread_messages hu]

include hb h in
theorem askAboutThread_same (instruction question empty heading failure user : String) (tid : Uuid) :
    SameStep mask R (askAboutThread env instruction question empty heading failure user tid st)
      (askAboutThread env instruction question empty heading failure user tid st') := by
  unfold askAboutThread
  rcases h.thread_cases user tid with ⟨ht, ht'⟩ | ⟨t, t', ht, ht', hshown⟩
  · rw [ht, ht']
    exact ⟨rfl, h⟩
  · rw [ht, ht']
    dsimp only
    rw [thread_messages hshown]
    split
    · exact ⟨rfl, h⟩
    · have hanswer := completeText_same hb
        (rfl : showContext mask (questionContext instruction question t'.messages) = _) h.trace
      obtain ⟨a, tr, tr', hfst, hsnd, htr⟩ := pair_cases hanswer
      rw [hfst, hsnd]
      cases a with
      | error e => exact ⟨rfl, h.withTrace htr⟩
      | ok text => exact ⟨rfl, h.withTrace htr⟩

end Handlers

/-! ## Tokens, hydration, thread resolution -/

section Locating

variable {st st' : AgentState W} (h : SameState mask R st st') {cmds : CommandEnv W}
  (hcmds : BlindCommands cmds env R)

include h hcmds in
theorem processAuthToken_same (user : String) (tid : Uuid) (pending : PendingAuth) (content : String) :
    SameStep mask R (processAuthToken env user tid pending content st)
      (processAuthToken env user tid pending content st') := by
  have hleft : Overlooks mask fun t => { t with pendingAuth := none } := fun t => rfl
  have h₁ := h.overlook user tid hleft
  unfold processAuthToken
  dsimp only
  generalize (st.modifyThread user tid fun t => { t with pendingAuth := none }) = st₁ at h₁ ⊢
  generalize (st'.modifyThread user tid fun t => { t with pendingAuth := none }) = st₁' at h₁ ⊢
  split
  · have hauth := hcmds.auth h₁.trace.world pending.extensionName (trim content)
    obtain ⟨outcome, w, w', hfst, hsnd, hw⟩ := pair_cases hauth
    rw [hfst, hsnd]
    cases outcome with
    | authenticated =>
      have hactivate := hcmds.activate hw pending.extensionName
      dsimp only
      obtain ⟨loaded, v, v', hfst, hsnd, hv⟩ := pair_cases hactivate
      rw [hfst, hsnd]
      cases loaded with
      | ok tools => exact ⟨rfl, h₁.withTrace (h₁.trace.withWorld hv)⟩
      | error e => exact ⟨rfl, h₁.withTrace (h₁.trace.withWorld hv)⟩
    | rejected instructions => exact ⟨rfl, (h₁.withTrace (h₁.trace.withWorld hw)).overlook user tid fun t => rfl⟩
    | failed e => exact ⟨rfl, h₁.withTrace (h₁.trace.withWorld hw)⟩
  · exact ⟨rfl, h₁⟩

theorem SameSession.refl (s : Session) : SameSession mask s s := ⟨rfl, rfl, rfl, rfl, rfl, fun _ => rfl⟩

variable {s s' : Session} {m m' : SessionManager}

theorem SameManager.insertIfAbsent (hm : SameManager mask m m') (user : String) (hs : SameSession mask s s') :
    SameManager mask { m with sessions := Map.insertIfAbsent user s m.sessions }
      { m' with sessions := Map.insertIfAbsent user s' m'.sessions } := by
  refine ⟨fun user' => ?_, hm.threadMap, hm.undoManagers⟩
  show Option.Rel _ ((Map.insertIfAbsent user s m.sessions).lookup user')
    ((Map.insertIfAbsent user s' m'.sessions).lookup user')
  by_cases huser : user' = user
  · subst huser
    rw [Map.lookup_insertIfAbsent_self, Map.lookup_insertIfAbsent_self]
    have hsession : Option.Rel (SameSession mask) (m.sessions.lookup user') (m'.sessions.lookup user') :=
      hm.sessions user'
    revert hsession
    generalize m.sessions.lookup user' = o
    generalize m'.sessions.lookup user' = o'
    rintro (⟨hsame⟩ | _)
    · exact Option.Rel.some hsame
    · exact Option.Rel.some hs
  · rw [Map.lookup_insertIfAbsent_ne _ _ huser, Map.lookup_insertIfAbsent_ne _ _ huser]
    exact hm.sessions user'

theorem SameManager.holdsThread (hm : SameManager mask m m') (user : String) (tid : Uuid) :
    m.holdsThread user tid = m'.holdsThread user tid := by
  have hsession := hm.sessions user
  unfold SessionManager.holdsThread
  revert hsession
  generalize m.session user = o
  generalize m'.session user = o'
  rintro (⟨hsame⟩ | _)
  · have hat := congrArg Option.isSome (hsame.threads tid)
    simpa using hat
  · rfl

theorem resolveThread_same (hm : SameManager mask m m') (user channel : String) (external : Option String)
    (sid newTid : Uuid) (now : Time) :
    SameRun (SameManager mask) (m.resolveThread user channel external sid newTid now)
      (m'.resolveThread user channel external sid newTid now) := by
  have hmade : SameManager mask (m.getOrCreateSession user sid now) (m'.getOrCreateSession user sid now) :=
    hm.insertIfAbsent user (SameSession.refl _)
  unfold SessionManager.resolveThread
  dsimp only
  generalize m.getOrCreateSession user sid now = n at hmade ⊢
  generalize m'.getOrCreateSession user sid now = n' at hmade ⊢
  have hmapped : n.mapped ⟨user, channel, external⟩ = n'.mapped ⟨user, channel, external⟩ := by
    unfold SessionManager.mapped
    rw [hmade.threadMap]
    congr 1
    funext tid
    exact hmade.holdsThread user tid
  have hadopted : n.adoptable user external = n'.adoptable user external := by
    unfold SessionManager.adoptable
    rw [hmade.threadMap]
    cases external.bind Uuid.parseStr with
    | none => rfl
    | some extUuid =>
      dsimp only
      rw [hmade.holdsThread user extUuid]
  rw [hmapped, hadopted, hmade.threadMap, hmade.undoManagers]
  cases n'.mapped ⟨user, channel, external⟩ with
  | some tid => exact ⟨rfl, hmade⟩
  | none =>
    cases n'.adoptable user external with
    | some extUuid => exact ⟨rfl, hmade.sessions, rfl, rfl⟩
    | none =>
      have hcreated := hmade.modifySession user fun s s' hs => hs.createThread newTid now
      refine ⟨rfl, hcreated.sessions, ?_, ?_⟩
      · show (n.modifySession user _).threadMap.insert _ _ = (n'.modifySession user _).threadMap.insert _ _
        rw [hcreated.threadMap]
      · show (n.modifySession user _).undoManagers.insert _ _ = (n'.modifySession user _).undoManagers.insert _ _
        rw [hcreated.undoManagers]

theorem SameSession.insertHydrated (hs : SameSession mask s s') (thread : Thread) (now : Time) :
    SameSession mask (insertHydrated thread now s) (insertHydrated thread now s') := by
  refine ⟨hs.id, hs.userId, rfl, rfl, hs.autoApprovedTools, fun tid => ?_⟩
  show ((s.threads.insert thread.id thread).lookup tid).map _ = ((s'.threads.insert thread.id thread).lookup tid).map _
  rw [Map.lookup_insert_ite, Map.lookup_insert_ite]
  split
  · rfl
  · exact hs.threads tid

theorem SameManager.insert (hm : SameManager mask m m') (user : String) (hs : SameSession mask s s') :
    SameManager mask { m with sessions := m.sessions.insert user s }
      { m' with sessions := m'.sessions.insert user s' } := by
  refine ⟨fun user' => ?_, hm.threadMap, hm.undoManagers⟩
  show Option.Rel _ ((m.sessions.insert user s).lookup user') ((m'.sessions.insert user s').lookup user')
  rw [Map.lookup_insert_ite, Map.lookup_insert_ite]
  split
  · exact Option.Rel.some hs
  · exact hm.sessions user'

theorem hydrateThread_same (hm : SameManager mask m m') (user channel : String) (tid : Uuid) (messages : List ChatMessage)
    (now : Time) :
    SameManager mask (m.hydrateThread user channel tid messages now) (m'.hydrateThread user channel tid messages now) := by
  have hsession := hm.sessions user
  unfold SessionManager.hydrateThread
  generalize m.session user = o at hsession ⊢
  generalize m'.session user = o' at hsession ⊢
  cases hsession with
  | none => exact hm
  | some hsame =>
    have hhydrated := hsame.insertHydrated (hydratedThread tid messages) now
    have hregistered := (hm.insert user hhydrated).insertIfAbsent user hhydrated
    refine ⟨hregistered.sessions, ?_, ?_⟩
    · show m.threadMap.insert _ _ = m'.threadMap.insert _ _
      rw [hm.threadMap]
    · show Map.insertIfAbsent tid _ m.undoManagers = Map.insertIfAbsent tid _ m'.undoManagers
      rw [hm.undoManagers]

include hb h in
theorem loadHistory_same (tid : Uuid) : SameStep mask R (loadHistory env tid st) (loadHistory env tid st') := by
  unfold loadHistory
  split
  · have hcall := h.callStore hb
    obtain ⟨ok, st₁, st₁', hfst, hsnd, h₁⟩ := pair_cases hcall
    rw [hfst, hsnd]
    cases ok with
    | false => exact ⟨rfl, h₁⟩
    | true =>
      refine ⟨?_, h₁⟩
      dsimp only
      rw [h₁.store]
  · exact ⟨rfl, h⟩

include h in
theorem SameState.withManager {m m' : SessionManager} (hm : SameManager mask m m') :
    SameState mask R { st with manager := m } { st' with manager := m' } := ⟨hm, h.store, h.trace⟩

include hb h in
theorem maybeHydrateThread_same (msg : IncomingMessage) (ext : String) (now : Time) :
    SameState mask R (maybeHydrateThread env msg ext now st) (maybeHydrateThread env msg ext now st') := by
  unfold maybeHydrateThread
  cases Uuid.parseStr ext with
  | none => exact h
  | some tid =>
    have hdraw : SameStep mask R (st.draw env) (st'.draw env) := h.draw
    have hensured : SameState mask R (ensureSession env msg.userId now st) (ensureSession env msg.userId now st') := by
      have hid : (st.trace.draw env).1 = (st'.trace.draw env).1 := hdraw.1
      unfold ensureSession SessionManager.getOrCreateSession
      rw [hid]
      exact hdraw.2.withManager (h.manager.insertIfAbsent msg.userId (SameSession.refl _))
    dsimp only
    generalize ensureSession env msg.userId now st = st₁ at hensured ⊢
    generalize ensureSession env msg.userId now st' = st₁' at hensured ⊢
    rw [hensured.holdsThread msg.userId tid]
    split
    · exact hensured
    · have hload := loadHistory_same hb hensured tid
      unfold hydrateMissing
      obtain ⟨rows, st₂, st₂', hfst, hsnd, h₂⟩ := pair_cases hload
      rw [hfst, hsnd]
      exact h₂.withManager (hydrateThread_same h₂.manager msg.userId msg.channel tid _ now)

variable (env) in
include h in
/-- Resolving with two identifiers drawn for it. -/
theorem resolveDrawn_same (user channel : String) (external : Option String) (now : Time) :
    let drawn := fun s : AgentState W => (s.draw env).2.draw env
    let resolved := fun s : AgentState W =>
      (drawn s).2.manager.resolveThread user channel external (s.draw env).1 (drawn s).1 now
    SameStep mask R ((resolved st).1, { (drawn st).2 with manager := (resolved st).2 })
      ((resolved st').1, { (drawn st').2 with manager := (resolved st').2 }) := by
  dsimp only
  obtain ⟨hsid, h₂⟩ : SameStep mask R (st.draw env) (st'.draw env) := h.draw
  obtain ⟨htid, h₃⟩ : SameStep mask R ((st.draw env).2.draw env) ((st'.draw env).2.draw env) := h₂.draw
  rw [hsid, htid]
  obtain ⟨htid, hmanager⟩ := resolveThread_same h₃.manager user channel external (st'.draw env).1
    ((st'.draw env).2.draw env).1 now
  exact ⟨htid, h₃.withManager hmanager⟩

include hb h in
theorem locateThread_same (msg : IncomingMessage) (now : Time) :
    SameStep mask R (locateThread env msg now st) (locateThread env msg now st') := by
  unfold locateThread
  cases hext : msg.threadId with
  | none => exact resolveDrawn_same env h msg.userId msg.channel none now
  | some ext =>
    exact resolveDrawn_same env (maybeHydrateThread_same hb h msg ext now) msg.userId msg.channel (some ext) now

include hb h in
theorem inboundHook_same (msg : IncomingMessage) (submission : Submission) :
    SameStep mask R (inboundHook env msg submission st) (inboundHook env msg submission st') := by
  unfold inboundHook
  split
  · rename_i content
    have hrun := h.runHooks hb (.inbound msg.userId msg.channel content msg.threadId)
    obtain ⟨result, st₁, st₁', hfst, hsnd, h₁⟩ := pair_cases hrun
    rw [hfst, hsnd]
    rcases result with e | modified | reason
    · cases e with
      | rejected reason => exact ⟨rfl, h₁⟩
      | executionFailed reason => exact ⟨rfl, h₁⟩
      | timeout t => exact ⟨rfl, h₁⟩
    · cases modified with
      | none => exact ⟨rfl, h₁⟩
      | some text => exact ⟨rfl, h₁⟩
    · exact ⟨rfl, h₁⟩
  · exact ⟨rfl, h⟩

end Locating

/-! ## A message -/

section Message

variable {st st' : AgentState W} (h : SameState mask R st st') {cmds : CommandEnv W}
  (hcmds : BlindCommands cmds env R)

include h in
theorem onWorld_same {r r' : SubmissionResult × W} (hr : r.1 = r'.1 ∧ R r.2 r'.2) :
    SameStep mask R (onWorld st r) (onWorld st' r') :=
  ⟨congrArg Except.ok hr.1, h.withTrace (h.trace.withWorld hr.2)⟩

variable (msg : IncomingMessage)

include hb hcmds h in
/-- **Every handler shows the same.** -/
theorem dispatch_same (now : Time) (tid : Uuid) (submission : Submission) :
    Option.Rel (SameStep mask R) (dispatch env cmds msg now tid submission st)
      (dispatch env cmds msg now tid submission st') := by
  cases submission with
  | userInput content => exact .some (processUserInput_same hb h hcmds msg tid content)
  | systemCommand command args =>
    exact .some (onWorld_same h (hcmds.systemCommand h.trace.world command args msg.channel))
  | undo => exact .some (moveInHistory_same env h _ _ _ _ _ msg.userId tid)
  | redo => exact .some (moveInHistory_same env h _ _ _ _ _ msg.userId tid)
  | interrupt => exact .some (processInterrupt_same h msg.userId tid)
  | compact => exact .some (processCompact_same hb h msg.userId tid)
  | clear => exact .some (processClear_same h msg.userId tid)
  | newThread => exact .some (processNewThread_same env h msg.userId now)
  | heartbeat => exact .some (onWorld_same h (hcmds.heartbeat h.trace.world))
  | summarize => exact .some (askAboutThread_same hb h _ _ _ _ _ msg.userId tid)
  | suggest => exact .some (askAboutThread_same hb h _ _ _ _ _ msg.userId tid)
  | jobStatus jobId => exact .some ⟨congrArg Except.ok (hcmds.jobStatus h.trace.world msg.userId jobId), h⟩
  | jobCancel jobId => exact .some (onWorld_same h (hcmds.jobCancel h.trace.world msg.userId jobId))
  | quit => exact .none
  | switchThread target => exact .some (processSwitchThread_same h msg.userId target now)
  | resume checkpointId => exact .some (processResume_same h msg.userId tid checkpointId)
  | execApproval requestId approved always =>
    exact .some (processApproval_same hb h msg.userId tid (some requestId) approved always)
  | approvalResponse approved always => exact .some (processApproval_same hb h msg.userId tid none approved always)

include hb hcmds h in
theorem handleSubmission_same (now : Time) (tid : Uuid) (submission : Submission) :
    SameStep mask R (handleSubmission env cmds msg now tid submission st)
      (handleSubmission env cmds msg now tid submission st') := by
  have hdispatch := dispatch_same hb h hcmds msg now tid submission
  unfold handleSubmission
  generalize dispatch env cmds msg now tid submission st = o at hdispatch ⊢
  generalize dispatch env cmds msg now tid submission st' = o' at hdispatch ⊢
  cases hdispatch with
  | none => exact ⟨rfl, h⟩
  | some hstep => exact ⟨congrArg (Except.map replyOf) hstep.1, hstep.2⟩

include hb hcmds h in
theorem handleResolved_same (now : Time) (tid : Uuid) (submission : Submission) :
    SameStep mask R (handleResolved env cmds msg now tid submission st)
      (handleResolved env cmds msg now tid submission st') := by
  have hauth : (st.thread msg.userId tid).bind (·.pendingAuth) = (st'.thread msg.userId tid).bind (·.pendingAuth) := by
    rcases h.thread_cases msg.userId tid with ⟨ht, ht'⟩ | ⟨t, t', ht, ht', hshown⟩
    · rw [ht, ht']
    · rw [ht, ht']
      exact thread_pendingAuth hshown
  have hcancelled : ∀ auth, SameState mask R (cancelAuth msg.userId tid auth st) (cancelAuth msg.userId tid auth st') := by
    intro auth
    unfold cancelAuth
    split
    · exact h.overlook msg.userId tid fun t => rfl
    · exact h
  unfold handleResolved
  rw [hauth]
  split
  · rename_i pending content _
    obtain ⟨hreply, hstate⟩ := processAuthToken_same h hcmds msg.userId tid pending content
    exact ⟨congrArg (fun r => Except.ok (some r)) hreply, hstate⟩
  · exact handleSubmission_same hb (hcancelled _) hcmds msg now tid _

include hb hcmds h in
/-- **A message shows the same**: the reply is the same, and so is everything but what a waiting request carries. -/
theorem handleMessage_same (now : Time) :
    SameStep mask R (handleMessage env cmds msg now st) (handleMessage env cmds msg now st') := by
  have hinbound := inboundHook_same hb h msg (SubmissionParser.parse env.decodeExecApproval msg.content)
  unfold handleMessage
  obtain ⟨submission, st₁, st₁', hfst, hsnd, h₁⟩ := pair_cases hinbound
  rw [hfst, hsnd]
  cases submission with
  | error reply => exact ⟨rfl, h₁⟩
  | ok submission =>
    have hlocated := locateThread_same hb h₁ msg now
    dsimp only
    obtain ⟨tid, st₂, st₂', hfst, hsnd, h₂⟩ := pair_cases hlocated
    rw [hfst, hsnd]
    exact handleResolved_same hb h₂ hcmds msg now tid submission

end Message

end Freeclawdia.Secrecy
