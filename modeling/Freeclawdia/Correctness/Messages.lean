import Freeclawdia.Correctness.Handlers

/-!
# `Correctness.Messages` — what handling one message can do

`handleMessage_effect` sums `handle_message` up. Apart from calm changes a message does one of two things to
tools and approval requests: it runs the agentic loop on plain messages and finishes the turn, or it takes the
request stored on a thread that is awaiting approval and resumes it. Everything about approval requests over
whole runs is a case analysis over these three.

Which of the three it is, and on what state it starts, is read off the message and the state before it
(`messageWork`), so that a condition on the tools a message runs can be stated before the message is handled.
-/

namespace Freeclawdia

open Rust

variable {W : Type}

/-- A submission that approves the request with the given identifier: one that names it, or a word. -/
inductive Submission.Approves (requestId : Uuid) (always : Bool) : Submission → Prop
  | named : Submission.Approves requestId always (.execApproval requestId true always)
  | word : Submission.Approves requestId always (.approvalResponse true always)

/-- The turn of a user input: run the loop, then finish the turn. -/
def runTurn (env : Env W) (user : String) (tid : Uuid) (context : List ChatMessage) (st : AgentState W) :
    Except Error SubmissionResult × AgentState W :=
  finishTurn env user tid (runLoop env user tid context st).1 (runLoop env user tid context st).2

/-- What a message does with tools: nothing, or the turn of a user input, or it resumes a request; with the
    state that starts in. -/
inductive MessageWork (W : Type)
  | nothing
  | turn (tid : Uuid) (context : List ChatMessage) (st : AgentState W)
  | resume (tid : Uuid) (pending : PendingApproval) (always : Bool) (st : AgentState W)

section Work

variable (env : Env W) (msg : IncomingMessage) (now : Time) (tid : Uuid) (st : AgentState W)

/-- User input opens a turn unless it is refused or is a command. -/
def inputWork (content : String) : MessageWork W :=
  match st.thread msg.userId tid with
  | none => .nothing
  | some thread =>
    match refuseInput env thread.state content, Router.routeCommand content with
    | none, none =>
      .turn tid ((autoCompact env thread st.trace).1.startTurn content).messages
        (openTurn env msg.userId tid content (autoCompact env thread st.trace).1
          { st with trace := (autoCompact env thread st.trace).2 })
    | _, _ => .nothing

/-- An approval resumes the request on the awaiting thread, if it approves that one. -/
def approvalWork (user : String) (requestId : Option Uuid) (approved always : Bool) : MessageWork W :=
  match st.thread user tid with
  | none => .nothing
  | some thread =>
    match thread.pendingApproval with
    | none => .nothing
    | some pending =>
      if thread.state = .awaitingApproval ∧ requestId.any (· ≠ pending.requestId) = false ∧ approved = true then
        .resume tid pending always (st.modifyThread user tid fun _ => thread.takePendingApproval.2)
      else .nothing

/-- The work of a submission. -/
def submissionWork : Submission → MessageWork W
  | .userInput content => inputWork env msg tid st content
  | .execApproval requestId approved always =>
    approvalWork tid st msg.userId (some requestId) approved always
  | .approvalResponse approved always => approvalWork tid st msg.userId none approved always
  | _ => .nothing

/-- The work of a submission on a located thread; in auth mode user input is a token. -/
def resolvedWork (submission : Submission) : MessageWork W :=
  match (st.thread msg.userId tid).bind (·.pendingAuth), submission with
  | some _, .userInput _ => .nothing
  | auth, submission => submissionWork env msg tid (cancelAuth msg.userId tid auth st) submission

/-- The work of a message. -/
def messageWork : MessageWork W :=
  match inboundHook env msg (SubmissionParser.parse env.decodeExecApproval msg.content) st with
  | (.error _, _) => .nothing
  | (.ok submission, st₁) =>
    resolvedWork env msg (locateThread env msg now st₁).1 (locateThread env msg now st₁).2 submission

end Work

section Cases

variable (env : Env W) (cmds : CommandEnv W) (msg : IncomingMessage) (now : Time) (tid : Uuid)
  (st : AgentState W)

/-- User input is refused, or is a command, or runs a turn. -/
theorem processUserInput_cases (content : String) :
    (inputWork env msg tid st content = .nothing ∧ Calm st (processUserInput env cmds msg tid content st).2)
      ∨ ∃ context st₁, inputWork env msg tid st content = .turn tid context st₁ ∧ Calm st st₁ ∧ Plain context
          ∧ processUserInput env cmds msg tid content st = runTurn env msg.userId tid context st₁ := by
  unfold processUserInput inputWork
  cases ht : st.thread msg.userId tid with
  | none => exact Or.inl ⟨rfl, Calm.refl st⟩
  | some thread =>
    dsimp only
    cases refuseInput env thread.state content with
    | some message => exact Or.inl ⟨rfl, Calm.refl st⟩
    | none =>
      dsimp only
      cases Router.routeCommand content with
      | some intent => exact Or.inl ⟨rfl, Calm.of_same rfl rfl⟩
      | none =>
        have hspec := autoCompact_spec env thread st.trace
        refine Or.inr ⟨((autoCompact env thread st.trace).1.startTurn content).messages,
          openTurn env msg.userId tid content (autoCompact env thread st.trace).1
            { st with trace := (autoCompact env thread st.trace).2 }, rfl, ?_, Thread.messages_plain _, rfl⟩
        refine (Calm.of_trace hspec.2).trans (openTurn_calm env msg.userId tid _ content _ ?_)
        intro t ht'
        have hsame : st.thread msg.userId tid = some t := ht'
        rw [ht] at hsame
        rw [← Option.some.inj hsame]
        exact hspec.pendingApproval

variable {thread : Thread} (user : String)

/-- Taking the request off a thread. -/
theorem takePendingApproval_calm (h : st.thread user tid = some thread) :
    Calm st (st.modifyThread user tid fun _ => thread.takePendingApproval.2)
      ∧ (st.modifyThread user tid fun _ => thread.takePendingApproval.2).pendingAt user tid = none := by
  refine ⟨Calm.modifyThread st user tid fun _ _ _ hp => (by cases hp), ?_⟩
  unfold AgentState.pendingAt
  rw [AgentState.thread_modifyThread_self, h]
  rfl

/-- Taking the request off a thread and putting it back. -/
theorem putBack_calm {pending : PendingApproval} (h : st.thread user tid = some thread)
    (hp : thread.pendingApproval = some pending) :
    Calm st ((st.modifyThread user tid fun _ => thread.takePendingApproval.2).modifyThread user tid
      (Thread.awaitApproval · pending)) := by
  refine ⟨Log.Grows.refl _ _, ?_⟩
  intro user' tid' p hp'
  unfold AgentState.pendingAt at hp' ⊢
  by_cases hloc : user' = user ∧ tid' = tid
  · obtain ⟨rfl, rfl⟩ := hloc
    rw [AgentState.thread_modifyThread_self, AgentState.thread_modifyThread_self, h] at hp'
    rw [h]
    exact hp.trans hp'
  · rw [AgentState.thread_modifyThread_ne _ user tid _ hloc,
      AgentState.thread_modifyThread_ne _ user tid _ hloc] at hp'
    exact hp'

section ApprovalWork

variable {tid st} {user : String} {requestId : Option Uuid} {approved always : Bool}

theorem approvalWork_of_none (h : st.thread user tid = some thread) (hp : thread.pendingApproval = none) :
    approvalWork tid st user requestId approved always = .nothing := by
  unfold approvalWork
  rw [h]
  dsimp only
  rw [hp]

/-- With a request on the thread, the work depends on the three checks of `process_approval`. -/
theorem approvalWork_of_some (h : st.thread user tid = some thread) {pending : PendingApproval}
    (hp : thread.pendingApproval = some pending) :
    approvalWork tid st user requestId approved always
      = if thread.state = .awaitingApproval ∧ requestId.any (· ≠ pending.requestId) = false ∧ approved = true then
          .resume tid pending always (st.modifyThread user tid fun _ => thread.takePendingApproval.2)
        else .nothing := by
  unfold approvalWork
  rw [h]
  dsimp only
  rw [hp]

end ApprovalWork

/-- An approval does nothing, or rejects, or resumes the request stored on the awaiting thread. -/
theorem processApproval_cases (requestId : Option Uuid) (approved always : Bool) :
    (approvalWork tid st user requestId approved always = .nothing
        ∧ Calm st (processApproval env user tid requestId approved always st).2)
      ∨ ∃ thread pending, st.thread user tid = some thread ∧ thread.state = .awaitingApproval
          ∧ thread.pendingApproval = some pending ∧ approved = true
          ∧ (∀ id, requestId = some id → id = pending.requestId)
          ∧ approvalWork tid st user requestId approved always = .resume tid pending always
              (st.modifyThread user tid fun _ => thread.takePendingApproval.2)
          ∧ processApproval env user tid requestId approved always st = resumeApproved env user tid pending always
                (st.modifyThread user tid fun _ => thread.takePendingApproval.2) := by
  unfold processApproval
  cases ht : st.thread user tid with
  | none =>
    refine Or.inl ⟨?_, Calm.refl st⟩
    unfold approvalWork
    rw [ht]
  | some thread =>
    dsimp only
    cases hp : thread.pendingApproval with
    | none =>
      have htake : thread.takePendingApproval = (none, thread.takePendingApproval.2) := by rw [← hp]; rfl
      refine Or.inl ⟨approvalWork_of_none ht hp, ?_⟩
      split
      · exact Calm.refl st
      · rw [htake]
        exact Calm.refl st
    | some pending =>
      have htake : thread.takePendingApproval = (some pending, thread.takePendingApproval.2) := by rw [← hp]; rfl
      rw [approvalWork_of_some ht hp]
      by_cases hstate : thread.state ≠ .awaitingApproval
      · rw [if_pos hstate, if_neg fun h => hstate h.1]
        exact Or.inl ⟨rfl, Calm.refl st⟩
      · rw [if_neg hstate, htake]
        dsimp only
        by_cases hid : requestId.any (· ≠ pending.requestId) = true
        · rw [if_pos hid, if_neg fun h => absurd (hid.symm.trans h.2.1) (by decide)]
          exact Or.inl ⟨rfl, putBack_calm tid st user ht hp⟩
        · rw [if_neg hid]
          cases approved with
          | false =>
            rw [if_neg (by simp)]
            exact Or.inl ⟨rfl, (takePendingApproval_calm tid st user ht).1.trans
              (rejectApproval_calm env user tid _ pending)⟩
          | true =>
            rw [if_pos ⟨not_not.mp hstate, Bool.eq_false_iff.mpr hid, rfl⟩]
            refine Or.inr ⟨thread, pending, rfl, not_not.mp hstate, hp, rfl, ?_, rfl, rfl⟩
            rintro id rfl
            simpa using hid

/-- What a message of a user, parsed to a submission and located on a thread, does to tools and requests, by
    its work. -/
inductive MessageEffect (user : String) (parsed : Submission) (tid : Uuid) (st : AgentState W) :
    MessageWork W → AgentState W → Prop
  | calm {st' : AgentState W} (h : Calm st st') : MessageEffect user parsed tid st .nothing st'
  | turn {st' : AgentState W} (context : List ChatMessage) (st₁ : AgentState W)
      (h : Calm st st₁) (hplain : Plain context) (hr : st' = (runTurn env user tid context st₁).2) :
      MessageEffect user parsed tid st (.turn tid context st₁) st'
  /-- The request was on the awaiting thread when the message arrived; `st₁` is the state in which it has
      been taken off. -/
  | resumed {st' : AgentState W} (thread : Thread) (pending : PendingApproval) (always : Bool)
      (st₁ : AgentState W) (hthread : st.thread user tid = some thread)
      (hstate : thread.state = .awaitingApproval) (hpending : thread.pendingApproval = some pending)
      (happroves : parsed.Approves pending.requestId always)
      (h : Calm st st₁) (htaken : st₁.pendingAt user tid = none)
      (hr : st' = (resumeApproved env user tid pending always st₁).2) :
      MessageEffect user parsed tid st (.resume tid pending always st₁) st'

variable {parsed : Submission}

/-- An approving or rejecting submission. -/
theorem processApproval_effect (requestId : Option Uuid) (approved always : Bool)
    (happ : ∀ id, approved = true → (∀ id', requestId = some id' → id' = id) → parsed.Approves id always) :
    MessageEffect env msg.userId parsed tid st (approvalWork tid st msg.userId requestId approved always)
      (processApproval env msg.userId tid requestId approved always st).2 := by
  rcases processApproval_cases env tid st msg.userId requestId approved always with
    ⟨hw, h⟩ | ⟨thread, pending, ht, hstate, hp, hyes, hid, hw, hr⟩
  · rw [hw]
    exact .calm h
  · obtain ⟨hcalm, htaken⟩ := takePendingApproval_calm tid st msg.userId ht
    rw [hw, hr]
    exact .resumed thread pending always _ ht hstate hp (happ pending.requestId hyes hid) hcalm htaken rfl

variable {submission : Submission}

/-- The handlers, once the thread is located. Hooks may change the text of user input, nothing else. -/
theorem dispatch_effect (hsub : (∃ content, submission = .userInput content) ∨ submission = parsed)
    {r : Except Error SubmissionResult × AgentState W} (hd : dispatch env cmds msg now tid submission st = some r) :
    MessageEffect env msg.userId parsed tid st (submissionWork env msg tid st submission) r.2 := by
  cases submission with
  | userInput content =>
    cases hd
    rcases processUserInput_cases env cmds msg tid st content with ⟨hw, h⟩ | ⟨context, st₁, hw, h, hplain, hr⟩
    · rw [submissionWork, hw]
      exact .calm h
    · rw [submissionWork, hw]
      exact .turn context st₁ h hplain (by rw [hr])
  | execApproval requestId approved always =>
    cases hd
    refine processApproval_effect env msg tid st (some requestId) approved always ?_
    rintro id rfl hid
    rcases hsub with ⟨_, hsub⟩ | rfl
    · cases hsub
    · rw [hid requestId rfl]
      exact .named
  | approvalResponse approved always =>
    cases hd
    refine processApproval_effect env msg tid st none approved always ?_
    rintro id rfl _
    rcases hsub with ⟨_, hsub⟩ | rfl
    · cases hsub
    · exact .word
  | interrupt => cases hd; exact .calm (processInterrupt_calm msg.userId tid st)
  | compact => cases hd; exact .calm (processCompact_calm env msg.userId tid st)
  | undo => cases hd; exact .calm (moveInHistory_calm env msg.userId tid st _ _ _ _ _)
  | redo => cases hd; exact .calm (moveInHistory_calm env msg.userId tid st _ _ _ _ _)
  | resume checkpointId => cases hd; exact .calm (processResume_calm msg.userId tid st checkpointId)
  | clear => cases hd; exact .calm (processClear_calm msg.userId tid st)
  | switchThread target => cases hd; exact .calm (processSwitchThread_calm msg.userId st target now)
  | newThread => cases hd; exact .calm (processNewThread_calm env msg.userId st now)
  | heartbeat => cases hd; exact .calm (Calm.of_same rfl rfl)
  | summarize => cases hd; exact .calm (askAboutThread_calm env msg.userId tid st _ _ _ _ _)
  | suggest => cases hd; exact .calm (askAboutThread_calm env msg.userId tid st _ _ _ _ _)
  | jobStatus jobId => cases hd; exact .calm (Calm.refl st)
  | jobCancel jobId => cases hd; exact .calm (Calm.of_same rfl rfl)
  | quit => cases hd
  | systemCommand command args => cases hd; exact .calm (Calm.of_same rfl rfl)

theorem inboundHook_submission (h : (inboundHook env msg parsed st).1 = .ok submission) :
    (∃ content, submission = .userInput content) ∨ submission = parsed := by
  unfold inboundHook at h
  split at h
  · split at h
    · cases h
    · cases h
    · cases h
      exact Or.inl ⟨_, rfl⟩
    · cases h
      exact Or.inr rfl
  · cases h
    exact Or.inr rfl

/-- An effect after a calm change that moves no thread with a request. -/
theorem MessageEffect.after {user : String} {st₀ st₁ st₂ : AgentState W} {work : MessageWork W}
    (h : Calm st₀ st₁)
    (hthreads : ∀ tid t, st₁.thread user tid = some t → t.pendingApproval ≠ none →
      ∃ t₀, st₀.thread user tid = some t₀ ∧ t₀.state = t.state ∧ t₀.pendingApproval = t.pendingApproval)
    (he : MessageEffect env user parsed tid st₁ work st₂) : MessageEffect env user parsed tid st₀ work st₂ := by
  cases he with
  | calm h' => exact .calm (h.trans h')
  | turn context st' h' hplain hr => exact .turn context st' (h.trans h') hplain hr
  | resumed thread pending always st' hthread hstate hpending happroves h' htaken hr =>
    obtain ⟨t₀, ht₀, hs, hp⟩ := hthreads tid thread hthread (by rw [hpending]; simp)
    exact .resumed t₀ pending always st' ht₀ (hs.trans hstate) (hp.trans hpending) happroves
      (h.trans h') htaken hr

/-- Leaving auth mode changes neither states nor requests. -/
theorem cancelAuth_threads (auth : Option PendingAuth) {tid' : Uuid} {t : Thread}
    (h : (cancelAuth user tid auth st).thread user tid' = some t) :
    ∃ t₀, st.thread user tid' = some t₀ ∧ t₀.state = t.state ∧ t₀.pendingApproval = t.pendingApproval := by
  unfold cancelAuth at h
  split at h
  · by_cases ht : tid' = tid
    · subst ht
      rw [AgentState.thread_modifyThread_self] at h
      obtain ⟨t₀, ht₀, rfl⟩ := Option.map_eq_some_iff.mp h
      exact ⟨t₀, ht₀, rfl, rfl⟩
    · rw [AgentState.thread_modifyThread_ne _ user tid _ (fun hc => ht hc.2)] at h
      exact ⟨t, h, rfl, rfl⟩
  · exact ⟨t, h, rfl, rfl⟩

theorem cancelAuth_calm (auth : Option PendingAuth) : Calm st (cancelAuth user tid auth st) := by
  unfold cancelAuth
  split
  · exact Calm.modifyThread st user tid fun _ _ _ h => h
  · exact Calm.refl st

theorem handleSubmission_effect (hsub : (∃ content, submission = .userInput content) ∨ submission = parsed) :
    MessageEffect env msg.userId parsed tid st (submissionWork env msg tid st submission)
      (handleSubmission env cmds msg now tid submission st).2 := by
  unfold handleSubmission
  cases hd : dispatch env cmds msg now tid submission st with
  | none =>
    cases submission with
    | quit => exact .calm (Calm.refl st)
    | _ => cases hd
  | some r => exact dispatch_effect env cmds msg now tid st hsub hd

theorem handleResolved_effect (hsub : (∃ content, submission = .userInput content) ∨ submission = parsed) :
    MessageEffect env msg.userId parsed tid st (resolvedWork env msg tid st submission)
      (handleResolved env cmds msg now tid submission st).2 := by
  have hrest : ∀ auth : Option PendingAuth, MessageEffect env msg.userId parsed tid st
      (submissionWork env msg tid (cancelAuth msg.userId tid auth st) submission)
      (handleSubmission env cmds msg now tid submission (cancelAuth msg.userId tid auth st)).2 := by
    intro auth
    refine MessageEffect.after env tid (cancelAuth_calm tid st msg.userId auth) ?_
      (handleSubmission_effect env cmds msg now tid _ hsub)
    intro tid' t ht _
    exact cancelAuth_threads tid st msg.userId auth ht
  unfold handleResolved resolvedWork
  cases (st.thread msg.userId tid).bind (·.pendingAuth) with
  | none => exact hrest none
  | some pending =>
    cases submission with
    | userInput content => exact .calm (processAuthToken_calm env msg.userId tid st pending content)
    | _ => exact hrest (some pending)

/-- **Everything `handle_message` can do** to tools and approval requests. The thread is the one the message
    is located on after the inbound hooks; these run for user input only. -/
theorem handleMessage_effect : MessageEffect env msg.userId (SubmissionParser.parse env.decodeExecApproval msg.content)
      (locateThread env msg now
        (inboundHook env msg (SubmissionParser.parse env.decodeExecApproval msg.content) st).2).1
      st (messageWork env msg now st) (handleMessage env cmds msg now st).2 := by
  have hhook := inboundHook_calm env st msg (SubmissionParser.parse env.decodeExecApproval msg.content)
  have hman : (inboundHook env msg (SubmissionParser.parse env.decodeExecApproval msg.content) st).2.manager
      = st.manager := inboundHook_manager env st msg _
  unfold handleMessage messageWork
  generalize SubmissionParser.parse env.decodeExecApproval msg.content = parsed at hhook hman ⊢
  rcases hi : inboundHook env msg parsed st with ⟨reply | submission, st₁⟩
  · rw [hi] at hhook
    exact .calm hhook
  · rw [hi] at hhook hman
    have hsub : (∃ content, submission = .userInput content) ∨ submission = parsed :=
      inboundHook_submission env msg st (by rw [hi])
    refine MessageEffect.after env _ (hhook.trans (locateThread_calm env msg now st₁)) ?_
      (handleResolved_effect env cmds msg now _ _ hsub)
    intro tid t ht hp
    have hthread := locateThread_pending env msg now st₁ ht hp
    refine ⟨t, ?_, rfl, rfl⟩
    unfold AgentState.thread at hthread ⊢
    rw [← hman]
    exact hthread

/-- An approving submission meets no hooks on its way in. -/
theorem inboundHook_of_approves {requestId : Uuid} {always : Bool} (h : parsed.Approves requestId always) :
    (inboundHook env msg parsed st).2 = st := by
  cases h with
  | named => rfl
  | word => rfl

end Cases
end Freeclawdia
