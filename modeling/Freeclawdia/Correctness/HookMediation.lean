import Freeclawdia.Correctness.Requests
import Freeclawdia.Lib.Runs

/-!
# `Correctness.HookMediation` — tool calls and the hooks in front of them

A tool call is to run only after the `BeforeToolCall` hooks accepted it, with the parameters they left. The
account is kept in calls: an accepted call is **earned**, a call that runs is **spent** (`accepted`, `ran`).
At no moment of a run may more have been spent than earned, call by call; a rejected call earns nothing.

The agentic loop keeps the account: what it runs or asks approval for has just passed the hooks. The calls
deferred behind an approval have not, and `process_approval` runs them all the same. The account therefore
balances in exactly those runs in which no deferred call can run, and `deferred_call_skips_hooks` is a run in
which one does.
-/

namespace Freeclawdia.HookMediation

open Rust

variable {W : Type}

/-! ## The account -/

/-- The call a hook run accepts, with the parameters it leaves. -/
def accepted (env : Env W) : Event → Multiset ToolCall
  | .hooked original sensitive (.ok (.continue modified)) =>
    {{ original with arguments := hookedArguments env original.arguments sensitive modified }}
  | _ => 0

/-- The call an event runs. -/
def ran : Event → Multiset ToolCall
  | .executed call .. => {call}
  | _ => 0

/-- A call that is not run in any state of the surroundings: its tool is never there, or its parameters are
    invalid. -/
def NeverRuns (env : Env W) (tc : ToolCall) : Prop :=
  (∀ w, env.tool w tc.name = none) ∨ env.validateToolParams tc.arguments ≠ []

open Classical in
/-- What a stored request is owed: its call, unless that can never run. -/
noncomputable def owed (env : Env W) (p : PendingApproval) : Multiset ToolCall :=
  if NeverRuns env p.call then 0 else {p.call}

theorem owed_le (env : Env W) (p : PendingApproval) : owed env p ≤ {p.call} := by
  unfold owed
  split
  · exact Multiset.zero_le _
  · exact le_rfl

theorem benign_neutral (env : Env W) (e : Event) (h : Benign e) : ran e = 0 ∧ accepted env e = 0 := by
  cases e with
  | llm messages => exact ⟨rfl, rfl⟩
  | asked user content => exact ⟨rfl, rfl⟩
  | answered user content => exact ⟨rfl, rfl⟩
  | hooked original sensitive result => cases h
  | executed call tool auto cause => cases h
  | raised pending => cases h

/-! ## One call -/

section Calls

variable (env : Env W) {K : Multiset ToolCall}

/-- A run spends the call. -/
theorem executeChatTool_spends (auto : List String) (cause : Cause) (tc : ToolCall) (tr : Trace W)
    (h : Log.Funded (accepted env) ran (K + {tc}) tr.log) :
    Log.Funded (accepted env) ran K (executeChatTool env auto cause tc tr).2.log := by
  rcases executeChatTool_cases env auto cause tc tr with hsame | ⟨tool, _, _, hrun⟩
  · rw [hsame]
    exact h.mono (Multiset.le_add_right K {tc})
  · rw [hrun]
    exact Log.Funded.pay (e := Event.executed tc tool auto cause) h rfl

variable {tc : ToolCall}

/-- A call that never runs costs nothing. -/
theorem executeChatTool_neverRuns (auto : List String) (cause : Cause) (tr : Trace W) (h : NeverRuns env tc) :
    (executeChatTool env auto cause tc tr).2 = tr := by
  rcases executeChatTool_cases env auto cause tc tr with hsame | ⟨tool, htool, hparams, _⟩
  · exact hsame
  · rcases h with h | h
    · rw [h tr.world] at htool
      cases htool
    · exact absurd hparams h

variable {sensitive : List String} {original : ToolCall} {result : Except HookError HookOutcome} {msg : String}

theorem accepted_of_error (h : applyHookResult env original sensitive result = .error msg) :
    accepted env (.hooked original sensitive result) = 0 := by
  rcases result with e | modified | reason
  · rfl
  · cases h
  · cases h

theorem accepted_of_ok (hne : ∀ reason, result ≠ .ok (.reject reason))
    (h : applyHookResult env original sensitive result = .ok tc) :
    accepted env (.hooked original sensitive result) = {tc} := by
  rcases result with e | modified | reason
  · cases e <;> cases h
  · cases h
    rfl
  · exact absurd rfl (hne reason)

/-- The registry never answers `Ok` with a rejection. -/
theorem runHooks_ne_reject (event : HookEvent) (tr : Trace W) (reason : String) :
    (tr.runHooks env event).1 ≠ .ok (.reject reason) := by
  unfold Trace.runHooks
  exact HookRegistry.run_ne_reject _ _ _ _ _ reason

variable {user : String} {tr : Trace W}

/-- Hooks that reject a call leave the account as it is. -/
theorem hookToolCall_rejected (h : Log.Funded (accepted env) ran K tr.log)
    (hr : (hookToolCall env user original sensitive tr).1 = .error msg) :
    Log.Funded (accepted env) ran K (hookToolCall env user original sensitive tr).2.log := by
  refine Log.Funded.pay (e := Event.hooked original sensitive
    (tr.runHooks env (toolCallEvent user original sensitive)).1) ?_ (accepted_of_error env hr)
  rw [show ran (.hooked original sensitive _) = 0 from rfl, add_zero]
  exact h

/-- Hooks that accept a call earn it. -/
theorem hookToolCall_accepted (h : Log.Funded (accepted env) ran K tr.log)
    (hr : (hookToolCall env user original sensitive tr).1 = .ok tc) :
    Log.Funded (accepted env) ran (K + {tc}) (hookToolCall env user original sensitive tr).2.log := by
  have hgain := accepted_of_ok env (runHooks_ne_reject env (toolCallEvent user original sensitive) tr) hr
  have hearn := Log.Funded.earn (e := Event.hooked original sensitive
    (tr.runHooks env (toolCallEvent user original sensitive)).1) h rfl
  rw [hgain] at hearn
  exact hearn

end Calls

/-! ## A batch and the loop -/

section Loop

variable (env : Env W) (user : String) (tid : Uuid) {K : Multiset ToolCall}

/-- The account in the middle of a batch: the stopped call and the cleared ones are paid for. -/
def InBatch (K : Multiset ToolCall) (stopped : Option ToolCall) (cleared : Multiset ToolCall) (tr : Trace W) :
    Prop :=
  Log.Funded (accepted env) ran (K + single stopped + cleared) tr.log

theorem preflight_account (auto : List String) : PreflightRule env user auto (InBatch env K) where
  rejected := by
    intro M tr original msg h hr
    exact hookToolCall_rejected env h hr
  cleared := by
    intro M tr original tc h hr _
    have h' := hookToolCall_accepted env h hr
    unfold InBatch
    rw [← Multiset.singleton_add, add_comm {tc} M, ← add_assoc]
    exact h'
  stopped := by
    intro M tr original tc tool h hr _
    have h' := hookToolCall_accepted env h hr
    refine h'.mono (le_of_eq ?_)
    show K + {tc} + M = K + 0 + M + {tc}
    abel

/-- **A batch keeps the account**, and the call it stops at is paid for. -/
theorem batch_account (calls : List ToolCall) (s : Session) (tr : Trace W)
    (h : Log.Funded (accepted env) ran K tr.log) :
    Log.Funded (accepted env) ran (K + single ((batchPreflight env user calls s tr).1.approval.map (·.2.1)))
      (batchResults env user calls s tr).2.log := by
  have hstart : InBatch env K none 0 tr := by
    unfold InBatch
    rw [show single (none : Option ToolCall) = 0 from rfl, add_zero, add_zero]
    exact h
  have hend := batch_rule .batch (preflight_account env user s.autoApprovedTools) ?_ ?_ calls tr hstart
  · unfold InBatch at hend
    rw [add_zero] at hend
    exact hend
  · intro o M tr' hM
    exact Log.Funded.mono hM (add_le_add_right (Multiset.zero_le M) _)
  · intro o M tc tr' hM
    refine executeChatTool_spends env _ _ tc tr' (Log.Funded.mono hM (le_of_eq ?_))
    rw [← Multiset.singleton_add]
    abel

/-- What the loop leaves: the account, and the call of its request paid for. -/
def LoopPays (K : Multiset ToolCall) : AgenticLoopResult → Session → Trace W → Prop
  | .response _, _, tr => Log.Funded (accepted env) ran K tr.log
  | .needApproval pending, _, tr => Log.Funded (accepted env) ran (K + {pending.call}) tr.log

theorem loop_account : LoopRule env user tid (fun _ _ tr => Log.Funded (accepted env) ran K tr.log)
    (LoopPays env K) where
  warn := id
  ask := by
    intro c s tr prompt tools h
    refine Log.Funded.pay (e := Event.llm (ChatMessage.system prompt :: c)) ?_ rfl
    rw [show ran (.llm (ChatMessage.system prompt :: c)) = 0 from rfl, add_zero]
    exact h
  compact := id
  nudge := id
  answer := id
  continues := by
    intro c s tr calls content c' s' tr' h _ hb
    obtain ⟨_, _, _, rfl⟩ := runBatch_continues env hb
    exact (batch_account env user calls s tr h).mono (Multiset.le_add_right _ _)
  finished := by
    intro c s tr calls content r s' tr' h _ hb
    have hbatch := batch_account env user calls s tr h
    obtain ⟨_, hlog, hr⟩ := runBatch_finished env hb
    rw [← hlog] at hbatch
    rcases hr with ⟨instructions, rfl⟩ | ⟨idx, tc, tool, newId, happ, rfl⟩
    · exact hbatch.mono (Multiset.le_add_right _ _)
    · rw [happ] at hbatch
      exact hbatch

end Loop

/-! ## Whole messages -/

section Messages

variable (env : Env W) (user : String) (tid : Uuid) {st st' : AgentState W} {X : Multiset ToolCall}

/-- The account of a state: the stored requests are paid for and, besides, `X`. -/
def Paid (X : Multiset ToolCall) (st : AgentState W) : Prop := Held (accepted env) ran (owed env) X st

variable {env}

theorem Paid.calm (h : Paid env X st) (hc : Calm st st') : Paid env X st' :=
  Held.calm h hc (benign_neutral env)

theorem runLoop_paid (context : List ChatMessage) (h : Paid env 0 st) :
    (∀ pending, (runLoop env user tid context st).1 = .ok (.needApproval pending) →
        Paid env {pending.call} (runLoop env user tid context st).2)
      ∧ Paid env 0 (runLoop env user tid context st).2 := by
  have hopen := runLoop_openApprovals env user tid st context
  unfold Paid Held at h ⊢
  rw [hopen]
  rw [add_zero] at h ⊢
  unfold runLoop
  cases st.manager.session user with
  | none => exact ⟨fun _ he => (by cases he), h⟩
  | some s =>
    have hend := runAgenticLoop_rule (loop_account env user tid) context s st.trace h
    dsimp only
    rcases hl : runAgenticLoop env user tid context s st.trace with ⟨e | ⟨text | pending⟩, s', tr'⟩
    · rw [hl] at hend
      obtain ⟨_, h'⟩ := hend
      exact ⟨fun _ he => (by cases he), h'⟩
    · rw [hl] at hend
      exact ⟨fun _ he => (by cases he), hend⟩
    · rw [hl] at hend
      refine ⟨?_, Log.Funded.mono hend (Multiset.le_add_right _ _)⟩
      intro p he
      cases he
      exact hend

variable {pending : PendingApproval}

/-- A request whose call is paid for is stored. -/
theorem raise_paid (h : Paid env (owed env pending) st) : Paid env 0 (raiseApproval user tid pending st).2 := by
  unfold Paid at h ⊢
  rw [← zero_add (owed env pending)] at h
  exact Held.raise h rfl (by rw [show accepted env (.raised pending) = 0 from rfl, add_zero])

/-- The end of a loop: the loop's request is stored, or something calm happens. -/
theorem finish_paid {context : List ChatMessage} {st'' : AgentState W} (h : Paid env 0 st)
    (hend : Calm (runLoop env user tid context st).2 st''
      ∨ ∃ pending, (runLoop env user tid context st).1 = .ok (.needApproval pending)
          ∧ st'' = (raiseApproval user tid pending (runLoop env user tid context st).2).2) : Paid env 0 st'' := by
  obtain ⟨hrequest, hloop⟩ := runLoop_paid user tid context h
  rcases hend with hcalm | ⟨pending, hresult, rfl⟩
  · exact hloop.calm hcalm
  · have hpaid := hrequest pending hresult
    exact raise_paid user tid (Log.Funded.mono hpaid (add_le_add_right (owed_le env pending) _))

variable {deferred : List ToolCall}

/-- Deferred calls that never run leave no trace. -/
theorem deferredTrace_inert (hinert : ∀ tc ∈ deferred, NeverRuns env tc) :
    deferredTrace env user st deferred = st.trace := by
  have hrun := (deferredPreflight_mem env (st.autoApproved user) st.trace.world deferred 0).1
  have hend := executeRunnable_rule env (st.autoApproved user) .deferred
    (J := fun K tr => (∀ tc ∈ K, NeverRuns env tc) ∧ tr = st.trace) ?_ ?_
    ((deferredPreflight env (st.autoApproved user) st.trace.world 0 deferred).1.zipIdx.map
      fun t => (t.2, t.1)) st.trace ?_
  · exact hend.2
  · rintro K tr ⟨_, htr⟩
    exact ⟨fun tc h => absurd h (Multiset.notMem_zero tc), htr⟩
  · rintro K tc tr ⟨hK, rfl⟩
    refine ⟨fun tc' h => hK tc' (Multiset.mem_cons_of_mem h), ?_⟩
    exact executeChatTool_neverRuns env _ _ _ (hK tc (Multiset.mem_cons_self tc K))
  · refine ⟨?_, rfl⟩
    intro tc htc
    rw [Multiset.mem_coe, positioned_calls] at htc
    exact hinert tc (hrun tc htc)

/-- **Replaying deferred calls that never run keeps the account.** -/
theorem replayDeferred_paid (hinert : ∀ tc ∈ deferred, NeverRuns env tc) (context : List ChatMessage) (h : Paid env 0 st) :
    Paid env 0 (replayDeferred env user tid deferred context st).2 := by
  obtain ⟨hcalm, hcases⟩ := replayDeferred_cases env user tid st deferred context
  rw [deferredTrace_inert user hinert] at hcalm
  have hpost : Paid env 0 (deferredPostflight env user tid st deferred context).state := Paid.calm h hcalm
  rcases hcases with heq | ⟨idx, tc, tool, happ, heq⟩ | ⟨_, heq⟩
  · rw [heq]
    exact hpost
  · rw [heq]
    -- The request is for a deferred call: it was not hooked, but it cannot run either.
    have hnever : NeverRuns env tc :=
      hinert tc ((deferredPreflight_mem env (st.autoApproved user) st.trace.world deferred 0).2 idx tc tool happ)
    refine raise_paid user tid ?_
    have howed : ∀ newId context' rest, owed env (pendingFor newId tc tool context' rest) = 0 :=
      fun _ _ _ => if_pos hnever
    rw [howed]
    exact hpost.calm (Calm.draw env _)
  · rw [heq]
    exact finish_paid user tid hpost (finishApproval_cases env user tid _ _)

/-- **Resuming a request keeps the account**: its call was paid for when it was stored. -/
theorem resumeApproved_paid (always : Bool) (hinert : ∀ tc ∈ pending.deferredToolCalls, NeverRuns env tc)
    (h : Paid env (owed env pending) st) : Paid env 0 (resumeApproved env user tid pending always st).2 := by
  obtain ⟨st₁, hgrant, st₂, hcalm, hcases⟩ := resumeApproved_cases env user tid st pending always
  have hgranted : Paid env (owed env pending) st₁ := h.calm hgrant
  have hrun : Paid env 0 { st₁ with trace := (approvedRun env user st₁ pending).2 } := by
    by_cases hnever : NeverRuns env pending.call
    · have hsame : (approvedRun env user st₁ pending).2 = st₁.trace :=
        executeChatTool_neverRuns env _ _ st₁.trace hnever
      rw [hsame]
      exact Log.Funded.mono hgranted (add_le_add_right (Multiset.zero_le _) _)
    · have howed : owed env pending = {pending.call} := if_neg hnever
      have hcredit : Log.Funded (accepted env) ran
          (st₁.openApprovals.bind (owed env) + {pending.call}) st₁.trace.log := by
        rw [← howed]
        exact hgranted
      refine Held.trace ?_
      rw [add_zero]
      exact executeChatTool_spends env _ _ pending.call st₁.trace hcredit
  have hrecorded := hrun.calm hcalm
  rcases hcases with heq | ⟨content, heq⟩
  · rw [heq]
    exact hrecorded
  · rw [heq]
    exact replayDeferred_paid user tid hinert _ hrecorded

/-- The approval a message grants has no deferred call that can run: the condition on a step. -/
def NoDeferredRuns (env : Env W) (st : AgentState W) (i : Incoming) : Prop :=
  ∀ thread pending always, st.thread i.msg.userId (locateThread env i.msg i.now st).1 = some thread →
    thread.state = .awaitingApproval → thread.pendingApproval = some pending →
    (SubmissionParser.parse env.decodeExecApproval i.msg.content).Approves pending.requestId always →
    ∀ tc ∈ pending.deferredToolCalls, NeverRuns env tc

/-- **One message keeps the account.** -/
theorem handleMessage_paid (cmds : CommandEnv W) (i : Incoming) (hC : NoDeferredRuns env st i)
    (h : Paid env 0 st) : Paid env 0 (handleMessage env cmds i.msg i.now st).2 := by
  have heffect := handleMessage_effect env cmds i.msg i.now st
  generalize (handleMessage env cmds i.msg i.now st).2 = st' at heffect ⊢
  generalize messageWork env i.msg i.now st = work at heffect
  cases heffect with
  | calm hcalm => exact h.calm hcalm
  | turn context st₁ hcalm hplain hr =>
    rw [hr]
    exact finish_paid _ _ (h.calm hcalm) (finishTurn_cases env _ _ _ _)
  | resumed thread pending always st₁ hthread hstate hpending happroves hcalm htaken hr =>
    rw [hr]
    have hpend : st.pendingAt i.msg.userId _ = some pending :=
      Option.bind_eq_some_iff.mpr ⟨thread, hthread, hpending⟩
    have htake := Held.taken h hcalm (benign_neutral env) hpend htaken
    rw [zero_add] at htake
    rw [inboundHook_of_approves env i.msg st happroves] at hthread
    exact resumeApproved_paid _ _ always (hC thread pending always hthread hstate hpending happroves) htake

end Messages

/-- **Hook mediation.** In every run of messages in which no approval is granted with a deferred call that can
    run, at every moment: the calls that ran so far are, call by call and with their parameters, among those
    the `BeforeToolCall` hooks had accepted. -/
theorem executed_calls_were_accepted (env : Env W) (cmds : CommandEnv W) (store : ConversationStore) (w : W)
    (ls : List Incoming) (st : AgentState W)
    (hrun : Runs (messageStep env cmds) (NoDeferredRuns env) (AgentState.start store w) ls st) :
    ∀ past, past <+: st.trace.log → Log.total ran past ≤ Log.total (accepted env) past := by
  have hpaid : Paid env 0 st := hrun.invariant (P := fun _ st => Paid env 0 st) (Held.start store w) ?_
  · exact hpaid.always
  · intro ls a b i hpaid hC hstep
    rw [messageStep_eq hstep]
    exact handleMessage_paid cmds i hC hpaid

/-! ## A run that breaks the account -/

/-- Two calls of one answer: a shell command, which needs approval, and a mail, which does not. -/
def shellThenMail : LlmResponse :=
  ⟨none, [⟨"a", "shell", .null⟩, ⟨"b", "mail", .null⟩]⟩

/-- A hook that rejects every mail. -/
def noMailHook : Hook Nat where
  name := "no-mail"
  failureMode := .failClosed
  execute := fun event w =>
    match event with
    | .toolCall "mail" .. => (.answered (.reject "no mail"), w)
    | _ => (.answered (.continue none), w)

/-- Both tools are registered, the hook is in place, and the model asks for both tools, then stops. -/
def mailEnv : Env Nat :=
  { Env.scripted [shellThenMail] with
    tool := fun _ name =>
      if name = "shell" then some ⟨"run a command", [], fun _ => .always, none⟩
      else if name = "mail" then some ⟨"send a mail", [], fun _ => .never, none⟩
      else none
    toolDefinitions := fun _ => [⟨"shell", "run a command", .null⟩, ⟨"mail", "send a mail", .null⟩]
    hooks := fun point _ => if point = .beforeToolCall then [noMailHook] else [] }

/-- The user asks, and approves the shell command. -/
def askAndApprove : List Incoming :=
  [⟨{ channel := "cli", userId := "ann", content := "clean up" }, 0⟩,
    ⟨{ channel := "cli", userId := "ann", content := "yes" }, 1⟩]

/-- **The mail is sent past the hook.** Two calls run, one was accepted. -/
theorem deferred_call_skips_hooks :
    ∃ st, Runs (messageStep mailEnv (CommandEnv.idle Nat)) (fun _ _ => True) (AgentState.start {} 0)
        askAndApprove st
      ∧ ¬ ∀ past, past <+: st.trace.log → Log.total ran past ≤ Log.total (accepted mailEnv) past := by
  refine ⟨_, .snoc (.snoc (.refl _) _ trivial rfl) _ trivial rfl, ?_⟩
  intro h
  have hcard := Multiset.card_le_card (h _ List.prefix_rfl)
  revert hcard
  decide

/-- The same surroundings with a model that asks for the shell command alone. -/
def shellEnv : Env Nat :=
  { mailEnv with complete := (Env.scripted [⟨none, [⟨"a", "shell", .null⟩]⟩]).complete }

/-- A request without deferred calls meets the condition. -/
theorem noDeferredRuns_of_isEmpty {env : Env W} {st : AgentState W} {i : Incoming}
    (h : (st.pendingAt i.msg.userId (locateThread env i.msg i.now st).1).all
      (fun p => p.deferredToolCalls.isEmpty) = true) : NoDeferredRuns env st i := by
  intro thread pending always hthread _ hpending _ tc htc
  have hat : st.pendingAt i.msg.userId (locateThread env i.msg i.now st).1 = some pending :=
    Option.bind_eq_some_iff.mpr ⟨thread, hthread, hpending⟩
  rw [hat] at h
  have hnil : pending.deferredToolCalls = [] := List.isEmpty_iff.mp h
  rw [hnil] at htc
  exact absurd htc List.not_mem_nil

/-- The approved shell command runs, as accepted. -/
theorem executed_calls_were_accepted_shell :
    ∃ st : AgentState Nat, Multiset.card (Log.total ran st.trace.log) = 1
      ∧ ∀ past, past <+: st.trace.log → Log.total ran past ≤ Log.total (accepted shellEnv) past := by
  refine ⟨_, ?_, executed_calls_were_accepted shellEnv (CommandEnv.idle Nat) {} 0 askAndApprove _
    (.snoc (.snoc (.refl _) _ (noDeferredRuns_of_isEmpty (by decide)) rfl) _
      (noDeferredRuns_of_isEmpty (by decide)) rfl)⟩
  decide

end Freeclawdia.HookMediation
