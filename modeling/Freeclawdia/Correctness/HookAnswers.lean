import Freeclawdia.Correctness.JobRuns
import Freeclawdia.Correctness.Loop

/-!
# `Correctness.HookAnswers` — one hook answer, two paths

A `BeforeToolCall` hook sees the parameters of a call redacted and may answer with other parameters `m`. The gate
that takes the answer is written twice, in the chat loop's preflight and in the worker's `execute_tool_inner`. Both
are to execute `m` with the sensitive values put back, and to decide approval on what they execute.

Preflight does (`preflight_answered`). The worker executes `m` as it is, after it has decided approval on the
parameters of the LLM. So the two agree exactly when the worker does not get as far as the tool, or when `m` is what
the LLM gave (`paths_agree_iff`): with any other answer, what is executed was not what was approved, and a redacted
value reaches the tool (`redacted_value_is_saved`).
-/

namespace Freeclawdia.HookAnswers

open Rust

variable {W : Type} (env : Env W) (user : String) (deps : WorkerDeps) (tc : ToolCall) (tr : Trace W)
  (rt : JobRuntime W) (tool : Tool) (m : Json)

/-! ## The two paths -/

/-- On both paths the call is for this tool, and the hooks answer it with the parameters `m`; the worker's are asked
    about its own job. -/
structure Answered : Prop where
  chatTool : env.tool tr.world tc.name = some tool
  jobTool : env.tool rt.world tc.name = some tool
  answer : ∃ text, env.fromStr text = some m
    ∧ (tr.runHooks env (toolCallEvent user tc tool.sensitiveParams)).1 = .ok (.continue (some text))
    ∧ ∀ job, rt.contextManager.getContext deps.jobId = .ok job →
      jobHookResult env deps tc.name tc.arguments ⟨tool, job⟩ rt = .ok (.continue (some text))

/-- The answer with the original values of the sensitive keys. -/
def restored : ToolCall := { tc with arguments := restoreSensitive tc.arguments m tool.sensitiveParams }

/-- The first call of a batch as preflight passes it on, to be executed or to wait for approval. -/
def passedOn (p : Preflight) : Option ToolCall :=
  match p.entries with
  | (tc, .runnable) :: _ => some tc
  | (_, .rejected _) :: _ => none
  | [] => p.approval.map (·.2.1)

/-- What a batch of this one call adds to the chat's log. -/
def chatEvents (tid : Uuid) (content : Option String) (context : List ChatMessage) (s : Session) : List Event :=
  (runBatch env user tid [tc] content context s tr).2.2.log.drop tr.log.length

/-- What the worker's run of the call adds to the job's log. -/
def jobEvents (clock : ToolClock) : List JobToolEvent :=
  (executeToolInner env deps tc.name tc.arguments clock rt).2.log.drop rt.log.length

/-- **The two paths treat the answer alike**: both execute the restored parameters, and decide approval on the
    parameters they execute. -/
structure TreatedAlike (tid : Uuid) (s : Session) (clock : ToolClock) : Prop where
  chatPasses : ∀ idx rest, passedOn (preflight env user s.autoApprovedTools idx (tc :: rest) tr).1
    = some (restored tc tool m)
  chatJudges : ∀ idx rest, (preflight env user s.autoApprovedTools idx (tc :: rest) tr).1.entries = []
    ↔ (approvalFor env (some tool) (restored tc tool m) s.autoApprovedTools).isSome
  chatExecutes : ∀ content context call t auto cause,
    .executed call t auto cause ∈ chatEvents env user tc tr tid content context s → call = restored tc tool m
  jobExecutes : ∀ u name params, .executed u name params ∈ jobEvents env deps tc rt clock →
    params = (restored tc tool m).arguments
  jobJudges : ∀ u name params name' judged, .executed u name params ∈ jobEvents env deps tc rt clock →
    .approval name' judged ∈ jobEvents env deps tc rt clock → judged = params

/-- The worker gets as far as the tool: the call is admitted, its job is not cancelled, and the answer is valid. -/
def Reaches (clock : ToolClock) : Prop :=
  (∃ job, Admits env deps tc.name tc.arguments ⟨tool, job⟩ clock.limiter rt ∧ job.state ≠ .cancelled)
    ∧ env.validateToolParams m = []

variable {env user deps tc tr rt tool m}

/-! ## The chat path -/

theorem hookToolCall_answered (h : Answered env user deps tc tr rt tool m) :
    ∃ e, hookToolCall env user tc (sensitiveOf (env.tool tr.world tc.name)) tr
      = (.ok (restored tc tool m), (tr.runHooks env (toolCallEvent user tc tool.sensitiveParams)).2.emit e)
      ∧ ∀ call t auto cause, e ≠ .executed call t auto cause := by
  obtain ⟨text, hparsed, hchat, -⟩ := h.answer
  rw [h.chatTool]
  show ∃ e, hookToolCall env user tc tool.sensitiveParams tr = _ ∧ _
  unfold hookToolCall
  rcases hrun : tr.runHooks env (toolCallEvent user tc tool.sensitiveParams) with ⟨result, tr'⟩
  rw [hrun] at hchat
  dsimp only at hchat
  subst hchat
  refine ⟨.hooked tc tool.sensitiveParams (.ok (.continue (some text))), ?_, fun _ _ _ _ he => by cases he⟩
  dsimp only
  congr 1
  show Except.ok { tc with arguments := hookedArguments env tc.arguments tool.sensitiveParams (some text) } = _
  unfold hookedArguments
  dsimp only
  rw [hparsed]
  rfl

/-- **Preflight restores first and judges afterwards**: it stops at the restored call, or lets it through. -/
theorem preflight_answered (h : Answered env user deps tc tr rt tool m) (auto : List String) (idx : Nat)
    (rest : List ToolCall) : (∃ t, approvalFor env (some tool) (restored tc tool m) auto = some t
        ∧ (preflight env user auto idx (tc :: rest) tr).1 = ⟨[], some (idx, restored tc tool m, t)⟩)
      ∨ approvalFor env (some tool) (restored tc tool m) auto = none
        ∧ ∃ p : Preflight, (preflight env user auto idx (tc :: rest) tr).1
          = ⟨(restored tc tool m, .runnable) :: p.entries, p.approval⟩ := by
  obtain ⟨e, hhook, -⟩ := hookToolCall_answered h
  cases happ : approvalFor env (some tool) (restored tc tool m) auto with
  | some t =>
    rw [← h.chatTool] at happ
    rw [preflight_stopped hhook happ]
    exact Or.inl ⟨t, rfl, rfl⟩
  | none =>
    rw [← h.chatTool] at happ
    rw [preflight_cleared hhook happ]
    exact Or.inr ⟨rfl, _, rfl⟩

/-- What a batch of the one call executes is the restored call. -/
theorem chatEvents_executed (h : Answered env user deps tc tr rt tool m) {tid : Uuid} {content : Option String}
    {context : List ChatMessage} {s : Session} {call : ToolCall} {t : Tool} {auto : List String} {cause : Cause}
    (he : .executed call t auto cause ∈ chatEvents env user tc tr tid content context s) :
    call = restored tc tool m := by
  obtain ⟨e, hhook, hne⟩ := hookToolCall_answered h
  -- the log of the batch: the hook's event, and the execution of what was let through
  have hgrows : Log.Grows (fun e => ∀ call t auto cause, e = .executed call t auto cause → call = restored tc tool m)
      tr.log (batchResults env user [tc] s tr).2.log := by
    have hhooked : Log.Grows (fun e => ∀ call t auto cause, e = .executed call t auto cause →
        call = restored tc tool m) tr.log
        ((tr.runHooks env (toolCallEvent user tc tool.sensitiveParams)).2.emit e).log :=
      Log.Grows.snoc (fun call t auto cause heq => absurd heq (hne call t auto cause)) tr.log
    unfold batchResults batchPreflight
    cases happ : approvalFor env (env.tool tr.world tc.name) (restored tc tool m) s.autoApprovedTools with
    | some t' =>
      rw [preflight_stopped hhook happ]
      exact hhooked
    | none =>
      rw [preflight_cleared hhook happ]
      show Log.Grows _ _ (executeChatTool env s.autoApprovedTools .batch (restored tc tool m)
        ((tr.runHooks env (toolCallEvent user tc tool.sensitiveParams)).2.emit e)).2.log
      rcases executeChatTool_cases env s.autoApprovedTools .batch (restored tc tool m)
        ((tr.runHooks env (toolCallEvent user tc tool.sensitiveParams)).2.emit e) with hsame | ⟨_, _, _, hrun⟩
      · rw [hsame]
        exact hhooked
      · rw [hrun]
        refine hhooked.trans (Log.Grows.snoc ?_ _)
        rintro call t auto cause ⟨⟩
        rfl
  unfold chatEvents at he
  rw [runBatch_results_log] at he
  obtain ⟨ev, hlog, hev⟩ := hgrows
  rw [hlog, List.drop_left] at he
  exact hev _ he call t auto cause rfl

/-! ## The job path -/

/-- The answer is what the worker takes. -/
theorem applyJobHook_answered (h : Answered env user deps tc tr rt tool m) {job : JobContext}
    (hknown : rt.contextManager.getContext deps.jobId = .ok job) :
    applyJobHook env tc.name tc.arguments (jobHookResult env deps tc.name tc.arguments ⟨tool, job⟩ rt) = .ok m := by
  obtain ⟨text, hparsed, -, hjob⟩ := h.answer
  rw [hjob job hknown]
  show Except.ok ((env.fromStr text).getD tc.arguments) = .ok m
  rw [hparsed]
  rfl

section Job

variable (clock : ToolClock)

/-- **The worker judges the parameters of the LLM and executes the answer**: after the admission events come the
    hooks, and the execution exactly when the tool is reached. -/
theorem jobEvents_cases (h : Answered env user deps tc tr rt tool m) :
    ∃ admission, (∀ e ∈ admission, AdmissionEvent tc.name tc.arguments e) ∧ .approval tc.name tc.arguments ∈ admission
      ∧ ((Reaches env deps tc rt tool m clock ∧ ∃ u event saved, jobEvents env deps tc rt clock
              = admission ++ .hooked event :: .executed u tc.name m :: saved ∧ ∀ e ∈ saved, ∃ action, e = .saved action)
        ∨ ¬ Reaches env deps tc rt tool m clock ∧ ∃ hooked,
            jobEvents env deps tc rt clock = admission ++ hooked ∧ ∀ e ∈ hooked, ∃ event, e = .hooked event) := by
  obtain ⟨ev, hjudged⟩ := admitTool_judges env deps tc.name tc.arguments clock.limiter rt h.jobTool
  obtain ⟨hworld, admission, hlog, hadmission⟩ := admitTool_frame env deps tc.name tc.arguments clock.limiter rt
  have hmem : .approval tc.name tc.arguments ∈ admission := by
    rw [hlog] at hjudged
    rw [List.append_cancel_left hjudged]
    exact List.mem_cons_self
  refine ⟨admission, hadmission, hmem, ?_⟩
  unfold jobEvents executeToolInner
  have hok := fun a => admitTool_ok_iff env deps tc.name tc.arguments (a := a) clock.limiter rt
  rcases hgate : admitTool env deps tc.name tc.arguments clock.limiter rt with ⟨e | a, rt'⟩
  · rw [hgate] at hlog hok
    refine Or.inr ⟨?_, [], ?_, fun _ hmem => absurd hmem List.not_mem_nil⟩
    · rintro ⟨⟨job, hadmits, -⟩, -⟩
      cases (hok ⟨tool, job⟩).mpr hadmits
    · show rt'.log.drop rt.log.length = admission ++ []
      rw [show rt'.log = rt.log ++ admission from hlog, List.drop_left, List.append_nil]
  · rw [hgate] at hlog hok hworld
    have hadmits := (hok a).mp rfl
    obtain ⟨job, rfl⟩ : ∃ job, a = ⟨tool, job⟩ :=
      ⟨a.job, by rw [Option.some.inj (h.jobTool.symm.trans hadmits.registered)]⟩
    have happly : applyJobHook env tc.name tc.arguments
        (jobHookResult env deps tc.name tc.arguments ⟨tool, job⟩ rt') = .ok m := by
      have hsame : jobHookResult env deps tc.name tc.arguments ⟨tool, job⟩ rt'
          = jobHookResult env deps tc.name tc.arguments ⟨tool, job⟩ rt := by
        unfold jobHookResult
        rw [show rt'.world = rt.world from hworld]
      rw [hsame]
      exact applyJobHook_answered h hadmits.known
    dsimp only
    rcases runAdmitted_log env deps tc.name tc.arguments ⟨tool, job⟩ clock rt' with
      ⟨executed, hexec, hactive, hvalid, saved, hrun, hsaved⟩ | ⟨hstops, hrun⟩
    · rw [happly] at hexec
      obtain rfl := Except.ok.inj hexec
      refine Or.inl ⟨⟨⟨job, hadmits, hactive⟩, hvalid⟩, job.userId,
        jobToolEvent deps tc.name tc.arguments ⟨tool, job⟩, saved, ?_, hsaved⟩
      rw [hrun, show rt'.log = rt.log ++ admission from hlog, List.append_assoc, List.drop_left]
    · refine Or.inr ⟨?_, [.hooked (jobToolEvent deps tc.name tc.arguments ⟨tool, job⟩)], ?_,
        fun e he => ⟨_, List.mem_singleton.mp he⟩⟩
      · rintro ⟨⟨job', hadmits', hactive⟩, hvalid⟩
        have hjob : job' = job := Except.ok.inj (hadmits'.known.symm.trans hadmits.known)
        subst hjob
        rcases hstops m happly with hcancelled | hinvalid
        · exact hactive hcancelled
        · exact hinvalid hvalid
      · rw [hrun, show rt'.log = rt.log ++ admission from hlog, List.append_assoc, List.drop_left]

/-- What the worker executes is the answer, where it executes at all. -/
theorem executed_mem_jobEvents (h : Answered env user deps tc tr rt tool m) {params : Json} :
    (∃ u name, .executed u name params ∈ jobEvents env deps tc rt clock)
      ↔ params = m ∧ Reaches env deps tc rt tool m clock := by
  obtain ⟨admission, hadmission, -, ⟨hreaches, u, event, saved, hlog, hsaved⟩ | ⟨hnot, hooked, hlog, hhooked⟩⟩ :=
    jobEvents_cases clock h
  · rw [hlog]
    constructor
    · rintro ⟨u', name, hmem⟩
      refine ⟨?_, hreaches⟩
      rcases List.mem_append.mp hmem with hin | hin
      · cases hadmission _ hin
      · rcases List.mem_cons.mp hin with heq | hin
        · cases heq
        · rcases List.mem_cons.mp hin with heq | hin
          · cases heq
            rfl
          · obtain ⟨action, heq⟩ := hsaved _ hin
            cases heq
    · rintro ⟨rfl, -⟩
      exact ⟨u, tc.name, List.mem_append_right _ (List.mem_cons_of_mem _ List.mem_cons_self)⟩
  · rw [hlog]
    constructor
    · rintro ⟨u', name, hmem⟩
      rcases List.mem_append.mp hmem with hin | hin
      · cases hadmission _ hin
      · obtain ⟨event, heq⟩ := hhooked _ hin
        cases heq
    · rintro ⟨-, hreaches⟩
      exact absurd hreaches hnot

/-- What the worker judges is what the LLM gave. -/
theorem approval_mem_jobEvents (h : Answered env user deps tc tr rt tool m) {judged : Json} :
    (∃ name, .approval name judged ∈ jobEvents env deps tc rt clock) ↔ judged = tc.arguments := by
  obtain ⟨admission, hadmission, hmem, hcases⟩ := jobEvents_cases clock h
  -- in both cases nothing after the admission events is an approval
  obtain ⟨later, hlog, hlater⟩ : ∃ later, jobEvents env deps tc rt clock = admission ++ later
      ∧ ∀ name judged, .approval name judged ∉ later := by
    rcases hcases with ⟨-, u, event, saved, hlog, hsaved⟩ | ⟨-, hooked, hlog, hhooked⟩
    · refine ⟨_, hlog, fun name judged hin => ?_⟩
      rcases List.mem_cons.mp hin with heq | hin
      · cases heq
      · rcases List.mem_cons.mp hin with heq | hin
        · cases heq
        · obtain ⟨action, heq⟩ := hsaved _ hin
          cases heq
    · refine ⟨_, hlog, fun name judged hin => ?_⟩
      obtain ⟨event, heq⟩ := hhooked _ hin
      cases heq
  rw [hlog]
  constructor
  · rintro ⟨name, hin⟩
    rcases List.mem_append.mp hin with hin | hin
    · cases hadmission _ hin
      rfl
    · exact absurd hin (hlater name judged)
  · rintro rfl
    exact ⟨tc.name, List.mem_append_left _ hmem⟩

end Job

/-! ## Agreement -/

/-- The arguments executed are the same on both paths exactly when the worker does not reach the tool, or the answer
    already has every original value of a sensitive key. -/
theorem same_arguments_iff (h : Answered env user deps tc tr rt tool m) (clock : ToolClock) :
    (∀ u name params, .executed u name params ∈ jobEvents env deps tc rt clock →
        params = (restored tc tool m).arguments)
      ↔ (Reaches env deps tc rt tool m clock → restoreSensitive tc.arguments m tool.sensitiveParams = m) := by
  constructor
  · intro hsame hreaches
    obtain ⟨u, name, hin⟩ := (executed_mem_jobEvents clock h).mpr ⟨rfl, hreaches⟩
    exact (hsame u name m hin).symm
  · intro hkeeps u name params hin
    obtain ⟨rfl, hreaches⟩ := (executed_mem_jobEvents clock h).mp ⟨u, name, hin⟩
    exact (hkeeps hreaches).symm

/-- **The paths treat an answer alike exactly when the worker does not reach the tool or the answer is what the LLM
    gave.** -/
theorem paths_agree_iff (h : Answered env user deps tc tr rt tool m) (tid : Uuid) (s : Session)
    (clock : ToolClock) :
    TreatedAlike env user deps tc tr rt tool m tid s clock
      ↔ (Reaches env deps tc rt tool m clock → m = tc.arguments) := by
  constructor
  · intro halike hreaches
    obtain ⟨u, name, hexecuted⟩ := (executed_mem_jobEvents clock h).mpr ⟨rfl, hreaches⟩
    obtain ⟨name', hjudged⟩ := (approval_mem_jobEvents clock h).mpr rfl
    exact (halike.jobJudges u name m name' tc.arguments hexecuted hjudged).symm
  · intro hsame
    refine ⟨?_, ?_, ?_, ?_, ?_⟩
    · intro idx rest
      rcases preflight_answered h s.autoApprovedTools idx rest with ⟨t, -, hp⟩ | ⟨-, p, hp⟩
      · rw [hp]
        rfl
      · rw [hp]
        rfl
    · intro idx rest
      rcases preflight_answered h s.autoApprovedTools idx rest with ⟨t, happ, hp⟩ | ⟨happ, p, hp⟩
      · rw [hp, happ]
        exact ⟨fun _ => rfl, fun _ => rfl⟩
      · rw [hp, happ]
        exact ⟨fun hnil => absurd hnil (List.cons_ne_nil _ _), fun hsome => by cases hsome⟩
    · intro content context call t auto cause hin
      exact chatEvents_executed h hin
    · refine (same_arguments_iff h clock).mpr fun hreaches => ?_
      rw [hsame hreaches]
      exact restoreSensitive_self tc.arguments tool.sensitiveParams
    · intro u name params name' judged hexecuted hjudged
      obtain ⟨rfl, hreaches⟩ := (executed_mem_jobEvents clock h).mp ⟨u, name, hexecuted⟩
      rw [(approval_mem_jobEvents clock h).mp ⟨name', hjudged⟩]
      exact (hsame hreaches).symm

/-! ## A hook in front of `secret_save` -/

/-- The call of the LLM. -/
def saveCall : ToolCall :=
  ⟨"call_1", "secret_save", .object [("name", .string "github"), ("value", .string "hunter2")]⟩

/-- The tool redacts its `value` and needs no approval. -/
def secretSave : Tool := ⟨"save a secret", ["value"], fun _ => .never, none⟩

/-- The hook's answer: the parameters it saw, with the name of the secret in upper case. -/
def renamed : Json := .object [("name", .string "GITHUB"), ("value", .string "[REDACTED]")]

/-- The texts of the parameters that occur. -/
def saveText (params : Json) : String :=
  match params.get "name", params.get "value" with
  | some (.string n), some (.string v) => "\x7b\"name\":\"" ++ n ++ "\",\"value\":\"" ++ v ++ "\"\x7d"
  | _, _ => "null"

/-- Surroundings in which one hook answers every call to a tool. -/
def hookedEnv (answer : Json) : Env Unit :=
  { Env.idle Unit with
    tool := fun _ name => if name = "secret_save" then some secretSave else none
    toText := saveText
    fromStr := fun text => if text = saveText answer then some answer else none
    hooks := fun _ _ => [⟨"rewrite", .failOpen, fun _ w => (.answered (.continue (some (saveText answer))), w)⟩] }

/-- A job in progress, and its worker. -/
def saveRuntime : JobRuntime Unit where
  world := ()
  contextManager :=
    { contexts := (∅ : Map Uuid JobContext).insert 1
        { jobId := 1, userId := "ann", title := "", description := "", state := .inProgress }
      memories := ∅
      maxJobs := 5 }

def saveDeps : WorkerDeps := ⟨1, none, fun _ => "1s"⟩

def saveClock : ToolClock := ⟨Reads.at 0, 0, 0⟩

variable {answer : Json}

/-- The hook's answer stands, if it reads differently from what the hook saw. -/
theorem hookedEnv_run {params : Json} (h : saveText answer ≠ saveText params) (name u context : String) :
    (HookRegistry.run (hookedEnv answer).fromStr (hookedEnv answer).toText ((hookedEnv answer).hooks .beforeToolCall ())
      (.toolCall name params u context) ()).1 = .ok (.continue (some (saveText answer))) := by
  have hparse : ((hookedEnv answer).fromStr (saveText answer)).getD params = answer := by
    rw [show (hookedEnv answer).fromStr (saveText answer) = some answer from if_pos rfl]
    rfl
  have hcontent : HookEvent.extractContent (hookedEnv answer).toText ((HookEvent.toolCall name params u
      context).applyModification (hookedEnv answer).fromStr (saveText answer)) = saveText answer := by
    show saveText (((hookedEnv answer).fromStr (saveText answer)).getD params) = _
    rw [hparse]
  show (if HookEvent.extractContent (hookedEnv answer).toText _ ≠ saveText params
    then _ else _ : Except HookError HookOutcome × Unit).1 = _
  rw [hcontent, if_pos h]

theorem hookedEnv_answered (h : saveText answer ≠ saveText (redactParams saveCall.arguments secretSave.sensitiveParams)) :
    Answered (hookedEnv answer) "ann" saveDeps saveCall ⟨(), 0, []⟩ saveRuntime secretSave answer where
  chatTool := rfl
  jobTool := rfl
  answer := ⟨saveText answer, if_pos rfl, hookedEnv_run h _ _ _, fun _ _ => hookedEnv_run h _ _ _⟩

/-- The job is admitted, whatever the hooks will answer. -/
theorem saveCall_admitted (answer : Json) :
    Reaches (hookedEnv answer) saveDeps saveCall saveRuntime secretSave answer saveClock := by
  refine ⟨⟨_, ⟨rfl, rfl, rfl, fun _ hc => by cases hc⟩, ?_⟩, rfl⟩
  decide

/-- **The redacted text is saved.** The hook changes the name of the secret; the chat path saves `hunter2`, the job
    saves `[REDACTED]`. -/
theorem redacted_value_is_saved :
    Answered (hookedEnv renamed) "ann" saveDeps saveCall ⟨(), 0, []⟩ saveRuntime secretSave renamed
      ∧ (restored saveCall secretSave renamed).arguments.get "value" = some (.string "hunter2")
      ∧ (∃ u name, .executed u name renamed ∈ jobEvents (hookedEnv renamed) saveDeps saveCall saveRuntime saveClock)
      ∧ renamed.get "value" = some (.string "[REDACTED]")
      ∧ ¬ TreatedAlike (hookedEnv renamed) "ann" saveDeps saveCall ⟨(), 0, []⟩ saveRuntime secretSave renamed 7
        (Session.new 5 "ann" 0) saveClock := by
  have hanswered : Answered (hookedEnv renamed) "ann" saveDeps saveCall ⟨(), 0, []⟩ saveRuntime secretSave renamed :=
    hookedEnv_answered (by decide)
  have hexecuted := (executed_mem_jobEvents saveClock hanswered).mpr ⟨rfl, saveCall_admitted renamed⟩
  refine ⟨hanswered, rfl, hexecuted, rfl, ?_⟩
  intro halike
  obtain ⟨u, name, hin⟩ := hexecuted
  have hsame := congrArg (Json.get "value") (halike.jobExecutes u name renamed hin)
  have hvalue : Json.string "[REDACTED]" = Json.string "hunter2" := Option.some.inj hsame
  revert hvalue
  simp

/-- A hook that puts the right value in is treated alike, and the job runs. -/
theorem paths_agree_on_filled_value :
    Reaches (hookedEnv saveCall.arguments) saveDeps saveCall saveRuntime secretSave saveCall.arguments saveClock
      ∧ TreatedAlike (hookedEnv saveCall.arguments) "ann" saveDeps saveCall ⟨(), 0, []⟩ saveRuntime secretSave
        saveCall.arguments 7 (Session.new 5 "ann" 0) saveClock :=
  ⟨saveCall_admitted _, (paths_agree_iff (hookedEnv_answered (by decide)) 7 (Session.new 5 "ann" 0) saveClock).mpr
    fun _ => rfl⟩

end Freeclawdia.HookAnswers
