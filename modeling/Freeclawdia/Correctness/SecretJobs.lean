import Freeclawdia.Correctness.JobRuns
import Freeclawdia.Correctness.Secrecy

/-!
# `Correctness.SecretJobs` — where a worker tells two secrets apart

Workers run their calls side by side. A **workbench** holds the calls of all jobs, each as far as it got: waiting,
admitted, run, answered; a step takes one of them to its next stage (`advance`), so a list of positions is a schedule.
Two workbenches whose calls have the same masks stay the same, in whatever order the stages are taken
(`schedule_same`): the hooks get the same events, and the records in the jobs' memories and in the store are the same.

The `tool_use` event is the exception: it shows the parameters as they were selected. The logs agree exactly when
these events do (`observed_eq_iff`), and there is one for every call that was answered (`schedule_toolUses`).
-/

namespace Freeclawdia.Secrecy

open Rust Redaction

variable {W : Type}

/-! ## Calls side by side -/

/-- A call of a job. -/
structure JobTask where
  deps : WorkerDeps
  selection : ToolSelection
  toolCallId : String
  clock : ToolClock

/-- How far a call got. -/
inductive Progress
  | waiting
  | admitted (admitted : Admitted)
  | ran (result : Except Error String)
  | answered (message : ChatMessage)

/-- The calls under way, and the positions of those that were answered, in order. -/
structure Workbench (W : Type) where
  runtime : JobRuntime W
  progress : Nat → Progress := fun _ => .waiting
  answered : List Nat := []

/-- Take the call at a position to its next stage. -/
def advance (env : Env W) (tasks : Nat → JobTask) (b : Workbench W) (i : Nat) : Workbench W :=
  match b.progress i with
  | .waiting =>
    match admitTool env (tasks i).deps (tasks i).selection.toolName (tasks i).selection.parameters
        (tasks i).clock.limiter b.runtime with
    | (.error e, rt) => { b with runtime := rt, progress := Function.update b.progress i (.ran (.error e)) }
    | (.ok admitted, rt) => { b with runtime := rt, progress := Function.update b.progress i (.admitted admitted) }
  | .admitted admitted =>
    match runAdmitted env (tasks i).deps (tasks i).selection.toolName (tasks i).selection.parameters admitted
        (tasks i).clock b.runtime with
    | (result, rt) => { b with runtime := rt, progress := Function.update b.progress i (.ran result) }
  | .ran result =>
    match processToolResult env (tasks i).selection (tasks i).toolCallId result b.runtime with
    | (message, rt) =>
      { runtime := rt
        progress := Function.update b.progress i (.answered message)
        answered := b.answered ++ [i] }
  | .answered _ => b

/-- Take the calls of a schedule, one stage after another. -/
def runSchedule (env : Env W) (tasks : Nat → JobTask) (schedule : List Nat) (b : Workbench W) : Workbench W :=
  schedule.foldl (advance env tasks) b

/-! ## What is observed -/

/-- What leaves the worker: the limiter's answers, the events for the hooks, saved actions and job events. What a tool
    is given and what an approval requirement is evaluated on stays inside. -/
def observe : JobToolEvent → Option JobToolEvent
  | .approval _ _ => none
  | .executed _ _ _ => none
  | .checked call result => some (.checked call result)
  | .hooked event => some (.hooked event)
  | .saved action => some (.saved action)
  | .logged eventType data => some (.logged eventType data)

/-- The event without the input of a `tool_use`. -/
def shadow : JobToolEvent → JobToolEvent
  | .logged eventType data => .logged eventType (if eventType = "tool_use" then redactParams data ["input"] else data)
  | e => e

/-- The data of a `tool_use`. -/
def toolUse : JobToolEvent → Option Json
  | .logged eventType data => if eventType = "tool_use" then some data else none
  | _ => none

/-- Runtimes that show the same. -/
structure SameRuntime (R : W → W → Prop) (rt rt' : JobRuntime W) : Prop where
  world : R rt.world rt'.world
  drawn : rt.drawn = rt'.drawn
  contextManager : rt.contextManager = rt'.contextManager
  rateLimiter : rt.rateLimiter = rt'.rateLimiter
  log : (rt.log.filterMap observe).map shadow = (rt'.log.filterMap observe).map shadow

section Stages

variable {sens : String → List String} {mask : String → Json → Json} {R : W → W → Prop} {env : Env W}
  (hb : Blind env sens mask R) {rt rt' : JobRuntime W}

theorem SameRuntime.emit (h : SameRuntime R rt rt') {e e' : JobToolEvent}
    (he : (observe e).map shadow = (observe e').map shadow) : SameRuntime R (rt.emit e) (rt'.emit e') := by
  refine ⟨h.world, h.drawn, h.contextManager, h.rateLimiter, ?_⟩
  show ((rt.log ++ [e]).filterMap observe).map shadow = ((rt'.log ++ [e']).filterMap observe).map shadow
  rw [List.filterMap_append, List.filterMap_append, List.map_append, List.map_append, h.log]
  congr 1
  rcases option_map_cases he with ⟨ho, ho'⟩ | ⟨x, x', ho, ho', hx⟩
  · simp only [List.filterMap_cons, List.filterMap_nil, ho, ho']
  · simp only [List.filterMap_cons, List.filterMap_nil, ho, ho', List.map_cons, List.map_nil, hx]

theorem SameRuntime.withWorld (h : SameRuntime R rt rt') {w w' : W} (hw : R w w') :
    SameRuntime R { rt with world := w } { rt' with world := w' } :=
  ⟨hw, h.drawn, h.contextManager, h.rateLimiter, h.log⟩

variable {toolName : String} {params params' : Json} (hparams : mask toolName params = mask toolName params')
  (deps : WorkerDeps)

theorem checkRate_same (a : Admitted) (clk : Reads) (h : SameRuntime R rt rt') :
    SameRun (SameRuntime R) (checkRate deps toolName a clk rt) (checkRate deps toolName a clk rt') := by
  unfold checkRate
  cases a.tool.rateLimitConfig with
  | none => exact ⟨rfl, h⟩
  | some config =>
    dsimp only
    rw [h.rateLimiter]
    rcases rt'.rateLimiter.call ⟨.checkAndRecord, a.job.userId, toolName, config, clk⟩ with ⟨result, limiter⟩
    cases result with
    | limited retryAfter limitType =>
      have hchecked := h.emit (e := .checked ⟨.checkAndRecord, a.job.userId, toolName, config, clk⟩
        (.limited retryAfter limitType)) rfl
      exact ⟨rfl, hchecked.world, hchecked.drawn, hchecked.contextManager, rfl, hchecked.log⟩
    | allowed remainingMinute remainingHour =>
      have hchecked := h.emit (e := .checked ⟨.checkAndRecord, a.job.userId, toolName, config, clk⟩
        (.allowed remainingMinute remainingHour)) rfl
      exact ⟨rfl, hchecked.world, hchecked.drawn, hchecked.contextManager, rfl, hchecked.log⟩

include hb hparams in
/-- **Admission answers the same.** -/
theorem admitTool_same (clk : Reads) (h : SameRuntime R rt rt') :
    SameRun (SameRuntime R) (admitTool env deps toolName params clk rt)
      (admitTool env deps toolName params' clk rt') := by
  unfold admitTool
  rw [← hb.tool h.world]
  cases htool : env.tool rt.world toolName with
  | none => exact ⟨rfl, h⟩
  | some tool =>
    have hjudged : SameRuntime R (rt.emit (.approval toolName params)) (rt'.emit (.approval toolName params')) :=
      h.emit rfl
    dsimp only
    rw [hb.approval h.world htool hparams]
    split
    · exact ⟨rfl, hjudged⟩
    · rw [hjudged.contextManager]
      cases (rt'.emit (.approval toolName params')).contextManager.getContext deps.jobId with
      | error e => exact ⟨rfl, hjudged⟩
      | ok job => exact checkRate_same deps ⟨tool, job⟩ clk hjudged

/-- Recording a run: the input that is recorded is the redacted one. -/
theorem recordRun_same (safeParams : Json) (run : ToolRun) (clock : ToolClock) (h : SameRuntime R rt rt') :
    SameRuntime R (recordRun env deps toolName safeParams run clock rt)
      (recordRun env deps toolName safeParams run clock rt') := by
  unfold recordRun
  rw [h.contextManager, h.drawn]
  split
  · exact ⟨h.world, rfl, rfl, h.rateLimiter, h.log⟩
  · dsimp only
    have hrecorded : ∀ cm : ContextManager, SameRuntime R { rt with contextManager := cm, drawn := rt'.drawn + 1 }
        { rt' with contextManager := cm, drawn := rt'.drawn + 1 } :=
      fun cm => ⟨h.world, rfl, rfl, h.rateLimiter, h.log⟩
    split
    · exact (hrecorded _).emit rfl
    · exact hrecorded _

include hb hparams in
/-- **A run of an admitted call does the same**, for the tool that is registered. The hooks see redacted parameters;
    what they answer is not restored here, so both runs are given the answer as it is. -/
theorem runAdmitted_same {a : Admitted} (hsens : a.tool.sensitiveParams = sens toolName) (clock : ToolClock)
    (h : SameRuntime R rt rt') :
    SameRun (SameRuntime R) (runAdmitted env deps toolName params a clock rt)
      (runAdmitted env deps toolName params' a clock rt') := by
  have halike : redactParams params (sens toolName) = redactParams params' (sens toolName) := hb.redact hparams
  have hevent : jobToolEvent deps toolName params a = jobToolEvent deps toolName params' a := by
    unfold jobToolEvent
    rw [hsens, halike]
  have hhooks := hb.hooks h.world (jobToolEvent deps toolName params a)
  unfold runAdmitted
  rw [← hevent]
  dsimp only
  obtain ⟨result, w, w', hfst, hsnd, hw⟩ := pair_cases hhooks
  rw [hfst, hsnd]
  have hhooked : SameRuntime R { rt.emit (.hooked (jobToolEvent deps toolName params a)) with world := w }
      { rt'.emit (.hooked (jobToolEvent deps toolName params a)) with world := w' } := (h.emit rfl).withWorld hw
  have hleft : (∃ e, applyJobHook env toolName params result = .error e ∧
    applyJobHook env toolName params' result = .error e)
      ∨ ∃ p p', applyJobHook env toolName params result = .ok p ∧ applyJobHook env toolName params' result = .ok p'
        ∧ mask toolName p = mask toolName p' := by
    rcases result with e | modified | reason
    · cases e with
      | rejected reason => exact Or.inl ⟨_, rfl, rfl⟩
      | executionFailed reason => exact Or.inl ⟨_, rfl, rfl⟩
      | timeout t => exact Or.inl ⟨_, rfl, rfl⟩
    · refine Or.inr ⟨_, _, rfl, rfl, ?_⟩
      unfold jobHookedParams
      cases modified with
      | none => exact hparams
      | some text =>
        dsimp only
        cases env.fromStr text with
        | none => exact hparams
        | some parsed => rfl
    · exact Or.inr ⟨_, _, rfl, rfl, hparams⟩
  dsimp only
  rcases hleft with ⟨e, hp, hp'⟩ | ⟨p, p', hp, hp', hmask⟩
  · rw [hp, hp']
    exact ⟨rfl, hhooked⟩
  · rw [hp, hp']
    dsimp only
    rw [← hb.validate hmask]
    split
    · exact ⟨rfl, hhooked⟩
    · cases env.validateToolParams p with
      | cons e es => exact ⟨rfl, hhooked⟩
      | nil =>
        obtain ⟨hrun, hworld⟩ := hb.execute hw hmask
        refine ⟨congrArg (runOutput env toolName) hrun, ?_⟩
        dsimp only
        rw [hsens, hrun, show redactParams p (sens toolName) = redactParams p' (sens toolName) from hb.redact hmask]
        have hexecuted : (observe (.executed a.job.userId toolName p)).map shadow
            = (observe (.executed a.job.userId toolName p')).map shadow := rfl
        exact recordRun_same deps _ _ clock ((hhooked.emit hexecuted).withWorld hworld)

theorem redact_toolUseData (selection : ToolSelection) : redactParams (toolUseData env selection) ["input"]
      = .object [("tool_name", .string selection.toolName), ("input", redacted)] := by
  rw [toolUseData, redactParams_object]
  congr 1

variable (env) in
/-- **The answer is the same**, and the logs show the same but for the input of the `tool_use`. -/
theorem processToolResult_same {selection selection' : ToolSelection} (hname : selection.toolName = selection'.toolName)
    (toolCallId : String) (result : Except Error String) (h : SameRuntime R rt rt') :
    SameRun (SameRuntime R) (processToolResult env selection toolCallId result rt)
      (processToolResult env selection' toolCallId result rt') := by
  have huse : (observe (.logged "tool_use" (toolUseData env selection))).map shadow
      = (observe (.logged "tool_use" (toolUseData env selection'))).map shadow := by
    rw [observe, observe, Option.map_some, Option.map_some, shadow, shadow, if_pos rfl, if_pos rfl, redact_toolUseData,
      redact_toolUseData, hname]
  unfold processToolResult
  dsimp only
  rw [hname]
  exact ⟨rfl, (h.emit huse).emit rfl⟩

end Stages

/-! ## Schedules -/

/-- A call with its parameters masked. -/
def showJobTask (mask : String → Json → Json) (t : JobTask) : JobTask :=
  { t with selection := ⟨t.selection.toolName, mask t.selection.toolName t.selection.parameters⟩ }

section Tasks

variable {mask : String → Json → Json} {t t' : JobTask} (h : showJobTask mask t = showJobTask mask t')

include h

theorem jobTask_deps : t.deps = t'.deps := by
  have hdeps : (showJobTask mask t).deps = (showJobTask mask t').deps := by rw [h]
  exact hdeps

theorem jobTask_toolName : t.selection.toolName = t'.selection.toolName := by
  have hname : (showJobTask mask t).selection.toolName = (showJobTask mask t').selection.toolName := by rw [h]
  exact hname

theorem jobTask_toolCallId : t.toolCallId = t'.toolCallId := by
  have hid : (showJobTask mask t).toolCallId = (showJobTask mask t').toolCallId := by rw [h]
  exact hid

theorem jobTask_clock : t.clock = t'.clock := by
  have hclock : (showJobTask mask t).clock = (showJobTask mask t').clock := by rw [h]
  exact hclock

theorem jobTask_mask : mask t.selection.toolName t.selection.parameters
    = mask t.selection.toolName t'.selection.parameters := by
  have hmask : (showJobTask mask t).selection.parameters = (showJobTask mask t').selection.parameters := by rw [h]
  have hargs : mask t.selection.toolName t.selection.parameters
      = mask t'.selection.toolName t'.selection.parameters := hmask
  rw [← jobTask_toolName h] at hargs
  exact hargs

end Tasks

/-- Workbenches that show the same, with every admitted call holding the tool registered for it. -/
structure SameBench (sens : String → List String) (R : W → W → Prop) (tasks : Nat → JobTask) (b b' : Workbench W) :
    Prop where
  runtime : SameRuntime R b.runtime b'.runtime
  progress : b.progress = b'.progress
  answered : b.answered = b'.answered
  admitted : ∀ i a, b.progress i = .admitted a → a.tool.sensitiveParams = sens (tasks i).selection.toolName

section Schedules

variable {sens : String → List String} {mask : String → Json → Json} {R : W → W → Prop} {env : Env W}
  (hb : Blind env sens mask R) {tasks tasks' : Nat → JobTask}
  (htasks : ∀ i, showJobTask mask (tasks i) = showJobTask mask (tasks' i))

variable {b b' : Workbench W}

/-- A call moves on; the others stay where they are. -/
theorem SameBench.move (h : SameBench sens R tasks b b') {rt rt' : JobRuntime W}
    (hrt : SameRuntime R rt rt') (i : Nat) (next : Progress)
    (hnext : ∀ a, next = .admitted a → a.tool.sensitiveParams = sens (tasks i).selection.toolName) :
    SameBench sens R tasks { b with runtime := rt, progress := Function.update b.progress i next }
      { b' with runtime := rt', progress := Function.update b.progress i next } := by
  refine ⟨hrt, rfl, h.answered, fun j a hj => ?_⟩
  dsimp only at hj
  by_cases hij : j = i
  · subst hij
    rw [Function.update_self] at hj
    exact hnext a hj
  · rw [Function.update_of_ne hij] at hj
    exact h.admitted j a hj

include hb htasks in
/-- **A stage shows the same.** -/
theorem advance_same (h : SameBench sens R tasks b b') (i : Nat) :
    SameBench sens R tasks (advance env tasks b i) (advance env tasks' b' i) := by
  have hdeps := jobTask_deps (htasks i)
  have hname := jobTask_toolName (htasks i)
  have hclock := jobTask_clock (htasks i)
  have hmask := jobTask_mask (htasks i)
  unfold advance
  rw [← h.progress, ← hdeps, ← hname, ← hclock, ← jobTask_toolCallId (htasks i)]
  cases hstage : b.progress i with
  | answered message => exact h
  | waiting =>
    have hadmit := admitTool_same hb hmask (tasks i).deps (tasks i).clock.limiter h.runtime
    have hregistered : ∀ a, (admitTool env (tasks i).deps (tasks i).selection.toolName
        (tasks i).selection.parameters (tasks i).clock.limiter b.runtime).1 = .ok a →
        a.tool.sensitiveParams = sens (tasks i).selection.toolName := by
      intro a ha
      have htool := hb.registered h.runtime.world (tasks i).selection.toolName
      rw [((admitTool_ok_iff env _ _ _ _ _).mp ha).registered] at htool
      exact htool
    dsimp only
    obtain ⟨answer, rt, rt', hfst, hsnd, hrt⟩ := pair_cases hadmit
    rw [hfst] at hregistered
    rw [hfst, hsnd]
    cases answer with
    | error e => exact h.move hrt i _ fun a ha => nomatch ha
    | ok a =>
      refine h.move hrt i _ fun a' ha' => ?_
      cases ha'
      exact hregistered a rfl
  | admitted a =>
    obtain ⟨hresult, hrt⟩ := runAdmitted_same hb hmask (tasks i).deps (h.admitted i a hstage) (tasks i).clock h.runtime
    dsimp only
    rw [← hresult]
    exact h.move hrt i _ fun a ha => nomatch ha
  | ran result =>
    obtain ⟨hmessage, hrt⟩ := processToolResult_same env hname (tasks i).toolCallId result h.runtime
    dsimp only
    rw [← hmessage]
    have hmoved := h.move hrt i (.answered (processToolResult env (tasks i).selection (tasks i).toolCallId result
      b.runtime).1) fun a ha => nomatch ha
    refine ⟨hmoved.runtime, hmoved.progress, ?_, hmoved.admitted⟩
    show b.answered ++ [i] = b'.answered ++ [i]
    rw [h.answered]

include hb htasks in
/-- **Whatever the order of the stages, the workbenches show the same.** -/
theorem schedule_same (schedule : List Nat) (h : SameBench sens R tasks b b') :
    SameBench sens R tasks (runSchedule env tasks schedule b) (runSchedule env tasks' schedule b') := by
  induction schedule generalizing b b' with
  | nil => exact h
  | cons i rest ih => exact ih (advance_same hb htasks h i)

end Schedules

/-! ## What the `tool_use` events add -/

/-- Events with one shadow are two `tool_use` events, or one event that is none. -/
theorem shadow_cases {e e' : JobToolEvent} (h : shadow e = shadow e') :
    (∃ d d', e = .logged "tool_use" d ∧ e' = .logged "tool_use" d') ∨ (e = e' ∧ toolUse e = none) := by
  cases e with
  | logged eventType data =>
    cases e' with
    | logged eventType' data' =>
      obtain ⟨rfl, hdata⟩ := JobToolEvent.logged.inj h
      by_cases huse : eventType = "tool_use"
      · exact Or.inl ⟨data, data', by rw [huse], by rw [huse]⟩
      · rw [if_neg huse, if_neg huse] at hdata
        rw [hdata]
        exact Or.inr ⟨rfl, if_neg huse⟩
    | approval toolName params => cases h
    | executed userId toolName params => cases h
    | checked call result => cases h
    | hooked event => cases h
    | saved action => cases h
  | approval toolName params => cases e' <;> first | (cases h; exact Or.inr ⟨rfl, rfl⟩) | cases h
  | executed userId toolName params => cases e' <;> first | (cases h; exact Or.inr ⟨rfl, rfl⟩) | cases h
  | checked call result => cases e' <;> first | (cases h; exact Or.inr ⟨rfl, rfl⟩) | cases h
  | hooked event => cases e' <;> first | (cases h; exact Or.inr ⟨rfl, rfl⟩) | cases h
  | saved action => cases e' <;> first | (cases h; exact Or.inr ⟨rfl, rfl⟩) | cases h

theorem toolUse_logged (data : Json) : toolUse (.logged "tool_use" data) = some data := by
  rw [toolUse, if_pos rfl]

/-- Logs that agree but for the inputs of `tool_use` events agree when these events do. -/
theorem eq_of_shadow {l l' : List JobToolEvent} (hshadow : l.map shadow = l'.map shadow)
    (huse : l.filterMap toolUse = l'.filterMap toolUse) : l = l' := by
  induction l generalizing l' with
  | nil => exact (List.map_eq_nil_iff.mp hshadow.symm).symm
  | cons e rest ih =>
    obtain ⟨e', rest', rfl, he, hrest⟩ := List.map_eq_cons_iff.mp hshadow.symm
    rcases shadow_cases he.symm with ⟨d, d', rfl, rfl⟩ | ⟨rfl, hnone⟩
    · rw [List.filterMap_cons_some (toolUse_logged d), List.filterMap_cons_some (toolUse_logged d')] at huse
      obtain ⟨rfl, hrestUse⟩ := List.cons.inj huse
      rw [ih hrest.symm hrestUse]
    · rw [List.filterMap_cons_none hnone, List.filterMap_cons_none hnone] at huse
      rw [ih hrest.symm huse]

/-- **The observed logs agree exactly when the `tool_use` events do.** -/
theorem SameRuntime.observed_eq_iff {R : W → W → Prop} {rt rt' : JobRuntime W} (h : SameRuntime R rt rt') :
    rt.log.filterMap observe = rt'.log.filterMap observe ↔ rt.log.filterMap toolUse = rt'.log.filterMap toolUse := by
  have hthrough : ∀ l : List JobToolEvent, (l.filterMap observe).filterMap toolUse = l.filterMap toolUse := by
    intro l
    rw [List.filterMap_filterMap]
    refine List.filterMap_congr fun e _ => ?_
    cases e with
    | approval toolName params => rfl
    | executed userId toolName params => rfl
    | checked call result => rfl
    | hooked event => rfl
    | saved action => rfl
    | logged eventType data => rfl
  constructor
  · intro heq
    rw [← hthrough, heq, hthrough]
  · intro huse
    refine eq_of_shadow h.log ?_
    rw [hthrough, hthrough, huse]

section Uses

variable (env : Env W) (tasks : Nat → JobTask)

/-- Appending no `tool_use`. -/
theorem toolUse_append {l ev : List JobToolEvent} (h : ∀ e ∈ ev, toolUse e = none) :
    (l ++ ev).filterMap toolUse = l.filterMap toolUse := by
  rw [List.filterMap_append, List.filterMap_eq_nil_iff.mpr h, List.append_nil]

theorem admitTool_toolUse (deps : WorkerDeps) (toolName : String) (params : Json) (clk : Reads) (rt : JobRuntime W) :
    (admitTool env deps toolName params clk rt).2.log.filterMap toolUse = rt.log.filterMap toolUse := by
  obtain ⟨ev, hlog, hev⟩ := (admitTool_frame env deps toolName params clk rt).2
  rw [hlog]
  refine toolUse_append fun e he => ?_
  cases hev e he with
  | approval => rfl
  | checked call result => rfl

theorem runAdmitted_toolUse (deps : WorkerDeps) (toolName : String) (params : Json) (a : Admitted) (clock : ToolClock)
    (rt : JobRuntime W) :
    (runAdmitted env deps toolName params a clock rt).2.log.filterMap toolUse = rt.log.filterMap toolUse := by
  rcases runAdmitted_log env deps toolName params a clock rt with ⟨_, _, _, _, ev, hlog, hev⟩ | ⟨_, hlog⟩
  · rw [hlog]
    refine toolUse_append fun e he => ?_
    rcases List.mem_cons.mp he with rfl | he
    · rfl
    · rcases List.mem_cons.mp he with rfl | he
      · rfl
      · obtain ⟨action, rfl⟩ := hev e he
        rfl
  · rw [hlog]
    refine toolUse_append fun e he => ?_
    rw [List.mem_singleton.mp he]
    rfl

theorem processToolResult_toolUse (selection : ToolSelection) (toolCallId : String) (result : Except Error String)
    (rt : JobRuntime W) : (processToolResult env selection toolCallId result rt).2.log.filterMap toolUse
      = rt.log.filterMap toolUse ++ [toolUseData env selection] := by
  show (rt.log ++ [JobToolEvent.logged "tool_use" _] ++ [JobToolEvent.logged "tool_result" _]).filterMap toolUse = _
  rw [toolUse_append, List.filterMap_append, List.filterMap_cons_some (toolUse_logged _), List.filterMap_nil]
  intro e he
  rw [List.mem_singleton.mp he, toolUse, if_neg (by decide)]

/-- The `tool_use` events are those of the answered calls, in order. -/
def Uses (b : Workbench W) : Prop :=
  b.runtime.log.filterMap toolUse = b.answered.map fun i => toolUseData env (tasks i).selection

variable {env tasks} in
theorem Uses.advance {b : Workbench W} (h : Uses env tasks b) (i : Nat) : Uses env tasks (advance env tasks b i) := by
  have hmoved : ∀ {rt : JobRuntime W} {progress : Nat → Progress},
      rt.log.filterMap toolUse = b.runtime.log.filterMap toolUse →
      Uses env tasks { b with runtime := rt, progress := progress } := fun hrt => hrt.trans h
  unfold Secrecy.advance
  cases b.progress i with
  | answered message => exact h
  | waiting =>
    have hrt := admitTool_toolUse env (tasks i).deps (tasks i).selection.toolName (tasks i).selection.parameters
      (tasks i).clock.limiter b.runtime
    dsimp only
    generalize admitTool env (tasks i).deps (tasks i).selection.toolName (tasks i).selection.parameters
      (tasks i).clock.limiter b.runtime = x at hrt ⊢
    obtain ⟨answer, rt⟩ := x
    cases answer with
    | error e => exact hmoved hrt
    | ok a => exact hmoved hrt
  | admitted a => exact hmoved (runAdmitted_toolUse env _ _ _ a _ b.runtime)
  | ran result =>
    show (processToolResult env (tasks i).selection (tasks i).toolCallId result b.runtime).2.log.filterMap toolUse
      = (b.answered ++ [i]).map _
    rw [processToolResult_toolUse, h, List.map_append]
    rfl

/-- **One `tool_use` for every answered call.** -/
theorem schedule_toolUses (schedule : List Nat) {b : Workbench W} (h : Uses env tasks b) :
    Uses env tasks (runSchedule env tasks schedule b) := by
  induction schedule generalizing b with
  | nil => exact h
  | cons i rest ih => exact ih (h.advance i)

end Uses

end Freeclawdia.Secrecy
