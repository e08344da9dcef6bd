import Freeclawdia.Agent.JobTools
import Freeclawdia.Lib.Log

/-!
# `Correctness.JobRuns` — one tool run of a job's worker

What `execute_tool_inner` does, said once for each of its two halves:

* `admitTool_ok_iff`: which calls get past approval, the job lookup and the rate limit;
* `runAdmitted_log`: what the second half adds to the log. The hooks come first; then the tool runs with the
  parameters they left, if it runs at all, and at most a saved action follows.
-/

namespace Freeclawdia

open Rust

variable {W : Type} (env : Env W) (deps : WorkerDeps) (toolName : String) (params : Json)

/-! ## Admission -/

/-- The rate limiter admits the call, or the tool has no limit. -/
def RateAllows (admitted : Admitted) (clk : Reads) (rt : JobRuntime W) : Prop :=
  ∀ config, admitted.tool.rateLimitConfig = some config →
    (rt.rateLimiter.call ⟨.checkAndRecord, admitted.job.userId, toolName, config, clk⟩).1.isAllowed = true

/-- The first half ends with this tool and this job. -/
structure Admits (admitted : Admitted) (clk : Reads) (rt : JobRuntime W) : Prop where
  registered : env.tool rt.world toolName = some admitted.tool
  approved : ApprovalContext.isBlockedOrDefault deps.approvalContext toolName
    (admitted.tool.requiresApproval params) = false
  known : rt.contextManager.getContext deps.jobId = .ok admitted.job
  withinLimit : RateAllows toolName admitted clk rt

/-- The events of the first half. -/
inductive AdmissionEvent : JobToolEvent → Prop
  | approval : AdmissionEvent (.approval toolName params)
  | checked (call : RateCall) (result : RateLimitResult) : AdmissionEvent (.checked call result)

section Admission

variable {a : Admitted} (clk : Reads) (rt : JobRuntime W)

theorem checkRate_ok_iff {admitted : Admitted} :
    (checkRate deps toolName admitted clk rt).1 = .ok a ↔ a = admitted ∧ RateAllows toolName admitted clk rt := by
  unfold checkRate RateAllows
  cases hconfig : admitted.tool.rateLimitConfig with
  | none =>
    refine ⟨fun h => ⟨(Except.ok.inj h).symm, fun _ hc => by cases hc⟩, ?_⟩
    rintro ⟨rfl, -⟩
    rfl
  | some config =>
    dsimp only
    rcases hcall : rt.rateLimiter.call ⟨.checkAndRecord, admitted.job.userId, toolName, config, clk⟩ with
      ⟨remainingMinute | retryAfter, limiter⟩
    · refine ⟨fun h => ⟨(Except.ok.inj h).symm, ?_⟩, ?_⟩
      · rintro c ⟨rfl⟩
        rw [hcall]
        rfl
      · rintro ⟨rfl, -⟩
        rfl
    · refine ⟨fun h => (by cases h), ?_⟩
      rintro ⟨-, hallows⟩
      have hallowed := hallows config rfl
      rw [hcall] at hallowed
      cases hallowed

/-- The limiter's answer is the only thing a rate check adds. -/
theorem checkRate_frame (admitted : Admitted) (clk : Reads) (rt : JobRuntime W) :
    (checkRate deps toolName admitted clk rt).2.world = rt.world
      ∧ Log.Grows (AdmissionEvent toolName params) rt.log (checkRate deps toolName admitted clk rt).2.log := by
  unfold checkRate
  split
  · exact ⟨rfl, Log.Grows.refl _ _⟩
  · dsimp only
    split
    · exact ⟨rfl, Log.Grows.snoc (.checked _ _) _⟩
    · exact ⟨rfl, Log.Grows.snoc (.checked _ _) _⟩

/-- **Which calls are admitted.** -/
theorem admitTool_ok_iff :
    (admitTool env deps toolName params clk rt).1 = .ok a ↔ Admits env deps toolName params a clk rt := by
  unfold admitTool
  constructor
  · intro h
    split at h
    · cases h
    · next tool htool =>
        split at h
        · cases h
        · next hblocked =>
            dsimp only at h
            split at h
            · cases h
            · next job hjob =>
                obtain ⟨rfl, hallows⟩ := (checkRate_ok_iff deps toolName clk _).mp h
                exact ⟨htool, by simpa using hblocked, hjob, hallows⟩
  · rintro ⟨hregistered, happroved, hknown, hlimit⟩
    rw [hregistered]
    dsimp only
    rw [if_neg (by rw [happroved]; exact Bool.false_ne_true),
      show (rt.emit _).contextManager.getContext deps.jobId = .ok a.job from hknown]
    exact (checkRate_ok_iff deps toolName clk _).mpr ⟨rfl, hlimit⟩

/-- Admission changes nothing of the world, and logs its own events only. -/
theorem admitTool_frame : (admitTool env deps toolName params clk rt).2.world = rt.world
      ∧ Log.Grows (AdmissionEvent toolName params) rt.log (admitTool env deps toolName params clk rt).2.log := by
  unfold admitTool
  split
  · exact ⟨rfl, Log.Grows.refl _ _⟩
  · have happroval : Log.Grows (AdmissionEvent toolName params) rt.log
        (rt.emit (.approval toolName params)).log := Log.Grows.snoc .approval _
    dsimp only
    split
    · exact ⟨rfl, happroval⟩
    · split
      · exact ⟨rfl, happroval⟩
      · next job _ =>
          obtain ⟨hworld, hlog⟩ := checkRate_frame deps toolName params ⟨_, job⟩ clk
            (rt.emit (.approval toolName params))
          exact ⟨hworld, happroval.trans hlog⟩

/-- A registered tool's requirement is evaluated, on the parameters given. -/
theorem admitTool_judges {tool : Tool} (h : env.tool rt.world toolName = some tool) :
    ∃ ev, (admitTool env deps toolName params clk rt).2.log = rt.log ++ .approval toolName params :: ev := by
  unfold admitTool
  rw [h]
  dsimp only
  split
  · exact ⟨[], rfl⟩
  · split
    · exact ⟨[], rfl⟩
    · next job _ =>
        obtain ⟨-, ev, hlog, -⟩ := checkRate_frame deps toolName params ⟨tool, job⟩ clk
          (rt.emit (.approval toolName params))
        refine ⟨ev, ?_⟩
        rw [hlog]
        exact List.append_assoc _ _ _

end Admission

/-! ## The run -/

section Running

variable (admitted : Admitted) (clock : ToolClock) (rt : JobRuntime W)

/-- The hooks' answer to a job's call. -/
def jobHookResult : Except HookError HookOutcome :=
  (HookRegistry.run env.fromStr env.toText (env.hooks .beforeToolCall rt.world)
    (jobToolEvent deps toolName params admitted) rt.world).1

theorem recordRun_log (safeParams : Json) (run : ToolRun) : Log.Grows (fun e => ∃ action, e = .saved action) rt.log
      (recordRun env deps toolName safeParams run clock rt).log := by
  unfold recordRun
  split
  · exact Log.Grows.refl _ _
  · split
    · exact Log.Grows.snoc ⟨_, rfl⟩ _
    · exact Log.Grows.refl _ _

/-- **What a run logs**: the hooked event; and where the hooks leave parameters, the job is not cancelled and the
    parameters are valid, the execution with these parameters, followed by saved actions. -/
theorem runAdmitted_log :
    ((∃ executed, applyJobHook env toolName params (jobHookResult env deps toolName params admitted rt) = .ok executed
        ∧ admitted.job.state ≠ .cancelled ∧ env.validateToolParams executed = []
        ∧ ∃ ev, (runAdmitted env deps toolName params admitted clock rt).2.log
            = rt.log ++ .hooked (jobToolEvent deps toolName params admitted)
              :: .executed admitted.job.userId toolName executed :: ev ∧ ∀ e ∈ ev, ∃ action, e = .saved action))
      ∨ ((∀ executed, applyJobHook env toolName params (jobHookResult env deps toolName params admitted rt)
            = .ok executed → admitted.job.state = .cancelled ∨ env.validateToolParams executed ≠ [])
        ∧ (runAdmitted env deps toolName params admitted clock rt).2.log
          = rt.log ++ [.hooked (jobToolEvent deps toolName params admitted)]) := by
  unfold runAdmitted jobHookResult
  dsimp only
  rw [show (jobToolEvent deps toolName params admitted).hookPoint = HookPoint.beforeToolCall from rfl]
  rcases HookRegistry.run env.fromStr env.toText (env.hooks .beforeToolCall rt.world)
    (jobToolEvent deps toolName params admitted) rt.world with ⟨result, w⟩
  dsimp only
  cases happly : applyJobHook env toolName params result with
  | error e => exact Or.inr ⟨fun _ h => (by cases h), rfl⟩
  | ok executed =>
    dsimp only
    by_cases hcancelled : admitted.job.state = .cancelled
    · rw [if_pos hcancelled]
      exact Or.inr ⟨fun _ _ => Or.inl hcancelled, rfl⟩
    · rw [if_neg hcancelled]
      cases hvalid : env.validateToolParams executed with
      | cons e es =>
        refine Or.inr ⟨?_, rfl⟩
        rintro _ ⟨rfl⟩
        rw [hvalid]
        exact Or.inr (List.cons_ne_nil e es)
      | nil =>
        refine Or.inl ⟨executed, rfl, hcancelled, hvalid, ?_⟩
        dsimp only
        obtain ⟨ev, hlog, hev⟩ := recordRun_log env deps toolName clock
          { (JobRuntime.emit { rt.emit (.hooked (jobToolEvent deps toolName params admitted)) with world := w }
              (.executed admitted.job.userId toolName executed)) with
            world := (env.execute toolName executed w).2 }
          (redactParams executed admitted.tool.sensitiveParams) (env.execute toolName executed w).1
        refine ⟨ev, ?_, hev⟩
        refine hlog.trans ?_
        show rt.log ++ [_] ++ [_] ++ ev = _
        rw [List.append_assoc, List.append_assoc]
        rfl

theorem recordRun_rateLimiter (safeParams : Json) (run : ToolRun) :
    (recordRun env deps toolName safeParams run clock rt).rateLimiter = rt.rateLimiter := by
  unfold recordRun
  split
  · rfl
  · split
    · rfl
    · rfl

/-- The second half does not ask the limiter. -/
theorem runAdmitted_rateLimiter :
    (runAdmitted env deps toolName params admitted clock rt).2.rateLimiter = rt.rateLimiter := by
  unfold runAdmitted
  dsimp only
  split
  · rfl
  · split
    · rfl
    · split
      · rfl
      · exact recordRun_rateLimiter env deps toolName clock _ _ _

end Running
end Freeclawdia
