import Freeclawdia.Agent.Worker
import Freeclawdia.Context.Manager

/-!
# `Agent.JobTools` — how a job's worker runs a tool

`Worker::execute_tool_inner` and `process_tool_result` (`src/agent/worker.rs`). The gate in front of a tool is the
one of the chat path written a second time, in another order: approval, job context, rate limit, hooks,
cancellation, validation. It is cut in two where another task may run in between: `admitTool` ends with the rate
limiter's answer, `runAdmitted` starts with the hooks.

The parameters the hooks leave are used **as they are**: the values of sensitive keys, which a hook sees redacted,
are not put back. Approval was decided before, on the parameters the LLM gave.

The runtime has the worker's share of the world, the job contexts and memories, and the rate limiter. Its log is a
ghost, except that `log_event` and `save_action` are observable: they are what is stored and streamed.
-/

namespace Freeclawdia

open Rust

variable {W : Type}

/-- What happened, in order. -/
inductive JobToolEvent
  /-- The approval requirement was evaluated on these parameters. -/
  | approval (toolName : String) (params : Json)
  /-- `check_and_record` was answered. -/
  | checked (call : RateCall) (result : RateLimitResult)
  /-- An event was given to the `BeforeToolCall` hooks. -/
  | hooked (event : HookEvent)
  /-- `Tool::execute` was called for a user. -/
  | executed (userId toolName : String) (params : Json)
  /-- `save_action`, where there is a store. -/
  | saved (action : ActionRecord)
  /-- `log_event`: stored in the database and broadcast. -/
  | logged (eventType : String) (data : Json)

/-- What a worker's tool run works on. -/
structure JobRuntime (W : Type) where
  world : W
  drawn : Nat := 0
  contextManager : ContextManager
  rateLimiter : RateLimiter := .new
  log : List JobToolEvent := []

/-- What the worker was given: the job and its approval context. `debugRetryAfter` prints `Some(retry_after)`. -/
structure WorkerDeps where
  jobId : Uuid
  approvalContext : Option ApprovalContext
  debugRetryAfter : Nanos → String

/-- Clock readings of one tool run: the limiter's, the time of the record, and how long the tool took. -/
structure ToolClock where
  limiter : Reads
  now : Time
  elapsed : Nanos

def JobRuntime.emit (rt : JobRuntime W) (e : JobToolEvent) : JobRuntime W := { rt with log := rt.log ++ [e] }

/-! ## Up to the rate limit -/

/-- A tool that may run, once the hooks agree. -/
structure Admitted where
  tool : Tool
  job : JobContext

/-- The per-tool rate limit, for the job's user. -/
def checkRate (deps : WorkerDeps) (toolName : String) (admitted : Admitted) (clk : Reads) (rt : JobRuntime W) :
    Except Error Admitted × JobRuntime W :=
  match admitted.tool.rateLimitConfig with
  | none => (.ok admitted, rt)
  | some config =>
    let call : RateCall := ⟨.checkAndRecord, admitted.job.userId, toolName, config, clk⟩
    match rt.rateLimiter.call call with
    | (.limited retryAfter limitType, limiter) =>
      (.error (.tool (.rateLimited toolName (deps.debugRetryAfter retryAfter))),
        { rt.emit (.checked call (.limited retryAfter limitType)) with rateLimiter := limiter })
    | (.allowed remainingMinute remainingHour, limiter) =>
      (.ok admitted,
        { rt.emit (.checked call (.allowed remainingMinute remainingHour)) with rateLimiter := limiter })

variable (env : Env W)

/-- Look the tool up, check approval, fetch the job, check the rate limit. -/
def admitTool (deps : WorkerDeps) (toolName : String) (params : Json) (clk : Reads)
    (rt : JobRuntime W) : Except Error Admitted × JobRuntime W :=
  match env.tool rt.world toolName with
  | none => (.error (.tool (.notFound toolName)), rt)
  | some tool =>
    let rt := rt.emit (.approval toolName params)
    if ApprovalContext.isBlockedOrDefault deps.approvalContext toolName (tool.requiresApproval params) then
      (.error (.tool (.authRequired toolName)), rt)
    else
      match rt.contextManager.getContext deps.jobId with
      | .error e => (.error (.job e), rt)
      | .ok job => checkRate deps toolName ⟨tool, job⟩ clk rt

/-! ## From the hooks on -/

/-- Parameters after a hook's answer; an answer that is not JSON is ignored. -/
def jobHookedParams (params : Json) : Option String → Json
  | none => params
  | some newParams => (env.fromStr newParams).getD params

/-- The `BeforeToolCall` event of a job's call. -/
def jobToolEvent (deps : WorkerDeps) (toolName : String) (params : Json) (admitted : Admitted) : HookEvent :=
  .toolCall toolName (redactParams params admitted.tool.sensitiveParams) admitted.job.userId
    ("job:" ++ Uuid.toString deps.jobId)

variable (toolName : String)

/-- The parameters a hook result leaves, or the error it ends the run with. -/
def applyJobHook (params : Json) :
    Except HookError HookOutcome → Except Error Json
  | .error (.rejected reason) => .error (.tool (.executionFailed toolName ("Blocked by hook: " ++ reason)))
  | .error err => .error (.tool (.executionFailed toolName ("Blocked by hook failure mode: " ++ err.display)))
  | .ok (.continue modified) => .ok (jobHookedParams env params modified)
  | .ok (.reject _) => .ok params

/-- The record of a run: its input is redacted. -/
def actionOf (run : ToolRun) (elapsed : Nanos) (r : ActionRecord) : ActionRecord :=
  match run with
  | .done output =>
    r.succeed (((env.toStringPretty output).toOption).map fun s => (env.sanitizeToolOutput toolName s).1) output
      elapsed
  | .failed reason => r.fail reason elapsed
  | .timedOut _ => r.fail "Execution timeout" elapsed

/-- Record the action in the job's memory and save it; a job without memory has neither. -/
def recordRun (deps : WorkerDeps) (toolName : String) (safeParams : Json) (run : ToolRun)
    (clock : ToolClock) (rt : JobRuntime W) : JobRuntime W :=
  match rt.contextManager.updateMemory deps.jobId fun mem =>
      let created := mem.createAction (env.newV4 rt.drawn) clock.now toolName safeParams
      let action := actionOf env toolName run clock.elapsed created.1
      (action, created.2.recordAction action) with
  | (.error _, cm) => { rt with contextManager := cm }
  | (.ok action, cm) =>
    let rt := { rt with contextManager := cm, drawn := rt.drawn + 1 }
    if env.hasStore then rt.emit (.saved action) else rt

/-- What a run returns to the loop. -/
def runOutput : ToolRun → Except Error String
  | .timedOut t => .error (.tool (.timeout toolName t))
  | .failed reason => .error (.tool (.executionFailed toolName reason))
  | .done output =>
    (env.toStringPretty output).mapError fun e =>
      .tool (.executionFailed toolName ("Failed to serialize result: " ++ e))

/-- Run the hooks, refuse a cancelled job and invalid parameters, execute, record. The job's state is the one that
    was fetched. -/
def runAdmitted (deps : WorkerDeps) (toolName : String) (params : Json) (admitted : Admitted)
    (clock : ToolClock) (rt : JobRuntime W) : Except Error String × JobRuntime W :=
  let event := jobToolEvent deps toolName params admitted
  match HookRegistry.run env.fromStr env.toText (env.hooks event.hookPoint rt.world) event rt.world with
  | (hookResult, w) =>
    let rt := { rt.emit (.hooked event) with world := w }
    match applyJobHook env toolName params hookResult with
    | .error e => (.error e, rt)
    | .ok params =>
      if admitted.job.state = .cancelled then
        (.error (.tool (.executionFailed toolName "Job is cancelled")), rt)
      else
        match env.validateToolParams params with
        | e :: es =>
          (.error (.tool (.invalidParameters toolName
            ("Invalid tool parameters: " ++ join "; " (e :: es)))), rt)
        | [] =>
          match env.execute toolName params rt.world with
          | (run, w) =>
            (runOutput env toolName run,
              recordRun env deps toolName (redactParams params admitted.tool.sensitiveParams) run clock
                { rt.emit (.executed admitted.job.userId toolName params) with world := w })

/-- `Worker::execute_tool_inner`. -/
def executeToolInner (deps : WorkerDeps) (toolName : String) (params : Json) (clock : ToolClock)
    (rt : JobRuntime W) : Except Error String × JobRuntime W :=
  match admitTool env deps toolName params clock.limiter rt with
  | (.error e, rt) => (.error e, rt)
  | (.ok admitted, rt) => runAdmitted env deps toolName params admitted clock rt

/-! ## The result -/

/-- Collapse a text into a single-line preview for display (`agent_loop.rs`). -/
def truncateForPreview (output : String) (maxChars : Nat) : String :=
  let collapsed := join " " (splitWhitespace (String.ofList
    ((output.toList.take (maxChars + 50)).map fun c => if c = '\n' then ' ' else c)))
  if maxChars < collapsed.toList.length then String.ofList (collapsed.toList.take maxChars) ++ "..." else collapsed

/-- The `tool_use` event. It shows the parameters of the selection. -/
def toolUseData (selection : ToolSelection) : Json :=
  .object [("tool_name", .string selection.toolName),
    ("input", .string (truncateForPreview (env.toText selection.parameters) 500))]

/-- The `tool_result` event. -/
def toolResultData (result : Except Error String) : Json :=
  match result with
  | .ok output =>
    .object [("tool_name", .string toolName), ("success", .bool true),
      ("output", .string (truncateForPreview (env.sanitizeToolOutput toolName output).1 500))]
  | .error e =>
    .object [("tool_name", .string toolName), ("success", .bool false),
      ("output", .string ("Error: " ++ e.display))]

/-- `process_tool_result`: log the use and the result, and answer the tool call in the reasoning context. -/
def processToolResult (selection : ToolSelection) (toolCallId : String)
    (result : Except Error String) (rt : JobRuntime W) : ChatMessage × JobRuntime W :=
  let content :=
    match result with
    | .ok output =>
      env.wrapForLlm selection.toolName (env.sanitizeToolOutput selection.toolName output).1
        (env.sanitizeToolOutput selection.toolName output).2
    | .error e => "Error: " ++ e.display
  (ChatMessage.toolResult toolCallId selection.toolName content,
    (rt.emit (.logged "tool_use" (toolUseData env selection))).emit
      (.logged "tool_result" (toolResultData env selection.toolName result)))

end Freeclawdia
