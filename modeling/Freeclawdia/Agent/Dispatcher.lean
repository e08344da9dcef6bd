import Freeclawdia.Llm.Reasoning

/-!
# `Agent.Dispatcher` — the agentic tool loop

`Agent::run_agentic_loop` (`src/agent/dispatcher.rs`): call the model, run the tool calls it asks for, feed
the results back, until it answers with a text or a call needs the user's approval. One iteration with tool
calls is `runBatch`, in the source's three phases:

* **preflight**, sequential: hooks and approval, stopping at the first call that needs approval;
* **execution** of what passed, inline for one call, otherwise as spawned tasks that finish in any order;
* **post-flight**, sequential and in the batch's order: outcomes go to the turn and to the context.

The loop works on the user's session and on the trace. Status updates to channels and token accounting have
no effect on either and are left out.
-/

namespace Freeclawdia

open Rust

variable {W : Type}

/-! ## Running one tool -/

/-- `execute_chat_tool_standalone`: look the tool up **now**, validate, run, print the output. -/
def executeChatTool (env : Env W) (auto : List String) (cause : Cause) (tc : ToolCall) (tr : Trace W) :
    Except Error String × Trace W :=
  match env.tool tr.world tc.name with
  | none => (.error (.tool (.notFound tc.name)), tr)
  | some tool =>
    match env.validateToolParams tc.arguments with
    | e :: es =>
      (.error (.tool (.invalidParameters tc.name
        ("Invalid tool parameters: " ++ join "; " (e :: es)))), tr)
    | [] =>
      match env.execute tc.name tc.arguments tr.world with
      | (.timedOut t, w) =>
        (.error (.tool (.timeout tc.name t)),
          { tr.emit (.executed tc tool auto cause) with world := w })
      | (.failed reason, w) =>
        (.error (.tool (.executionFailed tc.name reason)),
          { tr.emit (.executed tc tool auto cause) with world := w })
      | (.done output, w) =>
        ((env.toStringPretty output).mapError fun e =>
            .tool (.executionFailed tc.name ("Failed to serialize result: " ++ e)),
          { tr.emit (.executed tc tool auto cause) with world := w })

/-- `check_auth_required`: extension name and instructions when a tool asks for a token. -/
def checkAuthRequired (env : Env W) (toolName : String) (result : Except Error String) :
    Option (String × String) :=
  if toolName ≠ "tool_auth" ∧ toolName ≠ "tool_activate" then none
  else
    match result with
    | .error _ => none
    | .ok output =>
      (env.fromStr output).bind fun parsed =>
        if (parsed.get "awaiting_token").bind Json.asBool ≠ some true then none
        else
          ((parsed.get "name").bind Json.asStr).map fun name =>
            (name, ((parsed.get "instructions").bind Json.asStr).getD
              "Please provide your API token/key.")

/-- `safety.sanitize_tool_output` followed by `wrap_for_llm`. -/
def wrapOutput (env : Env W) (toolName output : String) : String :=
  env.wrapForLlm toolName (env.sanitizeToolOutput toolName output).1
    (env.sanitizeToolOutput toolName output).2

/-! ## Preflight -/

/-- Does the call need the user's approval, given the tools approved for good? -/
def needsApproval (tool : Tool) (tc : ToolCall) (auto : List String) : Bool :=
  match tool.requiresApproval tc.arguments with
  | .never => false
  | .unlessAutoApproved => !decide (tc.name ∈ auto)
  | .always => true

/-- Sensitive parameters of a looked-up tool; none for an unknown one. -/
def sensitiveOf (tool : Option Tool) : List String := (tool.map (·.sensitiveParams)).getD []

/-- Parameters after a hook's answer. An answer that is not JSON is ignored, and the sensitive values, which
    the hook saw redacted, are put back. -/
def hookedArguments (env : Env W) (original : Json) (sensitive : List String) : Option String → Json
  | none => original
  | some newParams =>
    match env.fromStr newParams with
    | some parsed => restoreSensitive original parsed sensitive
    | none => original

/-- The `BeforeToolCall` event of a call. -/
def toolCallEvent (user : String) (tc : ToolCall) (sensitive : List String) : HookEvent :=
  .toolCall tc.name (redactParams tc.arguments sensitive) user "chat"

/-- The call a hook result leaves, or the message it is rejected with. -/
def applyHookResult (env : Env W) (tc : ToolCall) (sensitive : List String) :
    Except HookError HookOutcome → Except String ToolCall
  | .error (.rejected reason) => .error ("Tool call rejected by hook: " ++ reason)
  | .error err => .error ("Tool call blocked by hook policy: " ++ err.display)
  | .ok (.continue modified) =>
    .ok { tc with arguments := hookedArguments env tc.arguments sensitive modified }
  | .ok (.reject _) => .ok tc

/-- Run the `BeforeToolCall` hooks on a call. -/
def hookToolCall (env : Env W) (user : String) (tc : ToolCall) (sensitive : List String) (tr : Trace W) :
    Except String ToolCall × Trace W :=
  match tr.runHooks env (toolCallEvent user tc sensitive) with
  | (result, tr) => (applyHookResult env tc sensitive result, tr.emit (.hooked tc sensitive result))

/-- The looked-up tool, when the call must wait for approval. -/
def approvalFor (env : Env W) (tool : Option Tool) (tc : ToolCall) (auto : List String) : Option Tool :=
  if env.autoApproveTools then none else tool.filter fun t => needsApproval t tc auto

/-- What preflight decides about one call. -/
inductive PreflightOutcome
  | rejected (errorMsg : String)
  | runnable

/-- What preflight decides about a batch: the calls it got through, and where it stopped. -/
structure Preflight where
  entries : List (ToolCall × PreflightOutcome)
  approval : Option (Nat × ToolCall × Tool)

/-- Walk the calls, first of which has position `idx` in the batch. -/
def preflight (env : Env W) (user : String) (auto : List String) :
    Nat → List ToolCall → Trace W → Preflight × Trace W
  | _, [], tr => (⟨[], none⟩, tr)
  | idx, original :: rest, tr =>
    match hookToolCall env user original (sensitiveOf (env.tool tr.world original.name)) tr with
    | (.error msg, tr') =>
      match preflight env user auto (idx + 1) rest tr' with
      | (p, tr'') => (⟨(original, .rejected msg) :: p.entries, p.approval⟩, tr'')
    | (.ok tc, tr') =>
      -- Approval is checked on the parameters the hooks left, with the tool looked up before them.
      match approvalFor env (env.tool tr.world original.name) tc auto with
      | some tool => (⟨[], some (idx, tc, tool)⟩, tr')
      | none =>
        match preflight env user auto (idx + 1) rest tr' with
        | (p, tr'') => (⟨(tc, .runnable) :: p.entries, p.approval⟩, tr'')

/-! ## Execution -/

/-- A preflight entry at a position, if its call may run. -/
def runnableAt : (ToolCall × PreflightOutcome) × Nat → Option (Nat × ToolCall)
  | ((tc, .runnable), i) => some (i, tc)
  | ((_, .rejected _), _) => none

/-- The runnable calls, with their positions among the preflight entries. -/
def runnableOf (entries : List (ToolCall × PreflightOutcome)) : List (Nat × ToolCall) :=
  entries.zipIdx.filterMap runnableAt

/-- The result slotted at a position. -/
def slot (results : List (Nat × Except Error String)) (i : Nat) : Option (Except Error String) :=
  (results.find? fun r => r.1 == i).map Prod.snd

/-- Run spawned tasks until none is left. The environment picks which one goes next; each runs in one piece.
    A task that panics leaves no result. -/
def runTasks (env : Env W) (auto : List String) (cause : Cause) :
    Nat → List (Nat × ToolCall) → Trace W → List (Nat × Except Error String) × Trace W
  | 0, _, tr => ([], tr)
  | fuel + 1, tasks, tr =>
    match tasks[env.nextTask tr.world % tasks.length]? with
    | none => ([], tr)
    | some task =>
      match executeChatTool env auto cause task.2 tr with
      | (result, tr') =>
        match runTasks env auto cause fuel
            (tasks.eraseIdx (env.nextTask tr.world % tasks.length)) tr' with
        | (results, tr'') =>
          (if env.taskPanics task.2 tr'.world then results else (task.1, result) :: results, tr'')

/-- Put an error where a task left no result. -/
def fillFailed (runnable : List (Nat × ToolCall)) (results : List (Nat × Except Error String)) :
    List (Nat × Except Error String) :=
  runnable.map fun t =>
    (t.1, (slot results t.1).getD
      (.error (.tool (.executionFailed t.2.name "Task failed during execution"))))

/-- Execute the runnable calls: inline when there is at most one, as spawned tasks otherwise. -/
def executeRunnable (env : Env W) (auto : List String) (cause : Cause) (runnable : List (Nat × ToolCall))
    (tr : Trace W) : List (Nat × Except Error String) × Trace W :=
  match runnable with
  | [] => ([], tr)
  | [t] =>
    match executeChatTool env auto cause t.2 tr with
    | (result, tr') => ([(t.1, result)], tr')
  | _ =>
    match runTasks env auto cause runnable.length runnable tr with
    | (results, tr') => (fillFailed runnable results, tr')

/-! ## Post-flight -/

/-- How one call of the batch ended. -/
inductive CallOutcome
  | rejected (errorMsg : String)
  | ran (result : Except Error String)

/-- How the preflight entry at a position ended. -/
def outcomeAt (results : List (Nat × Except Error String)) :
    (ToolCall × PreflightOutcome) × Nat → ToolCall × CallOutcome
  | ((tc, .rejected msg), _) => (tc, .rejected msg)
  | ((tc, .runnable), i) =>
    (tc, .ran ((slot results i).getD
      (.error (.tool (.executionFailed tc.name "No result available")))))

/-- The outcomes of the preflight entries, in order. -/
def outcomesOf (entries : List (ToolCall × PreflightOutcome))
    (results : List (Nat × Except Error String)) : List (ToolCall × CallOutcome) :=
  entries.zipIdx.map (outcomeAt results)

/-- `if let Some(turn) = thread.last_turn_mut()`, on the thread of a session. -/
def onLastTurn (tid : Uuid) (f : Turn → Turn) (s : Session) : Session :=
  s.modifyThread tid (Thread.modifyLastTurn f)

/-- Record the result or the error of a run on the turn. -/
def recordResult (result : Except Error String) (turn : Turn) : Turn :=
  match result with
  | .ok output => turn.recordToolResult (.string output)
  | .error e => turn.recordToolError e.display

/-- Text of a run's result for the model. -/
def resultContent (env : Env W) (failure : String → String) (toolName : String) :
    Except Error String → String
  | .ok output => wrapOutput env toolName output
  | .error e => failure e.display

/-- What post-flight works on: the session, the context, and the instructions of the first call that asked
    for a token. -/
structure Postflight where
  session : Session
  context : List ChatMessage
  deferredAuth : Option String := none

/-- Enter auth mode for the first call of the batch that asks for a token. -/
def noteAuth (env : Env W) (tid : Uuid) (tc : ToolCall) (result : Except Error String) (p : Postflight) :
    Postflight :=
  match p.deferredAuth, checkAuthRequired env tc.name result with
  | none, some (ext, instructions) =>
    { p with
      session := p.session.modifyThread tid (Thread.enterAuthMode · ext)
      deferredAuth := some instructions }
  | _, _ => p

/-- Process the outcome of one call. -/
def postflightCall (env : Env W) (tid : Uuid) (p : Postflight) : ToolCall × CallOutcome → Postflight
  | (tc, .rejected msg) =>
    { p with
      session := onLastTurn tid (Turn.recordToolError · msg) p.session
      context := p.context ++ [ChatMessage.toolResult tc.id tc.name msg] }
  | (tc, .ran result) =>
    let p' := noteAuth env tid tc result
      { p with session := onLastTurn tid (recordResult result) p.session }
    { p' with
      context := p'.context ++ [ChatMessage.toolResult tc.id tc.name
        (resultContent env (fun e => "Tool '" ++ tc.name ++ "' failed: " ++ e) tc.name result)] }

/-- Process the outcomes in order. -/
def postflight (env : Env W) (tid : Uuid) (outcomes : List (ToolCall × CallOutcome)) (p : Postflight) :
    Postflight :=
  outcomes.foldl (postflightCall env tid) p

/-! ## One batch -/

/-- Result of the agentic loop. -/
inductive AgenticLoopResult
  | response (text : String)
  | needApproval (pending : PendingApproval)

/-- What a batch leads to: another iteration with a longer context, or the end of the loop. -/
inductive BatchResult
  | continues (context : List ChatMessage)
  | finished (result : AgenticLoopResult)

/-- The arguments of a call as recorded on the turn, with sensitive values redacted. -/
def recordedArguments (env : Env W) (w : W) (tc : ToolCall) : Json :=
  match env.tool w tc.name with
  | some tool => redactParams tc.arguments tool.sensitiveParams
  | none => tc.arguments

/-- Record every call of a batch on the turn, before any of them ran. -/
def recordCalls (env : Env W) (w : W) (calls : List ToolCall) (turn : Turn) : Turn :=
  calls.foldl (fun turn tc => turn.recordToolCall tc.name (recordedArguments env w tc)) turn

/-- The approval request for a call that has to wait. -/
def pendingFor (requestId : Uuid) (tc : ToolCall) (tool : Tool) (context : List ChatMessage)
    (deferred : List ToolCall) : PendingApproval :=
  { requestId
    toolName := tc.name
    parameters := tc.arguments
    displayParameters := redactParams tc.arguments tool.sensitiveParams
    description := tool.description
    toolCallId := tc.id
    contextMessages := context
    deferredToolCalls := deferred }

/-- After post-flight: return the token instructions, or ask for approval, or go on. -/
def finishBatch (env : Env W) (calls : List ToolCall) (approval : Option (Nat × ToolCall × Tool))
    (p : Postflight) (tr : Trace W) : BatchResult × Session × Trace W :=
  match p.deferredAuth with
  | some instructions => (.finished (.response instructions), p.session, tr)
  | none =>
    match approval with
    | some (idx, tc, tool) =>
      (.finished (.needApproval
          (pendingFor (tr.draw env).1 tc tool p.context (calls.drop (idx + 1)))),
        p.session, (tr.draw env).2)
    | none => (.continues p.context, p.session, tr)

/-- One iteration's tool calls. -/
def runBatch (env : Env W) (user : String) (tid : Uuid) (calls : List ToolCall) (content : Option String)
    (context : List ChatMessage) (s : Session) (tr : Trace W) : BatchResult × Session × Trace W :=
  match preflight env user s.autoApprovedTools 0 calls tr with
  | (pf, tr₁) =>
    match executeRunnable env s.autoApprovedTools .batch (runnableOf pf.entries) tr₁ with
    | (results, tr₂) =>
      finishBatch env calls pf.approval
        (postflight env tid (outcomesOf pf.entries results)
          { session := onLastTurn tid (recordCalls env tr.world calls) s
            context := context ++ [ChatMessage.assistantWithToolCalls content calls] })
        tr₂

/-! ## The loop -/

/-- Split a message list before its last user message. -/
def splitLastUser : List ChatMessage → Option (List ChatMessage × List ChatMessage)
  | [] => none
  | m :: rest =>
    match splitLastUser rest with
    | some (before, tail) => some (m :: before, tail)
    | none => if m.role = .user then some ([], m :: rest) else none

def compactionNote : String :=
  "[Note: Earlier conversation history was automatically compacted "
    ++ "to fit within the context window. The most recent exchange is preserved below.]"

/-- `compact_messages_for_retry`: keep the system messages and everything from the last user message on. -/
def compactMessagesForRetry (messages : List ChatMessage) : List ChatMessage :=
  match splitLastUser messages with
  | some (before, tail) =>
    before.filter (fun m => m.role = .system)
      ++ (if before.isEmpty then [] else [ChatMessage.system compactionNote]) ++ tail
  | none =>
    messages.filter (fun m => m.role = .system) ++ messages.filter (fun m => m.role ≠ .system)

/-- Is a line one of the markers provider-level flattening leaves? -/
def isInternalMarker (line : String) : Bool :=
  (startsWith (trim line) "[Called tool " && endsWith (trim line) "]")
    || (startsWith (trim line) "[Tool " && contains (trim line) " returned:" && endsWith (trim line) "]")

def incompleteReplyFallback : String :=
  "I wasn't able to complete that request. Could you try rephrasing or providing more details?"

/-- `strip_internal_tool_call_text`. A line feed goes before a kept line only when text precedes it. -/
def stripInternalToolCallText (text : String) : String :=
  let kept := ((lines text).filter fun line => !isInternalMarker line).foldl
    (fun acc line => if acc.isEmpty then line else acc ++ "\n" ++ line) ""
  if (trim kept).isEmpty then incompleteReplyFallback else trim kept

def iterationLimitNudge : String :=
  "You are approaching the tool call limit. "
    ++ "Provide your best final answer on the next response "
    ++ "using the information you have gathered so far. "
    ++ "Do not call any more tools."

/-- The system prompts built once for the turn, with tools and without. -/
structure Prompts where
  withTools : String
  withoutTools : String

/-- The context of an iteration, with the warning one before the last. -/
def nudgedContext (env : Env W) (iteration : Nat) (context : List ChatMessage) : List ChatMessage :=
  if iteration = env.maxToolIterations - 1 then context ++ [ChatMessage.system iterationLimitNudge]
  else context

/-- Is the iteration one that must answer with a text? -/
def forceText (env : Env W) (iteration : Nat) : Bool := decide (env.maxToolIterations ≤ iteration)

/-- One exchange with the model: when the context is too long, compact it and try once more. The context
    that was answered is returned with the answer. -/
def exchange (env : Env W) (prompts : Prompts) (tools : List ToolDefinition) (force : Bool)
    (context : List ChatMessage) (tr : Trace W) :
    Except Error (RespondResult × List ChatMessage) × Trace W :=
  let prompt := if force then prompts.withoutTools else prompts.withTools
  match respondWithTools env ⟨context, tools, prompt, force⟩ tr with
  | (.ok result, tr) => (.ok (result, context), tr)
  | (.error (.contextLengthExceeded ..), tr) =>
    match respondWithTools env
        ⟨compactMessagesForRetry context, if force then [] else tools, prompt, force⟩ tr with
    | (.ok result, tr) => (.ok (result, compactMessagesForRetry context), tr)
    | (.error e, tr) => (.error (.llm e), tr)
  | (.error e, tr) => (.error (.llm e), tr)

/-- `MAX_TOOL_INTENT_NUDGES`. -/
def maxToolIntentNudges : Nat := 2

/-- Is the thread marked interrupted? -/
def isInterrupted (s : Session) (tid : Uuid) : Bool :=
  (s.threads.lookup tid).any fun t => decide (t.state = .interrupted)

/-- Does a text that announces a tool use get a nudge instead of being delivered? -/
def wantsNudge (env : Env W) (tools : List ToolDefinition) (force : Bool) (nudges : Nat)
    (text : String) : Bool :=
  !force && !tools.isEmpty && decide (nudges < maxToolIntentNudges) && env.llmSignalsToolIntent text

/-- The loop, with the number of iterations left. The source counts up and gives up past
    `max_tool_iterations + 1`; with `n + 1` left the iteration is number `max_tool_iterations + 1 - n`. -/
def agenticLoop (env : Env W) (user : String) (tid : Uuid) (prompts : Prompts) :
    Nat → Nat → List ChatMessage → Session → Trace W →
      Except Error AgenticLoopResult × Session × Trace W
  | 0, _, _, s, tr =>
    (.error (.llm (.invalidResponse "agent"
      ("Exceeded maximum tool iterations (" ++ toString env.maxToolIterations ++ ")"))), s, tr)
  | n + 1, nudges, context, s, tr =>
    if isInterrupted s tid then (.error (.job (.contextError tid "Interrupted")), s, tr)
    else
      match env.costLimit tr.world with
      | some limit => (.error (.llm (.invalidResponse "agent" limit)), s, tr)
      | none =>
        let iteration := env.maxToolIterations + 1 - n
        match exchange env prompts (env.toolDefinitions tr.world) (forceText env iteration)
            (nudgedContext env iteration context) tr with
        | (.error e, tr') => (.error e, s, tr')
        | (.ok (.text text, context'), tr') =>
          if wantsNudge env (env.toolDefinitions tr.world) (forceText env iteration) nudges text then
            agenticLoop env user tid prompts n (nudges + 1)
              (context' ++ [ChatMessage.assistant text, ChatMessage.user toolIntentNudge]) s tr'
          else (.ok (.response (stripInternalToolCallText text)), s, tr')
        | (.ok (.toolCalls calls content, context'), tr') =>
          match runBatch env user tid calls content context' s tr' with
          | (.finished result, s', tr'') => (.ok result, s', tr'')
          | (.continues context'', s', tr'') =>
            agenticLoop env user tid prompts n 0 context'' s' tr''

/-- `Agent::run_agentic_loop`. -/
def runAgenticLoop (env : Env W) (user : String) (tid : Uuid) (initialMessages : List ChatMessage)
    (s : Session) (tr : Trace W) : Except Error AgenticLoopResult × Session × Trace W :=
  agenticLoop env user tid
    ⟨env.systemPrompt (env.toolDefinitions tr.world), env.systemPrompt []⟩
    (env.maxToolIterations + 1) 0 initialMessages s tr

end Freeclawdia
