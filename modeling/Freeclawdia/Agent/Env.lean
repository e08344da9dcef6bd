import Freeclawdia.Agent.Session
import Freeclawdia.Hooks.Registry
import Freeclawdia.Tools.Tool

/-!
# `Agent.Env` — what surrounds the agent, and the trace it leaves

The agent talks to a model provider, to registered tools and hooks, to a safety layer and to libraries.
`Env W` collects them: everything that may change under the agent's feet is a function of a world `W` and
returns the next world, everything pure is a plain function. A theorem over all `W` and all `Env W` is a
theorem over every behaviour of the surroundings, including a tool registry that changes between two
lookups, since the registry is read off the current world each time.

`Trace W` is the running state of the surroundings: the world, the identifiers drawn so far and a **ghost
log**. The log records what crossed the boundary (messages sent to the provider, hook runs, tool
executions) together with the agent's approval bookkeeping. No modelled function reads it.

A tool that panics inside a spawned task is caught by the join set and is modelled (`taskPanics`). A panic on
the inline path unwinds through `Agent::run`; there is no later step to speak about, so it has no
representation.
-/

namespace Freeclawdia

open Rust

/-! ## Errors -/

/-- LLM provider errors; only the context-length error is told apart by the agent. -/
inductive LlmError
  | contextLengthExceeded (used limit : Nat)
  | invalidResponse (provider reason : String)
  | other (display : String)

/-- `Display` of an LLM error. -/
def LlmError.display : LlmError → String
  | contextLengthExceeded used limit =>
    s!"Context length exceeded: {used} tokens used, {limit} allowed"
  | invalidResponse provider reason => "Invalid response from " ++ provider ++ ": " ++ reason
  | other d => d

/-- Tool errors; durations are kept as the text they are displayed with. -/
inductive ToolError
  | notFound (name : String)
  | executionFailed (name reason : String)
  | timeout (name timeout : String)
  | invalidParameters (name reason : String)
  | authRequired (name : String)
  | rateLimited (name retryAfter : String)

/-- `Display` of a tool error. -/
def ToolError.display : ToolError → String
  | notFound name => "Tool " ++ name ++ " not found"
  | executionFailed name reason => "Tool " ++ name ++ " execution failed: " ++ reason
  | timeout name t => "Tool " ++ name ++ " timed out after " ++ t
  | invalidParameters name reason => "Invalid parameters for tool " ++ name ++ ": " ++ reason
  | authRequired name => "Tool " ++ name ++ " requires authentication"
  | rateLimited name retryAfter => "Tool " ++ name ++ " is rate limited, retry after " ++ retryAfter

/-- Job-related errors. -/
inductive JobError
  | notFound (id : Uuid)
  | failed (id : Uuid) (reason : String)
  | maxJobsExceeded (max : Nat)
  | contextError (id : Uuid) (reason : String)

/-- `Display` of a job error. -/
def JobError.display : JobError → String
  | notFound id => "Job " ++ Uuid.toString id ++ " not found"
  | failed id reason => "Job " ++ Uuid.toString id ++ " failed: " ++ reason
  | maxJobsExceeded max => "Maximum parallel jobs (" ++ toString max ++ ") exceeded"
  | contextError id reason => "Job " ++ Uuid.toString id ++ " context error: " ++ reason

/-- The crate's error type, as far as the agent core raises or passes it. -/
inductive Error
  | llm (e : LlmError)
  | tool (e : ToolError)
  | job (e : JobError)
  | other (display : String)

/-- `Display` of an error. -/
def Error.display : Error → String
  | llm e => "LLM error: " ++ e.display
  | tool e => "Tool error: " ++ e.display
  | job e => "Job error: " ++ e.display
  | other d => d

/-! ## The surroundings -/

/-- Definition of a tool offered to the LLM. -/
structure ToolDefinition where
  name : String
  description : String
  parameters : Json

/-- A request to the provider: the messages and the tools offered (none for a plain completion). -/
structure LlmRequest where
  messages : List ChatMessage
  tools : List ToolDefinition

/-- The provider's answer. -/
structure LlmResponse where
  content : Option String
  toolCalls : List ToolCall

/-- How a tool run ends: with an output, with an error, or at its time limit. -/
inductive ToolRun
  | done (output : Json)
  | failed (reason : String)
  | timedOut (timeout : String)

/-- A message as a channel delivers it; `threadId` is the channel's own name for the conversation. -/
structure IncomingMessage where
  channel : String
  userId : String
  content : String
  threadId : Option String := none

/-- How `ExtensionManager::auth` answers a token. -/
inductive AuthOutcome
  | authenticated
  | rejected (instructions : Option String)
  | failed (error : String)

/-- Strategy for context compaction. -/
inductive CompactionStrategy
  | summarize (keepRecent : Nat)
  | truncate (keepRecent : Nat)
  | moveToWorkspace

/-- Everything outside the agent's own logic. -/
structure Env (W : Type) where
  /-- `config.auto_approve_tools` and `config.max_tool_iterations`. -/
  autoApproveTools : Bool
  maxToolIterations : Nat
  /-- `ToolRegistry::get` and the definitions offered after attenuation, at one moment. -/
  tool : W → String → Option Tool
  toolDefinitions : W → List ToolDefinition
  /-- `Tool::execute` under its timeout. -/
  execute : String → Json → W → ToolRun × W
  /-- Which of the remaining spawned tasks finishes next, and whether it panics. -/
  nextTask : W → Nat
  taskPanics : ToolCall → W → Bool
  /-- Hooks registered for a point, in priority order. -/
  hooks : HookPoint → W → List (Hook W)
  /-- `LlmProvider::complete` and `complete_with_tools`. -/
  complete : LlmRequest → W → Except LlmError LlmResponse × W
  /-- `CostGuard::check_allowed`: the text of the limit that was hit. -/
  costLimit : W → Option String
  /-- The workspace: whether there is one and whether an append to it succeeds. -/
  hasWorkspace : Bool
  workspaceAppend : String → W → Bool × W
  /-- The conversation store: whether there is one and whether a call to it succeeds. -/
  hasStore : Bool
  storeCall : W → Bool × W
  /-- The extension manager: whether there is one, its answer to a token, and activation, which yields the
      names of the loaded tools or an error text. -/
  hasExtensionManager : Bool
  auth : String → String → W → AuthOutcome × W
  activate : String → W → Except String (List String) × W
  /-- `Uuid::new_v4`: the identifiers in the order they are drawn. -/
  newV4 : Nat → Uuid
  /-- `serde_json`: parsing, printing, pretty printing. -/
  fromStr : String → Option Json
  toText : Json → String
  toStringPretty : Json → Except String String
  /-- The safety layer. Validation returns the `field: message` texts of its errors. -/
  validateInput : String → List String
  policyBlocks : String → Bool
  scanInboundForSecrets : String → Option String
  validateToolParams : Json → List String
  sanitizeToolOutput : String → String → String × Bool
  wrapForLlm : String → String → Bool → String
  /-- `Reasoning`: cleaning and tool-call recovery of model text, intent detection, system prompt. -/
  cleanResponse : String → String
  recoverToolCalls : String → List ToolDefinition → List ToolCall
  llmSignalsToolIntent : String → Bool
  systemPrompt : List ToolDefinition → String
  /-- `ContextMonitor`: the suggested strategy, the token count, the usage in percent as displayed. -/
  suggestCompaction : List ChatMessage → Option CompactionStrategy
  countTokens : List ChatMessage → Nat
  usagePercent : List ChatMessage → String
  /-- `serde_json::from_str::<Submission>`, restricted to the `ExecApproval` variant. -/
  decodeExecApproval : String → Option (Uuid × Bool × Bool)

/-- Surroundings in which nothing is registered and nothing fails: no tools, no hooks, no store, and a
    provider that answers `ok`. Concrete runs start from it and change what they are about. -/
def Env.idle (W : Type) : Env W where
  autoApproveTools := false
  maxToolIterations := 10
  tool := fun _ _ => none
  toolDefinitions := fun _ => []
  execute := fun _ _ w => (.done .null, w)
  nextTask := fun _ => 0
  taskPanics := fun _ _ => false
  hooks := fun _ _ => []
  complete := fun _ w => (.ok ⟨some "ok", []⟩, w)
  costLimit := fun _ => none
  hasWorkspace := false
  workspaceAppend := fun _ w => (true, w)
  hasStore := false
  storeCall := fun w => (true, w)
  hasExtensionManager := false
  auth := fun _ _ w => (.authenticated, w)
  activate := fun _ w => (.ok [], w)
  newV4 := fun n => BitVec.ofNat 128 (2 ^ 64 + n % 2 ^ 64)
  fromStr := fun _ => none
  toText := fun _ => "null"
  toStringPretty := fun _ => .ok "null"
  validateInput := fun _ => []
  policyBlocks := fun _ => false
  scanInboundForSecrets := fun _ => none
  validateToolParams := fun _ => []
  sanitizeToolOutput := fun _ output => (output, false)
  wrapForLlm := fun _ content _ => content
  cleanResponse := fun text => text
  recoverToolCalls := fun _ _ => []
  llmSignalsToolIntent := fun _ => false
  systemPrompt := fun _ => "You are a helpful assistant."
  suggestCompaction := fun _ => none
  countTokens := fun _ => 0
  usagePercent := fun _ => "0.0"
  decodeExecApproval := fun _ => none

/-- The idle surroundings with a provider that answers from a script; the world counts its calls. -/
def Env.scripted (answers : List LlmResponse) : Env Nat :=
  { Env.idle Nat with complete := fun _ n => (.ok ((answers[n]?).getD ⟨some "ok", []⟩), n + 1) }

/-! ## The ghost log -/

/-- Which piece of code executed a tool. -/
inductive Cause
  | batch
  | approved (requestId : Uuid)
  | deferred

/-- What crossed the boundary, in order. -/
inductive Event
  /-- A message list passed to the provider. -/
  | llm (messages : List ChatMessage)
  /-- The `BeforeToolCall` hooks ran for a call of a batch. -/
  | hooked (original : ToolCall) (sensitive : List String) (result : Except HookError HookOutcome)
  /-- `Tool::execute` was called, with the session's auto-approved tools at that moment. -/
  | executed (call : ToolCall) (tool : Tool) (autoApproved : List String) (cause : Cause)
  /-- An approval request was stored on a thread. -/
  | raised (pending : PendingApproval)
  /-- A user's input opened a turn, or a turn of the user was answered with a text. -/
  | asked (userId content : String)
  | answered (userId content : String)

/-- The running state of the surroundings. -/
structure Trace (W : Type) where
  world : W
  drawn : Nat := 0
  log : List Event := []

namespace Trace

variable {W : Type}

/-- Append to the log. -/
def emit (tr : Trace W) (e : Event) : Trace W := { tr with log := tr.log ++ [e] }

/-- `Uuid::new_v4`. -/
def draw (env : Env W) (tr : Trace W) : Uuid × Trace W :=
  (env.newV4 tr.drawn, { tr with drawn := tr.drawn + 1 })

/-- Run the hooks of an event's point. -/
def runHooks (env : Env W) (event : HookEvent) (tr : Trace W) :
    Except HookError HookOutcome × Trace W :=
  let r := HookRegistry.run env.fromStr env.toText (env.hooks event.hookPoint tr.world) event tr.world
  (r.1, { tr with world := r.2 })

/-- Call the provider. -/
def complete (env : Env W) (request : LlmRequest) (tr : Trace W) :
    Except LlmError LlmResponse × Trace W :=
  let r := env.complete request tr.world
  (r.1, { tr.emit (.llm request.messages) with world := r.2 })

end Trace
end Freeclawdia
