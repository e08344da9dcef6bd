import Freeclawdia.Agent.ThreadOps

/-!
# `Channels.History` — the chat history of the web gateway

`chat_history_handler` (`src/channels/web/server.rs`): the turns of a thread that is in memory, and the request that
waits for approval on it. The parameters of that request are printed **as they are**; the redacted copy the request
carries for display is not used.

What the conversation tables answer for a thread that is not in memory is a parameter, as is the ownership query.
Requests with a `before` cursor go to the tables at once and are left out, and so are times.
-/

namespace Freeclawdia

open Rust

variable {W : Type}

/-- The status codes of refused requests. -/
inductive StatusCode
  | badRequest
  | notFound
  | internalServerError
  | serviceUnavailable

structure ToolCallInfo where
  name : String
  hasResult : Bool
  hasError : Bool
  resultPreview : Option String
  error : Option String

structure TurnInfo where
  turnNumber : Nat
  userInput : String
  response : Option String
  state : String
  toolCalls : List ToolCallInfo

/-- A pending tool approval, without the context it resumes from. -/
structure PendingApprovalInfo where
  requestId : String
  toolName : String
  description : String
  parameters : String

structure HistoryResponse where
  threadId : Uuid
  turns : List TurnInfo := []
  hasMore : Bool := false
  pendingApproval : Option PendingApprovalInfo := none

/-- `format!("{:?}", t.state)`. -/
def TurnState.debug : TurnState → String
  | .processing => "Processing"
  | .completed => "Completed"
  | .failed => "Failed"
  | .interrupted => "Interrupted"

variable (env : Env W)

def toolCallInfo (tc : TurnToolCall) : ToolCallInfo where
  name := tc.name
  hasResult := tc.result.isSome
  hasError := tc.error.isSome
  resultPreview := tc.result.map fun r =>
    truncatePreview (match r with
      | .string s => s
      | other => env.toText other) 500
  error := tc.error

def turnInfo (t : Turn) : TurnInfo where
  turnNumber := t.turnNumber
  userInput := t.userInput
  response := t.response
  state := t.state.debug
  toolCalls := t.toolCalls.map (toolCallInfo env)

/-- `serde_json::to_string_pretty(&pa.parameters).unwrap_or_default()`. -/
def printedParameters (p : PendingApproval) : String :=
  ((env.toStringPretty p.parameters).toOption).getD ""

def pendingApprovalInfo (p : PendingApproval) : PendingApprovalInfo where
  requestId := Uuid.toString p.requestId
  toolName := p.toolName
  description := p.description
  parameters := printedParameters env p

/-- The answers of the conversation tables: whose conversation it is, and the turns of a conversation with messages,
    with whether there are more. -/
structure HistoryStore where
  conversationBelongsToUser : Uuid → String → Bool
  turns : Uuid → Except (StatusCode × String) (Option (List TurnInfo × Bool))

/-- The thread that is asked for: the one named, or the active one. -/
def historyThread (threadId : Option String) (active : Option Uuid) : Except (StatusCode × String) Uuid :=
  match threadId with
  | some text =>
    match Uuid.parseStr text with
    | some tid => .ok tid
    | none => .error (.badRequest, "Invalid thread_id")
  | none =>
    match active with
    | some tid => .ok tid
    | none => .error (.notFound, "No active thread")

/-- The history of a thread that is not in memory, or has nothing to show. -/
def storedHistory (db : HistoryStore) (tid : Uuid) : Except (StatusCode × String) HistoryResponse :=
  if env.hasStore then
    match db.turns tid with
    | .error e => .error e
    | .ok (some (turns, hasMore)) => .ok { threadId := tid, turns, hasMore }
    | .ok none => .ok { threadId := tid }
  else .ok { threadId := tid }

/-- The history of a thread in memory. -/
def threadHistory (tid : Uuid) (thread : Thread) : HistoryResponse where
  threadId := tid
  turns := thread.turns.map (turnInfo env)
  pendingApproval := thread.pendingApproval.map (pendingApprovalInfo env)

/-- `chat_history_handler`. A user without a session reads like one whose session has no thread. -/
def chatHistoryHandler (db : HistoryStore) (user : String) (threadId : Option String)
    (st : AgentState W) : Except (StatusCode × String) HistoryResponse :=
  match historyThread threadId ((st.manager.session user).bind (·.activeThread)) with
  | .error e => .error e
  | .ok tid =>
    let thread := st.thread user tid
    if threadId.isSome && env.hasStore && !db.conversationBelongsToUser tid user && !thread.isSome then
      .error (.notFound, "Thread not found")
    else
      match thread.filter fun t => !t.turns.isEmpty || t.pendingApproval.isSome with
      | some thread => .ok (threadHistory env tid thread)
      | none => storedHistory env db tid

end Freeclawdia
