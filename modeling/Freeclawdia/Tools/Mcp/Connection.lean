import Freeclawdia.Lib.Interleave
import Freeclawdia.Tools.Mcp.Client

/-!
# `Tools.Mcp.Connection` — the clones of an MCP client at work

`tools/mcp/client.rs`: `send_request`, `initialize`, `list_tools`, `call_tool` and `create_tools`, as programs over
the operations of a session manager, of the clones' counters and caches, and of the HTTP client. A request goes out
and its answer comes in by different operations, so that other calls can come in between. Time does not go backwards.

For statements the shared state keeps books: which session a task's id stems from, counting the sessions created for
the server; in which of them an initialize exchange succeeded, and in which the server answered that the session has
expired; and what was sent and received. No operation of the code reads these.
-/

namespace Freeclawdia.Mcp
namespace Connection

open Rust Tools

/-- What the clones of a client have in common. -/
structure McpClient where
  serverUrl : String
  serverName : String
  /-- Is there a session manager? -/
  sessionManager : Bool
  /-- Are there a secrets store and a server configuration? -/
  authenticated : Bool

/-- What each clone has for itself. -/
structure Clone where
  nextId : Nat := 1
  toolsCache : Option (List McpTool) := none

/-- In what a request was sent: the session its id was read from. -/
structure SentIn where
  /-- There is another session for the server by now. -/
  replaced : Bool
  /-- An initialize exchange in it has succeeded. -/
  exchanged : Bool
  /-- How long there was no activity, in nanoseconds. -/
  idle : Nat
  /-- The server has since answered that it has expired. -/
  expired : Bool

structure Sent where
  task : Nat
  request : McpRequest
  authorization : Option String
  sessionId : Option String
  session : SentIn

structure Received where
  task : Nat
  request : McpRequest
  answer : HttpAnswer

structure Shared where
  clones : List Clone := [{}]
  manager : McpSessionManager := .new
  clock : Nat := 0
  /-- How many sessions have been created for the server. -/
  created : Nat := 0
  /-- From which of them a task has last read the id. -/
  held : Nat → Nat := fun _ => 0
  exchanged : List Nat := []
  expired : List Nat := []
  /-- The tasks that have made sure of the session and have not yet sent their request to the tools. -/
  underway : List Nat := []
  sent : List Sent := []
  received : List Received := []

/-- A request that needs a session. -/
def toTools (request : McpRequest) : Bool := request.method = "tools/list" || request.method = "tools/call"

/-- The status for a session that there is no longer. -/
def sessionExpired : Nat := 404

/-! ## Operations -/

inductive Op
  | nextRequestId (clone : Nat)
  | cachedTools (clone : Nat)
  | cacheTools (clone : Nat) (tools : List McpTool)
  | clone (clone : Nat)
  | isInitialized
  | getOrCreate
  | markInitialized
  | getSessionId
  | updateSessionId (sessionId : String)
  /-- Get the access token for a request. -/
  | getDecrypted (request : McpRequest)
  | refreshAccessToken (request : McpRequest)
  | send (request : McpRequest) (authorization sessionId : Option String)
  | receive (request : McpRequest)

abbrev Ans : Op → Type
  | .nextRequestId _ | .clone _ => Nat
  | .cachedTools _ => Option (List McpTool)
  | .isInitialized => Bool
  | .getSessionId => Option String
  | .getDecrypted _ => Except String (Option String)
  | .refreshAccessToken _ => Except String Unit
  | .receive _ => Except String HttpAnswer
  | _ => Unit

structure Input where
  now : Nat
  token : Except String (Option String) := .ok none
  refreshed : Except String Unit := .ok ()
  answer : Except String HttpAnswer := .error ""

section Machine

variable (fromJson : List UInt8 → Except String McpResponse) (client : McpClient)

/-- The outcome of an initialize exchange, by its response. -/
def initializeResult (serde : Json → String) (response : McpResponse) : Except Tools.ToolError InitializeResult :=
  match response.error with
  | some error => .error (.externalService ("MCP initialization error: " ++ errorText error))
  | none =>
    match response.result with
    | none => .error (.externalService "No result in initialize response")
    | some result =>
      match decodeInitializeResult result with
      | some r => .ok r
      | none => .error (.externalService ("Invalid initialize result: " ++ serde result))

/-- Does the answer to an initialize request make the exchange succeed? -/
def accepts (answer : HttpAnswer) : Bool :=
  match readResponse fromJson answer with
  | .ok response => (initializeResult (fun _ => "") response).isOk
  | .error _ => false

namespace Shared

variable (s : Shared)

/-- Change a clone. -/
def onClone {α : Type} (k : Nat) (f : Clone → α × Clone) : Option (α × Shared) :=
  s.clones[k]?.map fun c => ((f c).1, { s with clones := s.clones.set k (f c).2 })

/-- The session for the server. -/
def session : Option McpSession := s.manager.sessions.lookup client.serverName

/-- For how long the session has been idle. -/
def idle (now : Nat) : Nat := now - ((s.session client).elim 0 McpSession.lastActivity)

/-- The books, once an answer has come in. -/
def book (t : Nat) (request : McpRequest) (answer : HttpAnswer) : Shared :=
  let s := { s with received := ⟨t, request, answer⟩ :: s.received }
  if request.method = "initialize" ∧ accepts fromJson answer then
    { s with exchanged := s.held t :: s.exchanged, expired := s.expired.filter (· ≠ s.held t) }
  else if answer.status = sessionExpired then { s with expired := s.held t :: s.expired }
  else s

end Shared

/-- What an operation answers and leaves behind. -/
def act (t : Nat) : (o : Op) → Input → Shared → Option (Ans o × Shared)
  | .nextRequestId k, _, s => s.onClone k fun c => (c.nextId, { c with nextId := (c.nextId + 1) % 2 ^ 64 })
  | .cachedTools k, _, s => s.clones[k]?.map fun c => (c.toolsCache, s)
  | .cacheTools k tools, _, s => s.onClone k fun c => ((), { c with toolsCache := some tools })
  | .clone k, _, s =>
    s.clones[k]?.map fun c => (s.clones.length, { s with clones := s.clones ++ [{ nextId := c.nextId }] })
  | .isInitialized, _, s =>
    if s.manager.isInitialized client.serverName then some (true, { s with underway := t :: s.underway })
    else some (false, s)
  | .getOrCreate, i, s =>
    some ((), { s with
      manager := s.manager.getOrCreate client.serverName client.serverUrl i.now
      created := if s.manager.lacks client.serverName i.now then s.created + 1 else s.created })
  | .markInitialized, i, s =>
    some ((), { s with
      manager := s.manager.markInitialized client.serverName i.now
      underway := t :: s.underway })
  | .getSessionId, _, s =>
    some (s.manager.getSessionId client.serverName, { s with held := Function.update s.held t s.created })
  | .updateSessionId sessionId, i, s =>
    some ((), { s with manager := s.manager.updateSessionId client.serverName (some sessionId) i.now })
  | .getDecrypted request, i, s =>
    match i.token with
    | .ok token => some (.ok token, s)
    | .error e =>
      -- The call ends here, unless it is the notification that fails.
      some (.error e, { s with underway := if toTools request then s.underway.filter (· ≠ t) else s.underway })
  | .refreshAccessToken request, i, s =>
    match i.refreshed with
    | .ok _ =>
      let again := client.sessionManager && toTools request
      some (.ok (), { s with underway := if again then t :: s.underway else s.underway })
    | .error e => some (.error e, s)
  | .send request authorization sessionId, i, s =>
    let session : SentIn :=
      ⟨s.held t ≠ s.created, s.held t ∈ s.exchanged, s.idle client i.now, s.held t ∈ s.expired⟩
    some ((), { s with
      sent := ⟨t, request, authorization, sessionId, session⟩ :: s.sent
      underway := if toTools request then s.underway.filter (· ≠ t) else s.underway })
  | .receive request, i, s =>
    match i.answer with
    | .error e => some (.error e, s)
    | .ok answer => some (.ok answer, s.book fromJson t request answer)

/-- An operation at its time. -/
def perform (t : Nat) (o : Op) (i : Input) (s : Shared) : Option (Ans o × Shared) :=
  if i.now < s.clock then none else act fromJson client t o i { s with clock := i.now }

end Machine

/-! ## Programs -/

section Programs

variable (fromJson : List UInt8 → Except String McpResponse) (serde : Json → String) (version : String)
    (client : McpClient)

/-- Get the access token for this server (if authenticated). -/
def getAccessToken (request : McpRequest) : Prog Op Ans (Except Tools.ToolError (Option String)) :=
  if client.authenticated then do
    match ← perf (Op.getDecrypted request) with
    | .ok token => return .ok token
    | .error e => return .error (.externalService ("Failed to get access token: " ++ e))
  else return .ok none

def currentSessionId : Prog Op Ans (Option String) :=
  if client.sessionManager then perf Op.getSessionId else return none

/-- Parse the HTTP response into an MCP response. -/
def parseResponse (answer : HttpAnswer) : Prog Op Ans (Except Tools.ToolError McpResponse) :=
  match answer.sessionId with
  | some sessionId =>
    if client.sessionManager then do
      perf (Op.updateSessionId sessionId)
      return readResponse fromJson answer
    else return readResponse fromJson answer
  | none => return readResponse fromJson answer

def requiresAuthentication : Tools.ToolError :=
  .externalService ("MCP server '" ++ client.serverName ++ "' requires authentication. Run: ironclaw mcp auth " ++
    client.serverName)

/-- The loop of `send_request`, with so many attempts left. -/
def attempt (request : McpRequest) : (left : Nat) → Prog Op Ans (Except Tools.ToolError McpResponse)
  | 0 => return .error (.externalService "MCP request failed after retry")
  | left + 1 => do
      match ← getAccessToken client request with
      | .error e => return .error e
      | .ok token =>
        let sessionId ← currentSessionId client
        perf (Op.send request (token.map ("Bearer " ++ ·)) sessionId)
        match ← perf (Op.receive request) with
        | .error e => return .error (.externalService ("MCP request failed: " ++ e))
        | .ok answer =>
          if answer.status = 401 then
            -- Only the first attempt is followed by another one.
            if left = 1 ∧ client.authenticated then
              match ← perf (Op.refreshAccessToken request) with
              | .ok _ => attempt request left
              | .error _ => return .error (requiresAuthentication client)
            else return .error (requiresAuthentication client)
          else parseResponse fromJson client answer

/-- Send a request to the MCP server with auth and session headers. -/
def sendRequest (request : McpRequest) : Prog Op Ans (Except Tools.ToolError McpResponse) :=
    attempt fromJson client request 2

variable (k : Nat)

/-- The exchange of `initialize`, once there is a session. -/
def exchangeInitialize : Prog Op Ans (Except Tools.ToolError InitializeResult) := do
  let id ← perf (Op.nextRequestId k)
  match ← sendRequest fromJson client (.initializeRequest version id) with
  | .error e => return .error e
  | .ok response =>
    match initializeResult serde response with
    | .error e => return .error e
    | .ok result => do
        if client.sessionManager then perf Op.markInitialized
        -- Notifications don't have responses.
        let _ ← sendRequest fromJson client .initializedNotification
        return .ok result

/-- Initialize the connection to the MCP server. -/
def initializeConnection : Prog Op Ans (Except Tools.ToolError InitializeResult) :=
  if client.sessionManager then do
    if ← perf Op.isInitialized then return .ok {}
    else
      perf Op.getOrCreate
      exchangeInitialize fromJson serde version client k
  else exchangeInitialize fromJson serde version client k

/-- Make sure of the session, if there is a session manager. -/
def ensureInitialized : Prog Op Ans (Except Tools.ToolError Unit) :=
  if client.sessionManager then do
    match ← initializeConnection fromJson serde version client k with
    | .error e => return .error e
    | .ok _ => return .ok ()
  else return .ok ()

/-- List available tools from the MCP server. -/
def listTools : Prog Op Ans (Except Tools.ToolError (List McpTool)) := do
  match ← perf (Op.cachedTools k) with
  | some tools => return .ok tools
  | none =>
    match ← ensureInitialized fromJson serde version client k with
    | .error e => return .error e
    | .ok _ => do
        let id ← perf (Op.nextRequestId k)
        let response ← sendRequest fromJson client (.listTools id)
        match readToolsList serde response with
        | .error e => return .error e
        | .ok tools => do
            perf (Op.cacheTools k tools)
            return .ok tools

/-- Call a tool on the MCP server. -/
def callTool (name : String) (arguments : Json) : Prog Op Ans (Except Tools.ToolError CallToolResult) := do
  match ← ensureInitialized fromJson serde version client k with
  | .error e => return .error e
  | .ok _ => do
      let id ← perf (Op.nextRequestId k)
      let response ← sendRequest fromJson client (.callTool id name arguments)
      return readToolResult serde response

/-- Create tools for all MCP tools: wrappers around a clone. -/
def createTools : Prog Op Ans (Except Tools.ToolError (Nat × List McpToolWrapper)) := do
  match ← listTools fromJson serde version client k with
  | .error e => return .error e
  | .ok tools => do
      let clone ← perf (Op.clone k)
      return .ok (clone, Mcp.createTools client.serverName tools)

/-! ## Calls -/

inductive Call
  | listTools (clone : Nat)
  | callTool (clone : Nat) (name : String) (arguments : Json)
  | clone (clone : Nat)
  | createTools (clone : Nat)

abbrev Out : Call → Type
  | .listTools _ => Except Tools.ToolError (List McpTool)
  | .callTool _ _ _ => Except Tools.ToolError CallToolResult
  | .clone _ => Nat
  | .createTools _ => Except Tools.ToolError (Nat × List McpToolWrapper)

def body : (c : Call) → Prog Op Ans (Out c)
  | .listTools k => listTools fromJson serde version client k
  | .callTool k name arguments => callTool fromJson serde version client k name arguments
  | .clone k => perf (Op.clone k)
  | .createTools k => createTools fromJson serde version client k

/-- Calls on the clones of one client, interleaved in any way. -/
def machine : Machine where
  Shared := Shared
  Op := Op
  Ans := Ans
  Input := Input
  Call := Call
  Out := Out
  body := body fromJson serde version client
  perform := perform fromJson client

end Programs

end Connection
end Freeclawdia.Mcp
