import Freeclawdia.Tools.Mcp.Protocol

/-!
# `Tools.Mcp.Client` — MCP clients and their sessions

`tools/mcp/client.rs`: `list_tools` and `call_tool` behind `send_request`, and the tool that wraps them. `sent` is
what came of initializing and sending; the text of a decoding error is `serde`'s.
-/

namespace Freeclawdia.Mcp

open Rust Tools

variable (serde : Json → String)

/-- A result, once there was an answer without an error. -/
def resultOf (failed : McpError → Tools.ToolError) (response : McpResponse) : Except Tools.ToolError Json :=
  match response.error with
  | some error => .error (failed error)
  | none =>
    match response.result with
    | some result => .ok result
    | none => .error (.externalService "No result in MCP response")

def errorText (error : McpError) : String := error.message ++ " (code " ++ toString error.code ++ ")"

/-- What `list_tools` makes of the answer. -/
def readToolsList (sent : Except Tools.ToolError McpResponse) : Except Tools.ToolError (List McpTool) :=
  match sent with
  | .error e => .error e
  | .ok response =>
    match resultOf (fun e => .externalService ("MCP error: " ++ errorText e)) response with
    | .error e => .error e
    | .ok result =>
      match decodeListToolsResult result with
      | some r => .ok r.tools
      | none => .error (.externalService ("Invalid tools list: " ++ serde result))

/-- What `call_tool` makes of the answer. -/
def readToolResult (sent : Except Tools.ToolError McpResponse) : Except Tools.ToolError CallToolResult :=
  match sent with
  | .error e => .error e
  | .ok response =>
    match resultOf (fun e => .executionFailed ("MCP tool error: " ++ errorText e)) response with
    | .error e => .error e
    | .ok result =>
      match decodeCallToolResult result with
      | some r => .ok r
      | none => .error (.externalService ("Invalid tool result: " ++ serde result))

/-- Wrapper that implements `Tool` for an MCP tool. -/
structure McpToolWrapper where
  tool : McpTool
  prefixedName : String

/-- `create_tools`: one wrapper for each tool of the list. -/
def createTools (serverName : String) (tools : List McpTool) : List McpToolWrapper :=
  tools.map fun t => ⟨t, serverName ++ "_" ++ t.name⟩

namespace McpToolWrapper

/-- What `execute` makes of the answer to its call. -/
def execute (sent : Except Tools.ToolError McpResponse) : Except Tools.ToolError String :=
  match readToolResult serde sent with
  | .error e => .error e
  | .ok result =>
    let content := join "\n" (result.content.filterMap ContentBlock.asText)
    if result.isError then .error (.executionFailed content) else .ok content

/-- `requires_approval`, which does not look at the parameters. -/
def requiresApproval (w : McpToolWrapper) (_params : Json) : ApprovalRequirement :=
  if w.tool.requiresApproval then .unlessAutoApproved else .never

end McpToolWrapper

/-! ## Sessions with MCP servers

`tools/mcp/session.rs`: a session for each server name, created when it is first asked for and anew when it has been idle
for too long. Instants are in nanoseconds. -/

/-- Session state for a single MCP server connection. -/
structure McpSession where
  /-- Session ID returned by the server. -/
  sessionId : Option String
  lastActivity : Nat
  serverUrl : String
  /-- Whether initialization has completed. -/
  initialized : Bool

namespace McpSession

def new (serverUrl : String) (now : Nat) : McpSession := ⟨none, now, serverUrl, false⟩

/-- Update the session ID (from server response). -/
def updateSessionId (sessionId : Option String) (now : Nat) (s : McpSession) : McpSession :=
  { s with sessionId := if sessionId.isSome then sessionId else s.sessionId, lastActivity := now }

def markInitialized (now : Nat) (s : McpSession) : McpSession := { s with initialized := true, lastActivity := now }

/-- Check if the session has been idle for too long: whole seconds count. -/
def isStale (maxIdleSecs now : Nat) (s : McpSession) : Bool := maxIdleSecs < (now - s.lastActivity) / 10 ^ 9

/-- A session that is stale has been idle for longer than that. -/
theorem idle_of_isStale {maxIdleSecs now : Nat} {s : McpSession} (h : s.isStale maxIdleSecs now = true) :
    maxIdleSecs * 10 ^ 9 < now - s.lastActivity := by
  have h := of_decide_eq_true h
  omega

end McpSession

/-- Manages MCP sessions for multiple servers, by server name. -/
structure McpSessionManager where
  sessions : Map String McpSession
  /-- Maximum idle time before a session is considered stale. -/
  maxIdleSecs : Nat

namespace McpSessionManager

/-- The default idle timeout is 30 minutes. -/
def new : McpSessionManager := ⟨∅, 1800⟩

def withIdleTimeout (maxIdleSecs : Nat) : McpSessionManager := ⟨∅, maxIdleSecs⟩

variable (m : McpSessionManager) (serverName : String) (f : McpSession → McpSession)

/-- Change a session that there is. -/
def modify : McpSessionManager :=
  match m.sessions.lookup serverName with
  | some s => { m with sessions := m.sessions.insert serverName (f s) }
  | none => m

/-- There is no session for the server, or one that is stale. -/
def lacks (now : Nat) : Bool :=
  match m.sessions.lookup serverName with
  | some s => s.isStale m.maxIdleSecs now
  | none => true

/-- Get or create a session for a server; what becomes of the manager. -/
def getOrCreate (serverName serverUrl : String) (now : Nat) : McpSessionManager :=
  if m.lacks serverName now then
    { m with sessions := m.sessions.insert serverName (.new serverUrl now) }
  else m

def getSessionId : Option String := (m.sessions.lookup serverName).bind McpSession.sessionId

def updateSessionId (sessionId : Option String) (now : Nat) : McpSessionManager :=
  m.modify serverName (.updateSessionId sessionId now)

def markInitialized (now : Nat) : McpSessionManager := m.modify serverName (.markInitialized now)

def isInitialized : Bool :=
  match m.sessions.lookup serverName with
  | some s => s.initialized
  | none => false

variable {m} {serverName serverUrl : String} {now : Nat}

theorem lookup_modify (name : String) : (m.modify serverName f).sessions.lookup name =
      if name = serverName then (m.sessions.lookup serverName).map f else m.sessions.lookup name := by
  unfold modify
  cases h : m.sessions.lookup serverName with
  | none =>
    by_cases heq : name = serverName
    · rw [if_pos heq, heq]
      exact h
    · rw [if_neg heq]
  | some s => exact Map.lookup_insert_ite ..

@[simp] theorem maxIdleSecs_modify :
    (m.modify serverName f).maxIdleSecs = m.maxIdleSecs := by
  unfold modify
  split <;> rfl

@[simp] theorem maxIdleSecs_getOrCreate : (m.getOrCreate serverName serverUrl now).maxIdleSecs = m.maxIdleSecs := by
  unfold getOrCreate
  split <;> rfl

/-- A session that is there and not stale stays; otherwise there is a new one. -/
theorem lookup_getOrCreate (name : String) : (m.getOrCreate serverName serverUrl now).sessions.lookup name =
      if name = serverName ∧ m.lacks serverName now then some (.new serverUrl now) else m.sessions.lookup name := by
  unfold getOrCreate
  by_cases hlacks : m.lacks serverName now = true
  · rw [if_pos hlacks]
    simp only [hlacks, and_true]
    exact Map.lookup_insert_ite ..
  · rw [if_neg hlacks, if_neg fun h => hlacks h.2]

end McpSessionManager

end Freeclawdia.Mcp
