import Freeclawdia.Rust.Json

/-!
# `Llm.Provider` — chat messages and tool calls

The message type every provider call takes (`src/llm/provider.rs`) and its constructors.
-/

namespace Freeclawdia

open Rust

/-- Role in a conversation. -/
inductive Role
  | system
  | user
  | assistant
  | tool
deriving DecidableEq

/-- A tool call requested by the LLM. -/
structure ToolCall where
  id : String
  name : String
  arguments : Json

/-- A message in a conversation. `toolCallId` and `name` are set on tool results, `toolCalls` on the
    assistant message that requests them. -/
structure ChatMessage where
  role : Role
  content : String
  toolCallId : Option String := none
  name : Option String := none
  toolCalls : Option (List ToolCall) := none

namespace ChatMessage

def system (content : String) : ChatMessage := { role := .system, content }

def user (content : String) : ChatMessage := { role := .user, content }

def assistant (content : String) : ChatMessage := { role := .assistant, content }

/-- An assistant message with tool calls; an empty batch leaves the field unset. -/
def assistantWithToolCalls (content : Option String) (toolCalls : List ToolCall) : ChatMessage :=
  { role := .assistant
    content := content.getD ""
    toolCalls := if toolCalls.isEmpty then none else some toolCalls }

def toolResult (toolCallId name content : String) : ChatMessage :=
  { role := .tool, content, toolCallId := some toolCallId, name := some name }

end ChatMessage

/-! ## Sanitizing -/

/-- The ids of the tool calls of an assistant message. -/
def ChatMessage.callIds (m : ChatMessage) : List String :=
  if m.role = .assistant then (m.toolCalls.getD []).map ToolCall.id else []

/-- All tool call ids emitted by assistant messages. -/
def knownIds (messages : List ChatMessage) : List String := messages.flatMap ChatMessage.callIds

/-- Is a tool result without a matching call? -/
def isOrphaned (known : List String) (m : ChatMessage) : Bool :=
  match m.toolCallId with
  | some id => !known.contains id
  | none => true

/-- An orphaned tool result as a user message. -/
def rewriteOrphan (m : ChatMessage) : ChatMessage :=
  { m with
    role := .user
    content := "[Tool `" ++ m.name.getD "unknown" ++ "` returned: " ++ m.content ++ "]"
    toolCallId := none
    name := none }

/-- Sanitize a message list to ensure tool_use / tool_result integrity. -/
def sanitizeToolMessages (messages : List ChatMessage) : List ChatMessage :=
  messages.map fun m => if m.role = .tool ∧ isOrphaned (knownIds messages) m = true then rewriteOrphan m else m

end Freeclawdia
