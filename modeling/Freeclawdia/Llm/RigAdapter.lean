import Freeclawdia.Llm.Provider
import Freeclawdia.Rust.Json
import Freeclawdia.Rust.Str

/-!
# `Llm.RigAdapter` — the history a rig-core completion model is given

`convert_messages` of `llm/rig_adapter.rs`: a conversation as the messages of `rig-core`, in which every tool call and
every tool result has an id that is not blank.
-/

namespace Freeclawdia

open Rust

namespace RigAdapter

/-- `rig::completion::AssistantContent`. -/
inductive AssistantContent
  | text (text : String)
  | toolCall (id name : String) (arguments : Json)
  | other

/-- The tool call of a content. -/
def callOf : AssistantContent → Option ToolCall
  | .toolCall id name arguments => some ⟨id, name, arguments⟩
  | _ => none

/-! ## Messages -/

/-- `rig::message::Message`; a tool result is a user message of one content. -/
inductive RigMessage
  | user (text : String)
  | assistant (contents : List AssistantContent)
  | toolResult (id content : String)

/-- `normalized_tool_call_id`. -/
def normalizedToolCallId (raw : Option String) (seed : Nat) : String :=
  match (raw.map trim).filter fun id => decide (id ≠ "") with
  | some id => id
  | none => "generated_tool_call_" ++ toString seed

/-- The entry an assistant message makes in a history of `seed` entries. -/
def assistantEntry (msg : ChatMessage) (seed : Nat) : RigMessage :=
  match msg.toolCalls with
  | some calls =>
    let contents := (if msg.content = "" then [] else [.text msg.content]) ++ calls.mapIdx fun idx tc =>
      .toolCall (normalizedToolCallId (some tc.id) (seed + idx)) tc.name tc.arguments
    if contents.isEmpty then .assistant [.text msg.content] else .assistant contents
  | none => .assistant [.text msg.content]

/-- The loop of `convert_messages`. -/
def convertMessage : Option String × List RigMessage → ChatMessage → Option String × List RigMessage
  | (preamble, history), msg =>
    match msg.role with
    | .system => (some (preamble.elim msg.content fun p => p ++ "\n" ++ msg.content), history)
    | .user => (preamble, history ++ [.user msg.content])
    | .assistant => (preamble, history ++ [assistantEntry msg history.length])
    | .tool => (preamble, history ++ [.toolResult (normalizedToolCallId msg.toolCallId history.length) msg.content])

/-- `convert_messages`. -/
def convertMessages (messages : List ChatMessage) : Option String × List RigMessage :=
  messages.foldl convertMessage (none, [])

end RigAdapter
end Freeclawdia
