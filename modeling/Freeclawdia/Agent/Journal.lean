import Freeclawdia.Agent.ThreadOps
import Freeclawdia.Db.Conversations

/-!
# `Agent.Journal` — a turn as it is written to the conversation tables

`persist_user_message`, `persist_tool_calls` and `persist_assistant_response` (`src/agent/thread_ops.rs`) on the tables
themselves. `Agent.ThreadOps` has the same functions on the store the agent sees, where a message is a role and a
content; here a row also has the identifier and the time that its insertion draws.
-/

namespace Freeclawdia.Conversations

open Rust

variable {W : Type}

/-- Ensure the conversation row, then add one message; a failed insertion is logged and dropped. -/
def persistMessage (tid : Uuid) (user role content : String) (d : Draw) (t : Tables) : Tables :=
  ((addConversationMessage (ensureConversation t tid user) tid role content d.id d.now).toOption).getD
    (ensureConversation t tid user)

def persistUserMessage (tid : Uuid) (user userInput : String) (d : Draw) (t : Tables) : Tables :=
  persistMessage tid user "user" userInput d t

def persistAssistantResponse (tid : Uuid) (user response : String) (d : Draw) (t : Tables) : Tables :=
  persistMessage tid user "assistant" response d t

/-- The content of a record of tool calls. -/
def callsContent (env : Env W) (toolCalls : List TurnToolCall) : String :=
  env.toText (.array (toolCalls.map (callSummary env)))

def persistToolCalls (env : Env W) (tid : Uuid) (user : String) (toolCalls : List TurnToolCall) (d : Draw) (t : Tables) :
    Tables :=
  if toolCalls.isEmpty then t else persistMessage tid user "tool_calls" (callsContent env toolCalls) d t

/-- One turn, with the draws from number `k` on. -/
def persistTurn (env : Env W) (tid : Uuid) (user : String) (draw : Nat → Draw) (k : Nat) (turn : Turn) (t : Tables) :
    Tables :=
  let t := persistUserMessage tid user turn.userInput (draw k) t
  let t := persistToolCalls env tid user turn.toolCalls (draw (k + 1)) t
  match turn.response with
  | some response => persistAssistantResponse tid user response (draw (k + 2)) t
  | none => t

/-- Turns, one after another. -/
def persistTurns (env : Env W) (tid : Uuid) (user : String) (draw : Nat → Draw) : Nat → List Turn → Tables → Tables
  | _, [], t => t
  | k, turn :: rest, t => persistTurns env tid user draw (k + 3) rest (persistTurn env tid user draw k turn t)

end Freeclawdia.Conversations
