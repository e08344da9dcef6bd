import Freeclawdia.Agent.Env
import Freeclawdia.Lib.Search
import Freeclawdia.Rust.Str

/-!
# `Llm.ToolCallText` — tool calls written into text and read back

Providers without the tool-calling protocol get tool calls as text (`flatten_tool_messages`, `llm/nearai_chat.rs`), and
models echo that text or write calls as XML tags (`recover_tool_calls_from_content`, `strip_bracket_tool_calls`,
`llm/reasoning.rs`). JSON text is `serde_json`'s business.
-/

namespace Freeclawdia

open Rust Search

/-- `Value::to_string` and `serde_json::from_str`. -/
structure SerdeJson where
  encode : Json → String
  decode : String → Option Json

/-! ## Flattening -/

/-- A tool call of a chat completion message: the arguments are text. -/
structure ChatCompletionToolCall where
  id : String
  name : String
  arguments : String

/-- The message type of the chat completions API. -/
structure ChatCompletionMessage where
  role : Role
  content : Option String
  toolCallId : Option String
  name : Option String
  toolCalls : Option (List ChatCompletionToolCall)

/-- `From<ChatMessage>`. -/
def ChatCompletionMessage.ofChatMessage (json : SerdeJson) (m : ChatMessage) : ChatCompletionMessage :=
  let toolCalls := m.toolCalls.map fun calls => calls.map fun tc => ⟨tc.id, tc.name, json.encode tc.arguments⟩
  { role := m.role
    content := if m.role = .assistant ∧ toolCalls.isSome = true ∧ m.content = "" then none else some m.content
    toolCallId := m.toolCallId
    name := m.name
    toolCalls := toolCalls }

/-- A tool call in brackets. -/
def bracketCall (tc : ChatCompletionToolCall) : String :=
  "[Called tool `" ++ tc.name ++ "` with arguments: " ++ tc.arguments ++ "]"

/-- One message rewritten as text. -/
def flattenMessage (m : ChatCompletionMessage) : ChatCompletionMessage :=
  match m.role, m.toolCalls with
  | .assistant, some calls =>
    let text := if m.content.getD "" = "" then [] else [m.content.getD ""]
    ⟨.assistant, some (Rust.join "\n" (text ++ calls.map bracketCall)), none, none, none⟩
  | .tool, _ =>
    ⟨.user, some ("[Tool `" ++ m.name.getD "unknown" ++ "` returned: " ++ m.content.getD "" ++ "]"), none, none, none⟩
  | _, _ => m

/-- Rewrite tool-call and tool-result messages into plain assistant and user text. -/
def flattenToolMessages (messages : List ChatCompletionMessage) : List ChatCompletionMessage :=
  if messages.any fun m => m.role = .tool then messages.map flattenMessage else messages

/-! ## Recovering -/

/-- The start of a call in brackets. -/
@[irreducible] def bracketMarker : List Char := ['[', 'C', 'a', 'l', 'l', 'e', 'd', ' ', 't', 'o', 'o', 'l', ' ', '`']

/-- What stands between the name and the arguments, after a backtick. -/
@[irreducible] def argumentsMarker : List Char :=
  [' ', 'w', 'i', 't', 'h', ' ', 'a', 'r', 'g', 'u', 'm', 'e', 'n', 't', 's', ':', ' ']

/-- The tags around a call. -/
def toolCallTags : List (List Char × List Char) :=
  [("<tool_call>".toList, "</tool_call>".toList), ("<|tool_call|>".toList, "<|/tool_call|>".toList),
   ("<function_call>".toList, "</function_call>".toList), ("<|function_call|>".toList, "<|/function_call|>".toList)]

/-- One more recovered call. -/
def pushRecovered (calls : List ToolCall) (name : String) (arguments : Json) : List ToolCall :=
  calls ++ [⟨"recovered_" ++ toString calls.length, name, arguments⟩]

variable (json : SerdeJson) (toolNames : List String)

/-- What stands between two tags: a call in JSON, or the bare name of a tool. -/
def readTag (inner : String) (calls : List ToolCall) : List ToolCall :=
  let named := (json.decode inner).bind fun parsed => ((parsed.get "name").bind Json.asStr).map fun name => (parsed, name)
  match named with
  | some (parsed, name) =>
    if toolNames.contains name then pushRecovered calls name ((parsed.get "arguments").getD (.object []))
    else if toolNames.contains inner then pushRecovered calls inner (.object [])
    else calls
  | none => if toolNames.contains inner then pushRecovered calls inner (.object []) else calls

/-- The calls between tags of one kind. -/
def recoverTagged (tags : List Char × List Char) : (fuel : Nat) → List Char → List ToolCall → List ToolCall
  | 0, _, calls => calls
  | fuel + 1, remaining, calls =>
    match splitFirst tags.1 remaining with
    | none => calls
    | some (_, after) =>
      match splitFirst tags.2 after with
      | none => calls
      | some (inner, rest) =>
        let inner := trim (String.ofList inner)
        recoverTagged tags fuel rest (if inner = "" then calls else readTag json toolNames inner calls)

/-- The calls in brackets. The arguments are taken to end at the last bracket of the whole text. -/
def recoverBracketed : (fuel : Nat) → List Char → List ToolCall → List ToolCall
  | 0, _, calls => calls
  | fuel + 1, remaining, calls =>
    match splitFirst bracketMarker remaining with
    | none => calls
    | some (_, afterPrefix) =>
      match splitFirst ['`'] afterPrefix with
      | none => calls
      | some (nameChars, afterName) =>
        let name := String.ofList nameChars
        if !toolNames.contains name then recoverBracketed fuel afterName calls
        else
          let argsStart := if argumentsMarker.isPrefixOf afterName
            then some (afterName.drop argumentsMarker.length) else none
          match argsStart.bind (splitLast ']') with
          | some (args, rest) =>
            recoverBracketed fuel rest
              (pushRecovered calls name ((json.decode (String.ofList args)).getD (.object [])))
          -- no arguments or malformed
          | none => recoverBracketed fuel afterName (pushRecovered calls name (.object []))

/-- Try to extract tool calls from content text. -/
def recoverToolCallsFromContent (content : String) (availableTools : List ToolDefinition) : List ToolCall :=
  let toolNames := availableTools.map ToolDefinition.name
  let fuel := content.toList.length + 1
  let tagged := toolCallTags.foldl (fun calls tags => recoverTagged json toolNames tags fuel content.toList calls) []
  recoverBracketed json toolNames fuel content.toList tagged

/-! ## Stripping -/

/-- What follows a call: it ends at the first bracket before a line break, or at the last bracket of the text. -/
def afterCall (after : List Char) : Option (List Char) :=
  match splitFirst [']', '\n'] after with
  | some r => some r.2
  | none => (splitLast ']' after).map Prod.snd

/-- The loop of `strip_bracket_tool_calls`. -/
def stripBracketed : (fuel : Nat) → List Char → List Char
  | 0, remaining => remaining
  | fuel + 1, remaining =>
    match splitFirst bracketMarker remaining with
    | none => remaining
    | some (before, rest) =>
      match afterCall (bracketMarker ++ rest) with
      | some next => before ++ stripBracketed fuel next
      -- malformed, the rest is kept
      | none => before ++ (bracketMarker ++ rest)

/-- Strip bracket-format inline tool calls. -/
def stripBracketToolCalls (text : String) : String := String.ofList (stripBracketed (text.toList.length + 1) text.toList)

end Freeclawdia
