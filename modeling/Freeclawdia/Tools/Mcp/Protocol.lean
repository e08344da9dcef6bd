import Freeclawdia.Rust.Utf8
import Freeclawdia.Tools.Tool

/-!
# `Tools.Mcp.Protocol` — the messages of the Model Context Protocol

`tools/mcp/protocol.rs`: the records and how `serde` reads them. A member has the name of its field in the code, unless a
`rename` says otherwise: `inputSchema`, `listChanged`, `protocolVersion` and `serverInfo` are renamed, the hints of a tool,
`is_error` and `mime_type` are not.
-/

namespace Freeclawdia.Mcp

open Rust Serde

def PROTOCOL_VERSION : String := "2024-11-05"

/-! ## Tools -/

/-- Hint about how long a tool typically takes to execute. -/
inductive ExecutionTimeHint
  | fast
  | medium
  | slow

def decodeExecutionTimeHint : Decode ExecutionTimeHint :=
  unitVariant [("fast", .fast), ("medium", .medium), ("slow", .slow)]

/-- Annotations for an MCP tool that provide hints about its behavior. -/
structure McpToolAnnotations where
  destructiveHint : Bool
  sideEffectsHint : Bool
  readOnlyHint : Bool
  executionTimeHint : Option ExecutionTimeHint

def decodeAnnotations : Decode McpToolAnnotations := fun j =>
  if isStruct 4 j then do
    let destructiveHint ← withDefault ["destructive_hint"] 0 false Json.asBool j
    let sideEffectsHint ← withDefault ["side_effects_hint"] 1 false Json.asBool j
    let readOnlyHint ← withDefault ["read_only_hint"] 2 false Json.asBool j
    let executionTimeHint ← withDefault ["execution_time_hint"] 3 none (nullable decodeExecutionTimeHint) j
    some ⟨destructiveHint, sideEffectsHint, readOnlyHint, executionTimeHint⟩
  else none

/-- An MCP tool definition. -/
structure McpTool where
  name : String
  description : String
  inputSchema : Json
  annotations : Option McpToolAnnotations

/-- Default input schema (empty object). -/
def defaultInputSchema : Json := .object [("type", .string "object"), ("properties", .object [])]

def decodeTool : Decode McpTool := fun j =>
  if isStruct 4 j then do
    let name ← required ["name"] 0 Json.asStr j
    let description ← withDefault ["description"] 1 "" Json.asStr j
    let inputSchema ← withDefault ["inputSchema", "input_schema"] 2 defaultInputSchema anyJson j
    let annotations ← withDefault ["annotations"] 3 none (nullable decodeAnnotations) j
    some ⟨name, description, inputSchema, annotations⟩
  else none

/-- Check if this tool requires user approval based on its annotations. -/
def McpTool.requiresApproval (t : McpTool) : Bool := (t.annotations.map McpToolAnnotations.destructiveHint).getD false

/-- Result of listing tools. -/
structure ListToolsResult where
  tools : List McpTool

def decodeListToolsResult : Decode ListToolsResult := fun j =>
  if isStruct 1 j then (required ["tools"] 0 (list decodeTool) j).map .mk else none

/-! ## Results of calls -/

/-- Content block in a tool result. -/
inductive ContentBlock
  | text (text : String)
  | image (data mimeType : String)
  | resource (uri : String) (mimeType text : Option String)

/-- The tag of a block, and what its members are read from. -/
def blockTag : Json → Option (String × Json)
  | .object fields => (((Json.object fields).get "type").bind Json.asStr).map fun tag => (tag, .object fields)
  | .array (.string tag :: items) => some (tag, .array items)
  | _ => none

def decodeContentBlock : Decode ContentBlock := fun j =>
  match blockTag j with
  | some ("text", j) => if isStruct 1 j then (required ["text"] 0 Json.asStr j).map .text else none
  | some ("image", j) =>
    if isStruct 2 j then do
      let data ← required ["data"] 0 Json.asStr j
      let mimeType ← required ["mime_type"] 1 Json.asStr j
      some (.image data mimeType)
    else none
  | some ("resource", j) =>
    if isStruct 3 j then do
      let uri ← required ["uri"] 0 Json.asStr j
      let mimeType ← optional ["mime_type"] 1 Json.asStr j
      let text ← optional ["text"] 2 Json.asStr j
      some (.resource uri mimeType text)
    else none
  | _ => none

/-- Get text content if this is a text block. -/
def ContentBlock.asText : ContentBlock → Option String
  | .text s => some s
  | _ => none

/-- Result of calling a tool. -/
structure CallToolResult where
  content : List ContentBlock
  isError : Bool

def decodeCallToolResult : Decode CallToolResult := fun j =>
  if isStruct 2 j then do
    let content ← required ["content"] 0 (list decodeContentBlock) j
    let isError ← withDefault ["is_error"] 1 false Json.asBool j
    some ⟨content, isError⟩
  else none

/-! ## The handshake -/

/-- Tool-related capabilities. -/
structure ToolsCapability where
  listChanged : Bool := false

def decodeToolsCapability : Decode ToolsCapability := fun j =>
  if isStruct 1 j then (withDefault ["listChanged"] 0 false Json.asBool j).map .mk else none

/-- Resource-related capabilities. -/
structure ResourcesCapability where
  subscribe : Bool := false
  listChanged : Bool := false

def decodeResourcesCapability : Decode ResourcesCapability := fun j =>
  if isStruct 2 j then do
    let subscribe ← withDefault ["subscribe"] 0 false Json.asBool j
    let listChanged ← withDefault ["listChanged"] 1 false Json.asBool j
    some ⟨subscribe, listChanged⟩
  else none

/-- Prompt-related capabilities. -/
structure PromptsCapability where
  listChanged : Bool := false

def decodePromptsCapability : Decode PromptsCapability := fun j =>
  if isStruct 1 j then (withDefault ["listChanged"] 0 false Json.asBool j).map .mk else none

/-- Server capabilities advertised during initialization. -/
structure ServerCapabilities where
  tools : Option ToolsCapability := none
  resources : Option ResourcesCapability := none
  prompts : Option PromptsCapability := none
  logging : Option Json := none

def decodeServerCapabilities : Decode ServerCapabilities := fun j =>
  if isStruct 4 j then do
    let tools ← withDefault ["tools"] 0 none (nullable decodeToolsCapability) j
    let resources ← withDefault ["resources"] 1 none (nullable decodeResourcesCapability) j
    let prompts ← withDefault ["prompts"] 2 none (nullable decodePromptsCapability) j
    let logging ← withDefault ["logging"] 3 none (nullable anyJson) j
    some ⟨tools, resources, prompts, logging⟩
  else none

/-- Server information. -/
structure ServerInfo where
  name : String
  version : Option String

def decodeServerInfo : Decode ServerInfo := fun j =>
  if isStruct 2 j then do
    let name ← required ["name"] 0 Json.asStr j
    let version ← optional ["version"] 1 Json.asStr j
    some ⟨name, version⟩
  else none

/-- Result of the initialize handshake. -/
structure InitializeResult where
  protocolVersion : Option String := none
  capabilities : ServerCapabilities := {}
  serverInfo : Option ServerInfo := none
  instructions : Option String := none

def decodeInitializeResult : Decode InitializeResult := fun j =>
  if isStruct 4 j then do
    let protocolVersion ← optional ["protocolVersion"] 0 Json.asStr j
    let capabilities ← withDefault ["capabilities"] 1 {} decodeServerCapabilities j
    let serverInfo ← optional ["serverInfo"] 2 decodeServerInfo j
    let instructions ← optional ["instructions"] 3 Json.asStr j
    some ⟨protocolVersion, capabilities, serverInfo, instructions⟩
  else none

/-! ## Requests and responses -/

/-- Request to an MCP server. -/
structure McpRequest where
  jsonrpc : String
  id : Nat
  method : String
  params : Option Json

namespace McpRequest

def new (id : Nat) (method : String) (params : Option Json) : McpRequest := ⟨"2.0", id, method, params⟩

/-- Create an initialize request. -/
def initializeRequest (version : String) (id : Nat) : McpRequest :=
  new id "initialize" (some (.object
    [("protocolVersion", .string PROTOCOL_VERSION),
     ("capabilities", .object [("roots", .object [("listChanged", .bool false)]), ("sampling", .object [])]),
     ("clientInfo", .object [("name", .string "ironclaw"), ("version", .string version)])]))

/-- Create an initialized notification (sent after initialize). -/
def initializedNotification : McpRequest := ⟨"2.0", 0, "notifications/initialized", none⟩

/-- Create a tools/list request. -/
def listTools (id : Nat) : McpRequest := new id "tools/list" none

/-- Create a tools/call request. -/
def callTool (id : Nat) (name : String) (arguments : Json) : McpRequest :=
  new id "tools/call" (some (.object [("name", .string name), ("arguments", arguments)]))

end McpRequest

/-- MCP error. -/
structure McpError where
  code : Int
  message : String
  data : Option Json

/-- Response from an MCP server. -/
structure McpResponse where
  jsonrpc : String
  id : Nat
  result : Option Json
  error : Option McpError

/-! ## Reading the answer of an MCP server

`McpClient::parse_response`, apart from the session: an answer is one JSON document, or an event stream whose chunks are
decoded one by one and searched, after each of them, for a data line that is a message. `fromJson` is
`serde_json::from_slice::<McpResponse>`. -/

open Tools

/-- What the client sees of an HTTP response. -/
structure HttpAnswer where
  status : Nat
  /-- The status and its reason, as the HTTP client shows it. -/
  statusText : String := ""
  /-- The `Mcp-Session-Id` header. -/
  sessionId : Option String := none
  contentType : String := ""
  /-- The body, in the pieces it comes in. -/
  chunks : List (List UInt8) := []
  /-- How reading the body broke off after these. -/
  failure : Option String := none
  /-- The body as text, empty where that fails. -/
  text : String := ""

namespace HttpAnswer

def isSuccess (answer : HttpAnswer) : Bool := 200 ≤ answer.status && answer.status < 300

def isEventStream (answer : HttpAnswer) : Bool := contains answer.contentType "text/event-stream"

/-- The same answer in one piece. -/
def inOnePiece (answer : HttpAnswer) : HttpAnswer := { answer with chunks := [answer.chunks.flatten] }

end HttpAnswer

variable (fromJson : List UInt8 → Except String McpResponse)

/-- The message of a data line. -/
def messageOfLine (line : String) : Option McpResponse :=
  (stripPrefix line "data: ").bind fun json => (fromJson (encodeUtf8 json.toList)).toOption

/-- The first message of a buffer. -/
def messageIn (buffer : String) : Option McpResponse := (lines buffer).findSome? (messageOfLine fromJson)

/-- Read chunks until there is a complete message. -/
def readEvents (failure : Option String) (buffer : String) : List (List UInt8) → Except Tools.ToolError McpResponse
  | [] =>
    match failure with
    | some e => .error (.externalService ("Failed to read SSE chunk: " ++ e))
    | none => .error (.externalService ("No valid data in SSE response: " ++ buffer))
  | chunk :: chunks =>
    match messageIn fromJson (buffer ++ fromUtf8Lossy chunk) with
    | some response => .ok response
    | none => readEvents failure (buffer ++ fromUtf8Lossy chunk) chunks

/-- The response in one JSON document. -/
def readDocument (answer : HttpAnswer) : Except Tools.ToolError McpResponse :=
  match answer.failure with
  | some e => .error (.externalService ("Failed to parse MCP response: " ++ e))
  | none =>
    match fromJson answer.chunks.flatten with
    | .ok response => .ok response
    | .error e => .error (.externalService ("Failed to parse MCP response: " ++ e))

/-- What `parse_response` reads from an answer. -/
def readResponse (answer : HttpAnswer) : Except Tools.ToolError McpResponse :=
  if answer.isSuccess then
    if answer.isEventStream then readEvents fromJson answer.failure "" answer.chunks
    else readDocument fromJson answer
  else
    .error (.externalService ("MCP server returned status: " ++ answer.statusText ++ " - " ++ answer.text))

end Freeclawdia.Mcp
