import Freeclawdia.Extensions.Install
import Freeclawdia.Lib.Interleave
import Freeclawdia.Tools.Registry

/-!
# `Extensions.Manager` — installing, activating and removing extensions, beside one another

`install`, `activate` and `remove` of the extension manager and `register` and `register_wasm` of the tool registry, as
programs over the operations under one lock, one read of a directory or one answer of a server. Activating a channel does
nothing to tools and is one operation.

For statements, the shared state keeps books: which names have come to `register`, who registered which tool, and what
removals found and did. No operation of the code reads these.
-/

namespace Freeclawdia.ExtensionManager

open Rust Extensions

inductive ExtensionKind
  | mcpServer
  | wasmTool
  | wasmChannel

/-- `McpServerConfig`, without what only authentication reads. -/
structure McpServerConfig where
  name : String
  url : String

namespace McpServerConfig

/-- `McpServerConfig::validate`, with the text of its error. -/
def validate (config : McpServerConfig) : Except String Unit :=
  let urlLower := toLowercase config.url
  if config.name = "" then .error "Invalid configuration: Server name cannot be empty"
  else if config.url = "" then .error "Invalid configuration: Server URL cannot be empty"
  else if !contains urlLower "localhost" && !contains urlLower "127.0.0.1" && !startsWith urlLower "https://" then
    .error "Invalid configuration: Remote MCP servers must use HTTPS"
  else .ok ()

end McpServerConfig

/-- `McpServersFile::upsert`. -/
def upsert (config : McpServerConfig) (servers : List McpServerConfig) : List McpServerConfig :=
  if servers.any fun s => s.name = config.name then
    servers.map fun s => if s.name = config.name then config else s
  else servers ++ [config]

variable (name : String)

/-- `ConfigError::ServerNotFound`. -/
def serverNotFound : String := "Server not found: " ++ name

/-! ## The shared state -/

/-- Who registered a tool: the program when it started, somebody through `register`, or the activation of an extension,
which `register_wasm` counts as. -/
inductive Owner
  | startUp
  | registered
  | extension (name : String)
deriving DecidableEq

/-- Who registers a tool of an extension, or of nobody. -/
def ownerOf (extension : Option String) : Owner := extension.elim .registered .extension

/-- `register` was called with a tool, whose name is none of the built-in ones, and has not inserted it yet. -/
structure Offer where
  task : Nat
  extension : Option String
  name : String

/-- The removal of a server found a tool under a name with the server's prefix, and has not unregistered it yet. -/
structure Listed where
  task : Nat
  server : String
  tool : String

/-- What the removal of an extension found of its tools, when it first looked. -/
structure Look where
  task : Nat
  extension : String
  owned : List String

/-- A tool was unregistered by the removal of an extension; it may have had owners. -/
structure Unregistration where
  task : Nat
  extension : String
  tool : String
  owners : List Owner

structure Shared where
  registry : ToolRegistry
  /-- The servers with a client. -/
  mcpClients : List String
  /-- The configured MCP servers. -/
  servers : List McpServerConfig
  /-- The names with a module in the directory of tools, and in that of channels. -/
  wasmTools : List String
  wasmChannels : List String
  /-- `wasm_tool_runtime` is there. -/
  hasRuntime : Bool
  /-- Who has registered which of the tools that have not been unregistered since. -/
  owners : List (Owner × String)
  offers : List Offer := []
  listed : List Listed := []
  looks : List Look := []
  unregistrations : List Unregistration := []

variable (s : Shared)

/-- The tools an extension has registered. -/
def Shared.owned (extension : String) : List String :=
  s.owners.filterMap fun e => if e.1 = .extension extension then some e.2 else none

/-- The names that tools are registered under or are about to be, with who takes them. -/
def Shared.inUse : List (Owner × String) :=
  s.owners ++ s.offers.map fun o => (ownerOf o.extension, o.name)

/-! ## Operations -/

inductive Op
  /-- The check of `register`, called for this extension or for nobody. -/
  | isBuiltin (name : String) (extension : Option String)
  | insertTool (tool : RegisteredTool) (extension : Option String)
  | addMappings (credentials : List CredentialMapping)
  | hasTool (name : String)
  | listTools
  /-- The same, by a removal of this server. -/
  | listToolsOf (server : String)
  /-- `first`: the removal has not looked at tools before. -/
  | unregister (tool extension : String) (first : Bool)
  | revokeMappings
  | hasClient (server : String)
  | insertClient (server : String)
  | removeClient (server : String)
  | loadServers
  | saveServers (servers : List McpServerConfig)
  /-- `list_tools` of a new client, whose answer `create_tools` reads from its cache. -/
  | serverTools (server : String)
  | hasRuntime
  | toolFile (name : String)
  | channelFile (name : String)
  | loadFiles (name : String)
  | download (kind : ExtensionKind) (name : String)
  | deleteFile (kind : ExtensionKind) (name : String)
  | activateChannel (name : String)
  | deactivateChannel (name : String)

abbrev Ans : Op → Type
  | .isBuiltin _ _ | .hasTool _ | .hasClient _ | .hasRuntime | .toolFile _ | .channelFile _ => Bool
  | .listTools | .listToolsOf _ => List String
  | .loadServers => Except String (List McpServerConfig)
  | .saveServers _ | .deleteFile _ _ => Except String Unit
  | .serverTools _ => Except String (List String)
  | .loadFiles _ => Except String (Except String Unit × List CredentialMapping)
  | .download _ _ => Except ExtensionError Unit
  | .activateChannel _ => Except ExtensionError Unit
  | _ => Unit

/-- What the disk, the database, the network and a server answer. -/
structure Input where
  failure : Option String := none
  /-- The names of the tools a server lists. -/
  tools : List String := []
  /-- Does the module compile? -/
  prepared : Except String Unit := .ok ()
  /-- The mappings of a capabilities file, and the secrets it names. -/
  credentials : List CredentialMapping := []
  secretNames : List String := []
  /-- Does a download leave a module? -/
  leaves : Bool := true
  /-- The error of a download or of activating a channel. -/
  error : Option ExtensionError := none

/-- An answer that a failure may take the place of. -/
def Input.answer {α : Type} (i : Input) (a : α) : Except String α :=
  match i.failure with
  | some e => .error e
  | none => .ok a

/-- `register` is called with a name that is none of the built-in ones. -/
def Shared.offer (t : Nat) (name : String) (extension : Option String) : Shared :=
  { s with offers := ⟨t, extension, name⟩ :: s.offers }

/-- `register` inserts the tool. -/
def Shared.insertTool (t : Nat) (tool : RegisteredTool) (extension : Option String) : Shared :=
  { s with
    registry := { s.registry with tools := s.registry.tools.insert tool.name tool }
    owners := (ownerOf extension, tool.name) :: s.owners
    offers := s.offers.filter fun o => ¬(o.task = t ∧ o.name = tool.name) }

/-- The first look of a removal at the tools. -/
def Shared.look (t : Nat) (extension : String) : Shared :=
  { s with looks := ⟨t, extension, s.owned extension⟩ :: s.looks }

/-- The removal of a server lists the tools; it will come to those with the server's prefix. -/
def Shared.list (t : Nat) (server : String) : Shared :=
  let found := s.registry.list.filter fun tool => startsWith tool (server ++ "_")
  { s.look t server with listed := found.map (fun tool => ⟨t, server, tool⟩) ++ s.listed }

/-- A removal unregisters a tool. -/
def Shared.unregister (t : Nat) (tool extension : String) : Shared :=
  { s with
    registry := s.registry.unregister tool
    owners := s.owners.filter fun e => e.2 ≠ tool
    listed := s.listed.filter fun l => ¬(l.task = t ∧ l.tool = tool)
    unregistrations :=
      ⟨t, extension, tool, (s.owners.filter fun e => e.2 = tool).map Prod.fst⟩ :: s.unregistrations }

/-- The directory of a kind, with or without a module. -/
def Shared.setFile (kind : ExtensionKind) (name : String) (present : Bool) : Shared :=
  let change (names : List String) := if present then names.insert name else names.filter (· ≠ name)
  match kind with
  | .mcpServer => s
  | .wasmTool => { s with wasmTools := change s.wasmTools }
  | .wasmChannel => { s with wasmChannels := change s.wasmChannels }

/-- What an operation answers and leaves behind. -/
def perform (t : Nat) : (o : Op) → Input → Shared → Option (Ans o × Shared)
  | .isBuiltin name extension, _, s =>
    if name ∈ s.registry.builtinNames then some (true, s) else some (false, s.offer t name extension)
  | .insertTool tool extension, _, s => some ((), s.insertTool t tool extension)
  | .addMappings credentials, _, s => some ((), { s with registry := s.registry.addCredentials credentials })
  | .hasTool name, _, s => some (s.registry.has name, s)
  | .listTools, _, s => some (s.registry.list, s)
  | .listToolsOf server, _, s => some (s.registry.list, s.list t server)
  | .unregister tool extension first, _, s =>
    some ((), (if first then s.look t extension else s).unregister t tool extension)
  | .revokeMappings, i, s =>
    some ((),
      { s with
        registry := { s.registry with
          credentialRegistry := s.registry.credentialRegistry.map
            (SharedCredentialRegistry.removeMappingsForSecrets i.secretNames) } })
  | .hasClient server, _, s => some (decide (server ∈ s.mcpClients), s)
  | .insertClient server, _, s => some ((), { s with mcpClients := s.mcpClients.insert server })
  | .removeClient server, _, s => some ((), { s with mcpClients := s.mcpClients.filter (· ≠ server) })
  | .loadServers, i, s => some (i.answer s.servers, s)
  | .saveServers servers, i, s =>
    match i.failure with
    | some e => some (.error e, s)
    | none => some (.ok (), { s with servers })
  | .serverTools _, i, s => some (i.answer i.tools, s)
  | .hasRuntime, _, s => some (s.hasRuntime, s)
  | .toolFile name, _, s => some (decide (name ∈ s.wasmTools), s)
  | .channelFile name, _, s => some (decide (name ∈ s.wasmChannels), s)
  | .loadFiles _, i, s => some (i.answer (i.prepared, i.credentials), s)
  | .download kind name, i, s =>
    some (match i.error with
      | some e => .error e
      | none => .ok (),
      if i.leaves then s.setFile kind name true else s)
  | .deleteFile kind name, i, s =>
    match i.failure with
    | some e => some (.error e, s)
    | none => some (.ok (), s.setFile kind name false)
  | .activateChannel _, i, s =>
    some (match i.error with
      | some e => .error e
      | none => .ok (), s)
  | .deactivateChannel name, _, s => some ((), s.look t name)

/-! ## The registry -/

/-- `ToolRegistry::register`, for an extension or for nobody. -/
def register (tool : RegisteredTool) (extension : Option String) : Prog Op Ans Unit := do
  if ← perf (Op.isBuiltin tool.name extension) then return
  perf (Op.insertTool tool extension)

/-- `ToolRegistry::register_wasm`. -/
def registerWasm (prepared : Except String Unit) (credentials : List CredentialMapping) :
    Prog Op Ans (Except String Unit) :=
  match prepared with
  | .error e => return .error e
  | .ok _ => do
      register ⟨name, .wasm credentials⟩ (some name)
      if credentials.isEmpty then return .ok ()
      perf (Op.addMappings credentials)
      return .ok ()

/-! ## The manager -/

/-- `ExtensionManager::validate_extension_name`. -/
def validateExtensionName : Except ExtensionError Unit :=
  if contains name "/" || contains name "\\" || contains name ".." || contains name "\x00" then
    .error (.installFailed
      ("Invalid extension name '" ++ name ++ "': contains path separator or traversal characters"))
  else .ok ()

/-- `get_mcp_server`, with the text of its error. -/
def getMcpServer : Prog Op Ans (Except String McpServerConfig) := do
  match ← perf Op.loadServers with
  | .error e => return .error e
  | .ok servers =>
    match servers.find? fun s => s.name = name with
    | some s => return .ok s
    | none => return .error (serverNotFound name)

/-- `add_mcp_server`, with the text of its error. -/
def addMcpServer (config : McpServerConfig) : Prog Op Ans (Except String Unit) :=
  match config.validate with
  | .error e => return .error e
  | .ok _ => do
      match ← perf Op.loadServers with
      | .error e => return .error e
      | .ok servers => perf (Op.saveServers (upsert config servers))

/-- `remove_mcp_server`, with the text of its error. -/
def removeMcpServer : Prog Op Ans (Except String Unit) := do
  match ← perf Op.loadServers with
  | .error e => return .error e
  | .ok servers =>
    if servers.any fun s => s.name = name then perf (Op.saveServers (servers.filter fun s => s.name ≠ name))
    else return .error (serverNotFound name)

/-- `determine_installed_kind`. -/
def determineInstalledKind : Prog Op Ans (Except ExtensionError ExtensionKind) := do
  match ← getMcpServer name with
  | .ok _ => return .ok .mcpServer
  | .error _ =>
    if ← perf (Op.toolFile name) then return .ok .wasmTool
    if ← perf (Op.channelFile name) then return .ok .wasmChannel
    return .error (.notInstalled
      ("'" ++ name ++ "' is not installed as an MCP server, WASM tool, or WASM channel"))

/-! ### Installing -/

/-- Where an extension is installed from: a server by its URL, or a module. -/
inductive Source
  | mcpUrl (url : String)
  | wasm (kind : ExtensionKind)
  /-- A registry entry whose source does not fit its kind. -/
  | unsuitable (error : String)

/-- `install_mcp_from_url`. -/
def installMcpFromUrl (name url : String) : Prog Op Ans (Except ExtensionError Unit) := do
  match ← getMcpServer name with
  | .ok _ => return .error (.alreadyInstalled name)
  | .error _ =>
    match (McpServerConfig.mk name url).validate with
    | .error e => return .error (.invalidUrl e)
    | .ok _ =>
      match ← addMcpServer ⟨name, url⟩ with
      | .error e => return .error (.config e)
      | .ok _ => return .ok ()

/-- One attempt to install. -/
def tryInstall : Source → Prog Op Ans (Except ExtensionError Unit)
  | .mcpUrl url => installMcpFromUrl name url
  | .wasm kind => perf (Op.download kind name)
  | .unsuitable e => return .error (.installFailed e)

/-- `install`, from the sources of a registry entry or a URL; with none the extension is unknown. -/
def install (source : Option (Source × Option Source)) : Prog Op Ans (Except ExtensionError Unit) :=
  match validateExtensionName name with
  | .error e => return .error e
  | .ok _ =>
    match source with
    | none =>
      return .error (.notFound
        ("'" ++ name ++ "' not found in registry. Try searching with discover:true or provide a URL."))
    | some (primary, fallback) => do
        match ← tryInstall name primary with
        | .ok _ => return .ok ()
        | .error (.alreadyInstalled e) => return .error (.alreadyInstalled e)
        | .error e =>
          match fallback with
          | none => return .error e
          | some source =>
            match ← tryInstall name source with
            | .ok _ => return .ok ()
            | .error (.alreadyInstalled e) => return .error (.alreadyInstalled e)
            | .error e' => return .error (.fallbackFailed e e')

/-! ### Activating -/

section Activating

-- How the path of a tool's module reads.
variable (displayPath : String → String)

/-- Register the tools of a server. -/
def registerAll (server : String) : List String → Prog Op Ans Unit
  | [] => return
  | name :: names => do
      register ⟨server ++ "_" ++ name, .mcp server⟩ (some server)
      registerAll server names

/-- `activate_mcp`, with the names of the tools. -/
def activateMcp (name : String) : Prog Op Ans (Except ExtensionError (List String)) := do
  if ← perf (Op.hasClient name) then
    return .ok ((← perf Op.listTools).filter fun tool => startsWith tool (name ++ "_"))
  match ← getMcpServer name with
  | .error e => return .error (.notInstalled e)
  | .ok server =>
    match ← perf (Op.serverTools server.name) with
    | .error e => return .error (.activationFailed e)
    | .ok tools => do
        registerAll server.name tools
        perf (Op.insertClient name)
        return .ok (tools.map fun tool => name ++ "_" ++ tool)

/-- `activate_wasm_tool`, with the name of the tool. -/
def activateWasmTool (name : String) : Prog Op Ans (Except ExtensionError (List String)) := do
  if ← perf (Op.hasTool name) then return .ok [name]
  if !(← perf Op.hasRuntime) then return .error (.activationFailed "WASM runtime not available")
  if !(← perf (Op.toolFile name)) then
    return .error (.notInstalled ("WASM tool '" ++ name ++ "' not found at " ++ displayPath (wasmFile name)))
  match ← perf (Op.loadFiles name) with
  | .error e => return .error (.activationFailed e)
  | .ok (prepared, credentials) =>
    match ← registerWasm name prepared credentials with
    | .error e => return .error (.activationFailed e)
    | .ok _ => return .ok [name]

/-- `activate`. -/
def activate (name : String) : Prog Op Ans (Except ExtensionError (List String)) :=
  match validateExtensionName name with
  | .error e => return .error e
  | .ok _ => do
      match ← determineInstalledKind name with
      | .error e => return .error e
      | .ok .mcpServer => activateMcp name
      | .ok .wasmTool => activateWasmTool displayPath name
      | .ok .wasmChannel =>
        match ← perf (Op.activateChannel name) with
        | .error e => return .error e
        | .ok _ => return .ok []

end Activating

/-! ### Removing -/

/-- Unregister these tools. -/
def unregisterAll (extension : String) : List String → Prog Op Ans Unit
  | [] => return
  | tool :: tools => do
      perf (Op.unregister tool extension false)
      unregisterAll extension tools

/-- `remove` of an MCP server. -/
def removeMcp : Prog Op Ans (Except ExtensionError String) := do
  let toolNames := (← perf (Op.listToolsOf name)).filter fun tool => startsWith tool (name ++ "_")
  unregisterAll name toolNames
  perf (Op.removeClient name)
  match ← removeMcpServer name with
  | .error e => return .error (.config e)
  | .ok _ => return .ok ("Removed MCP server '" ++ name ++ "' and " ++ toString toolNames.length ++ " tool(s)")

/-- Delete the module of an extension, if it is there. -/
def deleteModule (kind : ExtensionKind) (name : String) (present : Bool) (message : String) :
    Prog Op Ans (Except ExtensionError String) := do
  if present then
    match ← perf (Op.deleteFile kind name) with
    | .error e => return .error (.other e)
    | .ok _ => return .ok message
  return .ok message

/-- `remove` of a WASM tool. -/
def removeWasmTool : Prog Op Ans (Except ExtensionError String) := do
  perf (Op.unregister name name true)
  perf Op.revokeMappings
  deleteModule .wasmTool name (← perf (Op.toolFile name)) ("Removed WASM tool '" ++ name ++ "'")

/-- `remove` of a channel. -/
def removeWasmChannel : Prog Op Ans (Except ExtensionError String) := do
  perf (Op.deactivateChannel name)
  perf Op.revokeMappings
  deleteModule .wasmChannel name (← perf (Op.channelFile name))
    ("Removed channel '" ++ name ++ "'. Restart IronClaw for the change to take effect.")

/-- `remove`. -/
def remove : Prog Op Ans (Except ExtensionError String) :=
  match validateExtensionName name with
  | .error e => return .error e
  | .ok _ => do
      match ← determineInstalledKind name with
      | .error e => return .error e
      | .ok .mcpServer => removeMcp name
      | .ok .wasmTool => removeWasmTool name
      | .ok .wasmChannel => removeWasmChannel name

/-! ## Calls -/

inductive Call
  /-- Whether the tool is of a server that is loaded when the program starts, or of nobody. -/
  | register (tool : RegisteredTool) (server : Option String)
  | registerWasm (name : String) (prepared : Except String Unit) (credentials : List CredentialMapping)
  | install (name : String) (source : Option (Source × Option Source))
  | activate (name : String)
  | remove (name : String)

abbrev Out : Call → Type
  | .register _ _ => Unit
  | .registerWasm _ _ _ => Except String Unit
  | .install _ _ => Except ExtensionError Unit
  | .activate _ => Except ExtensionError (List String)
  | .remove _ => Except ExtensionError String

def body (displayPath : String → String) : (c : Call) → Prog Op Ans (Out c)
  | .register tool server => register tool server
  | .registerWasm name prepared credentials => registerWasm name prepared credentials
  | .install name source => install name source
  | .activate name => activate displayPath name
  | .remove name => remove name

/-- The extension manager and the tool registry at work. -/
def machine (displayPath : String → String) : Machine where
  Shared := Shared
  Op := Op
  Ans := Ans
  Input := Input
  Call := Call
  Out := Out
  body := body displayPath
  perform := perform

/-- The program has started: its tools are registered, and nothing else has happened to them. -/
def started (registry : ToolRegistry) (servers : List McpServerConfig) (wasmTools wasmChannels : List String)
    (hasRuntime : Bool) : Shared where
  registry := registry
  mcpClients := []
  servers := servers
  wasmTools := wasmTools
  wasmChannels := wasmChannels
  hasRuntime := hasRuntime
  owners := registry.list.map fun name => (.startUp, name)

end Freeclawdia.ExtensionManager
