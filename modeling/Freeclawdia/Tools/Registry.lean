import Freeclawdia.Tools.Wasm.CredentialInjector

/-!
# `Tools.Registry` — the registry of available tools

Which tool a name stands for, which names are protected, and the credential mappings WASM tools bring along for
the HTTP tool (`SharedCredentialRegistry`).
-/

namespace Freeclawdia

/-- Where a registered tool comes from. -/
inductive ToolOrigin
  /-- A tool of this program; the number tells its instances apart. -/
  | native (id : Nat)
  /-- A WASM module, with the credential mappings of its capabilities. -/
  | wasm (credentials : List CredentialMapping)
  /-- A tool of an MCP server, behind the client of one activation. -/
  | mcp (server : String)
  deriving DecidableEq

/-- A registered tool. -/
structure RegisteredTool where
  name : String
  origin : ToolOrigin
  deriving DecidableEq

/-- The credential mappings a tool was registered with. -/
def RegisteredTool.credentials (tool : RegisteredTool) : List CredentialMapping :=
  match tool.origin with
  | .wasm credentials => credentials
  | _ => []

namespace SharedCredentialRegistry

/-- `add_mappings`. -/
def addMappings (registry added : List CredentialMapping) : List CredentialMapping := registry ++ added

/-- `remove_mappings_for_secrets`. -/
def removeMappingsForSecrets (secretNames : List String) (registry : List CredentialMapping) :
    List CredentialMapping :=
  registry.filter fun m => m.secretName ∉ secretNames

end SharedCredentialRegistry

/-- `PROTECTED_TOOL_NAMES`. -/
def protectedToolNames : List String :=
  ["echo", "time", "json", "http", "shell", "read_file", "write_file", "list_dir", "apply_patch",
   "memory_search", "memory_write", "memory_read", "memory_tree", "create_job", "list_jobs", "job_status",
   "cancel_job", "build_software", "tool_search", "tool_install", "tool_auth", "tool_activate", "tool_list",
   "tool_remove", "routine_create", "routine_list", "routine_update", "routine_delete", "routine_fire",
   "routine_history", "skill_list", "skill_search", "skill_install", "skill_remove", "message", "web_fetch",
   "restart"]

/-- `ToolRegistry`. -/
structure ToolRegistry where
  tools : Map String RegisteredTool
  builtinNames : List String
  credentialRegistry : Option (List CredentialMapping)

namespace ToolRegistry

/-- `ToolRegistry::new`, with the credential registry it may be given. -/
def new (credentialRegistry : Option (List CredentialMapping)) : ToolRegistry := ⟨∅, [], credentialRegistry⟩

variable (registry : ToolRegistry)

/-- `ToolRegistry::get`. -/
def get (name : String) : Option RegisteredTool := registry.tools.lookup name

/-- `ToolRegistry::has`. -/
def has (name : String) : Bool := (registry.get name).isSome

/-- `ToolRegistry::list`. -/
def list : List String := registry.tools.keys

/-- `ToolRegistry::register`: a tool with the name of a built-in is rejected. -/
def register (tool : RegisteredTool) : ToolRegistry :=
  if tool.name ∈ registry.builtinNames then registry
  else { registry with tools := registry.tools.insert tool.name tool }

/-- `ToolRegistry::register_sync`. Each lock is only tried; a protected name becomes a built-in. -/
def registerSync (toolsFree builtinsFree : Bool) (tool : RegisteredTool) : ToolRegistry :=
  if toolsFree then
    { registry with
      tools := registry.tools.insert tool.name tool
      builtinNames :=
        if tool.name ∈ protectedToolNames ∧ builtinsFree then tool.name :: registry.builtinNames
        else registry.builtinNames }
  else registry

/-- `ToolRegistry::unregister`. -/
def unregister (name : String) : ToolRegistry :=
  { registry with tools := registry.tools.erase name }

/-- Adding mappings to the shared registry, where there is one. -/
def addCredentials (mappings : List CredentialMapping) : ToolRegistry :=
  { registry with
    credentialRegistry := registry.credentialRegistry.map fun cr => SharedCredentialRegistry.addMappings cr mappings }

/-- `ToolRegistry::register_wasm`, for a module that compiles or does not. The mappings are added whether the tool
was registered or rejected. -/
def registerWasm (name : String) (prepared : Except String Unit)
    (credentials : List CredentialMapping) : ToolRegistry × Except String Unit :=
  match prepared with
  | .error e => (registry, .error e)
  | .ok _ =>
    let registered := registry.register ⟨name, .wasm credentials⟩
    (if credentials.isEmpty then registered else registered.addCredentials credentials, .ok ())

/-! ## Lookups after an operation -/

theorem get_register (tool : RegisteredTool) (name : String) :
    (registry.register tool).get name =
      if name = tool.name ∧ tool.name ∉ registry.builtinNames then some tool else registry.get name := by
  unfold register get
  by_cases hbuiltin : tool.name ∈ registry.builtinNames
  · simp [hbuiltin]
  · simp only [hbuiltin, if_false, not_false_iff, and_true]
    rw [Map.lookup_insert_ite]

theorem get_unregister (name other : String) :
    (registry.unregister name).get other = if other = name then none else registry.get other := by
  unfold unregister get
  rw [Map.lookup_erase_ite]

end ToolRegistry
end Freeclawdia
