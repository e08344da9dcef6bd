import Freeclawdia.Extensions.Install
import Freeclawdia.Tools.Registry
import Freeclawdia.Secrets.Store

/-!
# `Extensions.WasmTools` — activating and removing WASM tools

`WasmToolLoader::load_from_files`, and of the extension manager `activate_wasm_tool`, `revoke_credential_mappings`
and the part of `remove` for WASM tools, over the tool registry and the files of the tools directory.
-/

namespace Freeclawdia.Extensions

open Rust CapabilitiesSchema

/-- What does not change: the JSON parser, the sections of a capabilities file read elsewhere, the check of its
WIT version, and how a path of the tools directory and a JSON error read. -/
structure LoadEnv where
  parseJson : List UInt8 → Option Json
  otherSections : Json → Bool
  checkWitVersionCompat : String → Option String → Except String Unit
  displayPath : String → String
  jsonError : List UInt8 → String

/-- What one activation meets: failures of the two reads, and whether the module compiles. -/
structure LoadAnswers where
  wasmRead : Option String
  capsRead : Option String
  prepared : Except String Unit

/-- `WasmLoadError`, of loading from files. -/
inductive WasmLoadError
  | io (error : String)
  | wasmNotFound (path : String)
  | invalidCapabilities (error : String)
  | compilation (error : String)
  | invalidName (name : String)
  | witVersionMismatch (error : String)

/-- The `Display` of a `WasmLoadError`. -/
def WasmLoadError.message : WasmLoadError → String
  | io e => "IO error: " ++ e
  | wasmNotFound path => "WASM file not found: " ++ path
  | invalidCapabilities e => "Invalid capabilities JSON: " ++ e
  | compilation e => "WASM compilation error: " ++ e
  | invalidName name => "Invalid tool name: " ++ name
  | witVersionMismatch e => "WIT version mismatch: " ++ e

variable (env : LoadEnv)

/-- `CapabilitiesFile::from_bytes`. -/
def capabilitiesFromBytes (bytes : List UInt8) : Option CapabilitiesFile :=
  (env.parseJson bytes).bind (decodeFile env.otherSections recursionLimit)

/-- The capabilities part of `load_from_files`: the credentials a tool is registered with. -/
def loadCapabilities (answers : LoadAnswers) (name : String) (caps : Option (List UInt8)) :
    Except WasmLoadError (List CredentialMapping) :=
  match caps with
  | none => .ok []
  | some bytes =>
    match answers.capsRead with
    | some e => .error (.io e)
    | none =>
      match capabilitiesFromBytes env bytes with
      | none => .error (.invalidCapabilities (env.jsonError bytes))
      | some file =>
        match env.checkWitVersionCompat name file.witVersion with
        | .error e => .error (.witVersionMismatch e)
        | .ok _ => .ok file.credentials

/-- `WasmToolLoader::load_from_files`. -/
def loadFromFiles (answers : LoadAnswers) (name : String) (files : Files) (registry : ToolRegistry) :
    ToolRegistry × Except WasmLoadError Unit :=
  if name = "" ∨ '/' ∈ name.toList ∨ '\\' ∈ name.toList then (registry, .error (.invalidName name))
  else
    match files (wasmFile name) with
    | none => (registry, .error (.wasmNotFound (env.displayPath (wasmFile name))))
    | some _ =>
      match answers.wasmRead with
      | some e => (registry, .error (.io e))
      | none =>
        match loadCapabilities env answers name (files (capsFile name)) with
        | .error e => (registry, .error e)
        | .ok credentials =>
          match registry.registerWasm name answers.prepared credentials with
          | (registry, .error e) => (registry, .error (.compilation e))
          | (registry, .ok _) => (registry, .ok ())

/-- The tool registry and the tools directory. -/
structure WasmTools where
  registry : ToolRegistry
  files : Files
  /-- `wasm_tool_runtime` is there. -/
  hasRuntime : Bool

/-- `ExtensionManager::activate_wasm_tool`. -/
def activateWasmTool (answers : LoadAnswers) (name : String) (s : WasmTools) :
    WasmTools × Except ExtensionError Unit :=
  if s.registry.has name then (s, .ok ())
  else if s.hasRuntime then
    match s.files (wasmFile name) with
    | none =>
      (s, .error (.notInstalled ("WASM tool '" ++ name ++ "' not found at " ++ env.displayPath (wasmFile name))))
    | some _ =>
      match loadFromFiles env answers name s.files s.registry with
      | (registry, .error e) => ({ s with registry }, .error (.activationFailed e.message))
      | (registry, .ok _) => ({ s with registry }, .ok ())
  else (s, .error (.activationFailed "WASM runtime not available"))

/-- The secret names `revoke_credential_mappings` finds in a capabilities file: those of the outer `http` section. -/
def secretNames (j : Json) : List String :=
  match ((j.get "http").bind fun http => http.get "credentials") with
  | some (.object creds) => creds.filterMap fun c => (c.2.get "secret_name").bind Json.asStr
  | _ => []

/-- `ExtensionManager::revoke_credential_mappings`. A file that is not there, cannot be read or is no JSON revokes
nothing. -/
def revokeCredentialMappings (capsRead : Option String) (caps : Option (List UInt8)) (registry : ToolRegistry) :
    ToolRegistry :=
  match caps, capsRead with
  | some bytes, none =>
    match env.parseJson bytes with
    | none => registry
    | some j =>
      { registry with
        credentialRegistry := registry.credentialRegistry.map
          (SharedCredentialRegistry.removeMappingsForSecrets (secretNames j)) }
  | _, _ => registry

/-- What one removal meets: failures of reading the capabilities and of deleting the two files. -/
structure RemoveAnswers where
  capsRead : Option String
  wasmDelete : Option String
  capsDelete : Option String

/-- The part of `ExtensionManager::remove` for an installed WASM tool. -/
def removeWasmTool (answers : RemoveAnswers) (name : String) (s : WasmTools) :
    WasmTools × Except ExtensionError Unit :=
  let registry := revokeCredentialMappings env answers.capsRead (s.files (capsFile name)) (s.registry.unregister name)
  let s := { s with registry }
  match s.files (wasmFile name), answers.wasmDelete with
  | some _, some e => (s, .error (.other e))
  | _, _ =>
    let files := Function.update s.files (wasmFile name) none
    match answers.capsDelete with
    | some _ => ({ s with files }, .ok ())
    | none => ({ s with files := Function.update files (capsFile name) none }, .ok ())

/-! ## The placeholder credentials of WASM channels

`inject_channel_credentials_from_secrets` of the extension manager, and the ways it is reached: a channel is loaded when
the program starts, activated later, or refreshed when it is active already. A channel is known to the webhook router by
its name, which is also that of its path, `/webhook/{name}`.

What activation and refreshing do for webhooks (secret, signature keys, runtime configuration, `on_start`) is left out. -/

open Secrets

/-- A value for a placeholder. For statements it keeps the name of the secret it was read from. -/
structure Credential where
  value : String
  secret : String
deriving DecidableEq

/-- `WasmChannel::credentials`, by placeholder. -/
abbrev Credentials := Map String Credential

/-- `WasmChannel::set_credential`. -/
def setCredential (placeholder : String) (credential : Credential) (credentials : Credentials) : Credentials :=
  credentials.insert placeholder credential

section Injecting

variable {σ : Type} (s : SecretsStore σ) (secrets : σ) (userId : String)

/-- The naming convention: secrets of a channel are called `{channel_name}_*`. -/
def hasPrefix (channelName : String) (secret : String) : Bool := startsWith secret (channelName ++ "_")

/-- `inject_channel_credentials_from_secrets`, with the number of credentials injected. `inject_channel_credentials` of
`main.rs` is the same. -/
def injectChannelCredentials (channelName : String) (now : Int) (credentials : Credentials) : Credentials × Nat :=
  (s.list secrets userId).foldl (fun (credentials, count) secretMeta =>
    if hasPrefix channelName secretMeta.name then
      match s.getDecrypted secrets userId secretMeta.name now with
      | .error _ => (credentials, count)
      | .ok decrypted =>
        (setCredential (toUppercase secretMeta.name) ⟨decrypted, secretMeta.name⟩ credentials, count + 1)
    else (credentials, count)) (credentials, 0)

end Injecting

/-! ## Channels -/

/-- The router's channels with their credentials, and what the extension manager knows of channels. -/
structure WasmChannels where
  channels : Map String Credentials
  activeChannelNames : List String
  /-- `channel_runtime` is there. -/
  hasRuntime : Bool

/-- Before any channel is loaded. -/
def WasmChannels.new : WasmChannels := ⟨∅, [], false⟩

namespace WasmChannels

variable {σ : Type} (s : SecretsStore σ) (secrets : σ) (userId : String)

/-- What `setup_wasm_channels` does with a channel it has loaded, which is told to the extension manager afterwards. There
need not be a store for secrets. -/
def setup (hasSecrets : Bool) (name : String) (now : Int) (w : WasmChannels) : WasmChannels :=
  let credentials := if hasSecrets then (injectChannelCredentials s secrets userId name now ∅).1 else ∅
  { w with channels := w.channels.insert name credentials, activeChannelNames := w.activeChannelNames.insert name }

/-- `set_channel_runtime`. -/
def setChannelRuntime (w : WasmChannels) : WasmChannels := { w with hasRuntime := true }

/-- `refresh_active_channel`, with the message of its result. -/
def refreshActiveChannel (name : String) (now : Int) (w : WasmChannels) : WasmChannels × String :=
  if w.hasRuntime then
    match w.channels.lookup name with
    | none => (w, "Channel '" ++ name ++ "' is already active")
    | some existing =>
      let (credentials, credCount) := injectChannelCredentials s secrets userId name now existing
      ({ w with channels := w.channels.insert name credentials },
        "Channel '" ++ name ++ "' is already active; refreshed " ++ toString credCount ++ " credential(s)")
  else (w, "Channel '" ++ name ++ "' is already active")

/-- What an activation finds: the secrets the capabilities file requires, and the errors of loading the channel and of
adding it to the channel manager. -/
structure Activation where
  requiredSecrets : List String
  loadError : Option String
  hotAddError : Option String
  now : Int

/-- `activate_wasm_channel`. -/
def activateWasmChannel (a : Activation) (name : String) (w : WasmChannels) :
    WasmChannels × Except ExtensionError String :=
  if name ∈ w.activeChannelNames then
    let (w, message) := refreshActiveChannel s secrets userId name a.now w
    (w, .ok message)
  else if !w.hasRuntime then (w, .error (.activationFailed "WASM channel runtime not configured"))
  else if a.requiredSecrets.any fun secret => !s.exists? secrets userId secret then
    (w, .error (.activationFailed
      ("Channel '" ++ name ++ "' requires configuration. Use the setup form to provide credentials.")))
  else
    match a.loadError with
    | some e => (w, .error (.activationFailed e))
    | none =>
      -- The channel is in the router before it is known whether the channel manager takes it.
      let credentials := (injectChannelCredentials s secrets userId name a.now ∅).1
      let w := { w with channels := w.channels.insert name credentials }
      match a.hotAddError with
      | some e => (w, .error (.activationFailed e))
      | none =>
        ({ w with activeChannelNames := w.activeChannelNames.insert name },
          .ok ("Channel '" ++ name ++ "' activated and running"))

end WasmChannels
end Freeclawdia.Extensions
