import Mathlib.Data.Finmap
import Mathlib.Data.Finset.Sort
import Mathlib.Data.String.Basic
import Freeclawdia.Rust.Utf8
import Freeclawdia.Rust.Json

/-!
# `Config.Settings` — user settings and their rows in the database (`settings.rs`)

The structs of the source differ in their fields only, and everything the code does with them goes through
`serde_json`: so the settings are described by a **shape**, the tree of their fields with names, types and
defaults (`settingsShape` is the source's), and a value is a tuple of that shape. `serde_json` on values
(`to_value`, `from_value` as the derived code does it) is defined here; its texts are a parameter.
-/

namespace Freeclawdia.Config

open Rust

/-! ## Values of fields -/

/-- A path is any bytes; only UTF-8 can be serialised. -/
structure PathBuf where
  bytes : List UInt8

def PathBuf.ofStr (s : String) : PathBuf := ⟨encodeUtf8 s.toList⟩

def PathBuf.toStr (p : PathBuf) : Option String := fromUtf8 p.bytes

/-- Source for the secrets master key. -/
inductive KeySource
  | keychain
  | env
  | none

/-- `HashMap<String, i64>`. -/
abbrev OwnerIds := Finmap fun _ : String => Int64

/-- The types of the fields, with the defaults of those that have one of their own: `Default` and, for a bool,
    serde's for a missing field, which is another one in one case. -/
inductive FieldType
  | bool (default missing : Bool)
  | string (default : String)
  | u32 (default : UInt32)
  | u64 (default : UInt64)
  | optionU16
  | optionUsize
  | optionString
  | optionPath
  | keySource
  | strings
  | ownerIds

namespace FieldType

abbrev Value : FieldType → Type
  | bool .. => Bool
  | string _ => String
  | u32 _ => UInt32
  | u64 _ => UInt64
  | optionU16 => Option UInt16
  | optionUsize => Option UInt64
  | optionString => Option String
  | optionPath => Option PathBuf
  | keySource => KeySource
  | strings => List String
  | ownerIds => OwnerIds

def default : (t : FieldType) → t.Value
  | bool d _ => d
  | string d => d
  | u32 d => d
  | u64 d => d
  | optionU16 => none
  | optionUsize => none
  | optionString => none
  | optionPath => none
  | keySource => KeySource.none
  | strings => []
  | ownerIds => ∅

def missing : (t : FieldType) → t.Value
  | bool _ m => m
  | t => t.default

end FieldType

/-! ## `serde_json::to_value` and `from_value` of a field -/

def natValue (n : Nat) : Json := .number (.posInt n)

/-- The nonnegative integers below `bound`; floats are no integers. -/
def natOf (bound : Nat) : Json → Option Nat
  | .number (.posInt n) => if n < bound then some n else none
  | _ => none

def i64Value (v : Int64) : Json :=
  if 0 ≤ v.toInt then .number (.posInt v.toInt.toNat) else .number (.negInt v.toInt)

def i64Of : Json → Option Int64
  | .number (.posInt n) => if n < 2 ^ 63 then some (Int64.ofInt n) else none
  | .number (.negInt i) => if -2 ^ 63 ≤ i ∧ i < 2 ^ 63 then some (Int64.ofInt i) else none
  | _ => none

/-- `Option<T>`: null is `None`. -/
def optionOf {α : Type} (read : Json → Option α) : Json → Option (Option α)
  | .null => some none
  | json => (read json).map some

def optionValue {α : Type} (write : α → Option Json) : Option α → Option Json
  | none => some .null
  | some a => write a

/-- The rename of the variants is to lower case. -/
def KeySource.name : KeySource → String
  | keychain => "keychain"
  | env => "env"
  | none => "none"

def KeySource.ofName (s : String) : Option KeySource := [keychain, env, none].find? fun k => k.name = s

/-- A unit variant is its name, or an object with the name as its one key and null. -/
def KeySource.ofJson : Json → Option KeySource
  | .string s => ofName s
  | .object [(s, .null)] => ofName s
  | _ => Option.none

/-- A map in the order of its keys. -/
def OwnerIds.toList (m : OwnerIds) : List (String × Int64) :=
  (m.keys.sort (· ≤ ·)).filterMap fun k => (m.lookup k).map fun v => (k, v)

def OwnerIds.ofFields : List (String × Json) → OwnerIds → Option OwnerIds
  | [], m => some m
  | (k, json) :: rest, m => (i64Of json).bind fun v => ofFields rest (m.insert k v)

namespace FieldType

/-- `to_value`; it fails on a path that is not UTF-8. -/
def toValue : (t : FieldType) → t.Value → Option Json
  | bool .., v => some (.bool v)
  | string _, v => some (.string v)
  | u32 _, v => some (natValue v.toNat)
  | u64 _, v => some (natValue v.toNat)
  | optionU16, v => optionValue (fun n : UInt16 => some (natValue n.toNat)) v
  | optionUsize, v => optionValue (fun n : UInt64 => some (natValue n.toNat)) v
  | optionString, v => optionValue (fun s => some (.string s)) v
  | optionPath, v => optionValue (fun p : PathBuf => p.toStr.map .string) v
  | keySource, v => some (.string v.name)
  | strings, v => some (.array (v.map .string))
  | ownerIds, v => some (.object (v.toList.map fun e => (e.1, i64Value e.2)))

/-- `from_value`. -/
def fromValue : (t : FieldType) → Json → Option t.Value
  | bool .., json => json.asBool
  | string _, json => json.asStr
  | u32 _, json => (natOf (2 ^ 32) json).map UInt32.ofNat
  | u64 _, json => (natOf (2 ^ 64) json).map UInt64.ofNat
  | optionU16, json => optionOf (fun j => (natOf (2 ^ 16) j).map UInt16.ofNat) json
  | optionUsize, json => optionOf (fun j => (natOf (2 ^ 64) j).map UInt64.ofNat) json
  | optionString, json => optionOf Json.asStr json
  | optionPath, json => optionOf (fun j => j.asStr.map PathBuf.ofStr) json
  | keySource, json => KeySource.ofJson json
  | strings, json =>
    match json with
    | .array items => items.mapM Json.asStr
    | _ => none
  | ownerIds, json =>
    match json with
    | .object fields => OwnerIds.ofFields fields ∅
    | _ => none

end FieldType

/-! ## Structs -/

mutual

/-- A field of a simple type, or a struct. -/
inductive Shape
  | leaf (type : FieldType)
  | struct (fields : Fields)

/-- The fields of a struct; all of them are `#[serde(default)]`. -/
inductive Fields
  | nil
  | cons (name : String) (also : Option String) (shape : Shape) (rest : Fields)

end

mutual

def Shape.Value : Shape → Type
  | .leaf type => type.Value
  | .struct fields => fields.Record

def Fields.Record : Fields → Type
  | .nil => Unit
  | .cons _ _ shape rest => shape.Value × rest.Record

end

mutual

def Shape.default : (s : Shape) → s.Value
  | .leaf type => type.default
  | .struct fields => fields.default

def Fields.default : (fs : Fields) → fs.Record
  | .nil => ()
  | .cons _ _ shape rest => (shape.default, rest.default)

end

/-- The value of a field that is not there. -/
def Shape.missing : (s : Shape) → s.Value
  | .leaf type => type.missing
  | .struct fields => fields.default

mutual

/-- `serde_json::to_value`. -/
def Shape.toValue : (s : Shape) → s.Value → Option Json
  | .leaf type, v => type.toValue v
  | .struct fields, r => (fields.toFields r).map .object

def Fields.toFields : (fs : Fields) → fs.Record → Option (List (String × Json))
  | .nil, _ => some []
  | .cons name _ shape rest, r =>
    (shape.toValue r.1).bind fun json => (rest.toFields r.2).map fun fields => (name, json) :: fields

end

/-- The value of a field in an object: under its name or under its `alias`, but not under both. -/
def fieldIn (name : String) (also : Option String) (fields : List (String × Json)) : Option (Option Json) :=
  let named := (Json.object fields).get name
  let aliased := also.bind fun a => (Json.object fields).get a
  if named.isSome ∧ aliased.isSome then none else some (named.or aliased)

mutual

/-- `serde_json::from_value`: a struct is read from an object, whose other fields are ignored, or from an
    array with its fields in their order. -/
def Shape.fromValue : (s : Shape) → Json → Option s.Value
  | .leaf type, json => type.fromValue json
  | .struct fields, json =>
    match json with
    | .object obj => fields.fromFields obj
    | .array items => fields.fromSeq items
    | _ => none

def Fields.fromFields : (fs : Fields) → List (String × Json) → Option fs.Record
  | .nil, _ => some ()
  | .cons name also shape rest, obj =>
    (fieldIn name also obj).bind fun json? =>
      (match json? with
        | some json => shape.fromValue json
        | none => some shape.missing).bind fun v => (rest.fromFields obj).map fun r => (v, r)

def Fields.fromSeq : (fs : Fields) → List Json → Option fs.Record
  | .nil, items => if items.isEmpty then some () else none
  | .cons _ _ shape rest, [] => (rest.fromSeq []).map fun r => (shape.missing, r)
  | .cons _ _ shape rest, json :: items =>
    (shape.fromValue json).bind fun v => (rest.fromSeq items).map fun r => (v, r)

end

/-- A struct from its fields. -/
def Fields.of : List (String × Shape) → Fields
  | [] => .nil
  | (name, shape) :: rest => .cons name none shape (Fields.of rest)

section Tables

open FieldType

def field (name : String) (type : FieldType) : String × Shape := (name, .leaf type)

def flag (name : String) (default : Bool) : String × Shape := field name (.bool default default)

def group (name : String) (fields : List (String × Shape)) : String × Shape := (name, .struct (Fields.of fields))

def embeddingsSettings : String × Shape := group "embeddings"
  [flag "enabled" false, field "provider" (.string "nearai"), field "model" (.string "text-embedding-3-small")]

def tunnelSettings : String × Shape := group "tunnel"
  [field "public_url" optionString, field "provider" optionString, field "cf_token" optionString,
   field "ngrok_token" optionString, field "ngrok_domain" optionString, flag "ts_funnel" false,
   field "ts_hostname" optionString, field "custom_command" optionString, field "custom_health_url" optionString,
   field "custom_url_pattern" optionString]

/-- `Default` is derived here, so that `wasm_channels_enabled` is false by default and true when it is missing. -/
def channelSettings : String × Shape := group "channels"
  [flag "http_enabled" false, field "http_port" optionU16, field "http_host" optionString,
   flag "signal_enabled" false, field "signal_http_url" optionString, field "signal_account" optionString,
   field "signal_allow_from" optionString, field "signal_allow_from_groups" optionString,
   field "signal_dm_policy" optionString, field "signal_group_policy" optionString,
   field "signal_group_allow_from" optionString, field "wasm_channel_owner_ids" ownerIds,
   field "wasm_channels" strings, field "wasm_channels_enabled" (.bool false true),
   field "wasm_channels_dir" optionPath]

def heartbeatSettings : String × Shape := group "heartbeat"
  [flag "enabled" false, field "interval_secs" (.u64 1800), field "notify_channel" optionString,
   field "notify_user" optionString]

def agentSettings : String × Shape := group "agent"
  [field "name" (.string "ironclaw"), field "max_parallel_jobs" (.u32 5), field "job_timeout_secs" (.u64 3600),
   field "stuck_threshold_secs" (.u64 300), flag "use_planning" true, field "repair_check_interval_secs" (.u64 60),
   field "max_repair_attempts" (.u32 3), field "session_idle_timeout_secs" (.u64 (7 * 24 * 3600)),
   field "max_tool_iterations" (.u64 50), flag "auto_approve_tools" false]

def wasmSettings : String × Shape := group "wasm"
  [flag "enabled" true, field "tools_dir" optionPath, field "default_memory_limit" (.u64 (10 * 1024 * 1024)),
   field "default_timeout_secs" (.u64 60), field "default_fuel_limit" (.u64 10000000), flag "cache_compiled" true,
   field "cache_dir" optionPath]

def sandboxSettings : String × Shape := group "sandbox"
  [flag "enabled" true, field "policy" (.string "readonly"), field "timeout_secs" (.u64 120),
   field "memory_limit_mb" (.u64 2048), field "cpu_shares" (.u32 1024),
   field "image" (.string "ironclaw-worker:latest"), flag "auto_pull_image" true,
   field "extra_allowed_domains" strings]

def safetySettings : String × Shape := group "safety"
  [field "max_output_length" (.u64 100000), flag "injection_check_enabled" true]

def builderSettings : String × Shape := group "builder"
  [flag "enabled" true, field "build_dir" optionPath, field "max_iterations" (.u32 20),
   field "timeout_secs" (.u64 600), flag "auto_register" true]

/-- The fields of `Settings`. -/
def settingsFields : Fields :=
  .cons "onboard_completed" (some "setup_completed") (.leaf (.bool false false)) (Fields.of
    [field "database_backend" optionString, field "database_url" optionString,
     field "database_pool_size" optionUsize, field "libsql_path" optionString, field "libsql_url" optionString,
     field "secrets_master_key_source" keySource, field "llm_backend" optionString,
     field "ollama_base_url" optionString, field "openai_compatible_base_url" optionString,
     field "selected_model" optionString, embeddingsSettings, tunnelSettings, channelSettings, heartbeatSettings,
     agentSettings, wasmSettings, sandboxSettings, safetySettings, builderSettings])

end Tables

def settingsShape : Shape := .struct settingsFields

/-- User settings. -/
abbrev Settings : Type := settingsShape.Value

/-! ## Setting a value by its path -/

/-- The texts of `serde_json`, and the parts of the standard library's float parsing. -/
structure Serde where
  fromStr : String → Option Json
  toText : Json → String
  parseF64 : String → Option (BitVec 64)
  showF64 : BitVec 64 → String

/-- The errors of `set`; where it ends with an error of serde, that part is left out. -/
inductive SetError
  | serialize
  | pathNotFound (path : String)
  | parentNotObject (path : String)
  | expected (what path value : String)
  | invalidJson (what path : String)
  | apply

def SetError.text : SetError → String
  | serialize => "Failed to serialize settings: "
  | pathNotFound path => "Path not found: " ++ path
  | parentNotObject path => "Parent is not an object: " ++ path
  | expected what path value => "Expected " ++ what ++ " for " ++ path ++ ", got '" ++ value ++ "'"
  | invalidJson what path => "Invalid JSON " ++ what ++ " for " ++ path ++ ": "
  | apply => "Failed to apply setting: "

/-- `str::parse::<bool>`. -/
def parseBool (s : String) : Option Bool :=
  if s = "true" then some true else if s = "false" then some false else none

/-- `Number::from(i64)`. -/
def intNumber (i : Int) : Number := if 0 ≤ i then .posInt i.toNat else .negInt i

/-- A float that is finite is a number. -/
def isFinite (bits : BitVec 64) : Bool := (bits >>> 52) &&& 0x7FF ≠ 0x7FF

/-- `v.parse().map_err(..)`. -/
def parsed {α : Type} (what path value : String) : Option α → Except SetError α
  | some a => .ok a
  | none => .error (.expected what path value)

variable (serde : Serde)

/-- The value of the final key: its type is that of the value there is. -/
def newValue (path value : String) : Option Json → Except SetError Json
  | some (.bool _) => (parsed "boolean" path value (parseBool value)).map .bool
  | some (.number (.posInt _)) => (parsed "integer" path value (parseUsize value)).map natValue
  | some (.number (.negInt _)) => (parsed "integer" path value (parseI64 value)).map fun i => .number (intNumber i)
  | some (.number (.float _)) => (parsed "number" path value (serde.parseF64 value)).map fun bits =>
    if isFinite bits then .number (.float bits) else .string value
  -- Could be `Option<T>`, try to parse as JSON or use string
  | some .null => .ok ((serde.fromStr value).getD (.string value))
  | some (.array _) => ((serde.fromStr value).map .ok).getD (.error (.invalidJson "array" path))
  | some (.object _) => ((serde.fromStr value).map .ok).getD (.error (.invalidJson "object" path))
  | some (.string _) => .ok (.string value)
  -- Key doesn't exist, try to parse as JSON or use string
  | none => .ok ((serde.fromStr value).getD (.string value))

/-- Navigate to the parent and set the final key. -/
def setIn (path value : String) : Json → List String → Except SetError Json
  | _, [] => .error (.parentNotObject path)
  | .object fields, [key] => (newValue serde path value ((Json.object fields).get key)).map fun json =>
    .object (Json.insertField key json fields)
  | _, [_] => .error (.parentNotObject path)
  | .object fields, key :: parts =>
    match (Json.object fields).get key with
    | none => .error (.pathNotFound path)
    | some child => (setIn path value child parts).map fun json => .object (Json.insertField key json fields)
  | _, _ :: _ => .error (.pathNotFound path)

/-- `path.split('.')`. -/
def parts (path : String) : List String := (path.toList.splitOn '.').map String.ofList

/-- Set a setting value by dotted path. -/
def set (self : Settings) (path value : String) : Except SetError Settings :=
  match settingsShape.toValue self with
  | none => .error .serialize
  | some json => (setIn serde path value json (parts path)).bind fun json =>
    match settingsShape.fromValue json with
    | some settings => .ok settings
    | none => .error .apply

/-! ## The rows of the database -/

def showNumber : Number → String
  | .posInt n => toString n
  | .negInt i => toString i
  | .float bits => serde.showF64 bits

/-- The text of a row's value; null means default. -/
def valueStr : Json → Option String
  | .string s => some s
  | .bool b => some (if b then "true" else "false")
  | .number n => some (showNumber serde n)
  | .null => none
  | other => some (serde.toText other)

/-- One row laid over the settings; one that cannot be applied is skipped. -/
def applyRow (settings : Settings) (row : String × Json) : Settings :=
  match valueStr serde row.2 with
  | none => settings
  | some value =>
    match set serde settings row.1 value with
    | .ok settings => settings
    | .error _ => settings

/-- Reconstruct Settings from a flat key-value map, in the order in which it is iterated over. -/
def fromDbMap (map : List (String × Json)) : Settings := map.foldl (applyRow serde) settingsShape.default

mutual

/-- Recursively collect settings paths with their JSON values. -/
def collectSettingsJson : Json → String → List (String × Json) → List (String × Json)
  | .object obj, pre, results => collectFields obj pre results
  | other, pre, results => Json.insertField pre other results

def collectFields : List (String × Json) → String → List (String × Json) → List (String × Json)
  | [], _, results => results
  | (key, val) :: obj, pre, results =>
    collectFields obj pre
      (collectSettingsJson val (if pre = "" then key else pre ++ "." ++ key) results)

end

/-- Flatten Settings into a key-value map suitable for DB storage. -/
def toDbMap (self : Settings) : List (String × Json) :=
  match settingsShape.toValue self with
  | none => []
  | some json => collectSettingsJson json "" []

end Freeclawdia.Config
