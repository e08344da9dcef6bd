import Freeclawdia.Rust.Url
import Freeclawdia.Lib.Map
import Freeclawdia.Rust.Json

/-!
# `Tools.Wasm.CredentialInjector` — credential mappings and the capabilities files they come from

`tools/wasm/credential_injector.rs` and the credential mappings of `secrets/types.rs`: the shared registry of mappings,
and what a secret adds to a request.
-/

namespace Freeclawdia

open Rust

/-- Where a credential is injected. -/
inductive CredentialLocation
  | authorizationBearer
  | authorizationBasic (username : String)
  | header (name : String) (lead : Option String)
  | queryParam (name : String)
  | urlPath (placeholder : String)
  deriving DecidableEq

/-- Mapping from a secret name to where it should be injected. -/
structure CredentialMapping where
  secretName : String
  location : CredentialLocation
  hostPatterns : List String
  deriving DecidableEq

/-- Check if a host matches a pattern (supports wildcards). -/
def hostMatchesPattern (host pattern : String) : Bool :=
  if pattern = host then true
  else
    match stripPrefix pattern "*." with
    | some suffix =>
      if endsWith host suffix && decide (byteLen suffix < byteLen host) then
        let before := String.ofList (host.toList.take (host.toList.length - suffix.toList.length))
        endsWith before "." || before.isEmpty
      else false
    | none => false

namespace SharedCredentialRegistry

/-- Is a mapping one for the host? -/
def mappingMatches (host : String) (mapping : CredentialMapping) : Bool :=
  mapping.hostPatterns.any fun pattern => hostMatchesPattern host pattern

/-- Check if any credential mapping matches this host. -/
def hasCredentialsForHost (mappings : List CredentialMapping) (host : String) : Bool :=
  mappings.any (mappingMatches host)

/-- Get all credential mappings matching a host. -/
def findForHost (mappings : List CredentialMapping) (host : String) : List CredentialMapping :=
  mappings.filter (mappingMatches host)

end SharedCredentialRegistry

/-- What one credential adds to a request. -/
structure InjectedCredentials where
  headers : List (String × String)
  queryParams : List (String × String)

/-- The alphabet of Base64. -/
def base64Alphabet : List Char :=
  "ABCDEFGHIJKLMNOPQRSTUVWXYZabcdefghijklmnopqrstuvwxyz0123456789+/".toList

/-- One character of Base64. -/
def base64Char (index : UInt8) : Char := (base64Alphabet[index.toNat]?).getD 'A'

/-- Simple base64 encoding: three bytes become four characters, with padding at the end. -/
def base64Chars : List UInt8 → List Char
  | b0 :: b1 :: b2 :: rest =>
    [base64Char (b0 >>> 2), base64Char (((b0 &&& 0x03) <<< 4) ||| (b1 >>> 4)),
     base64Char (((b1 &&& 0x0F) <<< 2) ||| (b2 >>> 6)), base64Char (b2 &&& 0x3F)] ++ base64Chars rest
  | [b0, b1] =>
    [base64Char (b0 >>> 2), base64Char (((b0 &&& 0x03) <<< 4) ||| (b1 >>> 4)), base64Char ((b1 &&& 0x0F) <<< 2), '=']
  | [b0] => [base64Char (b0 >>> 2), base64Char ((b0 &&& 0x03) <<< 4), '=', '=']
  | [] => []

def base64Encode (input : String) : String := String.ofList (base64Chars input.toUTF8.toList)

example : base64Chars [0x75, 0x3A, 0x70, 0x77] = "dTpwdw==".toList := by decide +kernel

/-- Inject a single credential into an empty result. -/
def injectCredential (location : CredentialLocation) (secret : String) :
    InjectedCredentials :=
  match location with
  | .authorizationBearer => ⟨[("Authorization", "Bearer " ++ secret)], []⟩
  | .authorizationBasic username => ⟨[("Authorization", "Basic " ++ base64Encode (username ++ ":" ++ secret))], []⟩
  | .header name lead => ⟨[(name, lead.getD "" ++ secret)], []⟩
  | .queryParam name => ⟨[], [(name, secret)]⟩
  -- placeholders in a URL are replaced by the callers
  | .urlPath _ => ⟨[], []⟩

/-! ## The capabilities file of a WASM extension

The credential mappings of a file, and its WIT version. Whether the other sections of a file (allowlist, limits,
secrets, tool invocation, workspace, auth, setup) can be read is a parameter. -/

namespace CapabilitiesSchema

open Serde

/-- The tag and the content of an internally tagged value: an object with the tag among its members, or an array
that starts with it. -/
def tagged : Json → Option (String × Json)
  | .object fields =>
    ((Json.object fields).get "type").bind fun tag =>
      tag.asStr.map fun t => (t, .object (fields.filter fun f => f.1 ≠ "type"))
  | .array (tag :: rest) => tag.asStr.map fun t => (t, .array rest)
  | _ => none

/-- `CredentialLocationSchema`, as the location it converts to. -/
def decodeLocation : Decode CredentialLocation := fun j =>
  (tagged j).bind fun (tag, content) =>
    match tag with
    | "bearer" => some .authorizationBearer
    | "basic" =>
      if isStruct 1 content then (required ["username"] 0 Json.asStr content).map .authorizationBasic else none
    | "header" =>
      if isStruct 2 content then
        (required ["name", "header_name"] 0 Json.asStr content).bind fun name =>
          (withDefault ["prefix"] 1 none (nullable Json.asStr) content).map fun lead => .header name lead
      else none
    | "query_param" =>
      if isStruct 1 content then (required ["name"] 0 Json.asStr content).map .queryParam else none
    | "url_path" =>
      if isStruct 1 content then (required ["placeholder"] 0 Json.asStr content).map .urlPath else none
    | _ => none

/-- `CredentialMappingSchema`, as the mapping it converts to. -/
def decodeMapping : Decode CredentialMapping := fun j =>
  if isStruct 3 j then
    (required ["secret_name"] 0 Json.asStr j).bind fun secretName =>
      (required ["location"] 1 decodeLocation j).bind fun location =>
        (withDefault ["host_patterns"] 2 [] (list Json.asStr) j).map fun hostPatterns =>
          ⟨secretName, location, hostPatterns⟩
  else none

/-- A map of credential mappings, by a key that is not the secret's name. -/
def decodeCredentials : Decode (List (String × CredentialMapping))
  | .object fields => fields.mapM fun f => (decodeMapping f.2).map fun m => (f.1, m)
  | _ => none

/-- `CapabilitiesFile`. -/
structure CapabilitiesFile where
  witVersion : Option String
  /-- The `http` section, by its credentials. -/
  http : Option (List (String × CredentialMapping))

/-- The credentials of an `http` section. -/
def decodeHttp : Decode (List (String × CredentialMapping)) := fun j =>
  if isStruct 6 j then withDefault ["credentials"] 1 [] decodeCredentials j else none

/-- `CapabilitiesFile::from_bytes` on the parsed text, with `resolve_nested`: a section of the outer file goes
before one of the file nested in it. Nesting is bounded by what the parser takes. -/
def decodeFile (otherSections : Json → Bool) : Nat → Decode CapabilitiesFile
  | 0, _ => none
  | depth + 1, j =>
    if isStruct 9 j && otherSections j then
      (withDefault ["wit_version"] 1 none (nullable Json.asStr) j).bind fun witVersion =>
        (withDefault ["http"] 2 none (nullable decodeHttp) j).bind fun http =>
          (withDefault ["capabilities"] 8 none (nullable (decodeFile otherSections depth)) j).map fun inner =>
            ⟨witVersion, http.or (inner.bind CapabilitiesFile.http)⟩
    else none

/-- The recursion limit of `serde_json`. -/
def recursionLimit : Nat := 128

/-- `to_capabilities`, by the credentials of its HTTP capability: one mapping for each secret. -/
def CapabilitiesFile.credentials (file : CapabilitiesFile) : List CredentialMapping :=
  let byName := (file.http.getD []).foldl
    (fun (byName : Map String CredentialMapping) m => byName.insert m.2.secretName m.2) ∅
  byName.entries.map Sigma.snd

end CapabilitiesSchema
end Freeclawdia
