import Freeclawdia.Safety.LeakDetector
import Freeclawdia.Tools.Wasm.CredentialInjector
import Freeclawdia.Tools.Wasm.Allowlist
import Mathlib.Data.List.Sort

/-!
# `Tools.Wasm.HttpRequest` — an HTTP request of a WASM tool

`StoreData::http_request` (`tools/wasm/wrapper.rs`), with the checks of `HostState` (`tools/wasm/host.rs`).
Credentials go into the URL and the headers **before** the leak scan, and only what goes wrong after the checks has
them taken out again. Of the response, a body that is UTF-8 is scanned; other bodies and the headers are not.

A hash map is the list of its entries; a run visits its maps in an order of its own, by where it puts a name.
`HttpResponse` has the map of the headers instead of its JSON text. The network, the URL parser, `serde_json` and the
`{:?}` of an allowlist result are parameters.
-/

namespace Freeclawdia.WasmTool

open Rust

/-! ## What a tool has and asks for -/

/-- Pre-resolved credential for host-based injection. -/
structure ResolvedHostCredential where
  hostPatterns : List String
  headers : List (String × String)
  queryParams : List (String × String)
  secretValue : String

/-- The parts of the HTTP capability that are used here. -/
structure HttpCapability where
  allowlist : List EndpointPattern
  maxResponseBytes : Nat

/-- Store data for WASM tool execution. -/
structure StoreData where
  http : Option HttpCapability
  httpRequestCount : Nat := 0
  /-- Values of placeholders. -/
  credentials : List (String × String)
  hostCredentials : List ResolvedHostCredential
  httpRuntime : Bool := false

/-- What the tool passes. -/
structure WasmRequest where
  method : String
  url : String
  headersJson : String
  body : Option (List UInt8)
  timeoutMs : Option Nat

/-- What goes over the network. -/
structure SentRequest where
  method : String
  url : String
  headers : List (String × String)
  body : Option (List UInt8)
  timeoutMs : Nat

/-- What comes back. -/
structure RawResponse where
  status : Nat
  headers : List (String × List UInt8)
  contentLength : Option Nat
  body : Except String (List UInt8)

/-- What the tool gets. -/
structure HttpResponse where
  status : Nat
  headers : List (String × String)
  body : List UInt8
deriving DecidableEq

structure HttpEnv where
  parse : UrlParser
  dns : Resolver
  isWord : Char → Bool
  debugResult : AllowlistResult → String
  parseHeaders : String → Option (List (String × String))
  /-- Building the runtime and the client may fail. -/
  runtime : Except String Unit
  client : Except String Unit
  /-- The response, or the text of the error's chain. -/
  send : SentRequest → Except String RawResponse
  /-- Where the run's hash maps put a name: they are visited from low to high. -/
  rank : String → Nat := fun _ => 0

/-! ## Credentials -/

/-- `HashMap::insert`. -/
def insertEntry (key value : String) : List (String × String) → List (String × String)
  | [] => [(key, value)]
  | e :: entries => if e.1 = key then (key, value) :: entries else e :: insertEntry key value entries

/-- The entries of a hash map in the order they are visited. -/
def visit (rank : String → Nat) (entries : List (String × String)) : List (String × String) :=
  entries.insertionSort fun e e' => rank e.1 ≤ rank e'.1

/-- `inject_credentials`: put values in the place of placeholders. -/
def injectCredentials (credentials : List (String × String)) (input : String) : String :=
  credentials.foldl
    (fun result c =>
      let placeholder := "\x7b" ++ c.1 ++ "\x7d"
      if contains result placeholder then replaceAll result placeholder c.2 else result)
    input

/-- `redact_credentials`. -/
def redactCredentials (data : StoreData) (text : String) : String :=
  let result := data.credentials.foldl
    (fun result c => if c.2.isEmpty then result else replaceAll result c.2 ("[REDACTED:" ++ c.1 ++ "]")) text
  data.hostCredentials.foldl
    (fun result cred =>
      if cred.secretValue.isEmpty then result else replaceAll result cred.secretValue "[REDACTED:host_credential]")
    result

/-- Query parameters as they are appended, the first behind `separator`. -/
def queryText (separator : Char) : List (String × String) → String
  | [] => ""
  | (name, value) :: rest =>
    String.ofList [separator] ++ urlencode name ++ "=" ++ urlencode value ++ queryText '&' rest

/-- Append query parameters, before the fragment if there is one. -/
def appendQuery (params : List (String × String)) (url : String) : String :=
  if params.isEmpty then url
  else
    let base := String.ofList (url.toList.takeWhile (· ≠ '#'))
    let fragment := String.ofList (url.toList.dropWhile (· ≠ '#'))
    base ++ queryText (if base.toList.contains '?' then '&' else '?') params ++ fragment

/-- `inject_host_credentials`: the headers and the URL with the credentials for the host. -/
def injectHostCredentials (creds : List ResolvedHostCredential) (urlHost : String) (headers : List (String × String))
    (url : String) : List (String × String) × String :=
  creds.foldl
    (fun (acc : List (String × String) × String) cred =>
      if cred.hostPatterns.any (hostMatchesPattern urlHost) then
        (cred.headers.foldl (fun headers e => insertEntry e.1 e.2 headers) acc.1, appendQuery cred.queryParams acc.2)
      else acc)
    (headers, url)

/-- `extract_host_from_url`. -/
def extractHostFromUrl (parse : UrlParser) (url : String) : Option String :=
  match parse url with
  | .error _ => none
  | .ok parsed =>
    if parsed.scheme = "http" ∨ parsed.scheme = "https" then
      parsed.hostStr.map fun h => toLowercase (unbracket h)
    else none

/-! ## Before the request is sent -/

variable (env : HttpEnv)

/-- `HostState::check_http_allowed`. -/
def checkHttpAllowed (data : StoreData) (url method : String) : Except String Unit :=
  match data.http with
  | none => .error "HTTP capability not granted"
  | some capability =>
    match (AllowlistValidator.new capability.allowlist).validate env.parse url method with
    | .allowed => .ok ()
    | result => .error ("HTTP request not allowed: " ++ env.debugResult result)

/-- `HostState::record_http_request`, with the counter it leaves. -/
def recordHttpRequest (data : StoreData) : Except String Unit × StoreData :=
  match data.http with
  | none => (.error "HTTP capability not granted", data)
  | some _ =>
    let count := (data.httpRequestCount + 1) % 2 ^ 32
    (if 50 < count then .error "Too many HTTP requests in single execution (max 50)" else .ok (),
      { data with httpRequestCount := count })

/-- The URL and the headers with all credentials in them. -/
def injected (data : StoreData) (req : WasmRequest) : List (String × String) × String :=
  let url := injectCredentials data.credentials req.url
  let headers := ((env.parseHeaders req.headersJson).getD []).map fun h => (h.1, injectCredentials data.credentials h.2)
  match extractHostFromUrl env.parse url with
  | some host => injectHostCredentials data.hostCredentials host headers url
  | none => (headers, url)

/-- The leak scan of the request and the check of its address. -/
def scanInjected (data : StoreData) (req : WasmRequest) :
    Except String (List (String × String) × String) :=
  let (unordered, url) := injected env data req
  let headers := visit env.rank unordered
  match LeakDetector.new.scanHttpRequest env.isWord url headers req.body with
  | .error e => .error ("Potential secret leak blocked: " ++ e.display)
  | .ok () =>
    match rejectPrivateIp env.parse env.dns url with
    | .error e => .error e
    | .ok () => .ok (headers, url)

/-- The checks, with the headers and the URL to be sent. -/
def checkRequest (data : StoreData) (req : WasmRequest) :
    Except String (List (String × String) × String) × StoreData :=
  match checkHttpAllowed env data (injectCredentials data.credentials req.url) req.method with
  | .error e => (.error ("HTTP not allowed: " ++ e), data)
  | .ok () =>
    match recordHttpRequest data with
    | (.error e, data) => (.error ("Rate limit exceeded: " ++ e), data)
    | (.ok (), data) => (scanInjected env data req, data)

/-! ## The exchange -/

/-- `HeaderValue::to_str`: only visible ASCII is text. -/
def headerText (bytes : List UInt8) : Option String :=
  if bytes.all fun b => (32 ≤ b && b < 127) || b = 9 then some (String.ofList (bytes.map fun b => Char.ofNat b.toNat))
  else none

/-- The headers that are text, the last value for each name. -/
def responseHeaders (headers : List (String × List UInt8)) : List (String × String) :=
  headers.foldl
    (fun entries h =>
      match headerText h.2 with
      | some value => insertEntry h.1 value entries
      | none => entries)
    []

/-- The leak scan of a body, as far as it is UTF-8. -/
def scanBody (isWord : Char → Bool) (body : List UInt8) : Except String Unit :=
  match fromUtf8 body with
  | none => .ok ()
  | some text =>
    match LeakDetector.new.scanAndClean isWord text with
    | .error e => .error ("Potential secret leak in response: " ++ e.display)
    | .ok _ => .ok ()

def tooLarge (size limit : Nat) : String :=
  "Response body too large: " ++ toString size ++ " bytes exceeds limit of " ++ toString limit ++ " bytes"

/-- What the tool gets of a response. -/
def readResponse (isWord : Char → Bool) (maxResponse : Nat) (response : RawResponse) : Except String HttpResponse :=
  -- An honest length lets an oversized response be refused early.
  if response.contentLength.any (maxResponse < ·) then .error (tooLarge (response.contentLength.getD 0) maxResponse)
  else
    match response.body with
    | .error e => .error ("Failed to read response body: " ++ e)
    | .ok body =>
      if maxResponse < body.length then .error (tooLarge body.length maxResponse)
      else
        match scanBody isWord body with
        | .error e => .error e
        | .ok () => .ok ⟨response.status, responseHeaders response.headers, body⟩

def supportedMethods : List String := ["GET", "POST", "PUT", "DELETE", "PATCH", "HEAD"]

/-- The block that runs on the tool's own runtime. -/
def exchange (maxResponse : Nat) (req : WasmRequest) (headers : List (String × String)) (url : String) :
    Except String HttpResponse :=
  match env.client with
  | .error e => .error ("Failed to build HTTP client: " ++ e)
  | .ok () =>
    if toUppercase req.method ∈ supportedMethods then
      match env.send ⟨toUppercase req.method, url, headers, req.body, min (req.timeoutMs.getD 30000) 300000⟩ with
      | .error chain => .error chain
      | .ok response => readResponse env.isWord maxResponse response
    else .error ("Unsupported HTTP method: " ++ req.method)

/-- The default of 10 MB holds without a capability. -/
def maxResponseBytes (data : StoreData) : Nat := (data.http.map HttpCapability.maxResponseBytes).getD (10 * 1024 * 1024)

/-- `StoreData::http_request`. -/
def httpRequest (data : StoreData) (req : WasmRequest) : Except String HttpResponse × StoreData :=
  match checkRequest env data req with
  | (.error e, data) => (.error e, data)
  | (.ok (headers, url), data) =>
    match (if data.httpRuntime then .ok () else env.runtime) with
    | .error e => (.error ("Failed to create HTTP runtime: " ++ e), data)
    | .ok () =>
      ((exchange env (maxResponseBytes data) req headers url).mapError (redactCredentials data),
        { data with httpRuntime := true })

end Freeclawdia.WasmTool
