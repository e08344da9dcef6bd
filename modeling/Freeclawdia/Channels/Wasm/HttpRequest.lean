import Freeclawdia.Rust.Reqwest
import Freeclawdia.Tools.Wasm.HttpRequest

/-!
# `Channels.Wasm.HttpRequest` — an HTTP request of a WASM channel

`ChannelStoreData::http_request` (`channels/wasm/wrapper.rs`), the other copy of the host function that tools have. Here
the leak scan comes **before** the host credentials go in, no check looks at the address, the client follows redirects,
and query parameters are written by the URL library. The errors of the checks are returned as they are; only what goes
wrong after them has the credentials taken out, also where they are percent-encoded.
-/

namespace Freeclawdia.WasmChannel

open Rust Reqwest
open WasmTool (ResolvedHostCredential StoreData WasmRequest RawResponse HttpResponse insertEntry injectCredentials
  extractHostFromUrl checkHttpAllowed recordHttpRequest readResponse supportedMethods maxResponseBytes)

/-- What a channel's store holds is what a tool's does: the HTTP capability, the counter, and the credentials. -/
abbrev ChannelStoreData := StoreData

/-- What the tool's side uses, and what the URL library and the client of a channel add to it. -/
structure HttpEnv extends WasmTool.HttpEnv where
  /-- `Url::to_string`; the fragment stays on this side. -/
  display : Url → String
  join : Url → String → Option Url
  headerOk : String × String → Bool

/-! ## Credentials -/

/-- `redact_credentials`: the value, and its percent-encoded form if that is another. -/
def redactCredentials (data : ChannelStoreData) (text : String) : String :=
  let redact (result value tag : String) :=
    if value.isEmpty then result
    else
      let result := replaceAll result value tag
      if urlencode value ≠ value then replaceAll result (urlencode value) tag else result
  let result := data.credentials.foldl (fun result c => redact result c.2 ("[REDACTED:" ++ c.1 ++ "]")) text
  data.hostCredentials.foldl (fun result cred => redact result cred.secretValue "[REDACTED:host_credential]") result

variable (env : HttpEnv)

/-- Query parameters behind those of the URL; a text that is no URL is left alone. -/
def appendPairs (params : List (String × String)) (url : String) : String :=
  if params.isEmpty then url
  else
    match env.parse url with
    | .ok parsed => env.display (params.foldl Url.appendPair parsed)
    | .error _ => url

/-- `inject_host_credentials`: the headers and the URL with the credentials for the host. -/
def injectHostCredentials (creds : List ResolvedHostCredential) (urlHost : String)
    (headers : List (String × String)) (url : String) : List (String × String) × String :=
  creds.foldl
    (fun (acc : List (String × String) × String) cred =>
      if cred.hostPatterns.any (hostMatchesPattern urlHost) then
        (cred.headers.foldl (fun headers e => insertEntry e.1 e.2 headers) acc.1, appendPairs env cred.queryParams acc.2)
      else acc)
    (headers, url)

/-! ## Before the request is sent -/

/-- The URL with its placeholders filled. -/
def filledUrl (data : ChannelStoreData) (req : WasmRequest) : String := injectCredentials data.credentials req.url

/-- The headers with their placeholders filled. -/
def filledHeaders (data : ChannelStoreData) (req : WasmRequest) : List (String × String) :=
  ((env.parseHeaders req.headersJson).getD []).map fun h => (h.1, injectCredentials data.credentials h.2)

/-- The host credentials go in after the scan. -/
def injected (data : ChannelStoreData) (req : WasmRequest) : List (String × String) × String :=
  match extractHostFromUrl env.parse (filledUrl data req) with
  | some host => injectHostCredentials env data.hostCredentials host (filledHeaders env data req) (filledUrl data req)
  | none => (filledHeaders env data req, filledUrl data req)

/-- The leak scan of the request. -/
def leakScan (data : ChannelStoreData) (req : WasmRequest) : Except LeakDetectionError Unit :=
  LeakDetector.new.scanHttpRequest env.isWord (filledUrl data req) (filledHeaders env data req) req.body

/-- The checks, with the headers and the URL to be sent. -/
def checkRequest (data : ChannelStoreData) (req : WasmRequest) :
    Except String (List (String × String) × String) × ChannelStoreData :=
  match checkHttpAllowed env.toHttpEnv data (filledUrl data req) req.method with
  | .error e => (.error ("HTTP not allowed: " ++ e), data)
  | .ok () =>
    match recordHttpRequest data with
    | (.error e, data) => (.error ("Rate limit exceeded: " ++ e), data)
    | (.ok (), data) =>
      match leakScan env data req with
      | .error e => (.error ("Potential secret leak blocked: " ++ e.display), data)
      | .ok () => (.ok (injected env data req), data)

/-! ## The exchange -/

/-- The request the client is given: the URL is parsed again, and a header that is none is an error. -/
def buildRequest (req : WasmRequest) (headers : List (String × String)) (url : String) :
    Except Failure Request :=
  match env.parse url with
  | .error e => .error ⟨"builder error", none, e⟩
  | .ok u =>
    if headers.all env.headerOk then
      .ok ⟨toUppercase req.method, u, headers, none, req.body, some (min (req.timeoutMs.getD 30000) 300000)⟩
    else .error ⟨"builder error", none, "failed to parse header"⟩

/-- What the client reads of a response to follow it. -/
def location (response : RawResponse) : Option (Nat × String) :=
  if [301, 302, 303, 307, 308].contains response.status then
    ((response.headers.find? fun h => eqIgnoreAsciiCase h.1 "location").bind fun h => fromUtf8 h.2).map
      fun text => (response.status, text)
  else none

/-- The block that runs on the channel's own runtime: the requests that are sent, and the response. -/
def exchange (maxResponse : Nat) (req : WasmRequest) (headers : List (String × String)) (url : String)
    (answers : List (Except String RawResponse)) : List Request × Except String HttpResponse :=
  match env.client with
  | .error e => ([], .error ("Failed to build HTTP client: " ++ e))
  | .ok () =>
    if toUppercase req.method ∈ supportedMethods then
      match buildRequest env req headers url with
      | .error failure => ([], .error ("HTTP request failed: " ++ failure.chain env.display))
      | .ok request =>
        let (sent, response) := Reqwest.exchange env.join location maxRedirects request answers
        (sent, match response with
          | .error failure => .error ("HTTP request failed: " ++ failure.chain env.display)
          | .ok response => readResponse env.isWord maxResponse response)
    else ([], .error ("Unsupported HTTP method: " ++ req.method))

/-- What comes of a call: the requests that went out, what the channel gets, and its store. -/
structure Outcome where
  sent : List Request
  result : Except String HttpResponse
  data : ChannelStoreData

/-- `ChannelStoreData::http_request`. -/
def httpRequest (data : ChannelStoreData) (req : WasmRequest)
    (answers : List (Except String RawResponse)) : Outcome :=
  match checkRequest env data req with
  | (.error e, data) => ⟨[], .error e, data⟩
  | (.ok (headers, url), data) =>
    match (if data.httpRuntime then .ok () else env.runtime) with
    | .error e => ⟨[], .error ("Failed to create HTTP runtime: " ++ e), data⟩
    | .ok () =>
      let (sent, result) := exchange env (maxResponseBytes data) req headers url answers
      ⟨sent, result.mapError (redactCredentials data), { data with httpRuntime := true }⟩

end Freeclawdia.WasmChannel
