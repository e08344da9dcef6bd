import Freeclawdia.Safety.LeakDetector
import Freeclawdia.Tools.Tool
import Freeclawdia.Tools.Wasm.CredentialInjector

/-!
# `Tools.Builtin.Http` — the HTTP tool and the credentials that come with a request

`safety/credential_detect.rs`: detection of manually provided credentials in the parameters of an HTTP request.
`queryPairs` is `url::Url::query_pairs`.
-/

namespace Freeclawdia

open Rust

namespace CredentialDetect

/-- Header names that are exact matches for credential-carrying headers. -/
def authHeaderExact : List String :=
  ["authorization", "proxy-authorization", "cookie", "x-api-key", "api-key", "x-auth-token", "x-token",
   "x-access-token", "x-session-token", "x-csrf-token", "x-secret", "x-api-secret"]

/-- Substrings in header names that suggest credentials. -/
def authHeaderSubstrings : List String := ["auth", "token", "secret", "credential", "password"]

/-- Value prefixes that indicate auth schemes. -/
def authValuePrefixes : List String :=
  ["bearer ", "basic ", "token ", "digest ", "hoba ", "mutual ", "aws4-hmac-sha256 "]

/-- URL query parameter names that are exact matches for credentials. -/
def authQueryExact : List String :=
  ["api_key", "apikey", "api-key", "access_token", "token", "key", "secret", "password", "auth", "auth_token",
   "session_token", "client_secret", "client_id", "app_key", "app_secret", "sig", "signature"]

/-- Substrings in query parameter names that suggest credentials. -/
def authQuerySubstrings : List String := ["token", "secret", "auth", "password", "credential"]

/-- A name on a list of names, or with one of the substrings in it, without regard to case. -/
def nameSuggests (exact substrings : List String) (name : String) : Bool :=
  let lower := toLowercase name
  if exact.contains lower then true else substrings.any fun sub => Rust.contains lower sub

def headerNameIsCredential (name : String) : Bool := nameSuggests authHeaderExact authHeaderSubstrings name

def headerValueIsCredential (value : String) : Bool :=
  let lower := toLowercase value
  authValuePrefixes.any fun pre => startsWith lower pre

def headersContainCredentials (params : Json) : Bool :=
  match params.get "headers" with
  | some (.object fields) =>
    fields.any fun f => headerNameIsCredential f.1 || f.2.asStr.any headerValueIsCredential
  | some (.array items) =>
    items.any fun item =>
      let nameMatch := ((item.get "name").bind Json.asStr).any headerNameIsCredential
      let valueMatch := ((item.get "value").bind Json.asStr).any headerValueIsCredential
      nameMatch || valueMatch
  | _ => false

def queryParamIsCredential (name : String) : Bool := nameSuggests authQueryExact authQuerySubstrings name

variable (parse : UrlParser)

/-- The URL parameter, parsed. -/
def parsedUrl (params : Json) : Option Url :=
  ((params.get "url").bind Json.asStr).bind fun url => (parse url).toOption

def urlContainsCredentialParams (queryPairs : Url → List (String × String)) (params : Json) :
    Bool :=
  (parsedUrl parse params).any fun u => (queryPairs u).any fun pair => queryParamIsCredential pair.1

/-- Credentials in URL userinfo. -/
def urlContainsUserinfo (params : Json) : Bool :=
  (parsedUrl parse params).any fun u => !u.username.isEmpty || u.password.isSome

/-- Check whether HTTP request parameters contain manually-provided credentials. -/
def paramsContainManualCredentials (queryPairs : Url → List (String × String)) (params : Json) :
    Bool :=
  headersContainCredentials params || urlContainsCredentialParams parse queryPairs params ||
    urlContainsUserinfo parse params

end CredentialDetect

/-! ## The HTTP tool

`tools/builtin/http.rs`: which URLs the built-in HTTP tool may request, when a call needs approval, and what a call
does. What `reqwest`, `url` and `serde_json` compute is in `World`, and so are the answers of the servers:
the `n`-th request of a call is answered by `send n`. A call returns the credentials it injected and the requests it
sent beside its result. The exchange that is recorded for a replay, and the conversion of HTML, are left out. -/

namespace HttpTool

/-! ## URLs -/

/-- Is an address one the tool must not reach? -/
def isDisallowedIp : IpAddr → Bool
  | .v4 v4 =>
    v4.isPrivate || v4.isLoopback || v4.isLinkLocal || v4.isMulticast || v4.isUnspecified ||
      v4 = ⟨169, 254, 169, 254⟩
  | .v6 v6 => v6.isLoopback || v6.isUniqueLocal || v6.isUnicastLinkLocal || v6.isMulticast || v6.isUnspecified

/-- Does a name stand for the machine itself? -/
def isLocalhost (hostLower : String) : Bool := hostLower = "localhost" || endsWith hostLower ".localhost"

/-- Check all resolved addresses: the first disallowed one is an error. -/
def checkResolved (host : String) : List IpAddr → Except Tools.ToolError Unit
  | [] => .ok ()
  | ip :: rest =>
    if isDisallowedIp ip then
      .error (.notAuthorized ("hostname '" ++ host ++ "' resolves to disallowed IP " ++ ip.display))
    else checkResolved host rest

/-- Only https URLs whose host is not, and does not resolve to, a private or local address. -/
def validateUrl (parse : UrlParser) (dns : Resolver) (url : String) : Except Tools.ToolError Url :=
  match parse url with
  | .error e => .error (.invalidParameters ("invalid URL: " ++ e))
  | .ok parsed =>
    if parsed.scheme ≠ "https" then .error (.notAuthorized "only https URLs are allowed")
    else
      match parsed.hostStr with
      | none => .error (.invalidParameters "URL missing host")
      | some host =>
        if isLocalhost (toLowercase host) then .error (.notAuthorized "localhost is not allowed")
        else if (parseIpAddr host).any isDisallowedIp then
          .error (.notAuthorized "private or local IPs are not allowed")
        else
          match toSocketAddrs dns host with
          -- a name that does not resolve passes
          | .error _ => .ok parsed
          | .ok addrs => (checkResolved host addrs).map fun _ => parsed

/-! ## Requests and answers -/

/-- A request body: `reqwest`'s `json` or `body`. -/
inductive HttpBody
  | json (value : Json)
  | text (s : String)

/-- A request as it is sent. -/
structure HttpRequest where
  method : String
  url : Url
  headers : List (String × String)
  body : Option HttpBody

/-- A response: header names are in lower case, a value that is not visible ASCII is `none`, and the body arrives in
    chunks. -/
structure HttpResponse where
  status : Nat
  headers : List (String × Option String)
  chunks : List (Except String (List UInt8))

/-- Why a request got no response. -/
inductive SendError
  | timeout
  | other (text : String)

/-- What replay mode has recorded for a request. -/
structure Recorded where
  status : Nat
  headers : List (String × String)
  body : String

/-- The libraries and the network around the tool. -/
structure World where
  parse : UrlParser
  dns : Resolver
  urlText : Url → String
  join : Url → String → Except String Url
  queryPairs : Url → List (String × String)
  appendPair : Url → String × String → Url
  jsonFromStr : String → Option Json
  jsonToVec : Json → List UInt8
  isWord : Char → Bool
  beforeRequest : String → String → List (String × String) → Option (List UInt8) → Option Recorded
  send : Nat → HttpRequest → Except SendError HttpResponse

/-- Tool for making HTTP requests. -/
structure Config where
  credentialRegistry : Option (List CredentialMapping)
  secretsStore : Option (String → String → Option String)

/-! ## Parameters -/

/-- The headers of an object. -/
def objectHeaders : List (String × Json) → Except Tools.ToolError (List (String × String))
  | [] => .ok []
  | (k, v) :: rest =>
    match v.asStr with
    | none => .error (.invalidParameters ("header '" ++ k ++ "' must have a string value"))
    | some value => (objectHeaders rest).map fun out => (k, value) :: out

/-- One entry of a list of headers. -/
def arrayHeader (idx : Nat) (item : Json) : Except Tools.ToolError (String × String) :=
  match item with
  | .object _ =>
    match (item.get "name").bind Json.asStr with
    | none => .error (.invalidParameters ("headers[" ++ toString idx ++ "].name must be a string"))
    | some name =>
      match (item.get "value").bind Json.asStr with
      | none => .error (.invalidParameters ("headers[" ++ toString idx ++ "].value must be a string"))
      | some value => .ok (name, value)
  | _ =>
    .error (.invalidParameters ("headers[" ++ toString idx ++ "] must be an object with 'name' and 'value'"))

/-- The headers of a list, the first with the given number. -/
def arrayHeaders : (idx : Nat) → List Json → Except Tools.ToolError (List (String × String))
  | _, [] => .ok []
  | idx, item :: rest =>
    match arrayHeader idx item with
    | .error e => .error e
    | .ok header => (arrayHeaders (idx + 1) rest).map fun out => header :: out

def parseHeadersParam : Option Json → Except Tools.ToolError (List (String × String))
  | none => .ok []
  | some (.object fields) => objectHeaders fields
  | some (.array items) => arrayHeaders 0 items
  | some _ => .error (.invalidParameters "'headers' must be an object or an array of \x7bname, value\x7d")

/-- The host of the URL parameter. -/
def extractHostFromParams (parse : UrlParser) (params : Json) : Option String :=
  (CredentialDetect.parsedUrl parse params).bind Url.hostStr

/-! ## Approval -/

/-- Does the headers parameter hold an entry? -/
def hasHeaders (params : Json) : Bool :=
  match params.get "headers" with
  | some (.array items) => !items.isEmpty
  | some (.object fields) => !fields.isEmpty
  | _ => false

/-- Does the registry have a credential for the host of the URL parameter? -/
def hostHasCredentials (w : World) (tool : Config) (params : Json) : Bool :=
  match tool.credentialRegistry, extractHostFromParams w.parse params with
  | some registry, some host => SharedCredentialRegistry.hasCredentialsForHost registry host
  | _, _ => false

/-- How much approval a call requires. -/
def requiresApproval (w : World) (tool : Config) (params : Json) : ApprovalRequirement :=
  if CredentialDetect.paramsContainManualCredentials w.parse w.queryPairs params then .always
  else if hostHasCredentials w tool params then .always
  else
    let method := ((params.get "method").bind Json.asStr).getD "GET"
    let hasBody := (params.get "body").isSome
    if eqIgnoreAsciiCase method "GET" && !hasHeaders params && !hasBody then .never else .unlessAutoApproved

/-! ## Building the request -/

/-- The methods the tool knows. -/
def methodOf (method : String) : Except Tools.ToolError String :=
  let upper := toUppercase method
  if upper = "GET" ∨ upper = "POST" ∨ upper = "PUT" ∨ upper = "DELETE" ∨ upper = "PATCH" then .ok upper
  else .error (.invalidParameters ("unsupported method: " ++ method))

/-- The body parameter, with the bytes that are scanned. -/
def bodyOf (w : World) (params : Json) : Option (HttpBody × List UInt8) :=
  (params.get "body").map fun body =>
    match body.asStr with
    | some s =>
      match w.jsonFromStr s with
      | some value => (.json value, w.jsonToVec value)
      | none => (.text s, s.toUTF8.toList)
    | none => (.json body, w.jsonToVec body)

/-- The credentials for a host: every mapping whose secret can be decrypted. -/
def credentialsFor (tool : Config) (userId host : String) : List InjectedCredentials :=
  match tool.credentialRegistry, tool.secretsStore with
  | some registry, some store =>
    (SharedCredentialRegistry.findForHost registry host).filterMap fun mapping =>
      (store userId mapping.secretName).map fun secret => injectCredential mapping.location secret
  | _, _ => []

/-- A request with its credentials. -/
structure Prepared where
  method : String
  url : Url
  headers : List (String × String)
  body : Option (HttpBody × List UInt8)
  injected : List InjectedCredentials

/-- Read the parameters and inject the credentials of the host. -/
def prepare (w : World) (tool : Config) (userId : String) (params : Json) : Except Tools.ToolError Prepared :=
  match requireStr params "method" with
  | .error e => .error e
  | .ok method =>
  match requireStr params "url" with
  | .error e => .error e
  | .ok url =>
  match validateUrl w.parse w.dns url with
  | .error e => .error e
  | .ok parsedUrl =>
  match parseHeadersParam (params.get "headers") with
  | .error e => .error e
  | .ok headers =>
  match methodOf method with
  | .error e => .error e
  | .ok upper =>
    let injected := credentialsFor tool userId (parsedUrl.hostStr.getD "")
    .ok
      { method := upper
        url := (injected.flatMap InjectedCredentials.queryParams).foldl w.appendPair parsedUrl
        headers := headers ++ injected.flatMap InjectedCredentials.headers
        body := bodyOf w params
        injected := injected }

/-! ## Sending -/

def maxRedirects : Nat := 3

/-- The header of a simple request. -/
def acceptHeader : String × String :=
  ("accept", "text/markdown, text/html;q=0.9, application/json;q=0.9, */*;q=0.8")

/-- A simple request. -/
def simpleGet (url : Url) : HttpRequest := ⟨"GET", url, [acceptHeader], none⟩

def sendError : SendError → Tools.ToolError
  | .timeout => .timeout 30
  | .other text => .externalService text

/-- The first value of a header. -/
def HttpResponse.header (r : HttpResponse) (name : String) : Option String :=
  ((r.headers.find? fun h => h.1 = name).map Prod.snd).getD none

/-- The text of a redirect's URL. -/
def nextLocation (w : World) (url : Url) (location : String) : Except String String :=
  if startsWith location "http://" || startsWith location "https://" then .ok location
  else (w.join url location).map w.urlText

/-- Where a redirect goes: the checks of every hop. -/
def redirectTarget (w : World) (url : Url) (response : HttpResponse) : Except Tools.ToolError Url :=
  match response.header "location" with
  | none =>
    .error (.executionFailed ("redirect (HTTP " ++ toString response.status ++ ") has no Location header"))
  | some location =>
    match nextLocation w url location with
    | .error e => .error (.executionFailed ("could not resolve relative redirect '" ++ location ++ "': " ++ e))
    | .ok nextUrl =>
      match validateUrl w.parse w.dns nextUrl with
      | .error e => .error e
      | .ok parsed =>
        match LeakDetector.scanHttpRequest w.isWord LeakDetector.new (w.urlText parsed) [] none with
        | .error e => .error (.notAuthorized e.display)
        | .ok () => .ok parsed

/-- The redirect loop of a simple request: `n` requests were sent, `remaining` redirects are left. -/
def followRedirects (w : World) : (remaining n : Nat) → Url →
    List HttpRequest × Except Tools.ToolError (Url × HttpResponse)
  | remaining, n, url =>
    match w.send n (simpleGet url) with
    | .error e => ([simpleGet url], .error (sendError e))
    | .ok response =>
      if 300 ≤ response.status ∧ response.status < 400 then
        match remaining with
        | 0 =>
          ([simpleGet url],
            .error (.executionFailed ("too many redirects (max " ++ toString maxRedirects ++ ")")))
        | remaining + 1 =>
          match redirectTarget w url response with
          | .error e => ([simpleGet url], .error e)
          | .ok next =>
            let (sent, result) := followRedirects w remaining (n + 1) next
            (simpleGet url :: sent, result)
      else ([simpleGet url], .ok (url, response))

/-- One request that follows no redirect. -/
def sendOnce (w : World) (request : HttpRequest) : List HttpRequest × Except Tools.ToolError (Url × HttpResponse) :=
  match w.send 0 request with
  | .error e => ([request], .error (sendError e))
  | .ok response =>
    if 300 ≤ response.status ∧ response.status < 400 then
      ([request], .error (.notAuthorized ("request returned redirect (HTTP " ++ toString response.status ++
        "), which is blocked to prevent SSRF")))
    else ([request], .ok (request.url, response))

/-! ## The response -/

/-- Maximum response body size (5 MB). -/
def maxResponseSize : Nat := 5 * 1024 * 1024

/-- Read the body up to the limit. -/
def readBody : List UInt8 → List (Except String (List UInt8)) → Except Tools.ToolError (List UInt8)
  | body, [] => .ok body
  | _, .error e :: _ => .error (.externalService ("failed to read response body: " ++ e))
  | body, .ok chunk :: rest =>
    if maxResponseSize < body.length + chunk.length then
      .error (.executionFailed
        ("Response body exceeds maximum allowed size (" ++ toString maxResponseSize ++ " bytes)"))
    else readBody (body ++ chunk) rest

/-- The headers as a map: the last value of a name stays. -/
def collectHeaders (headers : List (String × Option String)) : List (String × Json) :=
  (headers.filterMap fun h => h.2.map fun v => (h.1, v)).foldl (fun fs h => Json.insertField h.1 (.string h.2) fs) []

/-- The result of a call. -/
def output (w : World) (status : Nat) (headers : List (String × Json)) (bodyText : String) : Json :=
  .object
    [("status", .number (.posInt status)), ("headers", .object headers),
     ("body", (w.jsonFromStr bodyText).getD (.string bodyText))]

/-- Check the size, read the body and build the result. -/
def readResponse (w : World) (response : HttpResponse) : Except Tools.ToolError Json :=
  match (response.header "content-length").bind parseUsize with
  | some len =>
    if maxResponseSize < len then
      .error (.executionFailed ("Response Content-Length (" ++ toString len ++
        " bytes) exceeds maximum allowed size (" ++ toString maxResponseSize ++ " bytes)"))
    else (readBody [] response.chunks).map fun body =>
      output w response.status (collectHeaders response.headers) (fromUtf8Lossy body)
  | none => (readBody [] response.chunks).map fun body =>
    output w response.status (collectHeaders response.headers) (fromUtf8Lossy body)

/-! ## A call -/

/-- A call: the credentials it injected, the requests it sent, and its result. -/
structure Run where
  injected : List InjectedCredentials
  sent : List HttpRequest
  result : Except Tools.ToolError Json

/-- Is this a simple GET, which may follow redirects? -/
def isSimpleGet (method : String) (p : Prepared) : Bool :=
  eqIgnoreAsciiCase method "GET" && p.headers.isEmpty && p.body.isNone

/-- The requests of a prepared call. -/
def perform (w : World) (method : String) (p : Prepared) :
    List HttpRequest × Except Tools.ToolError (Url × HttpResponse) :=
  if isSimpleGet method p then followRedirects w maxRedirects 0 p.url
  else sendOnce w ⟨p.method, p.url, p.headers, p.body.map Prod.fst⟩

/-- `HttpTool::execute`. -/
def execute (w : World) (tool : Config) (userId : String) (params : Json) : Run :=
  match prepare w tool userId params with
  | .error e => ⟨[], [], .error e⟩
  | .ok p =>
    match LeakDetector.scanHttpRequest w.isWord LeakDetector.new (w.urlText p.url) p.headers (p.body.map Prod.snd) with
    | .error e => ⟨p.injected, [], .error (.notAuthorized e.display)⟩
    | .ok () =>
      match w.beforeRequest p.method (w.urlText p.url) p.headers (p.body.map Prod.snd) with
      | some recorded =>
        ⟨p.injected, [], .ok (output w recorded.status
          (recorded.headers.foldl (fun fs h => Json.insertField h.1 (.string h.2) fs) []) recorded.body)⟩
      | none =>
        let (sent, outcome) := perform w (((params.get "method").bind Json.asStr).getD "") p
        ⟨p.injected, sent, outcome.bind fun r => readResponse w r.2⟩

end HttpTool
end Freeclawdia
