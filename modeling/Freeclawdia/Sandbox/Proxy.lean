import Freeclawdia.Rust.Reqwest
import Freeclawdia.Tools.Wasm.CredentialInjector

/-!
# `Sandbox.Proxy` — the HTTP proxy of the sandbox

`sandbox/proxy/`: the domain allowlist, the policy decision, and what the proxy does with a request of a container. The
proxy's client is `reqwest::Client::new()`, which follows redirects (`Rust.Reqwest`). What the servers answer is a sequence
of responses, one for each request that is sent.
-/

namespace Freeclawdia.Proxy

open Rust
open Reqwest (Request Failure maxRedirects)

/-! ## The allowlist -/

/-- Pattern for matching allowed domains. -/
structure DomainPattern where
  pattern : String
  isWildcard : Bool
  baseDomain : String

namespace DomainPattern

/-- `DomainPattern::new`. -/
def new (pattern : String) : DomainPattern :=
  let isWildcard := startsWith pattern "*."
  { pattern := pattern
    isWildcard := isWildcard
    baseDomain := toLowercase (if isWildcard then String.ofList (pattern.toList.drop 2) else pattern) }

/-- Check if a host matches this pattern. -/
def hostMatches (p : DomainPattern) (host : String) : Bool :=
  let hostLower := toLowercase host
  if p.isWildcard then hostLower = p.baseDomain || endsWith hostLower ("." ++ p.baseDomain)
  else hostLower = p.baseDomain

end DomainPattern

/-- Result of domain validation. -/
inductive DomainValidationResult
  | allowed
  | denied (reason : String)
  deriving DecidableEq

/-- Validates domains against an allowlist. -/
structure DomainAllowlist where
  patterns : List DomainPattern

namespace DomainAllowlist

/-- Create a new allowlist from domain strings. -/
def new (domains : List String) : DomainAllowlist := ⟨domains.map DomainPattern.new⟩

/-- Check if a domain is allowed. -/
def isAllowed (a : DomainAllowlist) (host : String) : DomainValidationResult :=
  if a.patterns.isEmpty then .denied "empty allowlist"
  else if a.patterns.any fun p => p.hostMatches host then .allowed
  else .denied ("host '" ++ host ++ "' not in allowlist: [" ++ join ", " (a.patterns.map DomainPattern.pattern) ++ "]")

end DomainAllowlist

/-! ## The policy -/

/-- A network request to be evaluated. -/
structure NetworkRequest where
  method : String
  url : String
  host : String
  path : String

/-- The host of a URL, without brackets and in lower case. -/
def hostOf (u : Url) : Option String := u.hostStr.map fun h => toLowercase (unbracket h)

/-- Create from a URL string. -/
def NetworkRequest.fromUrl (parse : UrlParser) (method url : String) : Option NetworkRequest :=
  match parse url with
  | .error _ => none
  | .ok parsed =>
    if ¬(parsed.scheme = "http" ∨ parsed.scheme = "https") then none
    else (hostOf parsed).map fun host => ⟨toUppercase method, url, host, parsed.path⟩

/-- Decision for a network request. -/
inductive NetworkDecision
  | allow
  | allowWithCredentials (secretName : String) (location : CredentialLocation)
  | deny (reason : String)

/-- Check if a host matches a pattern. -/
def hostMatchesPattern (host pattern : String) : Bool := Freeclawdia.hostMatchesPattern host (toLowercase pattern)

/-- Default policy decider that uses allowlist and credential mappings. -/
structure DefaultPolicyDecider where
  allowlist : DomainAllowlist
  credentialMappings : List CredentialMapping

namespace DefaultPolicyDecider

/-- Does a mapping apply to a host? -/
def mappingMatches (host : String) (m : CredentialMapping) : Bool :=
  m.hostPatterns.any fun pattern => hostMatchesPattern (toLowercase host) pattern

/-- Find credential mapping for a host. -/
def findCredential (d : DefaultPolicyDecider) (host : String) : Option CredentialMapping :=
  d.credentialMappings.find? (mappingMatches host)

/-- Decide whether a request should be allowed. -/
def decide (d : DefaultPolicyDecider) (request : NetworkRequest) : NetworkDecision :=
  match d.allowlist.isAllowed request.host with
  | .denied reason => .deny reason
  | .allowed =>
    match d.findCredential request.host with
    | some mapping => .allowWithCredentials mapping.secretName mapping.location
    | none => .allow

end DefaultPolicyDecider

/-! ## Messages -/

/-- `http::uri::Authority::host`: what stands between the user info and the port. -/
def authorityHost (authority : String) : String :=
  let hostPort := (authority.toList.splitOn '@').getLastD []
  if hostPort.head? = some '[' then String.ofList (hostPort.takeWhile (· ≠ ']') ++ [']'])
  else String.ofList (hostPort.takeWhile (· ≠ ':'))

/-- A request of a container; a header value that is not visible ASCII is `none`. -/
structure Incoming where
  method : String
  uri : String
  authority : Option String
  headers : List (String × Option String)
  body : Except String (List UInt8)

/-- A response of a server. -/
structure Upstream where
  status : Nat
  headers : List (String × String)
  body : Except String (List UInt8)

/-- A response to a container. -/
structure Reply where
  status : Nat
  headers : List (String × String)
  body : List UInt8

/-- What the proxy does for one request: the tunnels it opens, by the name it connects to, and the requests it sends. -/
structure Effects where
  tunnels : List String
  sent : List Request
  reply : Reply

/-- What the proxy uses of the libraries around it: `url`, `http` and the credential resolver. -/
structure Deps where
  parse : UrlParser
  join : Url → String → Option Url
  display : Url → String
  headerOk : String × String → Bool
  resolve : String → Option String

/-- Create an error response. -/
def errorResponse (status : Nat) (message : String) : Reply :=
  ⟨status, [("Content-Type", "text/plain")], message.toList.flatMap String.utf8EncodeChar⟩

/-! ## Requests -/

/-- Check if a header is hop-by-hop. -/
def isHopByHopHeader (name : String) : Bool :=
  ["connection", "keep-alive", "proxy-authenticate", "proxy-authorization", "te", "trailers", "transfer-encoding",
   "upgrade"].contains (toLowercase name)

/-- The headers of the container that are forwarded. -/
def forwardedHeaders (headers : List (String × Option String)) : List (String × String) :=
  headers.filterMap fun h => if isHopByHopHeader h.1 then none else h.2.map fun v => (h.1, v)

/-- What a decision adds to the request: a header or a query parameter. -/
def credentialParts (resolve : String → Option String) :
    NetworkDecision → List (String × String) × List (String × String)
  | .allowWithCredentials secretName location =>
    match resolve secretName with
    | none => ([], [])
    | some credential =>
      match location with
      | .authorizationBearer => ([("Authorization", "Bearer " ++ credential)], [])
      | .header name lead => ([(name, lead.getD "" ++ credential)], [])
      | .queryParam name => ([], [(name, credential)])
      -- not supported for a forward proxy, skipped
      | .authorizationBasic _ => ([], [])
      | .urlPath _ => ([], [])
  | _ => ([], [])

/-- The request that is forwarded; the client has no timeout. -/
def outgoing (deps : Deps) (decision : NetworkDecision) (req : Incoming) (url : Url) (body : List UInt8) : Request :=
  let parts := credentialParts deps.resolve decision
  { method := req.method
    url := parts.2.foldl Url.appendPair url
    headers := forwardedHeaders req.headers ++ parts.1
    referer := none
    body := if body.isEmpty then none else some body
    timeoutMs := none }

/-- What the client reads of a response to follow it. -/
def location (response : Upstream) : Option (Nat × String) :=
  if [301, 302, 303, 307, 308].contains response.status then
    (response.headers.find? fun h => eqIgnoreAsciiCase h.1 "location").map fun h => (response.status, h.2)
  else none

/-- The reply to a response, or to none. -/
def replyTo (deps : Deps) : Except Failure Upstream → Reply
  | .error failure => errorResponse 502 ("Request failed: " ++ failure.display deps.display)
  | .ok response =>
    match response.body with
    | .error _ => errorResponse 502 "Failed to read response"
    | .ok body => ⟨response.status, response.headers.filter fun h => !isHopByHopHeader h.1, body⟩

/-- Forward a request to the target server. -/
def forwardRequest (deps : Deps) (decision : NetworkDecision) (req : Incoming) (answers : List (Except String Upstream)) :
    Effects :=
  match req.body with
  | .error _ => ⟨[], [], errorResponse 500 "Failed to read body"⟩
  | .ok body =>
    match deps.parse req.uri with
    | .error e => ⟨[], [], replyTo deps (.error ⟨"builder error", none, e⟩)⟩
    | .ok url =>
      let r := outgoing deps decision req url body
      -- a header that is none makes the client refuse the request
      if r.headers.all deps.headerOk then
        let (sent, result) := Reqwest.exchange deps.join location maxRedirects r answers
        ⟨[], sent, replyTo deps result⟩
      else ⟨[], [], replyTo deps (.error ⟨"builder error", none, "failed to parse header"⟩)⟩

/-- The name a connection to `host:port` is made to. -/
def connectName (target : String) : Option String :=
  let after := target.toList.reverse.takeWhile fun c => c ≠ ':'
  if after.length < target.toList.length ∧ (parseUsize (String.ofList after.reverse)).any (· < 65536) then
    some (String.ofList (target.toList.take (target.toList.length - after.length - 1)))
  else none

/-- Handle CONNECT method for HTTPS tunneling. -/
def handleConnect (d : DefaultPolicyDecider) (req : Incoming) : Effects :=
  match req.authority with
  | none => ⟨[], [], errorResponse 400 "Missing host"⟩
  | some authority =>
    let host := authorityHost authority
    match d.decide ⟨"CONNECT", "https://" ++ host, host, "/"⟩ with
    | .deny reason => ⟨[], [], errorResponse 403 reason⟩
    | _ => ⟨(connectName authority).toList, [], ⟨200, [], []⟩⟩

/-- Handle an incoming proxy request. -/
def handleRequest (deps : Deps) (d : DefaultPolicyDecider) (req : Incoming) (answers : List (Except String Upstream)) :
    Effects :=
  if req.method = "CONNECT" then handleConnect d req
  else
    match NetworkRequest.fromUrl deps.parse req.method req.uri with
    | none => ⟨[], [], errorResponse 400 "Invalid URL"⟩
    | some networkReq =>
      match d.decide networkReq with
      | .deny reason => ⟨[], [], errorResponse 403 reason⟩
      | decision => forwardRequest deps decision req answers

end Freeclawdia.Proxy
