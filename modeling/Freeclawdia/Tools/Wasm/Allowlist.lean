import Freeclawdia.Rust.Url

/-!
# `Tools.Wasm.Allowlist` — which endpoints a WASM tool may call

`tools/wasm/allowlist.rs`, and the endpoint patterns of `tools/wasm/capabilities.rs`.
-/

namespace Freeclawdia

open Rust

/-! ## Patterns -/

/-- Pattern for matching allowed HTTP endpoints. -/
structure EndpointPattern where
  host : String
  pathPrefix : Option String
  methods : List String

namespace EndpointPattern

/-- Check if the host pattern matches. -/
def hostMatches (p : EndpointPattern) (urlHost : String) : Bool :=
  if p.host = urlHost then true
  else
    match stripPrefix p.host "*." with
    | some suffix =>
      if endsWith urlHost suffix && decide (byteLen suffix < byteLen urlHost) then
        -- ensure there is a dot before the suffix
        let before := String.ofList (urlHost.toList.take (urlHost.toList.length - suffix.toList.length))
        endsWith before "." || before.isEmpty
      else false
    | none => false

/-- Check if this pattern matches a URL and method. -/
def endpointMatches (p : EndpointPattern) (urlHost urlPath method : String) : Bool :=
  if !p.hostMatches urlHost then false
  else if !(match p.pathPrefix with
      | some pre => startsWith urlPath pre
      | none => true) then false
  else if !p.methods.isEmpty && !(p.methods.any fun m => toUppercase m = toUppercase method) then false
  else true

end EndpointPattern

/-! ## Results -/

/-- Reason why a request was denied. -/
inductive DenyReason
  | invalidUrl (url : String)
  | hostNotAllowed (host : String)
  | pathNotAllowed (host path : String)
  | methodNotAllowed (method host : String)
  | emptyAllowlist
  | insecureScheme (scheme : String)

/-- Result of allowlist validation. -/
inductive AllowlistResult
  | allowed
  | denied (reason : DenyReason)

/-! ## Paths -/

/-- Is every `%` followed by two hexadecimal digits? -/
def hasValidPercentEncoding : List Char → Bool
  | [] => true
  | c :: rest =>
    if c = '%' then
      match rest with
      | a :: b :: more => isHexDigit a && isHexDigit b && hasValidPercentEncoding more
      | _ => false
    else hasValidPercentEncoding rest

/-- One decoded segment onto the segments so far: empty ones and `.` are dropped, `..` drops the last. -/
def pushSegment (segments : List String) (segment : String) : List String :=
  if segment = "" ∨ segment = "." then segments
  else if segment = ".." then segments.dropLast
  else segments ++ [segment]

/-- The loop of `normalize_path`. -/
def normalizeSegments : List String → List String → Except String (List String)
  | segments, [] => .ok segments
  | segments, raw :: rest =>
    if !hasValidPercentEncoding raw.toList then
      .error ("Invalid percent-encoding in path segment: " ++ raw)
    else
      match urldecode raw with
      | none => .error ("Invalid percent-encoding in path segment: " ++ raw)
      | some segment =>
        -- encoded separators introduce ambiguous semantics across downstream handlers
        if segment.toList.contains '/' || segment.toList.contains '\\' then
          .error "Path segment contains encoded path separator"
        else normalizeSegments (pushSegment segments segment) rest

/-- The path of the segments, with the trailing slash restored. -/
def assemblePath (path : String) (segments : List String) : String :=
  let result := "/" ++ join "/" segments
  if 1 < byteLen path && endsWith path "/" && !endsWith result "/" then result ++ "/" else result

/-- Decode the segments of a path and resolve dot segments. -/
def normalizePath (path : String) : Except String String :=
  match normalizeSegments [] (splitChar path '/') with
  | .ok segments => .ok (assemblePath path segments)
  | .error e => .error e

/-! ## Validation -/

/-- Parsed URL components. -/
structure ParsedUrl where
  scheme : String
  host : String
  path : String

/-- Parse and normalize URL components for allowlist matching. -/
def parseUrl (parse : UrlParser) (url : String) : Except String ParsedUrl :=
  match parse url with
  | .error e => .error ("URL parse failed: " ++ e)
  | .ok parsed =>
    let scheme := toLowercase parsed.scheme
    if scheme ≠ "http" ∧ scheme ≠ "https" then .error ("Unsupported scheme: " ++ scheme)
    -- reject URLs with userinfo to prevent host-confusion bypasses
    else if !parsed.username.isEmpty || parsed.password.isSome then
      .error "URL contains userinfo (@) which is not allowed"
    else
      match parsed.hostStr with
      | none => .error "Empty host"
      | some host =>
        match normalizePath parsed.path with
        | .error e => .error e
        | .ok path => .ok ⟨scheme, toLowercase (unbracket host), path⟩

/-- Validates HTTP requests against an allowlist. -/
structure AllowlistValidator where
  patterns : List EndpointPattern
  requireHttps : Bool

namespace AllowlistValidator

def new (patterns : List EndpointPattern) : AllowlistValidator := ⟨patterns, true⟩

/-- Why no pattern matched. -/
def denyReason (v : AllowlistValidator) (parsed : ParsedUrl) (method : String) : DenyReason :=
  let hostMatches := v.patterns.filter fun p => p.hostMatches parsed.host
  if hostMatches.isEmpty then .hostNotAllowed parsed.host
  else
    let pathMatches := hostMatches.filter fun p =>
      p.pathPrefix.isNone || startsWith parsed.path (p.pathPrefix.getD "")
    if pathMatches.isEmpty then .pathNotAllowed parsed.host parsed.path
    else .methodNotAllowed method parsed.host

/-- Check if a request is allowed. -/
def validate (v : AllowlistValidator) (parse : UrlParser) (url method : String) : AllowlistResult :=
  if v.patterns.isEmpty then .denied .emptyAllowlist
  else
    match parseUrl parse url with
    | .error e => .denied (.invalidUrl e)
    | .ok parsed =>
      if v.requireHttps && parsed.scheme != "https" then .denied (.insecureScheme parsed.scheme)
      else if v.patterns.any fun p => p.endpointMatches parsed.host parsed.path method then .allowed
      else .denied (v.denyReason parsed method)

end AllowlistValidator

/-! ## The host side of a WASM tool

`tools/wasm/wrapper.rs`: the check that keeps a tool's HTTP requests away from internal addresses. -/

namespace WasmTool

/-- Does an address belong to a private or internal range? -/
def isPrivateIp : IpAddr → Bool
  | .v4 v4 =>
    v4.isLoopback || v4.isPrivate || v4.isLinkLocal || v4.isUnspecified ||
      (v4.a = 100 && v4.b &&& 0xC0 = 64)
  | .v6 v6 =>
    v6.isLoopback || v6.isUnspecified || v6.s0 &&& 0xFE00 = 0xFC00 || v6.s0 &&& 0xFFC0 = 0xFE80

/-- The check of the resolved addresses: the first private one is an error. -/
def rejectResolved (host : String) : List IpAddr → Except String Unit
  | [] => .ok ()
  | ip :: rest =>
    if isPrivateIp ip then .error ("DNS rebinding detected: " ++ host ++ " resolved to private IP " ++ ip.display)
    else rejectResolved host rest

/-- Resolve the URL's hostname and reject connections to private and internal addresses. -/
def rejectPrivateIp (parse : UrlParser) (dns : Resolver) (url : String) : Except String Unit :=
  match parse url with
  | .error e => .error ("Failed to parse URL: " ++ e)
  | .ok parsed =>
    if ¬(parsed.scheme = "http" ∨ parsed.scheme = "https") then
      .error ("Unsupported URL scheme: " ++ parsed.scheme)
    else if !parsed.username.isEmpty || parsed.password.isSome then
      .error "URL contains userinfo (@) which is not allowed"
    else
      match parsed.hostStr.map unbracket with
      | none => .error "Failed to parse host from URL"
      | some host =>
        match parseIpAddr host with
        | some ip =>
          if isPrivateIp ip then
            .error ("HTTP request to private/internal IP " ++ ip.display ++ " is not allowed")
          else .ok ()
        | none =>
          match toSocketAddrs dns host with
          | .error e => .error ("DNS resolution failed for " ++ host ++ ": " ++ e)
          | .ok addrs =>
            if addrs = [] then .error ("DNS resolution returned no addresses for " ++ host)
            else rejectResolved host addrs

end WasmTool
end Freeclawdia
