import Freeclawdia.Tools.Tool
import Freeclawdia.Rust.Url

/-!
# `Tools.Builtin.SkillTools` — where a skill may be fetched from

`tools/builtin/skill_tools.rs`: the checks before a skill is downloaded, and the client it is downloaded with.
-/

namespace Freeclawdia.SkillTools

open Rust

/-! ## Addresses -/

/-- An IPv4-mapped address is the IPv4 address it stands for. -/
def normalizeIp : IpAddr → IpAddr
  | .v6 v6 => (v6.toIpv4Mapped.map IpAddr.v4).getD (.v6 v6)
  | other => other

/-- `IpAddr::is_loopback`. -/
def isLoopback : IpAddr → Bool
  | .v4 v4 => v4.isLoopback
  | .v6 v6 => v6.isLoopback

/-- `IpAddr::is_unspecified`. -/
def isUnspecified : IpAddr → Bool
  | .v4 v4 => v4.isUnspecified
  | .v6 v6 => v6.isUnspecified

def isPrivateIp : IpAddr → Bool
  | .v4 v4 => v4.isPrivate || v4.isLinkLocal
  | .v6 v6 => v6.s0 &&& 0xFE00 = 0xFC00

def isLinkLocalIp : IpAddr → Bool
  | .v4 v4 => v4.isLinkLocal
  | .v6 v6 => v6.s0 &&& 0xFFC0 = 0xFE80

/-- The condition of `validate_fetch_ip`. -/
def isRejectedIp (ip : IpAddr) : Bool := isLoopback ip || isUnspecified ip || isPrivateIp ip || isLinkLocalIp ip

def validateFetchIp (ip : IpAddr) (displayHost : String) : Except Tools.ToolError Unit :=
  if isRejectedIp ip then
    .error (.executionFailed ("URL points to a private/loopback/link-local address: " ++ displayHost))
  else .ok ()

/-! ## URLs -/

/-- The address of a literal host. -/
def hostIpAddr : UrlHost → Option IpAddr
  | .ipv4 v4 => some (.v4 v4)
  | .ipv6 v6 => some (normalizeIp (.v6 v6))
  | .domain _ => none

/-- A name without trailing dots. -/
def normalizeDomain (host : String) : String := trimEndMatches host '.'

/-- Common internal hostnames. -/
def isInternalName (hostLower : String) : Bool :=
  hostLower = "localhost" || hostLower = "metadata.google.internal" || endsWith hostLower ".internal" ||
    endsWith hostLower ".local"

/-- The check of a literal address, if the host is one. -/
def validateHostIp (host : UrlHost) (displayHost : String) : Except Tools.ToolError Unit :=
  match hostIpAddr host with
  | some ip => validateFetchIp ip displayHost
  | none => .ok ()

/-- Validate that a URL is safe to fetch. -/
def validateFetchUrl (parse : UrlParser) (urlStr : String) : Except Tools.ToolError Url :=
  match parse urlStr with
  | .error e => .error (.executionFailed ("Invalid URL '" ++ urlStr ++ "': " ++ e))
  | .ok parsed =>
    if parsed.scheme ≠ "https" then
      .error (.executionFailed
        ("Only HTTPS URLs are allowed for skill fetching, got scheme '" ++ parsed.scheme ++ "'"))
    else
      match parsed.host with
      | none => .error (.executionFailed "URL has no host")
      | some host =>
        let text := parsed.hostStr.getD ""
        match validateHostIp host text with
        | .error e => .error e
        | .ok () =>
          if isInternalName (toLowercase (normalizeDomain text)) then
            .error (.executionFailed ("URL points to an internal hostname: " ++ text))
          else .ok parsed

/-! ## The client -/

/-- Every address in turn. -/
def validateEach (host : String) : List IpAddr → Except Tools.ToolError Unit
  | [] => .ok ()
  | addr :: rest =>
    match validateFetchIp (normalizeIp addr) host with
    | .error e => .error e
    | .ok () => validateEach host rest

def validateResolvedAddrs (host : String) (addrs : List IpAddr) : Except Tools.ToolError Unit :=
  if addrs = [] then .error (.executionFailed ("DNS resolution returned no addresses for " ++ host))
  else validateEach host addrs

/-- The client of a fetch: for a name it connects to the addresses that were checked and to no others. -/
structure FetchClient where
  resolveToAddrs : Option (String × List IpAddr)

/-- Look the host up, check its addresses and pin the client to them. -/
def buildSafeFetchClient (dns : Resolver) (parsed : Url) : Except Tools.ToolError FetchClient :=
  match parsed.host with
  | none => .error (.executionFailed "URL has no host")
  | some (.ipv4 _) => .ok ⟨none⟩
  | some (.ipv6 _) => .ok ⟨none⟩
  | some (.domain domain) =>
    match parsed.portOrKnownDefault with
    | none => .error (.executionFailed "URL has no valid port")
    | some _ =>
      match lookupHost dns (normalizeDomain domain) with
      | .error e =>
        .error (.executionFailed ("DNS resolution failed for " ++ normalizeDomain domain ++ ": " ++ e))
      | .ok addrs =>
        match validateResolvedAddrs domain addrs with
        | .error e => .error e
        | .ok () => .ok ⟨some (domain, addrs)⟩

/-- The checks of a fetch: both of them. -/
def fetchClient (parse : UrlParser) (dns : Resolver) (url : String) : Except Tools.ToolError FetchClient :=
  match validateFetchUrl parse url with
  | .error e => .error e
  | .ok parsed => buildSafeFetchClient dns parsed

end Freeclawdia.SkillTools
