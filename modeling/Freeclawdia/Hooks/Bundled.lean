import Freeclawdia.Rust.Url

/-!
# `Hooks.Bundled` — targets of outbound webhooks

`hooks/bundled.rs`: what a webhook's URL must satisfy when it is registered, and what is checked again when it is
called.
-/

namespace Freeclawdia.Webhook

open Rust

/-- The errors of `HookBundleError` that a URL can cause. -/
inductive HookBundleError
  | invalidWebhookUrl (hook url : String)
  | invalidWebhookScheme (hook scheme : String)
  | forbiddenWebhookHost (hook host : String)

/-! ## Addresses -/

def isForbiddenIpv4 (v4 : Ipv4Addr) : Bool :=
  if v4.isPrivate || v4.isLoopback || v4.isLinkLocal || v4.isBroadcast || v4.isDocumentation || v4.isUnspecified ||
      v4.isMulticast then true
  -- carrier-grade NAT range (100.64.0.0/10)
  else if v4.a = 100 && (64 ≤ v4.b && v4.b ≤ 127) then true
  -- benchmark testing range (198.18.0.0/15)
  else if v4.a = 198 && (v4.b = 18 || v4.b = 19) then true
  else false

/-- `ipv6_mapped_ipv4`: written out here as in the standard library. -/
def ipv6MappedIpv4 (v6 : Ipv6Addr) : Option Ipv4Addr :=
  if v6.s0 = 0 ∧ v6.s1 = 0 ∧ v6.s2 = 0 ∧ v6.s3 = 0 ∧ v6.s4 = 0 ∧ v6.s5 = 0xFFFF then
    some ⟨(v6.s6 >>> 8).toUInt8, v6.s6.toUInt8, (v6.s7 >>> 8).toUInt8, v6.s7.toUInt8⟩
  else none

def isForbiddenIp : IpAddr → Bool
  | .v4 v4 => isForbiddenIpv4 v4
  | .v6 v6 =>
    match ipv6MappedIpv4 v6 with
    | some mapped => isForbiddenIpv4 mapped
    | none =>
      if v6.isLoopback || v6.isUnspecified || v6.isUniqueLocal || v6.isUnicastLinkLocal || v6.isMulticast then
        true
      -- documentation range (2001:db8::/32)
      else v6.s0 = 0x2001 && v6.s1 = 0x0DB8

/-! ## URLs -/

def isForbiddenWebhookHost (host : String) : Bool :=
  let lower := toAsciiLowercase host
  lower = "localhost" || endsWith lower ".localhost" || lower = "host.docker.internal" ||
    lower = "metadata.google.internal" || lower = "metadata.aws.internal"

/-- A host without brackets. -/
def normalizeHost (host : String) : String := trimEndMatches (trimStartMatches host '[') ']'

/-- The check of a host when the webhook is registered. -/
def isForbiddenHost (normalizedHost : String) : Bool :=
  match parseIpAddr normalizedHost with
  | some ip => isForbiddenIp ip
  | none => isForbiddenWebhookHost normalizedHost

def validateWebhookUrl (parse : UrlParser) (hookName url : String) : Except HookBundleError Url :=
  match parse url with
  | .error _ => .error (.invalidWebhookUrl hookName url)
  | .ok parsed =>
    if parsed.scheme ≠ "https" then .error (.invalidWebhookScheme hookName parsed.scheme)
    else if !parsed.username.isEmpty || parsed.password.isSome then .error (.invalidWebhookUrl hookName url)
    else
      match parsed.hostStr with
      | none => .ok parsed
      | some host =>
        if isForbiddenHost (normalizeHost host) then
          .error (.forbiddenWebhookHost hookName (normalizeHost host))
        else .ok parsed

/-! ## Delivery -/

/-- The client of one delivery: the shared one, or one that connects to the given addresses only. -/
inductive DispatchClient
  | base
  | resolved (host : String) (addrs : List IpAddr)

/-- The check of the resolved addresses: the first forbidden one is an error. -/
def checkTargets : List IpAddr → Except String Unit
  | [] => .ok ()
  | ip :: rest =>
    if isForbiddenIp ip then .error ("Webhook target resolves to blocked IP " ++ ip.display) else checkTargets rest

def dispatchClientForTarget (parse : UrlParser) (dns : Resolver) (url : String) : Except String DispatchClient :=
  match parse url with
  | .error e => .error ("Invalid URL: " ++ e)
  | .ok parsed =>
    match parsed.hostStr with
    | none => .error "Webhook URL has no host"
    | some host =>
      match parseIpAddr (normalizeHost host) with
      | some ip =>
        if isForbiddenIp ip then .error ("Webhook target resolves to blocked IP " ++ ip.display) else .ok .base
      | none =>
        match parsed.portOrKnownDefault with
        | none => .error "Webhook URL has no valid port"
        | some _ =>
          match lookupHost dns (normalizeHost host) with
          | .error e => .error ("DNS resolution failed: " ++ e)
          | .ok addrs =>
            if addrs = [] then .error "DNS resolution returned no addresses"
            else (checkTargets addrs).map fun _ => .resolved (normalizeHost host) addrs

/-- A webhook call goes out: the URL was accepted at registration and again at delivery. -/
def delivers (parse : UrlParser) (dns : Resolver) (hookName url : String) : Bool :=
  (validateWebhookUrl parse hookName url).isOk && (dispatchClientForTarget parse dns url).isOk

end Freeclawdia.Webhook
