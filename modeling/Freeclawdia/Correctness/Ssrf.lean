import Freeclawdia.Hooks.Bundled
import Freeclawdia.Tools.Builtin.Http
import Freeclawdia.Tools.Builtin.SkillTools
import Freeclawdia.Tools.Wasm.Allowlist

/-!
# `Correctness.Ssrf` — the four filters against internal addresses

Four places of the program keep requests away from the machine's own network, each with its own classifier of
addresses. `internal` says which addresses are meant, with an IPv4-mapped address standing for its IPv4 address.

For each filter there is one lemma that says when it accepts: some conditions on the URL hold and its classifier
passes every address of the host. What a classifier misses is then a fact about addresses alone:

* the webhook filter misses nothing;
* the WASM filter does not unwrap IPv4-mapped addresses;
* the skill filter does not know the shared address space 100.64.0.0/10;
* the HTTP tool's filter has both gaps.
-/

namespace Freeclawdia.Ssrf

open Rust

/-! ## Internal addresses -/

/-- The shared address space of carrier-grade NAT, 100.64.0.0/10. -/
def sharedV4 (ip : Ipv4Addr) : Bool := ip.a = 100 && (64 ≤ ip.b && ip.b ≤ 127)

/-- Loopback, private, link-local, carrier-grade NAT or unspecified. -/
def internalV4 (ip : Ipv4Addr) : Bool :=
  ip.isLoopback || ip.isPrivate || ip.isLinkLocal || sharedV4 ip || ip.isUnspecified

/-- An address no filter may let through. -/
def internal : IpAddr → Bool
  | .v4 ip => internalV4 ip
  | .v6 ip =>
    match ip.toIpv4Mapped with
    | some v4 => internalV4 v4
    | none => ip.isLoopback || ip.isUnspecified || ip.isUniqueLocal || ip.isUnicastLinkLocal

/-- An address of the shared space, written as IPv4. -/
def shared : IpAddr → Bool
  | .v4 ip => sharedV4 ip
  | .v6 _ => false

/-- An IPv4-mapped address. -/
def mapped : IpAddr → Bool
  | .v4 _ => false
  | .v6 ip => ip.toIpv4Mapped.isSome

/-! ### What each classifier misses -/

/-- A mapped address is in none of the IPv6 ranges. -/
theorem ranges_of_mapped {ip : Ipv6Addr} {v4 : Ipv4Addr} (h : ip.toIpv4Mapped = some v4) :
    ip.isLoopback = false ∧ ip.isUnspecified = false ∧ ip.isUniqueLocal = false ∧ ip.isUnicastLinkLocal = false ∧
      ip.isMulticast = false := by
  obtain ⟨s0, s1, s2, s3, s4, s5, s6, s7⟩ := ip
  unfold Ipv6Addr.toIpv4Mapped at h
  split at h
  · next hs =>
      obtain ⟨rfl, rfl, rfl, rfl, rfl, rfl⟩ := hs
      simp [Ipv6Addr.isLoopback, Ipv6Addr.isUnspecified, Ipv6Addr.isUniqueLocal, Ipv6Addr.isUnicastLinkLocal,
        Ipv6Addr.isMulticast]
  · exact absurd h (by simp)

variable {ip : Ipv4Addr}

/-- An address of the shared space is in none of the other IPv4 ranges. -/
theorem ranges_of_sharedV4 (h : sharedV4 ip = true) :
    ip.isLoopback = false ∧ ip.isPrivate = false ∧ ip.isLinkLocal = false ∧ ip.isUnspecified = false ∧
      ip.isMulticast = false := by
  obtain ⟨a, b, c, d⟩ := ip
  obtain ⟨rfl, -⟩ : a = 100 ∧ _ := by simpa [sharedV4] using h
  simp [Ipv4Addr.isLoopback, Ipv4Addr.isPrivate, Ipv4Addr.isLinkLocal, Ipv4Addr.isUnspecified,
    Ipv4Addr.isMulticast]

/-- The two ways to write the second octet's range. -/
theorem and_eq_iff (b : UInt8) : b &&& 0xC0 = 64 ↔ 64 ≤ b ∧ b ≤ 127 := by
  have key : ∀ n < 256, n &&& 192 = 64 ↔ 64 ≤ n ∧ n ≤ 127 := by decide +kernel
  rw [← UInt8.toNat_inj, UInt8.toNat_and, UInt8.le_iff_toNat_le, UInt8.le_iff_toNat_le]
  exact key b.toNat b.toNat_lt

/-- The HTTP tool's classifier misses the shared space and every mapped address. -/
theorem http_misses (a : IpAddr) :
    internal a = true ∧ HttpTool.isDisallowedIp a = false ↔ shared a = true ∨ (mapped a = true ∧ internal a = true) := by
  cases a with
  | v4 ip =>
    simp only [internal, shared, mapped, HttpTool.isDisallowedIp]
    constructor
    · rintro ⟨hint, hdis⟩
      simp only [Bool.or_eq_false_iff] at hdis
      obtain ⟨⟨⟨⟨⟨hp, hl⟩, hll⟩, -⟩, hu⟩, -⟩ := hdis
      left
      simpa [internalV4, hp, hl, hll, hu] using hint
    · rintro (hs | ⟨h, -⟩)
      · obtain ⟨hl, hp, hll, hu, hm⟩ := ranges_of_sharedV4 hs
        have hmeta : ip ≠ ⟨169, 254, 169, 254⟩ := by
          rintro rfl
          simp [sharedV4] at hs
        simp [internalV4, hs, hl, hp, hll, hu, hm, hmeta]
      · exact absurd h (by simp)
  | v6 ip =>
    simp only [internal, shared, mapped, HttpTool.isDisallowedIp]
    cases hm : ip.toIpv4Mapped with
    | some v4 =>
      obtain ⟨hl, hu, hul, hll, hmc⟩ := ranges_of_mapped hm
      simp [hl, hu, hul, hll, hmc]
    | none =>
      simp only [Option.isSome_none, Bool.false_eq_true, false_and, or_false, iff_false, not_and]
      intro hint hdis
      simp only [Bool.or_eq_false_iff] at hdis
      obtain ⟨⟨⟨⟨hl, hul⟩, hll⟩, -⟩, hu⟩ := hdis
      simp [hl, hul, hll, hu] at hint

/-- The WASM filter's classifier misses every mapped address. -/
theorem wasm_misses (a : IpAddr) :
    internal a = true ∧ WasmTool.isPrivateIp a = false ↔ mapped a = true ∧ internal a = true := by
  cases a with
  | v4 ip =>
    simp only [internal, mapped, WasmTool.isPrivateIp, Bool.false_eq_true, false_and, iff_false, not_and]
    intro hint hdis
    simp only [Bool.or_eq_false_iff] at hdis
    obtain ⟨⟨⟨⟨hl, hp⟩, hll⟩, hu⟩, hs⟩ := hdis
    have hs' : sharedV4 ip = false := by simpa [sharedV4, and_eq_iff] using hs
    simp [internalV4, hl, hp, hll, hu, hs'] at hint
  | v6 ip =>
    simp only [internal, mapped, WasmTool.isPrivateIp]
    cases hm : ip.toIpv4Mapped with
    | some v4 =>
      obtain ⟨hl, hu, hul, hll, -⟩ := ranges_of_mapped hm
      simp only [Ipv6Addr.isUniqueLocal, Ipv6Addr.isUnicastLinkLocal] at hul hll
      simp [hl, hu, hul, hll]
    | none =>
      simp only [Option.isSome_none, Bool.false_eq_true, false_and, iff_false, not_and]
      intro hint hdis
      simp only [Bool.or_eq_false_iff] at hdis
      obtain ⟨⟨⟨hl, hu⟩, hul⟩, hll⟩ := hdis
      simp [Ipv6Addr.isUniqueLocal, Ipv6Addr.isUnicastLinkLocal, hl, hu, hul, hll] at hint

/-- The skill filter's test of an IPv4 address. -/
theorem skill_misses_v4 (ip : Ipv4Addr) :
    internalV4 ip = true ∧ SkillTools.isRejectedIp (.v4 ip) = false ↔ sharedV4 ip = true := by
  simp only [SkillTools.isRejectedIp, SkillTools.isLoopback, SkillTools.isUnspecified, SkillTools.isPrivateIp,
    SkillTools.isLinkLocalIp]
  constructor
  · rintro ⟨hint, hdis⟩
    simp only [Bool.or_eq_false_iff] at hdis
    obtain ⟨⟨⟨hl, hu⟩, hp, hll⟩, -⟩ := hdis
    simpa [internalV4, hl, hu, hp, hll] using hint
  · intro hs
    obtain ⟨hl, hp, hll, hu, -⟩ := ranges_of_sharedV4 hs
    simp [internalV4, hs, hl, hp, hll, hu]

/-- The skill filter's classifier misses the shared space, written as IPv4 or mapped. -/
theorem skill_misses (a : IpAddr) : internal a = true ∧ SkillTools.isRejectedIp (SkillTools.normalizeIp a) = false ↔
      shared (SkillTools.normalizeIp a) = true := by
  cases a with
  | v4 ip => exact skill_misses_v4 ip
  | v6 ip =>
    cases hm : ip.toIpv4Mapped with
    | some v4 => simpa [internal, SkillTools.normalizeIp, hm, shared] using skill_misses_v4 v4
    | none =>
      simp only [internal, SkillTools.normalizeIp, hm, Option.map_none, Option.getD_none, shared,
        Bool.false_eq_true, iff_false, not_and]
      intro hint hdis
      simp only [SkillTools.isRejectedIp, SkillTools.isLoopback, SkillTools.isUnspecified, SkillTools.isPrivateIp,
        SkillTools.isLinkLocalIp, Bool.or_eq_false_iff] at hdis
      obtain ⟨⟨⟨hl, hu⟩, hul⟩, hll⟩ := hdis
      simp [Ipv6Addr.isUniqueLocal, Ipv6Addr.isUnicastLinkLocal, hl, hu, hul, hll] at hint

theorem isForbiddenIpv4_of_internal (h : internalV4 ip = true) : Webhook.isForbiddenIpv4 ip = true := by
  unfold Webhook.isForbiddenIpv4
  split_ifs with hr hs hb
  · rfl
  · rfl
  · rfl
  · simp only [Bool.or_eq_true, not_or, Bool.not_eq_true] at hr
    obtain ⟨⟨⟨⟨⟨⟨hp, hl⟩, hll⟩, -⟩, -⟩, hu⟩, -⟩ := hr
    have hs' : sharedV4 ip = false := by simpa [sharedV4] using hs
    simp [internalV4, hp, hl, hll, hu, hs'] at h

variable {a : IpAddr}

/-- The webhook filter's classifier misses nothing. -/
theorem isForbiddenIp_of_internal (h : internal a = true) : Webhook.isForbiddenIp a = true := by
  cases a with
  | v4 ip => exact isForbiddenIpv4_of_internal h
  | v6 ip =>
    have heq : Webhook.ipv6MappedIpv4 ip = ip.toIpv4Mapped := rfl
    simp only [internal] at h
    simp only [Webhook.isForbiddenIp, heq]
    cases hm : ip.toIpv4Mapped with
    | some v4 => exact isForbiddenIpv4_of_internal (by simpa [hm] using h)
    | none =>
      simp only [hm, Bool.or_eq_true] at h
      rcases h with ((hl | hu) | hul) | hll
      · simp [hl]
      · simp [hu]
      · simp [hul]
      · simp [hll]

/-! ## The forms of a host -/

/-- No bracket occurs in a text. -/
def Bare (s : String) : Prop := ∀ c ∈ s.toList, c ≠ '[' ∧ c ≠ ']'

instance : DecidablePred Bare := fun s => List.decidableBAll (fun c => c ≠ '[' ∧ c ≠ ']') s.toList

/-- The text of a host, as the `url` crate writes it: an IPv4 address dotted, an IPv6 address in brackets, and a name
    is never an address. -/
def HostForm : UrlHost → String → Prop
  | .domain d, s => s = d ∧ parseIpAddr d = none ∧ Bare d
  | .ipv4 ip, s => parseIpAddr s = some (.v4 ip) ∧ Bare s
  | .ipv6 ip, s => ∃ t, s = "[" ++ t ++ "]" ∧ parseIpAddr t = some (.v6 ip) ∧ Bare t

/-- What is relied on of `url::Url::parse`: an http or https URL has a host exactly when it has a text of it, in its
    form. Other schemes may have opaque hosts, whose text can look like an address. -/
def HostForms (parse : UrlParser) : Prop :=
  ∀ url u, parse url = .ok u → u.scheme = "http" ∨ u.scheme = "https" →
    (u.host = none ∧ u.hostStr = none) ∨ ∃ h s, u.host = some h ∧ u.hostStr = some s ∧ HostForm h s

variable {s : String}

theorem stripPrefix_bare (h : Bare s) : stripPrefix s "[" = none := by
  unfold stripPrefix startsWith
  rw [if_neg]
  cases hl : s.toList with
  | nil => simp
  | cons c cs =>
    have hc : c ≠ '[' := (h c (by simp [hl])).1
    simp [Ne.symm hc]

theorem unbracket_bare (h : Bare s) : unbracket s = s := by
  simp [unbracket, stripPrefix_bare h]

/-- Stripping the brackets of an IPv6 literal. -/
theorem strip_brackets (t : String) :
    ((stripPrefix ("[" ++ t ++ "]") "[").bind fun h => stripSuffix h "]") = some t := by
  have hpre : stripPrefix ("[" ++ t ++ "]") "[" = some (t ++ "]") := by
    simp [stripPrefix, startsWith, String.toList_append, String.ofList_append]
  rw [hpre]
  simp [stripSuffix, endsWith, String.toList_append]

theorem unbracket_brackets (t : String) : unbracket ("[" ++ t ++ "]") = t := by
  rw [unbracket, strip_brackets, Option.getD_some]

variable {c : Char} {cs : List Char}

theorem dropWhile_bare (h : ∀ d ∈ cs, d ≠ c) : cs.dropWhile (· == c) = cs := by
  cases cs with
  | nil => rfl
  | cons d ds => simp [h d (by simp)]

theorem rdropWhile_bare (h : ∀ d ∈ cs, d ≠ c) : cs.rdropWhile (· == c) = cs := by
  rw [List.rdropWhile, dropWhile_bare (by simpa using h), List.reverse_reverse]

theorem normalizeHost_bare (h : Bare s) : Webhook.normalizeHost s = s := by
  unfold Webhook.normalizeHost trimStartMatches trimEndMatches
  rw [dropWhile_bare fun d hd => (h d hd).1, String.ofList_toList, rdropWhile_bare fun d hd => (h d hd).2,
    String.ofList_toList]

theorem normalizeHost_brackets {t : String} (h : Bare t) : Webhook.normalizeHost ("[" ++ t ++ "]") = t := by
  have hopen : trimStartMatches ("[" ++ t ++ "]") '[' = t ++ "]" := by
    unfold trimStartMatches
    rw [show ("[" ++ t ++ "]").toList = '[' :: (t ++ "]").toList by simp [String.toList_append],
      List.dropWhile_cons_of_pos (by simp), dropWhile_bare, String.ofList_toList]
    intro d hd
    have hd' : d ∈ t.toList ∨ d = ']' := by simpa [String.toList_append] using hd
    rcases hd' with ht | rfl
    · exact (h d ht).1
    · decide
  unfold Webhook.normalizeHost
  rw [hopen, trimEndMatches, String.toList_append, show "]".toList =
    [']'] from rfl, List.rdropWhile_concat_pos _ _ _ (by simp),
    rdropWhile_bare fun d hd => (h d hd).2, String.ofList_toList]

/-- A text in brackets is no address. -/
theorem parseIpAddr_bracket (cs : List Char) : parseIpAddr (String.ofList ('[' :: cs)) = none := by
  have hdigit : ∀ radix, (IpParser.toDigit radix '[').isSome = false := by
    intro radix
    simp [IpParser.toDigit]
  have hnum : ∀ radix digits limit zero, IpParser.readNumber radix digits limit zero ('[' :: cs) = none := by
    intro radix digits limit zero
    simp [IpParser.readNumber, hdigit]
  simp [parseIpAddr, IpParser.readIpv4, IpParser.readIpv6, IpParser.readGroups, IpParser.readSeparator, hnum]

theorem parseIpAddr_brackets (t : String) : parseIpAddr ("[" ++ t ++ "]") = none := by
  have h : "[" ++ t ++ "]" = String.ofList ('[' :: (t ++ "]").toList) := by
    apply String.toList_inj.mp
    simp [String.toList_append]
  rw [h, parseIpAddr_bracket]

/-! ## Addresses of a host -/

/-- The addresses an answer holds. -/
def answers : Except String (List IpAddr) → List IpAddr
  | .ok addrs => addrs
  | .error _ => []

/-- The addresses of a host: the literal, or what the name resolves to. -/
def hostAddrs (lookup : String → Except String (List IpAddr)) : Option UrlHost → List IpAddr
  | none => []
  | some (.ipv4 ip) => [.v4 ip]
  | some (.ipv6 ip) => [.v6 ip]
  | some (.domain d) => answers (lookup d)

/-- What `to_socket_addrs` answers for the text of a host. -/
theorem answers_toSocketAddrs (dns : Resolver) {h : UrlHost} (hf : HostForm h s) :
    answers (toSocketAddrs dns s) = hostAddrs dns (some h) := by
  cases h with
  | domain d =>
    obtain ⟨rfl, hparse, hbare⟩ := hf
    simp [toSocketAddrs, hparse, stripPrefix_bare hbare, hostAddrs]
  | ipv4 ip =>
    obtain ⟨hparse, -⟩ := hf
    simp [toSocketAddrs, hparse, hostAddrs, answers]
  | ipv6 ip =>
    obtain ⟨t, rfl, hparse, -⟩ := hf
    simp [toSocketAddrs, parseIpAddr_brackets, strip_brackets, hparse, hostAddrs, answers]

/-! ## The HTTP tool -/

theorem checkResolved_isOk (host : String) (addrs : List IpAddr) :
    (HttpTool.checkResolved host addrs).isOk = true ↔ ∀ a ∈ addrs, HttpTool.isDisallowedIp a = false := by
  induction addrs with
  | nil => simp [HttpTool.checkResolved, Except.isOk, Except.toBool]
  | cons a rest ih =>
    unfold HttpTool.checkResolved
    split_ifs with ha
    · simp [Except.isOk, Except.toBool, ha]
    · simp [ih, ha]

/-- The conditions of `validate_url` that are not about addresses. -/
def HttpEligible (u : Url) : Prop :=
  u.scheme = "https" ∧ ∃ host, u.hostStr = some host ∧ HttpTool.isLocalhost (toLowercase host) = false

variable {url : String} {u : Url} {parse : UrlParser}

theorem validateUrl_isOk (hforms : HostForms parse) (dns : Resolver) (hu : parse url = .ok u) :
    (HttpTool.validateUrl parse dns url).isOk = true ↔
      HttpEligible u ∧ ∀ a ∈ hostAddrs dns u.host, HttpTool.isDisallowedIp a = false := by
  simp only [HttpTool.validateUrl, hu, HttpEligible]
  by_cases hscheme : u.scheme = "https"
  · rcases hforms url u hu (Or.inr hscheme) with ⟨-, hnone⟩ | ⟨h, s, hhost, hstr, hf⟩
    · simp [hscheme, hnone, Except.isOk, Except.toBool]
    · have haddrs := answers_toSocketAddrs dns hf
      -- a literal that is checked by itself is also among the addresses
      have hlit : (parseIpAddr s).any HttpTool.isDisallowedIp = true →
          ∃ a ∈ hostAddrs dns (some h), HttpTool.isDisallowedIp a = true := by
        cases h with
        | domain d =>
          obtain ⟨rfl, hparse, -⟩ := hf
          simp [hparse]
        | ipv4 ip => simp [hf.1, hostAddrs]
        | ipv6 ip =>
          obtain ⟨t, rfl, -, -⟩ := hf
          simp [parseIpAddr_brackets]
      simp only [hscheme, ne_eq, not_true_eq_false, if_false, hstr, hhost, true_and, Option.some.injEq,
        exists_eq_left']
      split_ifs with hl hany
      · simp [hl, Except.isOk, Except.toBool]
      · obtain ⟨a, ha, hdis⟩ := hlit hany
        simp only [Except.isOk, Except.toBool, Bool.false_eq_true, false_iff, not_and]
        intro _ hall
        rw [hall a ha] at hdis
        exact absurd hdis (by simp)
      · rw [← haddrs]
        cases toSocketAddrs dns s with
        | error e => simp [answers, hl, Except.isOk, Except.toBool]
        | ok addrs =>
          have hmap : ((HttpTool.checkResolved s addrs).map fun _ => u).isOk =
              (HttpTool.checkResolved s addrs).isOk := by
            cases HttpTool.checkResolved s addrs <;> rfl
          simp [answers, hl, hmap, checkResolved_isOk]
  · simp [hscheme, Except.isOk, Except.toBool]

/-! ## WASM tools -/

theorem rejectResolved_isOk (host : String) (addrs : List IpAddr) :
    (WasmTool.rejectResolved host addrs).isOk = true ↔ ∀ a ∈ addrs, WasmTool.isPrivateIp a = false := by
  induction addrs with
  | nil => simp [WasmTool.rejectResolved, Except.isOk, Except.toBool]
  | cons a rest ih =>
    unfold WasmTool.rejectResolved
    split_ifs with ha
    · simp [Except.isOk, Except.toBool, ha]
    · simp [ih, ha]

/-- The conditions of `reject_private_ip` that are not about addresses. -/
def WasmEligible (u : Url) : Prop :=
  (u.scheme = "http" ∨ u.scheme = "https") ∧ u.username = "" ∧ u.password = none

theorem rejectPrivateIp_isOk (hforms : HostForms parse) (dns : Resolver) (hu : parse url = .ok u)
    (hne : hostAddrs dns u.host ≠ []) : (WasmTool.rejectPrivateIp parse dns url).isOk = true ↔
      WasmEligible u ∧ ∀ a ∈ hostAddrs dns u.host, WasmTool.isPrivateIp a = false := by
  simp only [WasmTool.rejectPrivateIp, hu, WasmEligible]
  split_ifs with hscheme hinfo
  · have hnot : ¬(u.username = "" ∧ u.password = none) := by
      rintro ⟨huser, hpass⟩
      simp [huser, hpass] at hinfo
    simp only [Except.isOk, Except.toBool, Bool.false_eq_true, false_iff]
    exact fun h => hnot h.1.2
  · have hinfo' : u.username = "" ∧ u.password = none := by simpa using hinfo
    simp only [hscheme, hinfo', true_and, and_self]
    rcases hforms url u hu hscheme with ⟨hnone, -⟩ | ⟨h, s, hhost, hstr, hf⟩
    · exact absurd (by rw [hnone, hostAddrs]) hne
    · rw [hhost] at hne ⊢
      rw [hstr, Option.map_some]
      cases h with
      | domain d =>
        obtain ⟨rfl, hparse, hbare⟩ := hf
        have haddrs := answers_toSocketAddrs dns (h := .domain s) ⟨rfl, hparse, hbare⟩
        simp only [unbracket_bare hbare, hparse]
        rw [← haddrs] at hne ⊢
        cases hres : toSocketAddrs dns s with
        | error e => exact absurd (by rw [hres, answers]) hne
        | ok addrs =>
          rw [hres, answers] at hne
          simp [answers, hne, rejectResolved_isOk]
      | ipv4 ip =>
        obtain ⟨hparse, hbare⟩ := hf
        simp only [unbracket_bare hbare, hparse, hostAddrs]
        split_ifs with hp
        · simp [hp, Except.isOk, Except.toBool]
        · simp [hp, Except.isOk, Except.toBool]
      | ipv6 ip =>
        obtain ⟨t, rfl, hparse, -⟩ := hf
        simp only [unbracket_brackets, hparse, hostAddrs]
        split_ifs with hp
        · simp [hp, Except.isOk, Except.toBool]
        · simp [hp, Except.isOk, Except.toBool]
  · simp [hscheme, Except.isOk, Except.toBool]

/-! ## Skill downloads -/

/-- A skill's name is looked up without its trailing dots. -/
def skillLookup (dns : Resolver) (domain : String) : Except String (List IpAddr) :=
  lookupHost dns (SkillTools.normalizeDomain domain)

/-- The conditions of `validate_fetch_url` that are not about addresses. -/
def SkillEligible (u : Url) : Prop :=
  u.scheme = "https" ∧
    SkillTools.isInternalName (toLowercase (SkillTools.normalizeDomain (u.hostStr.getD ""))) = false

theorem validateFetchIp_isOk (ip : IpAddr) (host : String) :
    (SkillTools.validateFetchIp ip host).isOk = !SkillTools.isRejectedIp ip := by
  unfold SkillTools.validateFetchIp
  split_ifs with h
  · simp [h, Except.isOk, Except.toBool]
  · simp [h, Except.isOk, Except.toBool]

theorem validateEach_isOk (host : String) (addrs : List IpAddr) : (SkillTools.validateEach host addrs).isOk = true ↔
      ∀ a ∈ addrs, SkillTools.isRejectedIp (SkillTools.normalizeIp a) = false := by
  induction addrs with
  | nil => simp [SkillTools.validateEach, Except.isOk, Except.toBool]
  | cons a rest ih =>
    have hok := validateFetchIp_isOk (SkillTools.normalizeIp a) host
    unfold SkillTools.validateEach
    cases hv : SkillTools.validateFetchIp (SkillTools.normalizeIp a) host with
    | error e =>
      rw [hv] at hok
      simp_all [Except.isOk, Except.toBool]
    | ok x =>
      rw [hv] at hok
      simp_all [Except.isOk, Except.toBool]

theorem https_port (h : u.scheme = "https") : ∃ port, u.portOrKnownDefault = some port := by
  unfold Url.portOrKnownDefault
  cases u.port with
  | some port => exact ⟨port, rfl⟩
  | none => exact ⟨443, by simp [h]⟩

/-- A literal address is checked by `validate_fetch_url`, the addresses of a name by `build_safe_fetch_client`. -/
theorem fetchClient_isOk (dns : Resolver) (hu : parse url = .ok u) (hne : hostAddrs (skillLookup dns) u.host ≠ []) :
    (SkillTools.fetchClient parse dns url).isOk = true ↔ SkillEligible u ∧
        ∀ a ∈ hostAddrs (skillLookup dns) u.host, SkillTools.isRejectedIp (SkillTools.normalizeIp a) = false := by
  simp only [SkillTools.fetchClient, SkillTools.validateFetchUrl, hu, SkillEligible]
  by_cases hscheme : u.scheme = "https"
  · simp only [hscheme, ne_eq, not_true_eq_false, if_false, true_and]
    cases hhost : u.host with
    | none => exact absurd (by rw [hhost, hostAddrs]) hne
    | some h =>
      rw [hhost] at hne
      cases h with
      | domain d =>
        simp only [SkillTools.validateHostIp, SkillTools.hostIpAddr]
        split_ifs with hname
        · simp [hname, Except.isOk, Except.toBool]
        · obtain ⟨port, hport⟩ := https_port hscheme
          simp only [SkillTools.buildSafeFetchClient, hhost, hport, hostAddrs, hname, true_and]
          simp only [hostAddrs, skillLookup] at hne ⊢
          cases hres : lookupHost dns (SkillTools.normalizeDomain d) with
          | error e => exact absurd (by rw [hres, answers]) hne
          | ok addrs =>
            rw [hres, answers] at hne
            simp only [SkillTools.validateResolvedAddrs, hne, if_false, answers]
            rw [← validateEach_isOk d addrs]
            cases SkillTools.validateEach d addrs with
            | error e => simp [Except.isOk, Except.toBool]
            | ok x => simp [Except.isOk, Except.toBool]
      | ipv4 ip =>
        have hok := validateFetchIp_isOk (.v4 ip) (u.hostStr.getD "")
        simp only [SkillTools.validateHostIp, SkillTools.hostIpAddr, hostAddrs, List.mem_singleton, forall_eq,
          SkillTools.normalizeIp]
        cases hv : SkillTools.validateFetchIp (.v4 ip) (u.hostStr.getD "") with
        | error e =>
          rw [hv] at hok
          simp_all [Except.isOk, Except.toBool]
        | ok x =>
          rw [hv] at hok
          split_ifs with hname
          · simp [hname, Except.isOk, Except.toBool]
          · simp_all [SkillTools.buildSafeFetchClient, Except.isOk, Except.toBool]
      | ipv6 ip =>
        have hok := validateFetchIp_isOk (SkillTools.normalizeIp (.v6 ip)) (u.hostStr.getD "")
        simp only [SkillTools.validateHostIp, SkillTools.hostIpAddr, hostAddrs, List.mem_singleton, forall_eq]
        cases hv : SkillTools.validateFetchIp (SkillTools.normalizeIp (.v6 ip)) (u.hostStr.getD "") with
        | error e =>
          rw [hv] at hok
          simp_all [Except.isOk, Except.toBool]
        | ok x =>
          rw [hv] at hok
          split_ifs with hname
          · simp [hname, Except.isOk, Except.toBool]
          · simp_all [SkillTools.buildSafeFetchClient, Except.isOk, Except.toBool]
  · simp [hscheme, Except.isOk, Except.toBool]

/-! ## Webhooks -/

theorem checkTargets_isOk (addrs : List IpAddr) :
    (Webhook.checkTargets addrs).isOk = true ↔ ∀ a ∈ addrs, Webhook.isForbiddenIp a = false := by
  induction addrs with
  | nil => simp [Webhook.checkTargets, Except.isOk, Except.toBool]
  | cons a rest ih =>
    unfold Webhook.checkTargets
    split_ifs with ha
    · simp [Except.isOk, Except.toBool, ha]
    · simp [ih, ha]

theorem https_of_validateWebhookUrl {hook : String} (hu : parse url = .ok u)
    (h : (Webhook.validateWebhookUrl parse hook url).isOk = true) : u.scheme = "https" := by
  by_contra hscheme
  simp only [Webhook.validateWebhookUrl, hu] at h
  rw [if_pos hscheme] at h
  cases h

/-- A delivered webhook goes to no forbidden address. -/
theorem addrs_of_dispatch (hforms : HostForms parse) {dns : Resolver} (hu : parse url = .ok u)
    (hscheme : u.scheme = "https") (h : (Webhook.dispatchClientForTarget parse dns url).isOk = true) :
    ∀ a ∈ hostAddrs dns u.host, Webhook.isForbiddenIp a = false := by
  simp only [Webhook.dispatchClientForTarget, hu] at h
  rcases hforms url u hu (Or.inr hscheme) with ⟨hnone, -⟩ | ⟨host, s, hhost, hstr, hf⟩
  · simp [hnone, hostAddrs]
  · simp only [hstr] at h
    rw [hhost]
    cases host with
    | domain d =>
      obtain ⟨rfl, hparse, hbare⟩ := hf
      simp only [normalizeHost_bare hbare, hparse] at h
      cases hport : u.portOrKnownDefault with
      | none => simp [hport, Except.isOk, Except.toBool] at h
      | some port =>
        simp only [hport, lookupHost, hparse] at h
        simp only [hostAddrs]
        cases hres : dns s with
        | error e => simp [answers]
        | ok addrs =>
          simp only [hres] at h
          split_ifs at h with hempty
          · simp [hempty, answers]
          · have hmap : ((Webhook.checkTargets addrs).map fun _ => Webhook.DispatchClient.resolved s addrs).isOk =
                (Webhook.checkTargets addrs).isOk := by
              cases Webhook.checkTargets addrs <;> rfl
            rw [hmap] at h
            exact (checkTargets_isOk addrs).1 h
    | ipv4 ip =>
      obtain ⟨hparse, hbare⟩ := hf
      simp only [normalizeHost_bare hbare, hparse] at h
      split_ifs at h with hforb
      · simp [Except.isOk, Except.toBool] at h
      · simpa [hostAddrs] using hforb
    | ipv6 ip =>
      obtain ⟨t, rfl, hparse, hbare⟩ := hf
      simp only [normalizeHost_brackets hbare, hparse] at h
      split_ifs at h with hforb
      · simp [Except.isOk, Except.toBool] at h
      · simpa [hostAddrs] using hforb

/-! ## All four -/

section Filters

variable (parse : UrlParser) (dns : Resolver) (url : String)

/-- A filter that accepts lets no internal address of the host through. -/
def Covers (lookup : String → Except String (List IpAddr)) (accepts : Bool) : Prop :=
  ∀ u, parse url = .ok u → accepts = true → ∀ a ∈ hostAddrs lookup u.host, internal a = false

/-- The URL reaches an address that a filter misses: its other conditions hold, its classifier rejects no address of
    the host, and one address is of a missed kind. -/
def Misses (lookup : String → Except String (List IpAddr)) (eligible : Url → Prop) (rejects missed : IpAddr → Bool) :
    Prop :=
  ∃ u, parse url = .ok u ∧ eligible u ∧ (∀ a ∈ hostAddrs lookup u.host, rejects a = false) ∧
    ∃ a ∈ hostAddrs lookup u.host, missed a = true

/-- An address in 100.64.0.0/10, or a mapped internal one. -/
def httpMissed (a : IpAddr) : Bool := shared a || (mapped a && internal a)

/-- A mapped internal address. -/
def wasmMissed (a : IpAddr) : Bool := mapped a && internal a

/-- An address in 100.64.0.0/10, mapped or not. -/
def skillMissed (a : IpAddr) : Bool := shared (SkillTools.normalizeIp a)

variable {parse dns url}

/-- A filter covers a URL exactly when the URL reaches nothing it misses. -/
theorem covers_iff {lookup : String → Except String (List IpAddr)} {accepts : Bool} {eligible : Url → Prop}
    {rejects missed : IpAddr → Bool} (haccepts : ∀ u, parse url = .ok u → hostAddrs lookup u.host ≠ [] →
      (accepts = true ↔ eligible u ∧ ∀ a ∈ hostAddrs lookup u.host, rejects a = false))
    (hmissed : ∀ a, internal a = true ∧ rejects a = false ↔ missed a = true) :
    Covers parse url lookup accepts ↔ ¬Misses parse url lookup eligible rejects missed := by
  constructor
  · rintro hcovers ⟨u, hu, helig, hpass, a, ha, hmiss⟩
    have hint := ((hmissed a).2 hmiss).1
    have hacc := (haccepts u hu (List.ne_nil_of_mem ha)).2 ⟨helig, hpass⟩
    rw [hcovers u hu hacc a ha] at hint
    exact absurd hint (by simp)
  · intro hmisses u hu hacc a ha
    by_contra hint
    rw [Bool.not_eq_false] at hint
    obtain ⟨helig, hpass⟩ := (haccepts u hu (List.ne_nil_of_mem ha)).1 hacc
    exact hmisses ⟨u, hu, helig, hpass, a, ha, (hmissed a).1 ⟨hint, hpass a ha⟩⟩

theorem http_covers_iff (hforms : HostForms parse) : Covers parse url dns (HttpTool.validateUrl parse dns url).isOk ↔
      ¬Misses parse url dns HttpEligible HttpTool.isDisallowedIp httpMissed := by
  apply covers_iff
  · intro u hu _
    exact validateUrl_isOk hforms dns hu
  · intro a
    rw [http_misses a, httpMissed, Bool.or_eq_true, Bool.and_eq_true]

theorem wasm_covers_iff (hforms : HostForms parse) :
    Covers parse url dns (WasmTool.rejectPrivateIp parse dns url).isOk ↔
      ¬Misses parse url dns WasmEligible WasmTool.isPrivateIp wasmMissed := by
  apply covers_iff
  · intro u hu hne
    exact rejectPrivateIp_isOk hforms dns hu hne
  · intro a
    rw [wasm_misses a, wasmMissed, Bool.and_eq_true]

theorem skill_covers_iff : Covers parse url (skillLookup dns) (SkillTools.fetchClient parse dns url).isOk ↔
      ¬Misses parse url (skillLookup dns) SkillEligible (fun a => SkillTools.isRejectedIp (SkillTools.normalizeIp a))
        skillMissed := by
  apply covers_iff
  · intro u hu hne
    exact fetchClient_isOk dns hu hne
  · intro a
    exact skill_misses a

theorem webhook_covers (hforms : HostForms parse) (hook : String) :
    Covers parse url dns (Webhook.delivers parse dns hook url) := by
  intro u hu hacc a ha
  rw [Webhook.delivers, Bool.and_eq_true] at hacc
  by_contra hint
  rw [Bool.not_eq_false] at hint
  have hpass := addrs_of_dispatch hforms hu (https_of_validateWebhookUrl hu hacc.1) hacc.2 a ha
  rw [isForbiddenIp_of_internal hint] at hpass
  exact absurd hpass (by simp)

end Filters

/-- The four classifiers reject an internal address alike exactly when it is neither in the shared space nor mapped. -/
theorem classifiers_agree_iff (h : internal a = true) :
    (HttpTool.isDisallowedIp a = true ∧ WasmTool.isPrivateIp a = true ∧
        SkillTools.isRejectedIp (SkillTools.normalizeIp a) = true ∧ Webhook.isForbiddenIp a = true) ↔
      shared a = false ∧ mapped a = false := by
  have hhttp := http_misses a
  have hwasm := wasm_misses a
  have hskill := skill_misses a
  have hhook := isForbiddenIp_of_internal h
  have hnorm : mapped a = false → SkillTools.normalizeIp a = a := by
    cases a with
    | v4 ip => simp [SkillTools.normalizeIp]
    | v6 ip =>
      intro hm
      have hnone : ip.toIpv4Mapped = none := by simpa [mapped] using hm
      simp [SkillTools.normalizeIp, hnone]
  simp only [h, true_and, and_true] at hhttp hwasm hskill
  constructor
  · rintro ⟨h1, -, -, -⟩
    constructor
    · by_contra hs
      have := hhttp.2 (Or.inl (by simpa using hs))
      simp_all
    · by_contra hm
      have := hhttp.2 (Or.inr (by simpa using hm))
      simp_all
  · rintro ⟨hs, hm⟩
    rw [hnorm hm] at hskill ⊢
    simp_all

/-- All four filters let only external addresses of a URL through exactly when the URL reaches neither a shared nor a
    mapped address past a filter that misses it; and the classifiers agree on exactly the other internal addresses. -/
theorem filters_cover_internal_iff (parse : UrlParser) (hforms : HostForms parse) :
    (∀ (dns : Resolver) (hook url : String),
      (Covers parse url dns (HttpTool.validateUrl parse dns url).isOk ∧
        Covers parse url dns (WasmTool.rejectPrivateIp parse dns url).isOk ∧
        Covers parse url (skillLookup dns) (SkillTools.fetchClient parse dns url).isOk ∧
        Covers parse url dns (Webhook.delivers parse dns hook url)) ↔
      ¬Misses parse url dns HttpEligible HttpTool.isDisallowedIp httpMissed ∧
        ¬Misses parse url dns WasmEligible WasmTool.isPrivateIp wasmMissed ∧
        ¬Misses parse url (skillLookup dns) SkillEligible
          (fun a => SkillTools.isRejectedIp (SkillTools.normalizeIp a)) skillMissed) ∧
    ∀ a, internal a = true →
      ((HttpTool.isDisallowedIp a = true ∧ WasmTool.isPrivateIp a = true ∧
          SkillTools.isRejectedIp (SkillTools.normalizeIp a) = true ∧ Webhook.isForbiddenIp a = true) ↔
        shared a = false ∧ mapped a = false) := by
  constructor
  · intro dns hook url
    rw [http_covers_iff hforms, wasm_covers_iff hforms, skill_covers_iff]
    have hhook := @webhook_covers parse dns url hforms hook
    constructor
    · rintro ⟨h1, h2, h3, -⟩
      exact ⟨h1, h2, h3⟩
    · rintro ⟨h1, h2, h3⟩
      exact ⟨h1, h2, h3, hhook⟩
  · intro a ha
    exact classifiers_agree_iff ha

/-! ### Literal hosts -/

/-- An https URL with a literal host. -/
def literalUrl (host : UrlHost) (text : String) : Url := ⟨"https", "", none, some host, some text, none, "/", none⟩

/-- The URLs of a public, a shared and a mapped private address. -/
def literalParser : UrlParser := fun url =>
  if url = "https://93.184.215.14/" then .ok (literalUrl (.ipv4 ⟨93, 184, 215, 14⟩) "93.184.215.14")
  else if url = "https://100.64.0.1/" then .ok (literalUrl (.ipv4 ⟨100, 64, 0, 1⟩) "100.64.0.1")
  else if url = "https://[::ffff:10.0.0.1]/" then
    .ok (literalUrl (.ipv6 ⟨0, 0, 0, 0, 0, 0xFFFF, 0x0A00, 1⟩) "[::ffff:a00:1]")
  else .error "relative URL without a base"

/-- A resolver without answers. -/
def offline : Resolver := fun _ => .error "failed to lookup address information"

theorem literalParser_forms : HostForms literalParser := by
  intro url u hu _
  right
  unfold literalParser at hu
  split_ifs at hu
  · injection hu with hu
    subst hu
    exact ⟨_, _, rfl, rfl, by decide, by decide⟩
  · injection hu with hu
    subst hu
    exact ⟨_, _, rfl, rfl, by decide, by decide⟩
  · injection hu with hu
    subst hu
    exact ⟨_, _, rfl, rfl, "::ffff:a00:1", by decide, by decide, by decide⟩

theorem literalParser_public :
    literalParser "https://93.184.215.14/" = .ok (literalUrl (.ipv4 ⟨93, 184, 215, 14⟩) "93.184.215.14") := by
  simp [literalParser]

theorem literalParser_shared :
    literalParser "https://100.64.0.1/" = .ok (literalUrl (.ipv4 ⟨100, 64, 0, 1⟩) "100.64.0.1") := by
  simp [literalParser]

theorem literalParser_mapped : literalParser "https://[::ffff:10.0.0.1]/" =
    .ok (literalUrl (.ipv6 ⟨0, 0, 0, 0, 0, 0xFFFF, 0x0A00, 1⟩) "[::ffff:a00:1]") := by
  simp [literalParser]

theorem filters_cover_public_literal :
    HostForms literalParser ∧
      Covers literalParser "https://93.184.215.14/" offline
        (HttpTool.validateUrl literalParser offline "https://93.184.215.14/").isOk ∧
      internal (.v4 ⟨10, 0, 0, 1⟩) = true ∧ HttpTool.isDisallowedIp (.v4 ⟨10, 0, 0, 1⟩) = true := by
  have h := filters_cover_internal_iff literalParser literalParser_forms
  have hnot : ∀ lookup eligible rejects missed, missed (IpAddr.v4 ⟨93, 184, 215, 14⟩) = false →
      ¬Misses literalParser "https://93.184.215.14/" lookup eligible rejects missed := by
    rintro lookup eligible rejects missed hmissed ⟨u, hu, -, -, a, ha, hmiss⟩
    rw [literalParser_public] at hu
    injection hu with hu
    subst hu
    obtain rfl : a = .v4 ⟨93, 184, 215, 14⟩ := by simpa [hostAddrs, literalUrl] using ha
    rw [hmissed] at hmiss
    exact absurd hmiss (by simp)
  refine ⟨literalParser_forms, ?_, by decide, ?_⟩
  · exact ((h.1 offline "audit" _).2 ⟨hnot _ _ _ _ (by decide), hnot _ _ _ _ (by decide),
      hnot _ _ _ _ (by decide)⟩).1
  · exact ((h.2 (.v4 ⟨10, 0, 0, 1⟩) (by decide)).2 (by decide)).1

/-- The HTTP tool and the skill filter accept a shared address, the HTTP tool and the WASM filter a mapped one. -/
theorem filters_let_internal_through :
    HostForms literalParser ∧
      ¬Covers literalParser "https://100.64.0.1/" offline
        (HttpTool.validateUrl literalParser offline "https://100.64.0.1/").isOk ∧
      ¬Covers literalParser "https://100.64.0.1/" (skillLookup offline)
        (SkillTools.fetchClient literalParser offline "https://100.64.0.1/").isOk ∧
      ¬Covers literalParser "https://[::ffff:10.0.0.1]/" offline
        (HttpTool.validateUrl literalParser offline "https://[::ffff:10.0.0.1]/").isOk ∧
      ¬Covers literalParser "https://[::ffff:10.0.0.1]/" offline
        (WasmTool.rejectPrivateIp literalParser offline "https://[::ffff:10.0.0.1]/").isOk := by
  have key : ∀ {url : String} {u : Url} {a : IpAddr} {accepts : Bool} {lookup}, literalParser url = .ok u →
      accepts = true → hostAddrs lookup u.host = [a] → internal a = true →
      ¬Covers literalParser url lookup accepts := by
    intro url u a accepts lookup hu hacc haddrs hint hcovers
    have hext := hcovers u hu hacc a (by simp [haddrs])
    rw [hint] at hext
    exact absurd hext (by simp)
  refine ⟨literalParser_forms, ?_, ?_, ?_, ?_⟩
  · exact key literalParser_shared (by decide) rfl (by decide)
  · exact key literalParser_shared (by decide) rfl (by decide)
  · exact key literalParser_mapped (by decide) rfl (by decide)
  · exact key literalParser_mapped (by decide) rfl (by decide)

end Freeclawdia.Ssrf
