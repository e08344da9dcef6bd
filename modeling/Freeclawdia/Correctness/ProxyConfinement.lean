import Freeclawdia.Correctness.WasmAllowlist
import Freeclawdia.Sandbox.Proxy

/-!
# `Correctness.ProxyConfinement` — where the sandbox proxy's requests go

The proxy decides once for each request of a container; the client behind it may then contact further hosts, one for
each redirect. Its requests are the first one and one for each hop of the answers (`Reqwest.hops`), and what a hop gets of
a credential is known without the requests: the custom headers, and a query parameter that stands in the URL or in the
`Referer` (`Reqwest.exchange_carries`, `Reqwest.exchange_reaches`).

The check itself is exact (`isAllowed_iff`), so everything that is sent is allowed exactly when the chain of redirects
stays inside the allowlist.
-/

namespace Freeclawdia.Proxy

open Rust
open Reqwest (Request hops maxRedirects)

/-! ## Patterns -/

/-- What a pattern of the allowlist is to allow. -/
def PatternAllows (pattern host : String) : Prop :=
  (∃ d, pattern = "*." ++ d ∧
    (toLowercase host = toLowercase d ∨ ∃ t, toLowercase host = t ++ "." ++ toLowercase d)) ∨
  ((¬∃ d, pattern = "*." ++ d) ∧ toLowercase host = toLowercase pattern)

/-- Some pattern allows the host. -/
def Allowed (domains : List String) (host : String) : Prop := ∃ p ∈ domains, PatternAllows p host

/-- A pattern of a mapping covers the host. -/
def Covered (m : CredentialMapping) (host : String) : Prop :=
  ∃ p ∈ m.hostPatterns, WasmAllowlist.HostCovered (toLowercase p) (toLowercase host)

theorem hostMatches_iff (pattern host : String) :
    (DomainPattern.new pattern).hostMatches host = true ↔ PatternAllows pattern host := by
  unfold DomainPattern.new DomainPattern.hostMatches PatternAllows
  by_cases hw : startsWith pattern "*." = true
  · obtain ⟨d, rfl⟩ := startsWith_iff.mp hw
    have hbase : String.ofList (("*." ++ d).toList.drop 2) = d := by
      apply String.toList_inj.mp
      simp
    simp only [hw, hbase, if_true, Bool.or_eq_true, decide_eq_true_eq, WasmAllowlist.endsWith_iff]
    constructor
    · intro h
      left
      refine ⟨d, rfl, h.imp_right ?_⟩
      rintro ⟨t, ht⟩
      exact ⟨t, by rw [ht, String.append_assoc]⟩
    · rintro (⟨d', hd', h⟩ | ⟨hno, -⟩)
      · obtain rfl : d = d' := by
          apply String.toList_inj.mp
          simpa using congrArg String.toList hd'
        refine h.imp_right ?_
        rintro ⟨t, ht⟩
        exact ⟨t, by rw [ht, String.append_assoc]⟩
      · exact absurd ⟨d, rfl⟩ hno
  · have hno : ∀ d, pattern ≠ "*." ++ d := fun d h => hw (startsWith_iff.mpr ⟨d, h⟩)
    simp [hw, hno]

/-- The check of the allowlist is exact. -/
theorem isAllowed_iff (domains : List String) (host : String) :
    (DomainAllowlist.new domains).isAllowed host = .allowed ↔ Allowed domains host := by
  have hany : ((DomainAllowlist.new domains).patterns.any fun p => p.hostMatches host) = true ↔
      Allowed domains host := by
    simp [DomainAllowlist.new, Allowed, hostMatches_iff]
  unfold DomainAllowlist.isAllowed
  rw [← hany]
  split_ifs with hempty hmatch
  · have hnil : (DomainAllowlist.new domains).patterns = [] := List.isEmpty_iff.mp hempty
    simp [hnil]
  · simp [hmatch]
  · simp [hmatch]

theorem byteLen_append (s t : String) : byteLen (s ++ t) = byteLen s + byteLen t := by
  simp [byteLen]

/-- What stands before a suffix. -/
theorem take_before (t s : String) :
    String.ofList ((t ++ s).toList.take ((t ++ s).toList.length - s.toList.length)) = t := by
  apply String.toList_inj.mp
  simp

/-- The matcher of the credential mappings is exact too. -/
theorem hostMatchesPattern_iff (host pattern : String) :
    Freeclawdia.hostMatchesPattern host pattern = true ↔ WasmAllowlist.HostCovered pattern host := by
  unfold Freeclawdia.hostMatchesPattern WasmAllowlist.HostCovered
  by_cases heq : pattern = host
  · simp [heq]
  rw [if_neg heq]
  cases hs : stripPrefix pattern "*." with
  | none =>
    have hno : ¬∃ d, pattern = "*." ++ d := by
      intro h
      simp [stripPrefix, startsWith_iff.mpr h] at hs
    simp only [Bool.false_eq_true, heq, false_or, false_iff]
    rintro ⟨s, t, hp, -⟩
    exact hno ⟨s, hp⟩
  | some suffix =>
    obtain rfl := WasmAllowlist.stripPrefix_eq_some hs
    simp only [heq, false_or]
    constructor
    · intro h
      split_ifs at h with hends
      simp only [Bool.and_eq_true, decide_eq_true_eq] at hends
      obtain ⟨t, rfl⟩ := WasmAllowlist.endsWith_iff.mp hends.1
      rw [take_before, Bool.or_eq_true] at h
      rcases h with hdot | hempty
      · obtain ⟨t', rfl⟩ := WasmAllowlist.endsWith_iff.mp hdot
        exact ⟨suffix, t', rfl, rfl⟩
      · have ht : t = "" := by simpa using hempty
        rw [ht] at hends
        simp at hends
    · rintro ⟨s, t, hp, rfl⟩
      obtain rfl : suffix = s := by
        apply String.toList_inj.mp
        simpa using congrArg String.toList hp
      have hends : endsWith (t ++ "." ++ suffix) suffix = true := WasmAllowlist.endsWith_iff.mpr ⟨_, rfl⟩
      have hlen : byteLen suffix < byteLen (t ++ "." ++ suffix) := by
        rw [byteLen_append, byteLen_append]
        have hdot : byteLen "." = 1 := by decide
        omega
      have hdot : endsWith (t ++ ".") "." = true := WasmAllowlist.endsWith_iff.mpr ⟨t, rfl⟩
      rw [take_before]
      simp [hends, hlen, hdot]

theorem mappingMatches_iff (host : String) (m : CredentialMapping) :
    DefaultPolicyDecider.mappingMatches host m = true ↔ Covered m host := by
  simp [DefaultPolicyDecider.mappingMatches, hostMatchesPattern, hostMatchesPattern_iff, Covered]

/-! ## Requests of a container -/

section Requests

variable (deps : Deps) (d : DefaultPolicyDecider) (req : Incoming)

/-- The request the client is given for a request that is not for a tunnel. -/
def firstRequest : Option Request :=
  if req.method = "CONNECT" then none
  else
    (NetworkRequest.fromUrl deps.parse req.method req.uri).bind fun networkReq =>
      match d.decide networkReq, req.body, deps.parse req.uri with
      | .deny _, _, _ => none
      | decision, .ok body, .ok url =>
        let r := outgoing deps decision req url body
        if r.headers.all deps.headerOk then some r else none
      | _, _, _ => none

/-- The mapping that a credential for a request comes from. -/
def mappingFor : Option CredentialMapping :=
  (NetworkRequest.fromUrl deps.parse req.method req.uri).bind fun networkReq => d.findCredential networkReq.host

/-- What the proxy adds to a request for its credential: headers, and parameters of the query. -/
def added : List (String × String) × List (String × String) :=
  match NetworkRequest.fromUrl deps.parse req.method req.uri with
  | some networkReq => credentialParts deps.resolve (d.decide networkReq)
  | none => ([], [])

/-- Tunnels and requests go to allowed hosts only, and a credential to hosts its mapping covers. -/
structure Confined (domains : List String) (e : Effects) : Prop where
  tunnels : ∀ name ∈ e.tunnels, Allowed domains name
  sent : ∀ r ∈ e.sent, ∀ host, hostOf r.url = some host → Allowed domains host
  credentials : ∀ r ∈ e.sent, r.Carries (added deps d req).1 (added deps d req).2 → ∃ m, mappingFor deps d req = some m ∧
    ∀ host, hostOf r.url = some host → Covered m host

/-- The text a tunnel is opened to names no other host, and no answer sends the client to a host outside the list,
    or to a host outside the mapping that gets the credential: in a header the client keeps, in the query of the new
    URL, or in that of the URL before it. -/
structure Contained (domains : List String) (answers : List (Except String Upstream)) : Prop where
  connect : req.method = "CONNECT" → ∀ authority, req.authority = some authority →
    Allowed domains (authorityHost authority) →
      ∀ name, connectName authority = some name → name ≠ authorityHost authority → Allowed domains name
  redirects : ∀ r, firstRequest deps d req = some r →
    ∀ hop ∈ hops deps.join location maxRedirects r.method r.url answers, ∀ host, hostOf hop.url = some host →
      Allowed domains host ∧ (hop.Receives r (added deps d req).1 (added deps d req).2 →
        ∃ m, mappingFor deps d req = some m ∧ Covered m host)

variable {deps d req} {n : NetworkRequest}

theorem decide_of_allowed (h : d.allowlist.isAllowed n.host = .allowed) :
    d.decide n = match d.findCredential n.host with
      | some m => .allowWithCredentials m.secretName m.location
      | none => .allow := by
  cases hfound : d.findCredential n.host with
  | some m => simp only [DefaultPolicyDecider.decide, h, hfound]
  | none => simp only [DefaultPolicyDecider.decide, h, hfound]

theorem decide_of_denied (h : d.allowlist.isAllowed n.host ≠ .allowed) : ∃ reason, d.decide n = .deny reason := by
  cases hv : d.allowlist.isAllowed n.host with
  | allowed => exact absurd hv h
  | denied reason => exact ⟨reason, by simp only [DefaultPolicyDecider.decide, hv]⟩

theorem decide_ne_deny (h : d.allowlist.isAllowed n.host = .allowed) (reason : String) : d.decide n ≠ .deny reason := by
  rw [decide_of_allowed h]
  split <;> simp

theorem handleConnect_sent : (handleConnect d req).sent = [] := by
  unfold handleConnect
  split
  · rfl
  · dsimp only
    split <;> rfl

/-- A tunnel is opened for an allowed host, to the text before the port. -/
theorem mem_handleConnect_tunnels {name : String} :
    name ∈ (handleConnect d req).tunnels ↔ ∃ authority, req.authority = some authority ∧
      d.allowlist.isAllowed (authorityHost authority) = .allowed ∧ connectName authority = some name := by
  unfold handleConnect
  cases hreq : req.authority with
  | none => simp
  | some authority =>
    dsimp only
    by_cases hallowed : d.allowlist.isAllowed (authorityHost authority) = .allowed
    · have hne := decide_ne_deny (d := d)
        (n := ⟨"CONNECT", "https://" ++ authorityHost authority, authorityHost authority, "/"⟩) hallowed
      split
      · next reason heq => exact absurd heq (hne reason)
      · simp [hallowed]
    · obtain ⟨reason, hdeny⟩ := decide_of_denied (d := d)
        (n := ⟨"CONNECT", "https://" ++ authorityHost authority, authorityHost authority, "/"⟩) hallowed
      simp [hdeny, hallowed]

theorem forwardRequest_tunnels (decision : NetworkDecision) (answers : List (Except String Upstream)) :
    (forwardRequest deps decision req answers).tunnels = [] := by
  unfold forwardRequest
  split
  · rfl
  · split
    · rfl
    · dsimp only
      split_ifs <;> rfl

/-- What is forwarded is the exchange that begins with the request the client is given. -/
theorem forwardRequest_sent (decision : NetworkDecision) (answers : List (Except String Upstream)) :
    (forwardRequest deps decision req answers).sent =
      match req.body, deps.parse req.uri with
      | .ok body, .ok url =>
        let r := outgoing deps decision req url body
        if r.headers.all deps.headerOk then (Reqwest.exchange deps.join location maxRedirects r answers).1 else []
      | _, _ => [] := by
  unfold forwardRequest
  cases req.body with
  | error e => rfl
  | ok body =>
    cases deps.parse req.uri with
    | error e => rfl
    | ok url =>
      dsimp only
      split_ifs <;> rfl

theorem handleRequest_tunnels (answers : List (Except String Upstream)) :
    (handleRequest deps d req answers).tunnels = if req.method = "CONNECT" then (handleConnect d req).tunnels else [] := by
  unfold handleRequest
  split_ifs
  · rfl
  · split
    · rfl
    · split
      · rfl
      · exact forwardRequest_tunnels _ _

theorem handleRequest_sent (answers : List (Except String Upstream)) : (handleRequest deps d req answers).sent =
      match firstRequest deps d req with
      | none => []
      | some r => (Reqwest.exchange deps.join location maxRedirects r answers).1 := by
  unfold handleRequest firstRequest
  by_cases hconnect : req.method = "CONNECT"
  · simp only [hconnect, if_true, handleConnect_sent]
  simp only [hconnect, if_false]
  cases NetworkRequest.fromUrl deps.parse req.method req.uri with
  | none => rfl
  | some n =>
    simp only [Option.bind_some]
    by_cases hallowed : d.allowlist.isAllowed n.host = .allowed
    · have hne := decide_ne_deny hallowed
      cases hdec : d.decide n with
      | deny reason => exact absurd hdec (hne reason)
      | allow | allowWithCredentials _ _ =>
        simp only [forwardRequest_sent]
        cases req.body with
        | error e => rfl
        | ok body =>
          cases deps.parse req.uri with
          | error e => rfl
          | ok url =>
            dsimp only
            split_ifs <;> rfl
    · obtain ⟨reason, hdeny⟩ := decide_of_denied hallowed
      simp [hdeny]

theorem hostOf_foldl_appendPair (pairs : List (String × String)) (u : Url) :
    hostOf (pairs.foldl Url.appendPair u) = hostOf u := by
  induction pairs generalizing u with
  | nil => rfl
  | cons pair pairs ih => exact ih _

theorem fromUrl_host {parse : UrlParser} {method url : String} {u : Url}
    (h : NetworkRequest.fromUrl parse method url = some n) (hparse : parse url = .ok u) : hostOf u = some n.host := by
  simp only [NetworkRequest.fromUrl, hparse] at h
  split_ifs at h
  obtain ⟨host, hhost, rfl⟩ := Option.map_eq_some_iff.mp h
  exact hhost

/-- Without a credential in the decision nothing is added. -/
theorem credentialParts_cases (resolve : String → Option String) (decision : NetworkDecision) :
    (∃ name location, decision = .allowWithCredentials name location) ∨ credentialParts resolve decision = ([], []) := by
  cases decision with
  | allow => exact .inr rfl
  | allowWithCredentials name location => exact .inl ⟨name, location, rfl⟩
  | deny reason => exact .inr rfl

variable {r : Request}

/-- The request the client is given goes to an allowed host, and if anything was added to it, the mapping of the
    credential covers that host. -/
theorem firstRequest_spec (h : firstRequest deps d req = some r) :
    ∃ host, hostOf r.url = some host ∧ d.allowlist.isAllowed host = .allowed ∧
      (added deps d req = ([], []) ∨ ∃ m, mappingFor deps d req = some m ∧ Covered m host) := by
  unfold firstRequest at h
  split_ifs at h with hconnect
  obtain ⟨n, hn, h⟩ := Option.bind_eq_some_iff.mp h
  have hallowed : d.allowlist.isAllowed n.host = .allowed := by
    by_contra hne
    obtain ⟨reason, hdeny⟩ := decide_of_denied hne
    simp [hdeny] at h
  obtain ⟨body, url, hurl, rfl⟩ : ∃ body url, deps.parse req.uri = .ok url ∧
      outgoing deps (d.decide n) req url body = r := by
    split at h
    · cases h
    · next body url hbody hurl _ =>
        dsimp only at h
        split_ifs at h
        exact ⟨body, url, hurl, by simpa using h⟩
    · cases h
  refine ⟨n.host, ?_, hallowed, ?_⟩
  · show hostOf ((credentialParts deps.resolve (d.decide n)).2.foldl Url.appendPair url) = some n.host
    rw [hostOf_foldl_appendPair]
    exact fromUrl_host hn hurl
  · simp only [added, mappingFor, hn, Option.bind_some]
    rcases credentialParts_cases deps.resolve (d.decide n) with ⟨name, location, hdec⟩ | hnothing
    · right
      rw [decide_of_allowed hallowed] at hdec
      split at hdec
      · next m hm => exact ⟨m, hm, (mappingMatches_iff n.host m).mp (List.find?_some hm)⟩
      · cases hdec
    · exact .inl hnothing

/-- Nothing is carried of nothing. -/
theorem not_carries_nil {x : Request} : ¬ x.Carries [] [] := by
  rintro (⟨h, hmem, -⟩ | ⟨p, hmem, -⟩)
  · cases hmem
  · cases hmem

end Requests

/-! ## Confinement -/

/-- **Confinement of the proxy**: everything it sends for a request stays inside the allowlist, and every credential
    inside its mapping, exactly when the target of a tunnel and the redirects of the answers do. -/
theorem handleRequest_confined_iff (deps : Deps) (domains : List String) (mappings : List CredentialMapping)
    (req : Incoming) (answers : List (Except String Upstream)) :
    Confined deps ⟨.new domains, mappings⟩ req domains
        (handleRequest deps ⟨.new domains, mappings⟩ req answers) ↔
      Contained deps ⟨.new domains, mappings⟩ req domains answers := by
  constructor
  · intro hconf
    refine ⟨?_, ?_⟩
    · intro hconnect authority hauthority hallowed name hname _
      refine hconf.tunnels name ?_
      rw [handleRequest_tunnels, if_pos hconnect, mem_handleConnect_tunnels]
      exact ⟨authority, hauthority, (isAllowed_iff _ _).mpr hallowed, hname⟩
    · intro r hr hop hmem host hhost
      obtain ⟨x, hx, rfl, hcarries⟩ := Reqwest.exchange_reaches hmem
      have hsent : x ∈ (handleRequest deps ⟨.new domains, mappings⟩ req answers).sent := by
        rw [handleRequest_sent, hr]
        exact hx
      refine ⟨hconf.sent x hsent host hhost, ?_⟩
      intro hreceives
      obtain ⟨m, hm, hcov⟩ := hconf.credentials x hsent (hcarries _ _ hreceives)
      exact ⟨m, hm, hcov host hhost⟩
  · intro hcont
    -- Whatever is sent begins with the request the client is given.
    have hexchange : ∀ x ∈ (handleRequest deps ⟨.new domains, mappings⟩ req answers).sent,
        ∃ r, firstRequest deps ⟨.new domains, mappings⟩ req = some r ∧
          x ∈ (Reqwest.exchange deps.join location maxRedirects r answers).1 := by
      intro x hx
      rw [handleRequest_sent] at hx
      cases hfirst : firstRequest deps ⟨.new domains, mappings⟩ req with
      | none => simp [hfirst] at hx
      | some r => exact ⟨r, rfl, by rwa [hfirst] at hx⟩
    refine ⟨?_, ?_, ?_⟩
    · intro name hname
      rw [handleRequest_tunnels] at hname
      split_ifs at hname with hconnect
      · obtain ⟨authority, hauthority, hallowed, hcn⟩ := mem_handleConnect_tunnels.mp hname
        have hhost := (isAllowed_iff _ _).mp hallowed
        by_cases hsame : name = authorityHost authority
        · exact hsame ▸ hhost
        · exact hcont.connect hconnect authority hauthority hhost name hcn hsame
      · cases hname
    · intro x hx host hhost
      obtain ⟨r, hfirst, hx⟩ := hexchange x hx
      have hmem := List.mem_map_of_mem (f := Request.hop) hx
      rw [Reqwest.exchange_hops] at hmem
      rcases List.mem_cons.mp hmem with hsame | hlater
      · obtain ⟨h0, hh0, hallowed, -⟩ := firstRequest_spec hfirst
        have hurl : x.url = r.url := congrArg Reqwest.Hop.url hsame
        obtain rfl : h0 = host := by simpa [hurl, hh0] using hhost
        exact (isAllowed_iff _ _).mp hallowed
      · exact (hcont.redirects r hfirst x.hop hlater host hhost).1
    · intro x hx hcarries
      obtain ⟨r, hfirst, hx⟩ := hexchange x hx
      obtain ⟨h0, hh0, -, hnothing | ⟨m, hm, hcov⟩⟩ := firstRequest_spec hfirst
      · rw [hnothing] at hcarries
        exact absurd hcarries not_carries_nil
      refine ⟨m, hm, ?_⟩
      intro host hhost
      rcases Reqwest.exchange_carries hx hcarries with hstays | ⟨hlater, hreceives⟩
      · have hsame : hostOf x.url = hostOf r.url := by simp only [hostOf, hstays]
        obtain rfl : h0 = host := by simpa [hsame, hh0] using hhost
        exact hcov
      · obtain ⟨m', hm', hcov'⟩ := (hcont.redirects r hfirst x.hop hlater host hhost).2 hreceives
        obtain rfl : m = m' := Option.some.inj (hm.symm.trans hm')
        exact hcov'

/-! ### A redirect out of the list -/

/-- The URL `http://<host>/`. -/
def rootUrl (host : String) : Url := ⟨"http", "", none, some (.domain host), some host, none, "/", none⟩

/-- Libraries for the URLs of the example. -/
def exampleDeps : Deps where
  parse s := if s = "http://allowed.test/" then .ok (rootUrl "allowed.test") else .error "relative URL without a base"
  join _ s := if s = "http://evil.test/" then some (rootUrl "evil.test") else none
  display u := u.scheme ++ "://" ++ u.hostStr.getD "" ++ u.path
  headerOk _ := true
  resolve name := if name = "API_KEY" then some "k3y" else none

/-- A mapping that adds a key for the allowed host only. -/
def exampleMapping : CredentialMapping := ⟨"API_KEY", .header "X-Api-Key" none, ["allowed.test"]⟩

/-- A request for the allowed host. -/
def exampleRequest : Incoming := ⟨"GET", "http://allowed.test/", some "allowed.test", [], .ok []⟩

/-- The allowed host answers with a redirect: the proxy contacts the other host, and sends it the key. -/
theorem redirect_leaves_allowlist :
    ¬Confined exampleDeps ⟨.new ["allowed.test"], [exampleMapping]⟩ exampleRequest ["allowed.test"]
      (handleRequest exampleDeps ⟨.new ["allowed.test"], [exampleMapping]⟩ exampleRequest
        [.ok ⟨302, [("Location", "http://evil.test/")], .ok []⟩, .ok ⟨200, [], .ok []⟩]) := by
  intro h
  have hsent : (⟨"GET", rootUrl "evil.test", [("X-Api-Key", "k3y")], some (rootUrl "allowed.test"), none,
    none⟩ : Request) ∈
      (handleRequest exampleDeps ⟨.new ["allowed.test"], [exampleMapping]⟩ exampleRequest
        [.ok ⟨302, [("Location", "http://evil.test/")], .ok []⟩, .ok ⟨200, [], .ok []⟩]).sent := by
    decide +kernel
  have hallowed : Allowed ["allowed.test"] "evil.test" := h.sent _ hsent "evil.test" (by decide +kernel)
  have hdenied : (DomainAllowlist.new ["allowed.test"]).isAllowed "evil.test" ≠ .allowed := by decide +kernel
  exact hdenied ((isAllowed_iff _ _).mpr hallowed)

-- A key in the query goes along as well, in the `Referer`.
example : ((handleRequest exampleDeps ⟨.new ["allowed.test", "evil.test"],
      [{ exampleMapping with location := .queryParam "key" }]⟩ exampleRequest
        [.ok ⟨302, [("Location", "http://evil.test/")], .ok []⟩, .ok ⟨200, [], .ok []⟩]).sent.map fun r =>
          (r.url, r.referer)) =
    [({ rootUrl "allowed.test" with query := some "key=k3y" }, none),
     (rootUrl "evil.test", some { rootUrl "allowed.test" with query := some "key=k3y" })] := by
  decide +kernel

end Freeclawdia.Proxy
