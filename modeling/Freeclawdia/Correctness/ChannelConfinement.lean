import Freeclawdia.Channels.Wasm.HttpRequest
import Freeclawdia.Correctness.CredentialRedaction
import Freeclawdia.Correctness.ProxyConfinement
import Freeclawdia.Correctness.Ssrf

/-!
# `Correctness.ChannelConfinement` — where the requests of a WASM channel go

A channel's request is checked once, by its URL before the host credentials go in. Behind the check there is a client that
follows redirects, and nothing looks at addresses. `firstRequest` is what the client is given; everything else that goes
out is a hop of the answers (`Reqwest.hops`), with the custom headers of the first request.

So the request is confined exactly when the first address is one the tool's side would let through, every hop stays
inside, and no error quotes a credential. What an error quotes is told without the call: the reason of a denial, what the
scan says of the text it comes to first, and what the client says of the exchange (`Discreet`). Of these only the last is
redacted.
-/

namespace Freeclawdia.WasmChannel

open Rust Reqwest
open WasmTool (ResolvedHostCredential StoreData WasmRequest RawResponse HttpResponse insertEntry injectCredentials
  extractHostFromUrl checkHttpAllowed recordHttpRequest readResponse supportedMethods maxResponseBytes secretValues Shows
  matching targetHost rejectPrivateIp Place texts sees report tagged Separate)

variable {env : HttpEnv} {data : ChannelStoreData} {req : WasmRequest}

/-! ## Inside and outside -/

/-- A loopback, private or link-local address; an IPv4-mapped one counts as the address that it maps. -/
def isLocal : IpAddr → Bool
  | .v4 ip => ip.isLoopback || ip.isPrivate || ip.isLinkLocal
  | .v6 ip =>
    match ip.toIpv4Mapped with
    | some v4 => v4.isLoopback || v4.isPrivate || v4.isLinkLocal
    | none => ip.isLoopback || ip.isUniqueLocal || ip.isUnicastLinkLocal

/-- The allowlist validator, given this URL. -/
def Allows (data : ChannelStoreData) (url : Url) (method : String) : Prop :=
  ∃ capability, data.http = some capability ∧
    (AllowlistValidator.new capability.allowlist).validate (fun _ => .ok url) "" method = .allowed

/-- None of the addresses of the URL's host is a local one. -/
def External (env : HttpEnv) (url : Url) : Prop := ∀ ip ∈ Ssrf.hostAddrs env.dns url.host, isLocal ip = false

/-- The URL's host is one that the credential is for. -/
def CoveredBy (cred : ResolvedHostCredential) (url : Url) : Prop :=
  ∃ host, Proxy.hostOf url = some host ∧ ∃ pattern ∈ cred.hostPatterns, WasmAllowlist.HostCovered pattern host

/-- The tool's host function refuses the request for its destination. -/
def ToolRefuses (env : HttpEnv) (data : ChannelStoreData) (req : WasmRequest) : Prop :=
  checkHttpAllowed env.toHttpEnv data (filledUrl data req) req.method ≠ .ok () ∨
    rejectPrivateIp env.parse env.dns (WasmTool.injected env.toHttpEnv data req).2 ≠ .ok ()

/-- What is sent stays inside, and what is told shows nothing. -/
structure Confined (env : HttpEnv) (data : ChannelStoreData) (req : WasmRequest) (o : Outcome) : Prop where
  allowed : ∀ r ∈ o.sent, Allows data r.url r.method
  external : ∀ r ∈ o.sent, External env r.url
  credentials : ∀ r ∈ o.sent, ∀ cred ∈ matching env.toHttpEnv data req,
    r.Carries cred.headers cred.queryParams → CoveredBy cred r.url
  errors : ∀ e, o.result = .error e → ¬ Shows data e
  asTool : ToolRefuses env data req → o.sent = []

/-! ## The first request -/

/-- The request the client is given. -/
def firstRequest (env : HttpEnv) (data : ChannelStoreData) (req : WasmRequest) : Option Request :=
  match (checkRequest env data req).1 with
  | .error _ => none
  | .ok (headers, url) =>
    if (data.httpRuntime || env.runtime.isOk) && env.client.isOk && supportedMethods.contains (toUppercase req.method) then
      (buildRequest env req headers url).toOption
    else none

/-- The request passes the checks. -/
def Passes (env : HttpEnv) (data : ChannelStoreData) (req : WasmRequest) : Prop :=
  WasmTool.Reaches env.toHttpEnv data req ∧ leakScan env data req = .ok ()

/-! ## What an error quotes -/

/-- The allowlist denies the URL with its placeholders filled. -/
def Denied (env : HttpEnv) (data : ChannelStoreData) (req : WasmRequest) (reason : DenyReason) : Prop :=
  ∃ capability, data.http = some capability ∧
    (AllowlistValidator.new capability.allowlist).validate env.parse (filledUrl data req) req.method = .denied reason

/-- The first text of the request that the scan sees something in; the host credentials are not in it yet. -/
def firstSeen (env : HttpEnv) (data : ChannelStoreData) (req : WasmRequest) : Option (Place × String) :=
  (texts (filledUrl data req) (filledHeaders env data req) req.body).find? (sees env.isWord LeakDetector.new)

/-- A response that the channel cannot be given, and what is said of it. -/
inductive Unreadable (env : HttpEnv) (limit : Nat) (response : RawResponse) : String → Prop
  | declared (size : Nat) : response.contentLength = some size → limit < size →
      Unreadable env limit response (WasmTool.tooLarge size limit)
  | broken (e : String) : (∀ size, response.contentLength = some size → size ≤ limit) → response.body = .error e →
      Unreadable env limit response ("Failed to read response body: " ++ e)
  | long (body : List UInt8) : (∀ size, response.contentLength = some size → size ≤ limit) → response.body = .ok body →
      limit < body.length → Unreadable env limit response (WasmTool.tooLarge body.length limit)
  | leak (body : List UInt8) (text : String) (e : LeakDetectionError) :
      (∀ size, response.contentLength = some size → size ≤ limit) → response.body = .ok body → body.length ≤ limit →
      fromUtf8 body = some text → LeakDetector.new.scanAndClean env.isWord text = .error e →
      Unreadable env limit response ("Potential secret leak in response: " ++ e.display)

/-- A request that passed the checks and comes to nothing, and what is said of it: by the client, or of the response. -/
inductive Fails (env : HttpEnv) (data : ChannelStoreData) (req : WasmRequest)
    (answers : List (Except String RawResponse)) :
    String → Prop
  | client (e : String) : env.client = .error e → Fails env data req answers ("Failed to build HTTP client: " ++ e)
  | method : env.client = .ok () → toUppercase req.method ∉ supportedMethods →
      Fails env data req answers ("Unsupported HTTP method: " ++ req.method)
  | build (failure : Failure) : env.client = .ok () → toUppercase req.method ∈ supportedMethods →
      buildRequest env req (injected env data req).1 (injected env data req).2 = .error failure →
      Fails env data req answers ("HTTP request failed: " ++ failure.chain env.display)
  | send (r : Request) (failure : Failure) : env.client = .ok () → toUppercase req.method ∈ supportedMethods →
      buildRequest env req (injected env data req).1 (injected env data req).2 = .ok r →
      (Reqwest.exchange env.join location maxRedirects r answers).2 = .error failure →
      Fails env data req answers ("HTTP request failed: " ++ failure.chain env.display)
  | read (r : Request) (response : RawResponse) (text : String) : env.client = .ok () →
      toUppercase req.method ∈ supportedMethods →
      buildRequest env req (injected env data req).1 (injected env data req).2 = .ok r →
      (Reqwest.exchange env.join location maxRedirects r answers).2 = .ok response →
      Unreadable env (maxResponseBytes data) response text → Fails env data req answers text

/-- What redaction puts where: each value, and its percent-encoded form if that is another. -/
def replacements (data : ChannelStoreData) : List (String × String) :=
  (tagged data).flatMap fun s => s :: if urlencode s.1 ≠ s.1 then [(urlencode s.1, s.2)] else []

/-- The words of no error hold a value. -/
structure Discreet (env : HttpEnv) (data : ChannelStoreData) (req : WasmRequest)
    (answers : List (Except String RawResponse)) :
    Prop where
  ungranted : data.http = none → ¬ Shows data "HTTP not allowed: HTTP capability not granted"
  /-- A denial quotes the host, the path and the method, or why the URL is none. -/
  denied : ∀ reason, Denied env data req reason →
    ¬ Shows data ("HTTP not allowed: HTTP request not allowed: " ++ env.debugResult (.denied reason))
  limited : data.http.isSome → (∀ reason, ¬ Denied env data req reason) → 50 < (data.httpRequestCount + 1) % 2 ^ 32 →
    ¬ Shows data "Rate limit exceeded: Too many HTTP requests in single execution (max 50)"
  /-- The preview of a leak shows its ends. -/
  leak : WasmTool.Reaches env.toHttpEnv data req → ∀ p e, firstSeen env data req = some p →
    report env.isWord LeakDetector.new p = .error e → ¬ Shows data ("Potential secret leak blocked: " ++ e.display)
  runtime : Passes env data req → data.httpRuntime = false →
    ∀ e, env.runtime = .error e → ¬ Shows data ("Failed to create HTTP runtime: " ++ e)
  /-- Only here the values are taken out. -/
  transport : Passes env data req → data.httpRuntime = true ∨ env.runtime = .ok () →
    ∀ text, Fails env data req answers text → ¬ Shows data (scrub (replacements data) text)

/-- The address is one the tool's side lets through, no answer leads out, and no error quotes a value. -/
structure Contained (env : HttpEnv) (data : ChannelStoreData) (req : WasmRequest)
    (answers : List (Except String RawResponse)) :
    Prop where
  address : ∀ r, firstRequest env data req = some r → External env r.url ∧
    rejectPrivateIp env.parse env.dns (WasmTool.injected env.toHttpEnv data req).2 = .ok ()
  redirects : ∀ r, firstRequest env data req = some r →
    ∀ hop ∈ hops env.join location maxRedirects r.method r.url answers, Allows data hop.url hop.method ∧
      External env hop.url ∧
      ∀ cred ∈ matching env.toHttpEnv data req, hop.Receives r cred.headers cred.queryParams → CoveredBy cred hop.url
  errors : Discreet env data req answers

/-- What is relied on of the URL library: the text of a URL with more parameters is parsed as that URL. -/
def Reparses (env : HttpEnv) : Prop :=
  ∀ (text : String) (url : Url) (pairs : List (String × String)), env.parse text = .ok url →
    env.parse (env.display (pairs.foldl Url.appendPair url)) = .ok (pairs.foldl Url.appendPair url)

/-! ### The validator and the URL -/

variable {v : AllowlistValidator} {text : String} {url : Url} {parse : UrlParser}

/-- The validator reads the text of a URL through the parser alone, and no query. -/
theorem validate_parsed (h : parse text = .ok url) (method : String) :
    v.validate parse text method = v.validate (fun _ => .ok url) "" method := by
  simp only [AllowlistValidator.validate, parseUrl, h]

theorem validate_appendPairs (v : AllowlistValidator) (pairs : List (String × String)) (url : Url) (method : String) :
    v.validate (fun _ => .ok (pairs.foldl Url.appendPair url)) "" method = v.validate (fun _ => .ok url) "" method := by
  induction pairs generalizing url with
  | nil => rfl
  | cons p pairs ih => exact ih _

variable {method : String}

/-- Methods are compared in upper case. -/
theorem validate_upper (hmethod : toUppercase method ∈ supportedMethods) (h : v.validate parse text method = .allowed) :
    v.validate parse text (toUppercase method) = .allowed := by
  have hupper : toUppercase (toUppercase method) = toUppercase method := by
    have hall : ∀ m ∈ supportedMethods, toUppercase m = m := by decide +kernel
    exact hall _ hmethod
  have hmatch : ∀ (p : EndpointPattern) (host path : String),
      p.endpointMatches host path (toUppercase method) = p.endpointMatches host path method := by
    intro p host path
    simp only [EndpointPattern.endpointMatches, hupper]
  revert h
  unfold AllowlistValidator.validate
  simp only [hmatch]
  -- A denial is none in either spelling.
  split_ifs
  · exact fun h => absurd h (by simp)
  · cases parseUrl parse text with
    | error e => exact fun h => absurd h (by simp)
    | ok parsed =>
      dsimp only
      split_ifs
      · exact fun h => absurd h (by simp)
      · exact fun _ => rfl
      · exact fun h => absurd h (by simp)

theorem checkHttpAllowed_ok (h : checkHttpAllowed env.toHttpEnv data text method = .ok ()) :
    ∃ url, env.parse text = .ok url ∧ Allows data url method := by
  unfold checkHttpAllowed at h
  cases hhttp : data.http with
  | none => simp [hhttp] at h
  | some capability =>
    rw [hhttp] at h
    dsimp only at h
    split at h
    next hallowed =>
      cases hparse : env.parse text with
      | error e =>
        simp only [AllowlistValidator.validate, parseUrl, hparse] at hallowed
        split_ifs at hallowed
      | ok url => exact ⟨url, rfl, capability, hhttp, by rw [← validate_parsed hparse]; exact hallowed⟩
    next => cases h

/-! ### What the client is given -/

theorem recordHttpRequest_data : ∃ n, (recordHttpRequest data).2 = { data with httpRequestCount := n } := by
  unfold recordHttpRequest
  split
  · exact ⟨data.httpRequestCount, rfl⟩
  · exact ⟨_, rfl⟩

/-- The checks, one after the other; of the store they change the counter. -/
theorem checkRequest_eq : (∃ n, (checkRequest env data req).2 = { data with httpRequestCount := n }) ∧
    (checkRequest env data req).1 =
      match checkHttpAllowed env.toHttpEnv data (filledUrl data req) req.method with
      | .error e => .error ("HTTP not allowed: " ++ e)
      | .ok () =>
        match (recordHttpRequest data).1 with
        | .error e => .error ("Rate limit exceeded: " ++ e)
        | .ok () =>
          match leakScan env data req with
          | .error e => .error ("Potential secret leak blocked: " ++ e.display)
          | .ok () => .ok (injected env data req) := by
  obtain ⟨n, hn⟩ : ∃ n, (recordHttpRequest data).2 = { data with httpRequestCount := n } := recordHttpRequest_data
  have hscan : leakScan env { data with httpRequestCount := n } req = leakScan env data req := rfl
  have hinjected : injected env { data with httpRequestCount := n } req = injected env data req := rfl
  unfold checkRequest
  cases checkHttpAllowed env.toHttpEnv data (filledUrl data req) req.method with
  | error e => exact ⟨⟨data.httpRequestCount, rfl⟩, rfl⟩
  | ok u =>
    rcases hr : recordHttpRequest data with ⟨recorded, after⟩
    rw [hr] at hn
    obtain rfl : after = { data with httpRequestCount := n } := hn
    cases recorded with
    | error e => exact ⟨⟨n, rfl⟩, rfl⟩
    | ok u =>
      dsimp only
      rw [hscan, hinjected]
      cases leakScan env data req with
      | error e => exact ⟨⟨n, rfl⟩, rfl⟩
      | ok u => exact ⟨⟨n, rfl⟩, rfl⟩

/-- The leak scan is the last check. -/
theorem checkRequest_ok_iff {sent : List (String × String) × String} :
    (checkRequest env data req).1 = .ok sent ↔ Passes env data req ∧ sent = injected env data req := by
  have hfilled : filledUrl data req = injectCredentials data.credentials req.url := rfl
  rw [checkRequest_eq.2]
  unfold Passes WasmTool.Reaches
  rw [← hfilled]
  cases checkHttpAllowed env.toHttpEnv data (filledUrl data req) req.method with
  | error e => simp
  | ok u =>
    cases (recordHttpRequest data).1 with
    | error e => simp
    | ok u =>
      cases leakScan env data req with
      | error e => simp
      | ok u => simp [eq_comm]

/-- The URL that is sent is the checked one, with more parameters. -/
theorem injected_parses (hreparses : Reparses env) (hurl : env.parse (filledUrl data req) = .ok url) :
    ∃ pairs : List (String × String), env.parse (injected env data req).2 = .ok (pairs.foldl Url.appendPair url) := by
  have hfold : ∀ (creds : List ResolvedHostCredential) (host : String) (headers : List (String × String)) (text : String)
      (pairs : List (String × String)), env.parse text = .ok (pairs.foldl Url.appendPair url) →
      ∃ pairs' : List (String × String),
        env.parse (injectHostCredentials env creds host headers text).2 = .ok (pairs'.foldl Url.appendPair url) := by
    intro creds host
    induction creds with
    | nil => exact fun headers text pairs htext => ⟨pairs, htext⟩
    | cons cred rest ih =>
      intro headers text pairs htext
      unfold injectHostCredentials
      rw [List.foldl_cons]
      split
      next =>
        by_cases hparams : cred.queryParams = []
        · refine ih _ _ pairs ?_
          simpa [appendPairs, hparams] using htext
        · refine ih _ _ (pairs ++ cred.queryParams) ?_
          have hdisplay := hreparses _ url (pairs ++ cred.queryParams) hurl
          rw [List.foldl_append] at hdisplay
          simpa only [appendPairs, List.isEmpty_iff, hparams, if_false, htext, List.foldl_append] using hdisplay
      next => exact ih _ _ pairs htext
  unfold injected
  cases extractHostFromUrl env.parse (filledUrl data req) with
  | none => exact ⟨[], hurl⟩
  | some host => exact hfold _ host _ _ [] hurl

variable {r : Request}

/-- The first request goes to the URL of the check, with more parameters. -/
theorem firstRequest_spec (hreparses : Reparses env) (h : firstRequest env data req = some r) :
    WasmTool.Reaches env.toHttpEnv data req ∧ r.referer = none ∧ Allows data r.url r.method ∧
      ∃ url, env.parse (filledUrl data req) = .ok url ∧ r.url.host = url.host ∧ r.url.hostStr = url.hostStr := by
  unfold firstRequest at h
  cases hcheck : (checkRequest env data req).1 with
  | error e => simp [hcheck] at h
  | ok sent =>
    obtain ⟨⟨hreaches, -⟩, rfl⟩ := checkRequest_ok_iff.mp hcheck
    rw [hcheck] at h
    dsimp only at h
    split_ifs at h with hready
    simp only [Bool.and_eq_true, List.contains_iff_mem] at hready
    obtain ⟨url, hurl, capability, hhttp, hallowed⟩ := checkHttpAllowed_ok hreaches.1
    obtain ⟨pairs, hpairs⟩ : ∃ pairs : List (String × String),
        env.parse (injected env data req).2 = .ok (pairs.foldl Url.appendPair url) := injected_parses hreparses hurl
    unfold buildRequest at h
    rw [hpairs] at h
    dsimp only at h
    split_ifs at h
    · obtain rfl := Option.some.inj h
      have hhost : ∀ (pairs : List (String × String)) (u : Url),
          (pairs.foldl Url.appendPair u).host = u.host ∧ (pairs.foldl Url.appendPair u).hostStr = u.hostStr := by
        intro pairs
        induction pairs with
        | nil => exact fun u => ⟨rfl, rfl⟩
        | cons p pairs ih => exact fun u => ih _
      refine ⟨hreaches, rfl, ⟨capability, hhttp, ?_⟩, url, hurl, hhost pairs url⟩
      dsimp only
      rw [validate_appendPairs]
      exact validate_upper hready.2 hallowed
    · cases h

/-- The credentials that were put in are for the host of the first request. -/
theorem covered_first {cred : ResolvedHostCredential} (hcred : cred ∈ matching env.toHttpEnv data req)
    (hurl : env.parse (filledUrl data req) = .ok url) (hhost : r.url.hostStr = url.hostStr) : CoveredBy cred r.url := by
  unfold matching at hcred
  cases htarget : targetHost env.toHttpEnv data req with
  | none => simp [htarget] at hcred
  | some host =>
    rw [htarget] at hcred
    obtain ⟨-, hmatch⟩ := List.mem_filter.mp hcred
    obtain ⟨pattern, hpattern, hp⟩ := List.any_eq_true.mp hmatch
    have hof : Proxy.hostOf r.url = some host := by
      have hparse : env.parse (injectCredentials data.credentials req.url) = .ok url := hurl
      simp only [targetHost, extractHostFromUrl, hparse] at htarget
      split_ifs at htarget
      rw [Proxy.hostOf, hhost]
      exact htarget
    exact ⟨host, hof, pattern, hpattern, (Proxy.hostMatchesPattern_iff host pattern).mp hp⟩

/-! ## What a call does -/

variable (answers : List (Except String RawResponse))

variable (env data req) in
/-- The requests of a call are those of the exchange that begins with the first one. -/
theorem httpRequest_sent : (httpRequest env data req answers).sent =
      match firstRequest env data req with
      | none => []
      | some r => (Reqwest.exchange env.join location maxRedirects r answers).1 := by
  obtain ⟨⟨n, hn⟩, -⟩ : _ ∧ (checkRequest env data req).1 = _ := checkRequest_eq
  unfold httpRequest firstRequest
  rcases hcheck : checkRequest env data req with ⟨checked, after⟩
  rw [hcheck] at hn
  obtain rfl : after = { data with httpRequestCount := n } := hn
  cases checked with
  | error e => rfl
  | ok sent =>
    dsimp only
    cases hruntime : data.httpRuntime with
    | true =>
      simp only [if_true, Bool.true_or, Bool.true_and, exchange]
      cases env.client with
      | error e => rfl
      | ok u =>
        by_cases hmethod : toUppercase req.method ∈ supportedMethods
        · simp only [hmethod, if_true, Except.isOk, Except.toBool, List.contains_iff_mem.mpr hmethod, Bool.true_and]
          cases buildRequest env req sent.1 sent.2 <;> rfl
        · simp [hmethod]
    | false =>
      simp only [Bool.false_eq_true, if_false, Bool.false_or, exchange]
      cases env.runtime with
      | error e => rfl
      | ok u =>
        cases env.client with
        | error e => rfl
        | ok u =>
          by_cases hmethod : toUppercase req.method ∈ supportedMethods
          · simp only [hmethod, if_true, Except.isOk, Except.toBool, List.contains_iff_mem.mpr hmethod,
              Bool.true_and]
            cases buildRequest env req sent.1 sent.2 <;> rfl
          · simp [hmethod]

/-- What the channel is told, check by check. -/
theorem httpRequest_result : (httpRequest env data req answers).result =
      match checkHttpAllowed env.toHttpEnv data (filledUrl data req) req.method with
      | .error e => .error ("HTTP not allowed: " ++ e)
      | .ok () =>
        match (recordHttpRequest data).1 with
        | .error e => .error ("Rate limit exceeded: " ++ e)
        | .ok () =>
          match leakScan env data req with
          | .error e => .error ("Potential secret leak blocked: " ++ e.display)
          | .ok () =>
            match (if data.httpRuntime then .ok () else env.runtime) with
            | .error e => .error ("Failed to create HTTP runtime: " ++ e)
            | .ok () =>
              (exchange env (maxResponseBytes data) req (injected env data req).1 (injected env data req).2
                answers).2.mapError (redactCredentials data) := by
  obtain ⟨⟨n, hn⟩, hchecked⟩ : _ ∧ (checkRequest env data req).1 = _ := checkRequest_eq
  unfold httpRequest
  rcases hcheck : checkRequest env data req with ⟨checked, after⟩
  rw [hcheck] at hn hchecked
  obtain rfl : after = { data with httpRequestCount := n } := hn
  obtain rfl : checked = _ := hchecked
  cases checkHttpAllowed env.toHttpEnv data (filledUrl data req) req.method with
  | error e => rfl
  | ok u =>
    cases (recordHttpRequest data).1 with
    | error e => rfl
    | ok u =>
      cases leakScan env data req with
      | error e => rfl
      | ok u =>
        dsimp only
        cases (if data.httpRuntime then .ok () else env.runtime : Except String Unit) with
        | error e => rfl
        | ok u => rfl

theorem readyRuntime {e : String} : (if data.httpRuntime then .ok () else env.runtime) = .error e ↔
    data.httpRuntime = false ∧ env.runtime = .error e := by
  cases data.httpRuntime <;> simp

/-! ### The errors, one by one -/

theorem checkHttpAllowed_error_iff {e : String} :
    checkHttpAllowed env.toHttpEnv data (filledUrl data req) req.method = .error e ↔
      (data.http = none ∧ e = "HTTP capability not granted") ∨
        ∃ reason, Denied env data req reason ∧ e = "HTTP request not allowed: " ++ env.debugResult (.denied reason) := by
  unfold checkHttpAllowed Denied
  cases data.http with
  | none => simp [eq_comm]
  | some capability =>
    cases hvalidate : (AllowlistValidator.new capability.allowlist).validate env.parse (filledUrl data req) req.method with
    | allowed => simp [hvalidate]
    | denied reason => simp [hvalidate, eq_comm]

theorem recordHttpRequest_error_iff {e : String} (hhttp : data.http.isSome) : (recordHttpRequest data).1 = .error e ↔
    50 < (data.httpRequestCount + 1) % 2 ^ 32 ∧ e = "Too many HTTP requests in single execution (max 50)" := by
  obtain ⟨capability, hcapability⟩ := Option.isSome_iff_exists.mp hhttp
  simp only [recordHttpRequest, hcapability]
  by_cases hcount : 50 < (data.httpRequestCount + 1) % 2 ^ 32
  · simp only [hcount, if_true, true_and]
    exact ⟨fun h => (Except.error.inj h).symm, fun h => h ▸ rfl⟩
  · simp only [hcount, if_false, false_and, iff_false]
    exact nofun

theorem leakScan_error_iff {e : LeakDetectionError} : leakScan env data req = .error e ↔
    ∃ p, firstSeen env data req = some p ∧ report env.isWord LeakDetector.new p = .error e := by
  have hscan : leakScan env data req = (firstSeen env data req).elim (.ok ()) (report env.isWord LeakDetector.new) :=
    WasmTool.scanHttpRequest_eq _ _ _ _
  rw [hscan]
  cases firstSeen env data req with
  | none => simp
  | some p => simp

theorem readResponse_error_iff {limit : Nat} {response : RawResponse} {text : String} :
    readResponse env.isWord limit response = .error text ↔ Unreadable env limit response text := by
  have hfits : ¬ response.contentLength.any (limit < ·) = true ↔
      ∀ size, response.contentLength = some size → size ≤ limit := by
    cases response.contentLength <;> simp
  unfold readResponse
  constructor
  · intro h
    split_ifs at h with hdeclared
    · obtain rfl := Except.error.inj h
      obtain ⟨size, hsize, hlong⟩ := (Option.any_eq_true _ _).mp hdeclared
      rw [hsize]
      exact .declared size hsize (of_decide_eq_true hlong)
    rw [hfits] at hdeclared
    cases hbody : response.body with
    | error e =>
      simp only [hbody] at h
      obtain rfl := Except.error.inj h
      exact .broken e hdeclared hbody
    | ok body =>
      simp only [hbody, WasmTool.scanBody] at h
      split_ifs at h with hlong
      · obtain rfl := Except.error.inj h
        exact .long body hdeclared hbody hlong
      cases htext : fromUtf8 body with
      | none => simp [htext] at h
      | some decoded =>
        cases hscan : LeakDetector.new.scanAndClean env.isWord decoded with
        | ok cleaned => simp [htext, hscan] at h
        | error e =>
          simp only [htext, hscan] at h
          obtain rfl := Except.error.inj h
          exact .leak body decoded e hdeclared hbody (Nat.not_lt.mp hlong) htext hscan
  · intro h
    cases h with
    | declared size hsize hlong => simp [hsize, hlong]
    | broken e hshort hbody => rw [if_neg (hfits.mpr hshort), hbody]
    | long body hshort hbody hlong =>
      rw [if_neg (hfits.mpr hshort), hbody]
      simp [hlong]
    | leak body decoded e hshort hbody hlen htext hscan =>
      rw [if_neg (hfits.mpr hshort), hbody]
      simp [Nat.not_lt.mpr hlen, WasmTool.scanBody, htext, hscan]

theorem exchange_error_iff {answers : List (Except String RawResponse)} {text : String} :
    (exchange env (maxResponseBytes data) req (injected env data req).1 (injected env data req).2 answers).2 =
      .error text ↔
      Fails env data req answers text := by
  unfold exchange
  constructor
  · intro h
    cases hclient : env.client with
    | error e =>
      simp only [hclient] at h
      obtain rfl := Except.error.inj h
      exact .client e hclient
    | ok u =>
      by_cases hmethod : toUppercase req.method ∈ supportedMethods
      · cases hbuild : buildRequest env req (injected env data req).1 (injected env data req).2 with
        | error failure =>
          simp only [hclient, hmethod, if_true, hbuild] at h
          obtain rfl := Except.error.inj h
          exact .build failure hclient hmethod hbuild
        | ok r =>
          simp only [hclient, hmethod, if_true, hbuild] at h
          cases hsend : (Reqwest.exchange env.join location maxRedirects r answers).2 with
          | error failure =>
            simp only [hsend] at h
            obtain rfl := Except.error.inj h
            exact .send r failure hclient hmethod hbuild hsend
          | ok response =>
            simp only [hsend] at h
            exact .read r response text hclient hmethod hbuild hsend (readResponse_error_iff.mp h)
      · simp only [hclient, hmethod, if_false] at h
        obtain rfl := Except.error.inj h
        exact .method hclient hmethod
  · intro h
    cases h with
    | client e hclient => simp only [hclient]
    | method hclient hmethod => simp only [hclient, hmethod, if_false]
    | build failure hclient hmethod hbuild => simp only [hclient, hmethod, if_true, hbuild]
    | send r failure hclient hmethod hbuild hsend => simp only [hclient, hmethod, if_true, hbuild, hsend]
    | read r response text hclient hmethod hbuild hsend hread =>
      simp only [hclient, hmethod, if_true, hbuild, hsend]
      exact readResponse_error_iff.mpr hread

theorem urlencode_ne_empty {s : String} (hs : s ≠ "") : urlencode s ≠ "" := by
  intro hempty
  have hnil := congrArg String.toList hempty
  rw [urlencode, percentEncode, String.toList_ofList, String.toList_empty, List.flatMap_eq_nil_iff] at hnil
  obtain ⟨c, hc⟩ := List.exists_mem_of_ne_nil s.toList (by simpa using hs)
  obtain ⟨b, hb⟩ := List.exists_mem_of_ne_nil (String.utf8EncodeChar c) (by
    apply List.ne_nil_of_length_pos
    rw [String.length_utf8EncodeChar]
    exact c.utf8Size_pos)
  -- Each byte is written as a character or as an escape.
  have hbyte := hnil b (List.mem_flatMap.mpr ⟨c, hc, hb⟩)
  split at hbyte <;> cases hbyte

theorem redactCredentials_eq (data : ChannelStoreData) (text : String) :
    redactCredentials data text = scrub (replacements data) text := by
  have hencoded : urlencode "" = "" := by decide
  have hone : ∀ (value tag result : String),
      scrub ((value, tag) :: if urlencode value ≠ value then [(urlencode value, tag)] else []) result =
        if value.isEmpty then result
        else if urlencode value ≠ value then replaceAll (replaceAll result value tag) (urlencode value) tag
        else replaceAll result value tag := by
    intro value tag result
    by_cases hempty : value = ""
    · simp [scrub, hempty, hencoded]
    · have hkept : urlencode value ≠ "" := urlencode_ne_empty hempty
      by_cases hsame : urlencode value = value
      · simp [scrub, hempty, hsame]
      · simp [scrub, hempty, hsame, hkept]
  have hall : ∀ (pairs : List (String × String)) (result : String),
      scrub (pairs.flatMap fun s => s :: if urlencode s.1 ≠ s.1 then [(urlencode s.1, s.2)] else []) result =
        pairs.foldl (fun result s => if s.1.isEmpty then result
          else if urlencode s.1 ≠ s.1 then replaceAll (replaceAll result s.1 s.2) (urlencode s.1) s.2
          else replaceAll result s.1 s.2) result := by
    intro pairs
    induction pairs with
    | nil => exact fun _ => rfl
    | cons s rest ih =>
      intro result
      rw [List.flatMap_cons, List.foldl_cons, ← hone, ← ih, scrub, List.foldl_append]
      rfl
  rw [replacements, hall, tagged, List.foldl_append, List.foldl_map, List.foldl_map]
  rfl

/-- Redaction leaves none of the values that overlap no tag. -/
theorem redacted_shows_nothing (hseparate : Separate data) (text : String) :
    ¬ Shows data (scrub (replacements data) text) := by
  rintro ⟨v, hv, hne, hshown⟩
  obtain ⟨tag, htag⟩ := WasmTool.mem_secretValues.mp hv
  rw [contains_iff] at hshown
  have hmem : (v, tag) ∈ replacements data := List.mem_flatMap.mpr ⟨(v, tag), htag, List.mem_cons_self⟩
  refine scrub_clean hne hmem ?_ text hshown
  intro s hs _
  -- The tag of every replacement is one of a value.
  obtain ⟨t, ht, hst⟩ := List.mem_flatMap.mp hs
  have htag' : s.2 = t.2 := by
    rcases List.mem_cons.mp hst with rfl | hst
    · rfl
    · split_ifs at hst
      · rw [List.mem_singleton.mp hst]
      · cases hst
  exact htag' ▸ hseparate v hv hne t ht

/-- No error of a call shows a value exactly when the words of none do. -/
theorem httpRequest_errors :
    (∀ e, (httpRequest env data req answers).result = .error e → ¬ Shows data e) ↔ Discreet env data req answers := by
  have hfilled : filledUrl data req = injectCredentials data.credentials req.url := rfl
  have hallowed_iff : checkHttpAllowed env.toHttpEnv data (filledUrl data req) req.method = .ok () ↔
      data.http.isSome ∧ ∀ reason, ¬ Denied env data req reason := by
    constructor
    · intro hallowed
      refine ⟨Option.isSome_iff_ne_none.mpr fun hnone => ?_, fun reason hdenied => ?_⟩
      · cases hallowed.symm.trans (checkHttpAllowed_error_iff.mpr (.inl ⟨hnone, rfl⟩))
      · cases hallowed.symm.trans (checkHttpAllowed_error_iff.mpr (.inr ⟨reason, hdenied, rfl⟩))
    · rintro ⟨hgranted, hno⟩
      cases hcheck : checkHttpAllowed env.toHttpEnv data (filledUrl data req) req.method with
      | ok u => rfl
      | error e =>
        rcases checkHttpAllowed_error_iff.mp hcheck with ⟨hnone, -⟩ | ⟨reason, hdenied, -⟩
        · simp [hnone] at hgranted
        · exact absurd hdenied (hno reason)
  rw [httpRequest_result]
  constructor
  · intro h
    refine ⟨?_, ?_, ?_, ?_, ?_, ?_⟩
    · intro hnone
      have herror : checkHttpAllowed env.toHttpEnv data (filledUrl data req) req.method =
          .error "HTTP capability not granted" := checkHttpAllowed_error_iff.mpr (.inl ⟨hnone, rfl⟩)
      exact h _ (by simp only [herror]; rfl)
    · intro reason hdenied
      have herror := checkHttpAllowed_error_iff.mpr (.inr ⟨reason, hdenied, rfl⟩)
      exact h _ (by simp only [herror]; rfl)
    · intro hgranted hno hcount
      have hallowed := hallowed_iff.mpr ⟨hgranted, hno⟩
      have herror := (recordHttpRequest_error_iff hgranted).mpr ⟨hcount, rfl⟩
      exact h _ (by simp only [hallowed, herror]; rfl)
    · intro hreaches p e hfirst hreport
      have hallowed := hreaches.1
      rw [← hfilled] at hallowed
      have herror := leakScan_error_iff.mpr ⟨p, hfirst, hreport⟩
      exact h _ (by simp only [hallowed, hreaches.2, herror])
    · intro hpasses hno e he
      have hallowed := hpasses.1.1
      rw [← hfilled] at hallowed
      exact h _ (by simp only [hallowed, hpasses.1.2, hpasses.2, readyRuntime.mpr ⟨hno, he⟩])
    · intro hpasses hready text hfails
      have hallowed := hpasses.1.1
      rw [← hfilled] at hallowed
      have hrun : (if data.httpRuntime then .ok () else env.runtime) = .ok () := by
        rcases hready with h' | h'
        · rw [if_pos h']
        · rw [h', ite_self]
      rw [← redactCredentials_eq]
      refine h _ ?_
      simp only [hallowed, hpasses.1.2, hpasses.2, hrun, exchange_error_iff.mpr hfails]
      rfl
  · intro h e he
    -- The error is the one of the first check that fails.
    split at he
    next denial hdenial =>
      obtain rfl := Except.error.inj he
      rcases checkHttpAllowed_error_iff.mp hdenial with ⟨hnone, rfl⟩ | ⟨reason, hdenied, rfl⟩
      · exact h.ungranted hnone
      · rw [← String.append_assoc]
        exact h.denied reason hdenied
    next hallowed =>
      obtain ⟨hgranted, hno⟩ := hallowed_iff.mp hallowed
      split at he
      next limit hlimit =>
        obtain rfl := Except.error.inj he
        obtain ⟨hcount, rfl⟩ := (recordHttpRequest_error_iff hgranted).mp hlimit
        exact h.limited hgranted hno hcount
      next hrecorded =>
        have hreaches : WasmTool.Reaches env.toHttpEnv data req := ⟨by rw [← hfilled]; exact hallowed, hrecorded⟩
        split at he
        next leak hleak =>
          obtain rfl := Except.error.inj he
          obtain ⟨p, hfirst, hreport⟩ := leakScan_error_iff.mp hleak
          exact h.leak hreaches p leak hfirst hreport
        next hclean =>
          split at he
          next text hruntime =>
            obtain rfl := Except.error.inj he
            obtain ⟨hno, hfails⟩ := readyRuntime.mp hruntime
            exact h.runtime ⟨hreaches, hclean⟩ hno text hfails
          next hruntime =>
            have hready : data.httpRuntime = true ∨ env.runtime = .ok () := by
              split_ifs at hruntime with hown
              · exact .inl hown
              · exact .inr hruntime
            cases hex : (exchange env (maxResponseBytes data) req (injected env data req).1
                (injected env data req).2 answers).2 with
            | ok r =>
              rw [hex] at he
              cases he
            | error text =>
              rw [hex] at he
              obtain rfl : redactCredentials data text = e := Except.error.inj he
              rw [redactCredentials_eq]
              exact h.transport ⟨hreaches, hclean⟩ hready text (exchange_error_iff.mp hex)

/-! ## Confinement -/

/-- The channel's server, and the metadata service of the machine that the channel runs on. -/
def serverUrl : Url := ⟨"https", "", none, some (.domain "api.example.com"), some "api.example.com", none, "/", none⟩

def metadataUrl : Url :=
  ⟨"http", "", none, some (.ipv4 ⟨169, 254, 169, 254⟩), some "169.254.169.254", none, "/latest/meta-data/", none⟩

/-- Libraries that know the URLs of the server with their queries, and the one of the metadata service. -/
def exampleEnv : HttpEnv where
  parse s :=
    match stripPrefix s "https://api.example.com/?" with
    | some query => .ok { serverUrl with query := some query }
    | none => if s = "https://api.example.com/" then .ok serverUrl else .error "relative URL without a base"
  dns _ := .ok [.v4 ⟨93, 184, 216, 34⟩]
  isWord := LeakPrefix.asciiWord
  debugResult _ := "Denied(EmptyAllowlist)"
  parseHeaders _ := some []
  runtime := .ok ()
  client := .ok ()
  send _ := .error "not used"
  display u := "https://api.example.com/" ++ (match u.query with
    | some query => "?" ++ query
    | none => "")
  join _ s := if s = "http://169.254.169.254/latest/meta-data/" then some metadataUrl else none
  headerOk _ := true

/-- A channel with a key in a header for its server. -/
def exampleChannel : ChannelStoreData where
  http := some ⟨[⟨"api.example.com", none, []⟩], 1024⟩
  credentials := []
  hostCredentials := [⟨["api.example.com"], [("X-Api-Key", "k3y")], [], "k3y"⟩]

def exampleGet : WasmRequest := ⟨"GET", "https://api.example.com/", "", none, none⟩

def answer (status : Nat) (headers : List (String × List UInt8)) : Except String RawResponse :=
  .ok ⟨status, headers, none, .ok []⟩

theorem exampleEnv_reparses : Reparses exampleEnv := by
  have hstrip : ∀ query, stripPrefix ("https://api.example.com/" ++ ("?" ++ query)) "https://api.example.com/?" =
      some query := by
    intro query
    have hstarts : startsWith ("https://api.example.com/" ++ ("?" ++ query)) "https://api.example.com/?" = true :=
      startsWith_iff.mpr ⟨query, by rw [← String.append_assoc]; rfl⟩
    simp only [stripPrefix, hstarts, if_true, Option.some.injEq]
    apply String.toList_inj.mp
    simp
  have hparsed : ∀ query, exampleEnv.parse (exampleEnv.display { serverUrl with query := query }) =
      .ok { serverUrl with query := query } := by
    rintro (_ | query)
    · decide +kernel
    · show (match stripPrefix ("https://api.example.com/" ++ ("?" ++ query)) "https://api.example.com/?" with
        | some query => Except.ok { serverUrl with query := some query }
        | none => _) = _
      rw [hstrip]
  intro text url pairs hurl
  have hform : ∃ query, url = { serverUrl with query := query } := by
    simp only [exampleEnv] at hurl
    split at hurl
    next query hquery => exact ⟨some query, (Except.ok.inj hurl).symm⟩
    next =>
      split_ifs at hurl
      exact ⟨none, (Except.ok.inj hurl).symm⟩
  obtain ⟨query, rfl⟩ := hform
  have hfold : ∀ (pairs : List (String × String)) (query : Option String), ∃ query' : Option String,
      pairs.foldl Url.appendPair { serverUrl with query := query } = { serverUrl with query := query' } := by
    intro pairs
    induction pairs with
    | nil => exact fun query => ⟨query, rfl⟩
    | cons p pairs ih => exact fun query => ih _
  obtain ⟨query', hquery'⟩ := hfold pairs query
  rw [hquery']
  exact hparsed query'

end Freeclawdia.WasmChannel
