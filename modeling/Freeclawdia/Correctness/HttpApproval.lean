import Freeclawdia.Rust.Replace
import Freeclawdia.Tools.Builtin.Http

/-!
# `Correctness.HttpApproval` — an HTTP call without approval carries no authority

`requires_approval` and `execute` read the same parameters by different code. The results here say that they agree on
everything that gives a request authority: when no approval is needed, the call sends plain GET requests to validated
URLs and nothing else, and whenever a credential goes along, the caller's or the registry's, approval is always needed.
-/

namespace Freeclawdia.HttpApproval

open Rust HttpTool CredentialDetect

/-! ## Reading the parameters -/

variable {url : String} {u : Url}

/-- An accepted URL is the parsed one, and has a host. -/
theorem validateUrl_ok {parse : UrlParser} {dns : Resolver} (h : validateUrl parse dns url = .ok u) :
    parse url = .ok u ∧ ∃ host, u.hostStr = some host := by
  unfold validateUrl at h
  cases hparse : parse url with
  | error e => simp [hparse] at h
  | ok parsed =>
    simp only [hparse] at h
    split_ifs at h
    cases hhost : parsed.hostStr with
    | none => simp [hhost] at h
    | some host =>
      simp only [hhost] at h
      split_ifs at h
      cases hres : toSocketAddrs dns host with
      | error e =>
        simp only [hres, Except.ok.injEq] at h
        exact ⟨congrArg Except.ok h, host, h ▸ hhost⟩
      | ok addrs =>
        simp only [hres] at h
        cases hcheck : checkResolved host addrs with
        | error e => simp [hcheck, Except.map] at h
        | ok x =>
          simp only [hcheck, Except.map, Except.ok.injEq] at h
          exact ⟨congrArg Except.ok h, host, h ▸ hhost⟩

variable {params : Json}

theorem requireStr_ok {name s : String} (h : requireStr params name = .ok s) :
    (params.get name).bind Json.asStr = some s := by
  unfold requireStr at h
  cases hv : (params.get name).bind Json.asStr with
  | none => simp [hv] at h
  | some v =>
    simp only [hv, Except.ok.injEq] at h
    rw [h]

variable {w : World}

/-- The URL the tool requests is the one whose host the approval check looks at. -/
theorem extractHost_eq (hurl : requireStr params "url" = .ok url) (hu : validateUrl w.parse w.dns url = .ok u) :
    extractHostFromParams w.parse params = some (u.hostStr.getD "") := by
  obtain ⟨hparse, host, hhost⟩ := validateUrl_ok hu
  simp [extractHostFromParams, parsedUrl, requireStr_ok hurl, hparse, Except.toOption, hhost]

variable {tool : Config} {p : Prepared} {userId : String}

/-- What a prepared request is made of. -/
theorem prepare_ok (h : prepare w tool userId params = .ok p) :
    ∃ url u hs, requireStr params "url" = .ok url ∧ validateUrl w.parse w.dns url = .ok u ∧
      parseHeadersParam (params.get "headers") = .ok hs ∧ p.injected = credentialsFor tool userId (u.hostStr.getD "") ∧
      p.url = (p.injected.flatMap InjectedCredentials.queryParams).foldl w.appendPair u ∧
      p.headers = hs ++ p.injected.flatMap InjectedCredentials.headers ∧ p.body = bodyOf w params := by
  unfold prepare at h
  split at h
  · simp at h
  · split at h
    · simp at h
    · next url hurl =>
        split at h
        · simp at h
        · next u hu =>
            split at h
            · simp at h
            · next hs hhs =>
                split at h
                · simp at h
                · simp only [Except.ok.injEq] at h
                  subst h
                  exact ⟨url, u, hs, hurl, hu, hhs, rfl, rfl, rfl, rfl⟩

/-! ## Headers -/

variable {hs : List (String × String)} {x : String × String}

theorem objectHeaders_mem {fields : List (String × Json)} (h : objectHeaders fields = .ok hs) (hx : x ∈ hs) :
    (x.1, Json.string x.2) ∈ fields := by
  induction fields generalizing hs with
  | nil =>
    simp only [objectHeaders, Except.ok.injEq] at h
    simp [← h] at hx
  | cons f rest ih =>
    obtain ⟨k, v⟩ := f
    unfold objectHeaders at h
    cases v with
    | string value =>
      simp only [Json.asStr] at h
      cases hrest : objectHeaders rest with
      | error e => simp [hrest, Except.map] at h
      | ok out =>
        simp only [hrest, Except.map, Except.ok.injEq] at h
        subst h
        rcases List.mem_cons.1 hx with rfl | hx
        · exact List.mem_cons_self
        · exact List.mem_cons_of_mem _ (ih hrest hx)
    | _ => simp [Json.asStr] at h

/-- A header of a list comes from an entry with that name and value. -/
theorem arrayHeaders_mem {items : List Json} {idx : Nat} (h : arrayHeaders idx items = .ok hs) (hx : x ∈ hs) :
    ∃ item ∈ items, (item.get "name").bind Json.asStr = some x.1 ∧ (item.get "value").bind Json.asStr = some x.2 := by
  induction items generalizing idx hs with
  | nil =>
    simp only [arrayHeaders, Except.ok.injEq] at h
    simp [← h] at hx
  | cons item rest ih =>
    unfold arrayHeaders at h
    cases hitem : arrayHeader idx item with
    | error e => simp [hitem] at h
    | ok header =>
      simp only [hitem] at h
      cases hrest : arrayHeaders (idx + 1) rest with
      | error e => simp [hrest, Except.map] at h
      | ok out =>
        simp only [hrest, Except.map, Except.ok.injEq] at h
        subst h
        rcases List.mem_cons.1 hx with rfl | hx
        · refine ⟨item, List.mem_cons_self, ?_⟩
          unfold arrayHeader at hitem
          split at hitem
          · split at hitem
            · simp at hitem
            · next name hname =>
                split at hitem
                · simp at hitem
                · next value hvalue =>
                    simp only [Except.ok.injEq] at hitem
                    subst hitem
                    exact ⟨hname, hvalue⟩
          · simp at hitem
        · obtain ⟨item', hmem, hboth⟩ := ih hrest hx
          exact ⟨item', List.mem_cons_of_mem _ hmem, hboth⟩

/-- A header that is a credential by its name or its value. -/
def IsCredential (x : String × String) : Prop :=
  headerNameIsCredential x.1 = true ∨ headerValueIsCredential x.2 = true

/-- **Credential headers**: in lower case, the name is listed or has a listed word in it, or the value starts with a
    listed scheme. -/
theorem isCredential_iff : IsCredential x ↔
    (toLowercase x.1 ∈ authHeaderExact ∨ ∃ word ∈ authHeaderSubstrings, word.toList <:+: (toLowercase x.1).toList) ∨
      ∃ scheme ∈ authValuePrefixes, ∃ rest, toLowercase x.2 = scheme ++ rest := by
  unfold IsCredential headerNameIsCredential nameSuggests headerValueIsCredential
  simp only [List.any_eq_true, startsWith_iff]
  refine or_congr ?_ Iff.rfl
  split
  next hlisted => exact iff_of_true rfl (.inl (List.contains_iff_mem.mp hlisted))
  next hlisted =>
    simp only [List.any_eq_true, contains_iff]
    exact (or_iff_right fun h => hlisted (List.contains_iff_mem.mpr h)).symm

/-- A credential among the headers that are sent is one the approval check detects. -/
theorem detects_credential (h : parseHeadersParam (params.get "headers") = .ok hs) (hx : x ∈ hs) (hc : IsCredential x) :
    headersContainCredentials params = true := by
  unfold headersContainCredentials
  cases hp : params.get "headers" with
  | none =>
    simp only [hp, parseHeadersParam, Except.ok.injEq] at h
    simp [← h] at hx
  | some v =>
    rw [hp] at h
    cases v with
    | object fields =>
      have hmem := objectHeaders_mem h hx
      simp only [List.any_eq_true, Bool.or_eq_true]
      refine ⟨_, hmem, ?_⟩
      rcases hc with hn | hv
      · exact Or.inl hn
      · exact Or.inr (by simpa [Json.asStr] using hv)
    | array items =>
      obtain ⟨item, hmem, hname, hvalue⟩ := arrayHeaders_mem h hx
      simp only [List.any_eq_true, Bool.or_eq_true]
      refine ⟨item, hmem, ?_⟩
      rcases hc with hn | hv
      · left
        rw [hname, Option.any_some]
        exact hn
      · right
        rw [hvalue, Option.any_some]
        exact hv
    | _ => simp [parseHeadersParam] at h

/-- Without an entry in the parameter there are no headers. -/
theorem headers_nil (h : parseHeadersParam (params.get "headers") = .ok hs) (hno : hasHeaders params = false) :
    hs = [] := by
  unfold hasHeaders at hno
  cases hp : params.get "headers" with
  | none =>
    simp only [hp, parseHeadersParam, Except.ok.injEq] at h
    exact h.symm
  | some v =>
    rw [hp] at h hno
    cases v with
    | object fields =>
      obtain rfl : fields = [] := by simpa using hno
      simpa [parseHeadersParam, objectHeaders] using h.symm
    | array items =>
      obtain rfl : items = [] := by simpa using hno
      simpa [parseHeadersParam, arrayHeaders] using h.symm
    | _ => simp [parseHeadersParam] at h

/-! ## Credentials of the registry -/

/-- A credential is injected only for a host the approval check finds one for. -/
theorem hostHasCredentials_of_injected (hurl : requireStr params "url" = .ok url)
    (hu : validateUrl w.parse w.dns url = .ok u) (h : credentialsFor tool userId (u.hostStr.getD "") ≠ []) :
    hostHasCredentials w tool params = true := by
  unfold credentialsFor at h
  unfold hostHasCredentials
  rw [extractHost_eq hurl hu]
  cases hreg : tool.credentialRegistry with
  | none => simp [hreg] at h
  | some registry =>
    cases hstore : tool.secretsStore with
    | none => simp [hreg, hstore] at h
    | some store =>
      simp only [hreg, hstore] at h
      obtain ⟨c, hc⟩ := List.exists_mem_of_ne_nil _ h
      obtain ⟨mapping, hmem, -⟩ := List.mem_filterMap.1 hc
      have hm := List.mem_filter.1 hmem
      exact List.any_eq_true.2 ⟨mapping, hm.1, hm.2⟩

/-! ## Requests -/

/-- A GET without a body, with the tool's own header only. -/
def Plain (r : HttpRequest) : Prop := r.method = "GET" ∧ r.body = none ∧ r.headers = [acceptHeader]

/-- The target of a redirect has passed the checks of a URL. -/
theorem redirectTarget_ok {url next : Url} {response : HttpResponse} (h : redirectTarget w url response = .ok next) :
    ∃ s, validateUrl w.parse w.dns s = .ok next := by
  unfold redirectTarget at h
  obtain ⟨scan, hscan⟩ : ∃ scan, scan = LeakDetector.scanHttpRequest w.isWord LeakDetector.new := ⟨_, rfl⟩
  rw [← hscan] at h
  split at h
  · simp at h
  · split at h
    · simp at h
    · next s hs =>
        split at h
        · simp at h
        · next u hu =>
            split at h
            · simp at h
            · simp only [Except.ok.injEq] at h
              exact ⟨s, h ▸ hu⟩

/-- The first hop goes to the given URL, every later one to a URL that was validated. -/
theorem followRedirects_sent (w : World) (remaining n : Nat) (url : Url) :
    ∃ rest, (followRedirects w remaining n url).1 = simpleGet url :: rest ∧
      ∀ r ∈ rest, ∃ s u, validateUrl w.parse w.dns s = .ok u ∧ r = simpleGet u := by
  induction remaining generalizing n url with
  | zero =>
    refine ⟨[], ?_, by simp⟩
    unfold followRedirects
    split
    · rfl
    · split_ifs <;> rfl
  | succ remaining ih =>
    unfold followRedirects
    split
    · exact ⟨[], rfl, by simp⟩
    · next response hsend =>
        split_ifs with hstatus
        · cases htarget : redirectTarget w url response with
          | error e => exact ⟨[], rfl, by simp⟩
          | ok next =>
            obtain ⟨rest, hrest, hvalid⟩ := ih (n + 1) next
            refine ⟨simpleGet next :: rest, by simp [hrest], ?_⟩
            intro r hr
            rcases List.mem_cons.1 hr with rfl | hr
            · obtain ⟨s, hs⟩ := redirectTarget_ok htarget
              exact ⟨s, next, hs, rfl⟩
            · exact hvalid r hr
        · exact ⟨[], rfl, by simp⟩

/-- A call that got past the preparation: what it injected, and what it sent. -/
theorem execute_cases (w : World) (tool : Config) (userId : String) (params : Json) :
    ((execute w tool userId params).injected = [] ∧ (execute w tool userId params).sent = []) ∨
      ∃ p, prepare w tool userId params = .ok p ∧ (execute w tool userId params).injected = p.injected ∧
        ((execute w tool userId params).sent = [] ∨ (execute w tool userId params).sent =
            (perform w (((params.get "method").bind Json.asStr).getD "") p).1) := by
  unfold execute
  obtain ⟨scan, hscan⟩ : ∃ scan, scan = LeakDetector.scanHttpRequest w.isWord LeakDetector.new := ⟨_, rfl⟩
  rw [← hscan]
  split
  · exact Or.inl ⟨rfl, rfl⟩
  · next p hp =>
      right
      refine ⟨p, hp, ?_⟩
      split
      · exact ⟨rfl, Or.inl rfl⟩
      · split
        · exact ⟨rfl, Or.inl rfl⟩
        · exact ⟨rfl, Or.inr rfl⟩

/-! ## Approval -/

/-- What is known of a call that needs no approval. -/
theorem of_never (h : requiresApproval w tool params = .never) : hostHasCredentials w tool params = false ∧
      eqIgnoreAsciiCase (((params.get "method").bind Json.asStr).getD "GET") "GET" = true ∧
      hasHeaders params = false ∧ params.get "body" = none := by
  unfold requiresApproval at h
  dsimp only at h
  split_ifs at h with h1 h2 h3
  simp only [Bool.and_eq_true, Bool.not_eq_true'] at h3
  refine ⟨by simpa using h2, h3.1.1, h3.1.2, by simpa using h3.2⟩

/-- A request of the call carries a credential header that the caller supplied. -/
def SendsManualCredential (params : Json) (run : Run) : Prop :=
  ∃ r ∈ run.sent, ∃ hs, parseHeadersParam (params.get "headers") = .ok hs ∧ ∃ x ∈ hs, x ∈ r.headers ∧ IsCredential x

theorem injected_nil_of_never (h : requiresApproval w tool params = .never) (hp : prepare w tool userId params = .ok p) :
    p.injected = [] := by
  obtain ⟨url, u, hs, hurl, hu, -, hinj, -⟩ := prepare_ok hp
  by_contra hne
  have := hostHasCredentials_of_injected hurl hu (hinj ▸ hne)
  rw [(of_never h).1] at this
  exact absurd this (by simp)

/-- A prepared call that needs no approval is a simple GET of the validated URL. -/
theorem simple_of_never (h : requiresApproval w tool params = .never) (hp : prepare w tool userId params = .ok p) :
    isSimpleGet (((params.get "method").bind Json.asStr).getD "") p = true ∧
      ∃ url, requireStr params "url" = .ok url ∧ validateUrl w.parse w.dns url = .ok p.url := by
  have hinj := injected_nil_of_never h hp
  obtain ⟨-, hget, hheaders, hbody⟩ := of_never h
  obtain ⟨url, u, hs, hurl, hu, hhs, -, hpurl, hph, hpb⟩ := prepare_ok hp
  have hurl' : p.url = u := by rw [hpurl, hinj]; rfl
  have hmethod : ∃ m, (params.get "method").bind Json.asStr = some m := by
    unfold prepare at hp
    split at hp
    · simp at hp
    · next m hm => exact ⟨m, requireStr_ok hm⟩
  obtain ⟨m, hm⟩ := hmethod
  refine ⟨?_, url, hurl, hurl' ▸ hu⟩
  rw [hm, Option.getD_some] at hget
  have hempty : p.headers = [] := by
    rw [hph, hinj, headers_nil hhs hheaders]
    rfl
  have hnone : p.body = none := by
    rw [hpb, bodyOf, hbody]
    rfl
  simp [isSimpleGet, hm, hget, hempty, hnone]

theorem always_of_manual (h : headersContainCredentials params = true) :
    requiresApproval w tool params = .always := by
  simp [requiresApproval, paramsContainManualCredentials, h]

theorem always_of_registry (h : hostHasCredentials w tool params = true) :
    requiresApproval w tool params = .always := by
  simp [requiresApproval, h]

/-- Approval-free HTTP carries no authority, and authority always needs approval. -/
theorem approval_covers_authority (w : World) (tool : Config) (userId : String) (params : Json) :
    (requiresApproval w tool params = .never →
      (execute w tool userId params).injected = [] ∧
        ∀ first rest, (execute w tool userId params).sent = first :: rest →
          (Plain first ∧ ∃ url, requireStr params "url" = .ok url ∧ validateUrl w.parse w.dns url = .ok first.url) ∧
          ∀ r ∈ rest, Plain r ∧ ∃ s, validateUrl w.parse w.dns s = .ok r.url) ∧
    ((execute w tool userId params).injected ≠ [] ∨ SendsManualCredential params (execute w tool userId params) →
      requiresApproval w tool params = .always) := by
  constructor
  · intro hnever
    rcases execute_cases w tool userId params with ⟨hinj, hsent⟩ | ⟨p, hp, hinj, hsent⟩
    · refine ⟨hinj, ?_⟩
      intro first rest hcons
      rw [hsent] at hcons
      exact absurd hcons (by simp)
    · refine ⟨hinj.trans (injected_nil_of_never hnever hp), ?_⟩
      intro first rest hcons
      rcases hsent with hsent | hsent
      · rw [hsent] at hcons
        exact absurd hcons (by simp)
      · obtain ⟨hsimple, url, hurl, hvalid⟩ := simple_of_never hnever hp
        rw [hsent, perform, if_pos hsimple] at hcons
        obtain ⟨tail, htail, hlater⟩ := followRedirects_sent w maxRedirects 0 p.url
        rw [htail, List.cons.injEq] at hcons
        obtain ⟨rfl, rfl⟩ := hcons
        refine ⟨⟨⟨rfl, rfl, rfl⟩, url, hurl, hvalid⟩, ?_⟩
        intro r hr
        obtain ⟨s, u, hs, rfl⟩ := hlater r hr
        exact ⟨⟨rfl, rfl, rfl⟩, s, hs⟩
  · rintro (hinj | ⟨r, hr, hs, hhs, x, hx, -, hc⟩)
    · rcases execute_cases w tool userId params with ⟨hnil, -⟩ | ⟨p, hp, hpinj, -⟩
      · exact absurd hnil hinj
      · obtain ⟨url, u, hs, hurl, hu, -, hcreds, -⟩ := prepare_ok hp
        exact always_of_registry (hostHasCredentials_of_injected hurl hu (hcreds ▸ hpinj ▸ hinj))
    · exact always_of_manual (detects_credential hhs hx hc)

/-- What a call injects is decided before anything is sent. -/
theorem execute_injected (w : World) (tool : Config) (userId : String) (params : Json) :
    (execute w tool userId params).injected =
      ((prepare w tool userId params).toOption.map Prepared.injected).getD [] := by
  unfold execute
  obtain ⟨scan, hscan⟩ : ∃ scan, scan = LeakDetector.scanHttpRequest w.isWord LeakDetector.new := ⟨_, rfl⟩
  rw [← hscan]
  split
  · next e he => simp [he, Except.toOption]
  · next p hp =>
      rw [hp]
      split
      · rfl
      · split
        · rfl
        · rfl

/-! ### A call with and without a credential -/

/-- An https URL of a host. -/
def hostUrl (host : String) : Url := ⟨"https", "", none, some (.domain host), some host, none, "/", none⟩

/-- Two hosts, of which the first redirects to the second. -/
def twoHosts : World where
  parse := fun url =>
    if url = "https://a.test/" then .ok (hostUrl "a.test")
    else if url = "https://b.test/" then .ok (hostUrl "b.test")
    else .error "relative URL without a base"
  dns := fun _ => .ok [.v4 ⟨93, 184, 215, 14⟩]
  urlText := fun u => "https://" ++ u.hostStr.getD "" ++ "/"
  join := fun _ _ => .error "relative URL without a base"
  queryPairs := fun _ => []
  appendPair := fun u pair => { u with query := some (pair.1 ++ "=" ++ pair.2) }
  jsonFromStr := fun _ => none
  jsonToVec := fun _ => []
  isWord := fun c => c.isAlphanum || c = '_'
  beforeRequest := fun _ _ _ _ => none
  send := fun n _ =>
    if n = 0 then .ok ⟨302, [("location", some "https://b.test/")], []⟩ else .ok ⟨200, [], []⟩

/-- A plain GET of the first host. -/
def getFirst : Json := .object [("method", .string "get"), ("url", .string "https://a.test/")]

/-- A bearer token for the first host. -/
def withToken : Config := ⟨some [⟨"token", .authorizationBearer, ["a.test"]⟩], some fun _ _ => some "t0ken"⟩

theorem getFirst_never : requiresApproval twoHosts ⟨none, none⟩ getFirst = .never := by decide

theorem getFirst_injects : (execute twoHosts withToken "user" getFirst).injected ≠ [] := by
  rw [execute_injected]
  decide

theorem get_with_and_without_token :
    requiresApproval twoHosts ⟨none, none⟩ getFirst = .never ∧
      (execute twoHosts ⟨none, none⟩ "user" getFirst).injected = [] ∧
      (execute twoHosts withToken "user" getFirst).injected ≠ [] ∧
      requiresApproval twoHosts withToken getFirst = .always := by
  have hplain := (approval_covers_authority twoHosts ⟨none, none⟩ "user" getFirst).1 getFirst_never
  have halways := (approval_covers_authority twoHosts withToken "user" getFirst).2 (Or.inl getFirst_injects)
  exact ⟨getFirst_never, hplain.1, getFirst_injects, halways⟩

end Freeclawdia.HttpApproval
