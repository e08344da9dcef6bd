import Freeclawdia.Rust.Url

/-!
# `Rust.Reqwest` — a client that follows redirects

The default client of the `reqwest` crate. It follows up to ten redirects: the first three of the statuses turn a request
into a GET without a body, the headers are sent again, but for those with credentials of their own when the host or the
port changes, and the URL that answered is the `Referer`, unless the redirect leaves HTTPS.

What a response is, is up to the caller; `location` reads the status and the `Location` of a redirect from it. The answers
are a sequence, one for each request that is sent.
-/

namespace Freeclawdia.Reqwest

open Rust

structure Request where
  method : String
  url : Url
  headers : List (String × String)
  referer : Option Url
  body : Option (List UInt8)
  timeoutMs : Option Nat
  deriving DecidableEq

/-- Why there is no response. -/
structure Failure where
  what : String
  url : Option Url
  cause : String

/-- `Display` of an error. -/
def Failure.display (display : Url → String) (f : Failure) : String :=
  f.what ++ match f.url with
    | some url => " for url (" ++ display url ++ ")"
    | none => ""

/-- The same with its cause. -/
def Failure.chain (display : Url → String) (f : Failure) : String := f.display display ++ " -> " ++ f.cause

/-- The number of redirects that are followed. -/
def maxRedirects : Nat := 10

/-- Headers that stay with their server. -/
def isSensitive (name : String) : Bool :=
  ["authorization", "cookie", "cookie2", "proxy-authorization", "www-authenticate"].any fun s => eqIgnoreAsciiCase name s

def sameServer (u v : Url) : Bool := u.hostStr = v.hostStr && u.portOrKnownDefault = v.portOrKnownDefault

/-- The headers that go along. -/
def keepHeaders (same : Bool) (headers : List (String × String)) : List (String × String) :=
  if same then headers else headers.filter fun h => !isSensitive h.1

/-- The URL that is named as the one before. -/
def refererFor (previous next : Url) : Option Url :=
  if next.scheme = "http" && previous.scheme = "https" then none
  else some { previous with username := "", password := none }

/-- The statuses that turn a request into a GET. -/
def rewrites (status : Nat) : Bool := [301, 302, 303].contains status

def methodAfter (status : Nat) (method : String) : String :=
  if rewrites status && method ≠ "GET" && method ≠ "HEAD" then "GET" else method

/-- The request after a redirect. -/
def redirected (status : Nat) (r : Request) (target : Url) : Request :=
  { method := methodAfter status r.method
    url := target
    headers := keepHeaders (sameServer r.url target) r.headers
    referer := refererFor r.url target
    body := if rewrites status then none else r.body
    timeoutMs := r.timeoutMs }

section Client

variable {ρ : Type} (join : Url → String → Option Url) (location : ρ → Option (Nat × String))

/-- Where a response to a request for `url` sends the client. -/
def redirectTarget (url : Url) (response : ρ) : Option (Nat × Url) :=
  (location response).bind fun l => (join url l.2).map fun target => (l.1, target)

/-- Send a request and follow the redirects of the answers. -/
def exchange : (left : Nat) → Request → List (Except String ρ) → List Request × Except Failure ρ
  | _, r, [] => ([r], .error ⟨"error sending request", some r.url, "connection closed"⟩)
  | _, r, .error cause :: _ => ([r], .error ⟨"error sending request", some r.url, cause⟩)
  | left, r, .ok response :: answers =>
    match redirectTarget join location r.url response with
    | none => ([r], .ok response)
    | some (status, target) =>
      match left with
      | 0 => ([r], .error ⟨"error following redirect", some target, "too many redirects"⟩)
      | left + 1 =>
        if target.scheme = "http" ∨ target.scheme = "https" then
          let (sent, result) := exchange left (redirected status r target) answers
          (r :: sent, result)
        else ([r], .error ⟨"builder error", some target, "URL scheme is not allowed"⟩)

/-! ## The chain of redirects -/

/-- A request after a redirect, without what the client was given. -/
structure Hop where
  method : String
  url : Url
  referer : Option Url

/-- Where the answers send the client, one after the other. -/
def hops : (left : Nat) → (method : String) → Url → List (Except String ρ) → List Hop
  | left + 1, method, url, .ok response :: answers =>
    match redirectTarget join location url response with
    | some (status, target) =>
      if target.scheme = "http" ∨ target.scheme = "https" then
        ⟨methodAfter status method, target, refererFor url target⟩ ::
          hops left (methodAfter status method) target answers
      else []
    | none => []
  | _, _, _, _ => []

/-- The hop of a request. -/
def Request.hop (r : Request) : Hop := ⟨r.method, r.url, r.referer⟩

variable {join location}

/-- The requests of an exchange are the first one and one for each hop. -/
theorem exchange_hops (left : Nat) (r : Request) (answers : List (Except String ρ)) :
    (exchange join location left r answers).1.map Request.hop =
      r.hop :: hops join location left r.method r.url answers := by
  induction left, r, answers using exchange.induct join location with
  | case1 left r => cases left <;> simp [exchange, hops]
  | case2 left r cause answers => cases left <;> simp [exchange, hops]
  | case3 left r response answers hnone => cases left <;> simp [exchange, hops, hnone]
  | case4 r response answers status target hsome => simp [exchange, hops, hsome]
  | case5 r response answers status target hsome left hscheme sent result heq ih =>
    rw [heq] at ih
    simp only [exchange, hops, hsome, hscheme, heq, if_true, List.map_cons, ih]
    rfl
  | case6 r response answers status target hsome left hscheme => simp [exchange, hops, hsome, hscheme]

/-- The headers of the first request that do not stay with their server. -/
def custom (headers : List (String × String)) : List (String × String) := headers.filter fun h => !isSensitive h.1

theorem custom_keepHeaders (same : Bool) (headers : List (String × String)) :
    custom (keepHeaders same headers) = custom headers := by
  cases same with
  | true => rfl
  | false => simp [custom, keepHeaders]

theorem keepHeaders_subset (same : Bool) (headers : List (String × String)) : keepHeaders same headers ⊆ headers := by
  cases same with
  | true => exact List.Subset.refl _
  | false => exact fun h hh => (List.mem_filter.mp hh).1

variable {left : Nat} {r x : Request} {answers : List (Except String ρ)}

/-- A header that is sent was given to the client; it is a custom one, or no request so far went to another server. -/
theorem exchange_headers (hx : x ∈ (exchange join location left r answers).1)
    {h : String × String} (hh : h ∈ x.headers) :
    h ∈ r.headers ∧ (h ∈ custom r.headers ∨ x.url.hostStr = r.url.hostStr) := by
  induction left, r, answers using exchange.induct join location with
  | case1 left r =>
    obtain rfl : x = r := by simpa [exchange] using hx
    exact ⟨hh, .inr rfl⟩
  | case2 left r cause answers =>
    obtain rfl : x = r := by simpa [exchange] using hx
    exact ⟨hh, .inr rfl⟩
  | case3 left r response answers hnone =>
    obtain rfl : x = r := by simpa [exchange, hnone] using hx
    exact ⟨hh, .inr rfl⟩
  | case4 r response answers status target hsome =>
    obtain rfl : x = r := by simpa [exchange, hsome] using hx
    exact ⟨hh, .inr rfl⟩
  | case5 r response answers status target hsome left hscheme sent result heq ih =>
    have hmem : x = r ∨ x ∈ (exchange join location left (redirected status r target) answers).1 := by
      simpa [exchange, hsome, hscheme] using hx
    rcases hmem with rfl | hmem
    · exact ⟨hh, .inr rfl⟩
    obtain ⟨hgiven, hkept⟩ := ih hmem
    have hgiven' : h ∈ r.headers := keepHeaders_subset _ _ hgiven
    refine ⟨hgiven', ?_⟩
    rcases hkept with hcustom | hsame
    · left
      have hkeep : custom (redirected status r target).headers = custom r.headers := custom_keepHeaders _ _
      rwa [hkeep] at hcustom
    · -- The header is behind a redirect, so the redirect stayed with the server or the header is a custom one.
      have hurl : x.url.hostStr = target.hostStr := hsame
      cases hserver : sameServer r.url target with
      | true =>
        simp only [sameServer, Bool.and_eq_true, decide_eq_true_eq] at hserver
        exact .inr (hurl.trans hserver.1.symm)
      | false =>
        have hfiltered : h ∈ keepHeaders false r.headers := hserver ▸ hgiven
        exact .inl hfiltered
  | case6 r response answers status target hsome left hscheme =>
    obtain rfl : x = r := by simpa [exchange, hsome, hscheme] using hx
    exact ⟨hh, .inr rfl⟩

/-- Every request carries the custom headers. -/
theorem exchange_custom (hx : x ∈ (exchange join location left r answers).1) :
    custom x.headers = custom r.headers := by
  induction left, r, answers using exchange.induct join location with
  | case1 left r =>
    obtain rfl : x = r := by simpa [exchange] using hx
    rfl
  | case2 left r cause answers =>
    obtain rfl : x = r := by simpa [exchange] using hx
    rfl
  | case3 left r response answers hnone =>
    obtain rfl : x = r := by simpa [exchange, hnone] using hx
    rfl
  | case4 r response answers status target hsome =>
    obtain rfl : x = r := by simpa [exchange, hsome] using hx
    rfl
  | case5 r response answers status target hsome left hscheme sent result heq ih =>
    have hmem : x = r ∨ x ∈ (exchange join location left (redirected status r target) answers).1 := by
      simpa [exchange, hsome, hscheme] using hx
    rcases hmem with rfl | hmem
    · rfl
    · exact (ih hmem).trans (custom_keepHeaders _ _)
  | case6 r response answers status target hsome left hscheme =>
    obtain rfl : x = r := by simpa [exchange, hsome, hscheme] using hx
    rfl

/-! ## What follows a request -/

/-- The query of a URL has the parameter. -/
def HasPair (p : String × String) (url : Url) : Prop :=
  formEncode p.1 ++ "=" ++ formEncode p.2 ∈ splitChar (url.query.getD "") '&'

/-- One of the parameters is in the query of the hop, or of the URL that it names as its referer. -/
def Hop.Shows (params : List (String × String)) (hop : Hop) : Prop :=
  ∃ p ∈ params, HasPair p hop.url ∨ ∃ referer, hop.referer = some referer ∧ HasPair p referer

/-- A request has one of the headers, or shows one of the parameters. -/
def Request.Carries (headers params : List (String × String)) (r : Request) : Prop :=
  (∃ h ∈ headers, h ∈ r.headers) ∨ r.hop.Shows params

/-- To a hop there go the custom headers of the first request, and what its URLs show. -/
def Hop.Receives (first : Request) (headers params : List (String × String)) (hop : Hop) : Prop :=
  (∃ h ∈ headers, h ∈ custom first.headers) ∨ hop.Shows params

variable {headers params : List (String × String)}

/-- A request that carries something stays with the first server, or is a hop that receives it. -/
theorem exchange_carries (hx : x ∈ (exchange join location left r answers).1)
    (hcarries : x.Carries headers params) : x.url.hostStr = r.url.hostStr ∨
      (x.hop ∈ hops join location left r.method r.url answers ∧ x.hop.Receives r headers params) := by
  have hmem := List.mem_map_of_mem (f := Request.hop) hx
  rw [exchange_hops] at hmem
  rcases List.mem_cons.mp hmem with hsame | hlater
  · exact .inl (congrArg (fun hop : Hop => hop.url.hostStr) hsame)
  rcases hcarries with ⟨h, hh, hsent⟩ | hshows
  · -- A header that is not a custom one goes to the first host alone.
    obtain ⟨-, hcustom | hstays⟩ := exchange_headers hx hsent
    · exact .inr ⟨hlater, .inl ⟨h, hh, hcustom⟩⟩
    · exact .inl hstays
  · exact .inr ⟨hlater, .inr hshows⟩

/-- Every hop is sent a request, which carries what the hop receives. -/
theorem exchange_reaches {hop : Hop}
    (h : hop ∈ hops join location left r.method r.url answers) :
    ∃ x ∈ (exchange join location left r answers).1, x.hop = hop ∧
      ∀ headers params, hop.Receives r headers params → x.Carries headers params := by
  have hmem := List.mem_cons_of_mem r.hop h
  rw [← exchange_hops] at hmem
  obtain ⟨x, hx, rfl⟩ := List.mem_map.mp hmem
  refine ⟨x, hx, rfl, fun headers params hreceives => hreceives.imp_left ?_⟩
  rintro ⟨e, he, hkept⟩
  rw [← exchange_custom hx] at hkept
  exact ⟨e, he, (List.mem_filter.mp hkept).1⟩

end Client

end Freeclawdia.Reqwest
