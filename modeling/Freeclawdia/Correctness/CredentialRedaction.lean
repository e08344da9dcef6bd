import Freeclawdia.Correctness.SecretBlindness
import Freeclawdia.Rust.Replace

/-!
# `Correctness.CredentialRedaction` — what redaction leaves of the credentials in an error text

Redaction replaces one value after the other by a tag (`scrub`), so a value is gone from the text as long as none overlaps
a tag: no tag is then part of an occurrence, and no later replacement makes a new one.

A secret in the query of a tool's URL is written percent-encoded. The tool's side replaces the raw values alone: an
encoded form that is not the value itself, and that no value overlaps, stays in the text.
-/

namespace Freeclawdia

open Rust

/-! ## The values of a store -/

namespace WasmTool

/-- The values a tool must not learn. -/
def secretValues (data : StoreData) : List String :=
  data.credentials.map Prod.snd ++ data.hostCredentials.map ResolvedHostCredential.secretValue

/-- The values, each with the tag that takes its place. -/
def tagged (data : StoreData) : List (String × String) :=
  data.credentials.map (fun c => (c.2, "[REDACTED:" ++ c.1 ++ "]")) ++
    data.hostCredentials.map fun cred => (cred.secretValue, "[REDACTED:host_credential]")

variable {data : StoreData}

theorem mem_secretValues {v : String} : v ∈ secretValues data ↔ ∃ tag, (v, tag) ∈ tagged data := by
  simp only [secretValues, tagged, List.mem_append, List.mem_map]
  constructor
  · rintro (⟨c, hc, rfl⟩ | ⟨cred, hcred, rfl⟩)
    · exact ⟨_, .inl ⟨c, hc, rfl⟩⟩
    · exact ⟨_, .inr ⟨cred, hcred, rfl⟩⟩
  · rintro ⟨tag, ⟨c, hc, heq⟩ | ⟨cred, hcred, heq⟩⟩
    · exact .inl ⟨c, hc, congrArg Prod.fst heq⟩
    · exact .inr ⟨cred, hcred, congrArg Prod.fst heq⟩

/-- No value overlaps a tag. -/
def Separate (data : StoreData) : Prop :=
  ∀ v ∈ secretValues data, v ≠ "" → ∀ s ∈ tagged data, Apart v.toList s.2.toList

/-- A text holds a value. -/
def Shows (data : StoreData) (text : String) : Prop := ∃ v ∈ secretValues data, v ≠ "" ∧ contains text v = true

theorem redactCredentials_eq (data : StoreData) (text : String) :
    redactCredentials data text = scrub (tagged data) text := by
  simp only [redactCredentials, scrub, tagged, List.foldl_append, List.foldl_map]

theorem redacted_shows_nothing (hseparate : Separate data) (text : String) :
    ¬ Shows data (redactCredentials data text) := by
  rintro ⟨v, hv, hne, hshown⟩
  obtain ⟨tag, htag⟩ := mem_secretValues.mp hv
  rw [redactCredentials_eq, contains_iff] at hshown
  exact scrub_clean hne htag (fun s hs _ => hseparate v hv hne s hs) text hshown

end WasmTool

/-! ## Secrets in the URL of a tool -/

namespace WasmTool

variable {env : HttpEnv} {data : StoreData} {req : WasmRequest}

/-- The secret goes into the query. -/
def Writes (cred : ResolvedHostCredential) : Prop := ∃ p ∈ cred.queryParams, p.2 = cred.secretValue

/-- Neither a value is left, nor the form in which one was written into the URL. -/
structure Redacted (env : HttpEnv) (data : StoreData) (req : WasmRequest) (text : String) : Prop where
  values : ∀ v ∈ secretValues data, v ≠ "" → contains text v = false
  written : ∀ cred ∈ matching env data req, Writes cred → cred.secretValue ≠ "" →
    contains text (urlencode cred.secretValue) = false

/-- The secrets in the query are written as they are. -/
def WrittenRaw (env : HttpEnv) (data : StoreData) (req : WasmRequest) : Prop :=
  ∀ cred ∈ matching env data req, Writes cred → cred.secretValue ≠ "" → urlencode cred.secretValue = cred.secretValue

variable {params : List (String × String)}

/-- What is encoded and free of `#` stays in the URL when more is appended. -/
theorem infix_appendQuery {w : List Char} (hw : '#' ∉ w) {url : String} (h : w <:+: url.toList) :
    w <:+: (appendQuery params url).toList := by
  by_cases hparams : params = []
  · simpa [appendQuery, hparams] using h
  obtain ⟨front, fragment, hfront, hfragment, rfl⟩ := exists_front url
  rw [appendQuery_split hparams front fragment hfront hfragment, String.toList_ofList]
  rw [String.toList_ofList] at h
  have hcut : w <:+: front ∨ w <:+: fragment := by
    cases fragment with
    | nil => exact .inl (by simpa using h)
    | cons c fragment =>
      obtain rfl : c = '#' := hfragment c rfl
      by_cases hnil : w = []
      · exact .inl (hnil ▸ List.nil_infix)
      -- A word without `#` is apart from it.
      have hapart : Apart w ['#'] := by
        constructor
        · intro hinside
          rcases List.infix_cons_iff.mp hinside with hpre | hin
          · rcases List.prefix_cons_iff.mp hpre with rfl | ⟨t, rfl, -⟩
            · exact hnil rfl
            · exact hw List.mem_cons_self
          · exact hnil (List.infix_nil.mp hin)
        · exact fun haround => hw (haround.subset List.mem_cons_self)
        · intro s hs htail hlead
          have hin : '#' ∈ s := by
            rcases List.suffix_cons_iff.mp htail with rfl | htail
            · exact List.mem_cons_self
            · exact absurd (List.suffix_nil.mp htail) hs
          exact hw (hlead.subset hin)
        · intro s hs hlead htail
          have hin : '#' ∈ s := by
            rcases List.prefix_cons_iff.mp hlead with rfl | ⟨t, rfl, -⟩
            · exact absurd rfl hs
            · exact List.mem_cons_self
          exact hw (htail.subset hin)
      rcases hapart.infix_append (x := front) (y := fragment) (by simpa using h) with hx | hy
      · exact .inl hx
      · exact .inr (hy.trans (List.suffix_cons _ _).isInfix)
  rcases hcut with hx | hy
  · exact hx.trans ⟨[], _, by rw [List.nil_append, List.append_assoc]⟩
  · exact hy.trans (List.suffix_append _ _).isInfix

variable {p : String × String}

/-- What is appended is in the URL. -/
theorem urlencode_infix_appendQuery (hp : p ∈ params) (url : String) :
    (urlencode p.2).toList <:+: (appendQuery params url).toList := by
  have htext : ∀ (separator : Char) (params : List (String × String)), p ∈ params →
      (urlencode p.2).toList <:+: (queryText separator params).toList := by
    intro separator params hp
    induction params generalizing separator with
    | nil => cases hp
    | cons q rest ih =>
      simp only [queryText, String.toList_append]
      rcases List.mem_cons.mp hp with rfl | hp
      · exact ⟨_, _, rfl⟩
      · exact (ih '&' hp).trans (List.suffix_append _ _).isInfix
  have hparams : params ≠ [] := List.ne_nil_of_mem hp
  obtain ⟨front, fragment, hfront, hfragment, rfl⟩ := exists_front url
  rw [appendQuery_split hparams front fragment hfront hfragment, String.toList_ofList]
  exact (htext _ params hp).trans ⟨front, fragment, rfl⟩

/-- A secret in the query is in the URL, encoded. -/
theorem urlencode_infix_injected {cred : ResolvedHostCredential} (hcred : cred ∈ matching env data req)
    (hp : p ∈ cred.queryParams) : (urlencode p.2).toList <:+: (injected env data req).2.toList := by
  have hkeeps : ∀ (creds : List ResolvedHostCredential) (url : String), (urlencode p.2).toList <:+: url.toList →
      (urlencode p.2).toList <:+: (creds.foldl (fun url cred => appendQuery cred.queryParams url) url).toList := by
    intro creds
    induction creds with
    | nil => exact fun _ h => h
    | cons c rest ih => exact fun url h => ih _ (infix_appendQuery (hash_not_mem_urlencode _) h)
  rw [injected_eq]
  obtain ⟨before, after, hsplit⟩ := List.append_of_mem hcred
  dsimp only
  rw [hsplit, List.foldl_append (f := fun url (cred : ResolvedHostCredential) => appendQuery cred.queryParams url),
    List.foldl_cons]
  exact hkeeps after _ (urlencode_infix_appendQuery hp _)

/-- **Redaction** takes out every value, and every secret as it was written into the URL, when no value overlaps a tag and
    the secrets in the query are written as they are. A secret that is written in another form, which no value overlaps,
    is left in every text that embeds the URL. -/
theorem redactCredentials_complete (env : HttpEnv) (data : StoreData) (req : WasmRequest) (text : String)
    (htext : contains text (injected env data req).2 = true) :
    (Separate data → WrittenRaw env data req → Redacted env data req (redactCredentials data text)) ∧
      ((∃ cred ∈ matching env data req, Writes cred ∧ cred.secretValue ≠ "" ∧
          ∀ v ∈ secretValues data, v ≠ "" → Apart (urlencode cred.secretValue).toList v.toList) →
        ¬ Redacted env data req (redactCredentials data text)) := by
  constructor
  · intro hseparate hraw
    have hvalues : ∀ v ∈ secretValues data, v ≠ "" → contains (redactCredentials data text) v = false := by
      intro v hv hne
      rw [Bool.eq_false_iff]
      exact fun hshown => redacted_shows_nothing hseparate text ⟨v, hv, hne, hshown⟩
    refine ⟨hvalues, ?_⟩
    intro cred hcred hwrites hne
    have hstored : cred ∈ data.hostCredentials := by
      unfold matching at hcred
      split at hcred
      · exact (List.mem_filter.mp hcred).1
      · cases hcred
    rw [hraw cred hcred hwrites hne]
    exact hvalues _ (List.mem_append_right _ (List.mem_map_of_mem hstored)) hne
  · rintro ⟨cred, hcred, ⟨p, hp, hsecret⟩, hne, hapart⟩ hredacted
    -- The encoded secret is in the URL, and no replacement touches it.
    have hurl : (urlencode cred.secretValue).toList <:+: text.toList :=
      (hsecret ▸ urlencode_infix_injected hcred hp).trans (contains_iff.mp htext)
    have hleft : (urlencode cred.secretValue).toList <:+: (scrub (tagged data) text).toList := by
      refine scrub_keeps ?_ hurl
      intro s hs hs'
      exact hapart s.1 (mem_secretValues.mpr ⟨s.2, hs⟩) hs'
    have hgone := hredacted.written cred hcred ⟨p, hp, hsecret⟩ hne
    rw [redactCredentials_eq, Bool.eq_false_iff, ne_eq, contains_iff] at hgone
    exact hgone hleft

/-! ### A key with a slash -/

/-- The tool with a key in the query for its server. -/
def withKey (key : String) : StoreData :=
  { exampleTool with hostCredentials := [⟨["api.example.com"], [], [("key", key)], key⟩] }

/-- What `reqwest` says when there is no connection. -/
def sendError (url : String) : String := "HTTP request failed: error sending request for url (" ++ url ++ ")"

theorem plain_key_redacted :
    Redacted (answering inHeader) (withKey "k3y") exampleRequest
      (redactCredentials (withKey "k3y") (sendError "https://api.example.com/?key=k3y")) := by
  refine (redactCredentials_complete (answering inHeader) (withKey "k3y") exampleRequest _ (by decide)).1 ?_ ?_
  · intro v hv _ s hs
    obtain rfl : v = "k3y" := by simpa [secretValues, withKey, exampleTool] using hv
    obtain rfl : s = ("k3y", "[REDACTED:host_credential]") := by simpa [tagged, withKey, exampleTool] using hs
    have hno : ∀ c ∈ "[REDACTED:host_credential]".toList, c ≠ 'k' ∧ c ≠ '3' ∧ c ≠ 'y' := by
      intro c hc
      refine ⟨?_, ?_, ?_⟩
      · rintro rfl
        exact absurd hc (by decide)
      · rintro rfl
        exact absurd hc (by decide)
      · rintro rfl
        exact absurd hc (by decide)
    constructor
    · exact fun h => (hno 'k' (h.subset (by decide))).1 rfl
    · intro h
      exact absurd (h.subset (show '[' ∈ "[REDACTED:host_credential]".toList by decide)) (by decide)
    · intro t ht htail hlead
      obtain ⟨c, rest, rfl⟩ := List.exists_cons_of_ne_nil ht
      obtain ⟨hk, h3, hy⟩ := hno c (htail.subset List.mem_cons_self)
      have hc : c ∈ "k3y".toList := hlead.subset List.mem_cons_self
      simp_all
    · intro t ht hlead htail
      obtain ⟨c, rest, rfl⟩ := List.exists_cons_of_ne_nil ht
      obtain ⟨hk, h3, hy⟩ := hno c (hlead.subset List.mem_cons_self)
      have hc : c ∈ "k3y".toList := htail.subset List.mem_cons_self
      simp_all
  · intro cred hcred _ _
    have hstored : cred ∈ (withKey "k3y").hostCredentials := (List.mem_filter.mp hcred).1
    obtain rfl := List.mem_singleton.mp hstored
    decide

/-- The slash of the key is escaped in the URL, and redaction looks for the slash. -/
theorem escaped_key_stays :
    contains (sendError "https://api.example.com/?key=a%2Fb")
        (injected (answering inHeader) (withKey "a/b") exampleRequest).2 = true ∧
      ¬ Redacted (answering inHeader) (withKey "a/b") exampleRequest
        (redactCredentials (withKey "a/b") (sendError "https://api.example.com/?key=a%2Fb")) := by
  refine ⟨by decide, ?_⟩
  intro h
  have hmem : (⟨["api.example.com"], [], [("key", "a/b")], "a/b"⟩ : ResolvedHostCredential) ∈
      matching (answering inHeader) (withKey "a/b") exampleRequest := by
    have hmatch : (["api.example.com"].any (hostMatchesPattern "api.example.com")) = true := by decide
    exact List.mem_filter.mpr ⟨List.mem_singleton.mpr rfl, hmatch⟩
  have hgone := h.written _ hmem ⟨("key", "a/b"), List.mem_singleton.mpr rfl, rfl⟩ (by decide)
  have hleft : contains (redactCredentials (withKey "a/b") (sendError "https://api.example.com/?key=a%2Fb"))
      (urlencode "a/b") = true := by
    decide
  rw [hgone] at hleft
  cases hleft

end WasmTool
end Freeclawdia
