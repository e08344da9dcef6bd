import Freeclawdia.Channels.Wasm.Router

/-!
# `Correctness.WebhookAccess` — which webhooks reach a channel

A request is checked against what is registered at the moment of each check, not against what was registered when its
path was resolved, and neither the methods nor `require_secret` of an endpoint are looked at. So a channel that is
unregistered under a request, or gets its first secret under one, takes it in unauthenticated or with a false
`secret_validated`. `Admitted` excludes exactly these steps, and then every call of a channel is authenticated.
-/

namespace Freeclawdia.Webhook

open Rust

variable {crypto : Crypto} {t t' : Nat} {s s' s'' : Shared} {o : Op} {i : Input} {h h' : Handling}
variable {kind kind' : Credential} {name value : String} {req : WebhookRequest}

/-! ## What is asked for -/

/-- The request has this secret in its query or in one of its headers. -/
def WebhookRequest.Carries (req : WebhookRequest) (secret : String) : Prop :=
  req.query.lookup "secret" = some secret ∨ ∃ name, req.header name = some secret

/-- How a signature is verified with a registered value. -/
def WebhookRequest.verdict (crypto : Crypto) (req : WebhookRequest) : Credential → String → Option (Int64 → Bool)
  | .secret => fun _ => none
  | .signatureKey => req.discordSignature crypto
  | .hmacSecret => req.slackSignature crypto

/-- The request carries a signature that is valid for a value registered for its channel while it was handled. -/
def Handling.Signed (crypto : Crypto) (kind : Credential) (h : Handling) : Prop :=
  ∃ v ∈ h.seen kind, ∃ now ∈ h.times, ∃ valid, h.request.verdict crypto kind v = some valid ∧ valid now = true

/-- The request's secret was compared with one registered for its channel, and matched. -/
def Handling.Matched (h : Handling) : Prop :=
  ∃ v, h.matched = some v ∧ v ∈ h.seen .secret ∧ h.request.Carries v

/-- A call of a channel that is authenticated. -/
structure Authenticated (crypto : Crypto) (k : Invocation) (h : Handling) : Prop where
  channel : k.channel.name = h.channel
  request : k.call.method = h.request.method ∧ k.call.path = h.request.fullPath
  secret : h.had .secret = true → ∃ v ∈ h.seen .secret, h.request.Carries v
  signature : h.had .signatureKey = true → h.Signed crypto .signatureKey
  hmac : h.had .hmacSecret = true → h.Signed crypto .hmacSecret
  validated : k.call.secretValidated = true → h.Matched
  required : ∀ e, h.endpoint = some e → e.requireSecret = true → h.Matched
  listed : ∀ e, h.endpoint = some e → e.methods ≠ [] → h.request.method ∈ e.methods

/-- What a step may do: a value is not removed while a request that found it registered awaits its check; a channel does
    not get its first secret while a request for it has passed the check without one; and a path is resolved only if the
    endpoint lists the method and has the secret it requires. -/
def Admitted (_ : Nat) (o : Op) (_ : Input) (s : Shared) : Prop :=
  match o with
  | .removeCredential kind name => ∀ t h, s.requests.lookup t = some h → h.channel = name → h.had kind = true →
      h.awaiting kind = false
  | .insertCredential .secret name _ => ((s.credentials .secret).lookup name).isSome ∨
      ∀ t h, s.requests.lookup t = some h → h.channel = name → h.awaiting .secret = true ∨ h.matched.isSome
  | .getChannel req name => ∀ channel e, s.channels.lookup name = some channel →
      s.endpoints.lookup req.fullPath = some e →
      (e.requireSecret = true → ((s.credentials .secret).lookup channel.name).isSome) ∧
        (e.methods ≠ [] → req.method ∈ e.methods)
  | _ => True

/-! ## The books on one request -/

/-- The books agree with what is registered. -/
structure Consistent (credentials : Credential → Map String String) (h : Handling) : Prop where
  seen : ∀ k v, (credentials k).lookup h.channel = some v → v ∈ h.seen k
  kept : ∀ k, h.had k = true → h.awaiting k = true → ((credentials k).lookup h.channel).isSome
  unmatched : h.awaiting .secret = false → h.matched = none → (credentials .secret).lookup h.channel = none

variable {credentials : Credential → Map String String}

theorem consistent_resolve (s : Shared) (req : WebhookRequest) (name : String) :
    Consistent s.credentials (s.resolve req name) where
  seen k v hv := Option.mem_toList.mpr hv
  kept k hhad _ := hhad
  unmatched hawaiting _ := by cases hawaiting

theorem lookup_update_insert (credentials : Credential → Map String String) (kind kind' : Credential)
    (name name' value : String) :
    (Function.update credentials kind ((credentials kind).insert name value) kind').lookup name' =
      if kind' = kind ∧ name' = name then some value else (credentials kind').lookup name' := by
  by_cases hkind : kind' = kind
  · subst hkind
    rw [Function.update_self, Map.lookup_insert_ite]
    simp
  · rw [Function.update_of_ne hkind]
    simp [hkind]

theorem lookup_update_erase (credentials : Credential → Map String String) (kind kind' : Credential)
    (name name' : String) : (Function.update credentials kind ((credentials kind).erase name) kind').lookup name' =
      if kind' = kind ∧ name' = name then none else (credentials kind').lookup name' := by
  by_cases hkind : kind' = kind
  · subst hkind
    rw [Function.update_self, Map.lookup_erase_ite]
    simp
  · rw [Function.update_of_ne hkind]
    simp [hkind]

/-- What a registration changes in the books. -/
theorem sees_cases (h : Handling) (kind : Credential) (name value : String) :
    (h.sees kind name value).request = h.request ∧ (h.sees kind name value).channel = h.channel ∧
      (h.sees kind name value).endpoint = h.endpoint ∧ (h.sees kind name value).had = h.had ∧
      (h.sees kind name value).awaiting = h.awaiting ∧ (h.sees kind name value).matched = h.matched ∧
      (h.sees kind name value).times = h.times ∧ (∀ k v, v ∈ h.seen k → v ∈ (h.sees kind name value).seen k) ∧
      (h.channel = name → value ∈ (h.sees kind name value).seen kind) := by
  unfold Handling.sees
  split
  next heq =>
    refine ⟨rfl, rfl, rfl, rfl, rfl, rfl, rfl, fun k v hv => ?_, fun _ => by simp⟩
    by_cases hk : k = kind
    · simp [hk, hk ▸ hv]
    · simp [hk, hv]
  next hne => exact ⟨rfl, rfl, rfl, rfl, rfl, rfl, rfl, fun _ _ hv => hv, fun heq => absurd heq hne⟩

theorem Consistent.sees (hcon : Consistent credentials h)
    (hfirst : kind = .secret → h.channel = name → ((credentials .secret).lookup name).isSome ∨
      h.awaiting .secret = true ∨ h.matched.isSome) :
    Consistent (Function.update credentials kind ((credentials kind).insert name value)) (h.sees kind name value) := by
  obtain ⟨-, hchannel, -, hhad, hawaiting, hmatched, -, hseen, hnew⟩ := sees_cases h kind name value
  refine ⟨fun k v hv => ?_, fun k hk hwait => ?_, fun hwait hnone => ?_⟩
  · rw [hchannel, lookup_update_insert] at hv
    split at hv
    next heq =>
      cases hv
      rw [heq.1]
      exact hnew heq.2
    next => exact hseen k v (hcon.seen k v hv)
  · rw [hhad] at hk
    rw [hawaiting] at hwait
    rw [hchannel, lookup_update_insert]
    split
    · rfl
    · exact hcon.kept k hk hwait
  · rw [hawaiting] at hwait
    rw [hmatched] at hnone
    rw [hchannel, lookup_update_insert]
    have habsent := hcon.unmatched hwait hnone
    split
    next heq =>
      -- A first secret comes in only before the check.
      rcases hfirst heq.1.symm heq.2 with hsome | hwaits | hmatch
      · rw [← heq.2, habsent] at hsome
        cases hsome
      · rw [hwait] at hwaits
        cases hwaits
      · rw [hnone] at hmatch
        cases hmatch
    next => exact habsent

theorem Consistent.remove (hcon : Consistent credentials h)
    (hfree : h.channel = name → h.had kind = true → h.awaiting kind = false) :
    Consistent (Function.update credentials kind ((credentials kind).erase name)) h where
  seen k v hv := by
    rw [lookup_update_erase] at hv
    split at hv
    · cases hv
    · exact hcon.seen k v hv
  kept k hk hwait := by
    rw [lookup_update_erase]
    split
    next heq =>
      obtain ⟨rfl, hname⟩ := heq
      rw [hfree hname hk] at hwait
      cases hwait
    next => exact hcon.kept k hk hwait
  unmatched hwait hnone := by
    rw [lookup_update_erase]
    split
    · rfl
    · exact hcon.unmatched hwait hnone

/-- A check has been made; without a match there is no secret to be compared. -/
theorem Consistent.checked (hcon : Consistent credentials h)
    (hnone : kind = .secret → (credentials .secret).lookup h.channel = none) : Consistent credentials
    (h.checked kind) where
  seen := hcon.seen
  kept k hk hwait := by
    by_cases heq : k = kind
    · simp [Handling.checked, heq] at hwait
    · exact hcon.kept k hk (by simpa [Handling.checked, heq] using hwait)
  unmatched hwait hmatched := by
    by_cases heq : kind = .secret
    · exact hnone heq
    · exact hcon.unmatched (by simpa [Handling.checked, Ne.symm heq] using hwait) hmatched

theorem Consistent.matches (hcon : Consistent credentials h) (provided : String) :
    Consistent credentials { h.checked .secret with matched := some provided } where
  seen := hcon.seen
  kept k hk hwait := by
    by_cases heq : k = .secret
    · simp [Handling.checked, heq] at hwait
    · exact hcon.kept k hk (by simpa [Handling.checked, heq] using hwait)
  unmatched _ hnone := by cases hnone

theorem Consistent.clock (hcon : Consistent credentials h) (now : Int64) :
    Consistent credentials { h with times := now :: h.times } := ⟨hcon.seen, hcon.kept, hcon.unmatched⟩

/-! ## What one task sees of the others -/

/-- Others only add to what has been seen. -/
structure Grown (h h' : Handling) : Prop where
  request : h'.request = h.request
  channel : h'.channel = h.channel
  endpoint : h'.endpoint = h.endpoint
  had : h'.had = h.had
  awaiting : h'.awaiting = h.awaiting
  matched : h'.matched = h.matched
  times : h'.times = h.times
  seen : ∀ k v, v ∈ h.seen k → v ∈ h'.seen k

theorem Grown.refl (h : Handling) : Grown h h := ⟨rfl, rfl, rfl, rfl, rfl, rfl, rfl, fun _ _ hv => hv⟩

theorem Grown.trans {h'' : Handling} (hg : Grown h h') (hg' : Grown h' h'') : Grown h h'' where
  request := hg'.request.trans hg.request
  channel := hg'.channel.trans hg.channel
  endpoint := hg'.endpoint.trans hg.endpoint
  had := hg'.had.trans hg.had
  awaiting := hg'.awaiting.trans hg.awaiting
  matched := hg'.matched.trans hg.matched
  times := hg'.times.trans hg.times
  seen k v hv := hg'.seen k v (hg.seen k v hv)

def Rely (t : Nat) (s s' : Shared) : Prop :=
  ∀ h, s.requests.lookup t = some h → ∃ h', s'.requests.lookup t = some h' ∧ Grown h h'

theorem Rely.refl (t : Nat) (s : Shared) : Rely t s s := fun h hlookup => ⟨h, hlookup, Grown.refl h⟩

theorem Rely.trans (hr : Rely t s s') (hr' : Rely t s' s'') : Rely t s s'' := by
  intro h hlookup
  obtain ⟨h', hlookup', hg⟩ := hr h hlookup
  obtain ⟨h'', hlookup'', hg'⟩ := hr' h' hlookup'
  exact ⟨h'', hlookup'', hg.trans hg'⟩

theorem rely_of_eq (h : s'.requests.lookup t = s.requests.lookup t) : Rely t s s' :=
  fun k hlookup => ⟨k, h.trans hlookup, Grown.refl k⟩

@[simp] theorem lookup_note_self (s : Shared) (t : Nat) (f : Handling → Option Handling) :
    (s.note t f).requests.lookup t = (s.requests.lookup t).bind f := by
  unfold Shared.note
  cases hnew : (s.requests.lookup t).bind f with
  | none => exact AList.lookup_erase t s.requests
  | some h => exact AList.lookup_insert s.requests

theorem lookup_note_ne (s : Shared) (f : Handling → Option Handling) (hne : t' ≠ t) :
    (s.note t f).requests.lookup t' = s.requests.lookup t' := by
  unfold Shared.note
  split
  · exact AList.lookup_insert_ne hne
  · exact AList.lookup_erase_ne hne

@[simp] theorem credentials_note (s : Shared) (t : Nat) (f : Handling → Option Handling) :
    (s.note t f).credentials = s.credentials := by
  unfold Shared.note
  split <;> rfl

@[simp] theorem invoked_note (s : Shared) (t : Nat) (f : Handling → Option Handling) :
    (s.note t f).invoked = s.invoked := by
  unfold Shared.note
  split <;> rfl

/-- **What an operation of one task is to the others.** -/
theorem rely_perform {a : Ans o} (hop : perform t o i s = some (a, s')) (hne : t' ≠ t) : Rely t' s s' := by
  cases o with
  | lockPaths =>
    simp only [perform] at hop
    split at hop <;> cases hop
    exact rely_of_eq rfl
  | retainPaths name =>
    simp only [perform] at hop
    split at hop <;> cases hop
    exact rely_of_eq rfl
  | readPath path =>
    simp only [perform] at hop
    split at hop <;> cases hop
    exact rely_of_eq rfl
  | getChannel req name =>
    simp only [perform] at hop
    split at hop <;> cases hop
    · exact rely_of_eq (AList.lookup_insert_ne hne)
    · exact Rely.refl t' s
  | insertCredential kind name value =>
    cases hop
    intro h hlookup
    obtain ⟨hrequest, hchannel, hendpoint, hhad, hawaiting, hmatched, htimes, hseen, -⟩ := sees_cases h kind name value
    refine ⟨h.sees kind name value, ?_, ⟨hrequest, hchannel, hendpoint, hhad, hawaiting, hmatched, htimes, hseen⟩⟩
    show (Map.mapValues _ s.requests).lookup t' = _
    rw [Map.lookup_mapValues, hlookup]
    rfl
  | getCredential kind name =>
    cases hop
    exact rely_of_eq (lookup_note_ne s _ hne)
  | validateSecret name provided =>
    simp only [perform] at hop
    split at hop
    · split at hop <;> cases hop <;> exact rely_of_eq (lookup_note_ne s _ hne)
    · cases hop
      exact rely_of_eq (lookup_note_ne s _ hne)
  | now =>
    cases hop
    exact rely_of_eq (lookup_note_ne s _ hne)
  | callOnHttpRequest channel call =>
    cases hop
    exact rely_of_eq (AList.lookup_erase_ne hne)
  | respond =>
    cases hop
    exact rely_of_eq (AList.lookup_erase_ne hne)
  | _ =>
    cases hop
    exact rely_of_eq rfl

/-! ## The invariant -/

/-- The books agree with the router, and every call there has been was authenticated. -/
structure Inv (crypto : Crypto) (s : Shared) : Prop where
  books : ∀ t h, s.requests.lookup t = some h → Consistent s.credentials h
  invoked : ∀ k ∈ s.invoked, ∃ h, k.handling = some h ∧ Authenticated crypto k h

variable {f : Handling → Option Handling}

theorem Inv.note (hinv : Inv crypto s)
    (hf : ∀ h h', Consistent s.credentials h → f h = some h' → Consistent s.credentials h') :
    Inv crypto (s.note t f) where
  books t' h hlookup := by
    rw [credentials_note]
    by_cases heq : t' = t
    · subst heq
      rw [lookup_note_self] at hlookup
      obtain ⟨h', hlookup', hnew⟩ := Option.bind_eq_some_iff.mp hlookup
      exact hf h' h (hinv.books t' h' hlookup') hnew
    · rw [lookup_note_ne s f heq] at hlookup
      exact hinv.books t' h hlookup
  invoked := by
    rw [invoked_note]
    exact hinv.invoked

theorem Inv.forget (hinv : Inv crypto s) {s' : Shared} (hcredentials : s'.credentials = s.credentials)
    (hinvoked : s'.invoked = s.invoked) (hrequests : ∀ t h, s'.requests.lookup t = some h → s.requests.lookup t = some h) :
    Inv crypto s' where
  books t h hlookup := by
    rw [hcredentials]
    exact hinv.books t h (hrequests t h hlookup)
  invoked := by
    rw [hinvoked]
    exact hinv.invoked

/-- **The invariant is kept** by every operation but the call of a channel. -/
theorem inv_perform (hinv : Inv crypto s) (hadmitted : Admitted t o i s)
    (hcall : ∀ channel call, o ≠ .callOnHttpRequest channel call) {a : Ans o} (hop : perform t o i s = some (a, s')) :
    Inv crypto s' := by
  cases o with
  | lockPaths =>
    simp only [perform] at hop
    split at hop <;> cases hop
    exact hinv.forget rfl rfl fun _ _ h => h
  | retainPaths name =>
    simp only [perform] at hop
    split at hop <;> cases hop
    exact hinv.forget rfl rfl fun _ _ h => h
  | readPath path =>
    simp only [perform] at hop
    split at hop <;> cases hop
    exact hinv.forget rfl rfl fun _ _ h => h
  | getChannel req name =>
    simp only [perform] at hop
    split at hop <;> cases hop
    · refine ⟨fun t' h hlookup => ?_, hinv.invoked⟩
      change (s.requests.insert t _).lookup t' = some h at hlookup
      rw [Map.lookup_insert_ite] at hlookup
      split at hlookup
      · cases hlookup
        exact consistent_resolve s req _
      · exact hinv.books t' h hlookup
    · exact hinv
  | insertCredential kind name value =>
    cases hop
    refine ⟨fun t' h hlookup => ?_, hinv.invoked⟩
    change (Map.mapValues _ s.requests).lookup t' = some h at hlookup
    rw [Map.lookup_mapValues] at hlookup
    obtain ⟨h', hlookup', rfl⟩ := Option.map_eq_some_iff.mp hlookup
    refine (hinv.books t' h' hlookup').sees fun hkind hchannel => ?_
    subst hkind
    rcases hadmitted with hsome | hall
    · exact .inl hsome
    · exact .inr (hall t' h' hlookup' hchannel)
  | removeCredential kind name =>
    cases hop
    refine ⟨fun t' h hlookup => ?_, hinv.invoked⟩
    exact (hinv.books t' h hlookup).remove fun hchannel => hadmitted t' h hlookup hchannel
  | getCredential kind name =>
    cases hop
    refine hinv.note fun h h' hcon heq => ?_
    cases heq
    split
    next hcond =>
      refine hcon.checked fun hkind => ?_
      subst hkind
      rcases hcond with ⟨hchannel, hnone | hne⟩
      · rw [hchannel]
        exact hnone
      · exact absurd rfl hne
    next => exact hcon
  | validateSecret name provided =>
    simp only [perform] at hop
    split at hop
    · split at hop <;> cases hop
      · refine hinv.note fun h h' hcon heq => ?_
        cases heq
        exact hcon.matches provided
      · refine hinv.note fun h h' _ heq => ?_
        cases heq
    next hnone =>
      cases hop
      refine hinv.note fun h h' hcon heq => ?_
      cases heq
      split
      next hchannel => exact hcon.checked fun _ => hchannel ▸ hnone
      next => exact hcon
  | now =>
    cases hop
    refine hinv.note fun h h' hcon heq => ?_
    cases heq
    exact hcon.clock i.nowSecs
  | callOnHttpRequest channel call => exact absurd rfl (hcall channel call)
  | respond =>
    cases hop
    refine hinv.forget rfl rfl fun t' h hlookup => ?_
    change (s.requests.erase t).lookup t' = some h at hlookup
    rw [Map.lookup_erase_ite] at hlookup
    split at hlookup
    · cases hlookup
    · exact hlookup
  | _ =>
    cases hop
    exact hinv.forget rfl rfl fun _ _ h => h

/-! ## The outline -/

def access (crypto : Crypto) : Outline (machine crypto) where
  Inv := Inv crypto
  Rely := Rely
  Pre _ _ := True
  Allowed := Admitted
  Post _ _ _ _ := True
  rely_refl := Rely.refl
  rely_trans := Rely.trans
  pre_stable _ _ := True.intro
  post_stable _ _ _ := True.intro

/-- One operation: the others may have come in before it. -/
theorem holds_perf (o : Op) (hcall : ∀ channel call, o ≠ .callOnHttpRequest channel call) {Q : Ans o → Shared → Prop}
    (h : ∀ s' i a s'', Rely t s s' → Inv crypto s' → Admitted t o i s' → perform t o i s' = some (a, s'') → Q a s'') :
    (access crypto).Holds t Q (perf o) s := by
  apply Outline.holds_op
  intro s' hrely hinv i a s'' hop hadmitted
  refine ⟨⟨inv_perform hinv hadmitted hcall hop, fun t' hne => rely_perform hop hne⟩, ?_⟩
  exact Outline.holds_ret (h s' i a s'' hrely hinv hadmitted hop)

/-- What nothing depends on. -/
theorem holds_any {α : Type} {p : Prog Op Ans α}
    (hp : p.Every fun o => ∀ channel call, o ≠ .callOnHttpRequest channel call) :
    (access crypto).Holds t (fun _ _ => True) p s := by
  refine Outline.holds_every (J := fun _ => True) ?_ (fun _ _ _ => True.intro) hp True.intro
  intro o i a s s' hcall hinv _ hop hadmitted
  exact ⟨⟨inv_perform hinv hadmitted hcall hop, fun t' hne => rely_perform hop hne⟩, True.intro⟩

/-! ## The checks of one request -/

/-- A check is over, and what it was for is there. -/
def Handling.Satisfies (crypto : Crypto) (h : Handling) : Credential → Prop
  | .secret => h.awaiting .secret = false ∧ (h.had .secret = true → h.matched.isSome)
  | kind => h.had kind = true → h.Signed crypto kind

/-- What a request knows once the checks `done` are over and those in `waits` have not begun. -/
structure Facts (crypto : Crypto) (req : WebhookRequest) (name : String) (done waits : Credential → Prop)
    (h : Handling) : Prop where
  request : h.request = req
  channel : h.channel = name
  demands : ∀ e, h.endpoint = some e →
    (e.requireSecret = true → h.had .secret = true) ∧ (e.methods ≠ [] → req.method ∈ e.methods)
  matched : ∀ v, h.matched = some v → v ∈ h.seen .secret ∧ req.Carries v
  satisfied : ∀ k, done k → h.Satisfies crypto k
  waiting : ∀ k, waits k → h.awaiting k = true

variable {done waits : Credential → Prop}

theorem Handling.Signed.grown (hsigned : h.Signed crypto kind) (hrequest : h'.request = h.request)
    (hseen : ∀ v, v ∈ h.seen kind → v ∈ h'.seen kind) (htimes : ∀ now, now ∈ h.times → now ∈ h'.times) :
    h'.Signed crypto kind := by
  obtain ⟨v, hv, now, hnow, valid, hverdict, hvalid⟩ := hsigned
  exact ⟨v, hseen v hv, now, htimes now hnow, valid, by rw [hrequest]; exact hverdict, hvalid⟩

theorem Handling.Satisfies.grown (hsat : h.Satisfies crypto kind) (hg : Grown h h') : h'.Satisfies crypto kind := by
  have hsigned : (h.had kind = true → h.Signed crypto kind) → h'.had kind = true → h'.Signed crypto kind := by
    intro hall hhad
    rw [hg.had] at hhad
    exact (hall hhad).grown hg.request (hg.seen _) fun now hnow => by rw [hg.times]; exact hnow
  cases kind with
  | secret =>
    rw [Handling.Satisfies, hg.awaiting, hg.had, hg.matched]
    exact hsat
  | signatureKey => exact hsigned hsat
  | hmacSecret => exact hsigned hsat

theorem Facts.grown (hfacts : Facts crypto req name done waits h) (hg : Grown h h') :
    Facts crypto req name done waits h' where
  request := hg.request.trans hfacts.request
  channel := hg.channel.trans hfacts.channel
  demands := by
    rw [hg.endpoint, hg.had]
    exact hfacts.demands
  matched v hv := by
    rw [hg.matched] at hv
    exact ⟨hg.seen _ v (hfacts.matched v hv).1, (hfacts.matched v hv).2⟩
  satisfied k hk := (hfacts.satisfied k hk).grown hg
  waiting := by
    rw [hg.awaiting]
    exact hfacts.waiting

/-- A check begins. -/
theorem Facts.checked (hfacts : Facts crypto req name done waits h) (kind : Credential) :
    Facts crypto req name done (fun k => k ≠ kind ∧ waits k) (h.checked kind) where
  request := hfacts.request
  channel := hfacts.channel
  demands := hfacts.demands
  matched := hfacts.matched
  satisfied k hk := by
    have hsat := hfacts.satisfied k hk
    cases k with
    | secret =>
      refine ⟨?_, hsat.2⟩
      show (if Credential.secret = kind then false else h.awaiting .secret) = false
      split
      · rfl
      · exact hsat.1
    | signatureKey => exact hsat
    | hmacSecret => exact hsat
  waiting k hk := (if_neg hk.1).trans (hfacts.waiting k hk.2)

theorem Facts.clock (hfacts : Facts crypto req name done waits h) (now : Int64) :
    Facts crypto req name done waits { h with times := now :: h.times } where
  request := hfacts.request
  channel := hfacts.channel
  demands := hfacts.demands
  matched := hfacts.matched
  satisfied k hk := by
    have hsat := hfacts.satisfied k hk
    cases k with
    | secret => exact hsat
    | signatureKey => exact fun hhad => (hsat hhad).grown rfl (fun _ hv => hv) fun _ hnow => List.mem_cons_of_mem now hnow
    | hmacSecret => exact fun hhad => (hsat hhad).grown rfl (fun _ hv => hv) fun _ hnow => List.mem_cons_of_mem now hnow
  waiting := hfacts.waiting

/-- A check is over. -/
theorem Facts.add (hfacts : Facts crypto req name done waits h) (hsat : h.Satisfies crypto kind) :
    Facts crypto req name (fun k => k = kind ∨ done k) waits h where
  request := hfacts.request
  channel := hfacts.channel
  demands := hfacts.demands
  matched := hfacts.matched
  satisfied k hk := by
    rcases hk with rfl | hk
    · exact hsat
    · exact hfacts.satisfied k hk
  waiting := hfacts.waiting

theorem Facts.fewer (hfacts : Facts crypto req name done waits h) {waits' : Credential → Prop}
    (hsub : ∀ k, waits' k → waits k) : Facts crypto req name done waits' h :=
  ⟨hfacts.request, hfacts.channel, hfacts.demands, hfacts.matched, hfacts.satisfied,
    fun k hk => hfacts.waiting k (hsub k hk)⟩

/-- The books on the task's own request. -/
def Own (t : Nat) (P : Handling → Prop) (s : Shared) : Prop := ∃ h, s.requests.lookup t = some h ∧ P h

variable {P Q : Handling → Prop}

theorem Own.mono (hown : Own t P s) (hPQ : ∀ h, P h → Q h) : Own t Q s := by
  obtain ⟨h, hlookup, hP⟩ := hown
  exact ⟨h, hlookup, hPQ h hP⟩

theorem Own.rely (hown : Own t P s) (hrely : Rely t s s') (hP : ∀ h h', P h → Grown h h' → P h') : Own t P s' := by
  obtain ⟨h, hlookup, hh⟩ := hown
  obtain ⟨h', hlookup', hg⟩ := hrely h hlookup
  exact ⟨h', hlookup', hP h h' hh hg⟩

theorem Own.note (hown : Own t P s) (hf : ∀ h, s.requests.lookup t = some h → P h → ∃ h', f h = some h' ∧ Q h') :
    Own t Q (s.note t f) := by
  obtain ⟨h, hlookup, hP⟩ := hown
  obtain ⟨h', hnew, hQ⟩ := hf h hlookup hP
  exact ⟨h', by rw [lookup_note_self, hlookup]; exact hnew, hQ⟩

theorem carries_providedSecret {header secret : String} (h : req.providedSecret header = some secret) :
    req.Carries secret := by
  unfold WebhookRequest.providedSecret at h
  rcases Option.or_eq_some_iff.mp h with h | ⟨-, h⟩
  · rcases Option.or_eq_some_iff.mp h with h | ⟨-, h⟩
    · exact .inl h
    · exact .inr ⟨header, h⟩
  · split at h
    · exact .inr ⟨_, h⟩
    · cases h

/-- What a request knows after it has looked a value up. -/
def Looked (crypto : Crypto) (t : Nat) (req : WebhookRequest) (name : String) (done waits : Credential → Prop)
    (kind : Credential) (found : Option String) (s : Shared) : Prop :=
  Own t (fun h => Facts crypto req name done (fun k => k ≠ kind ∧ waits k) h ∧
    (found = none → h.awaiting kind = false ∧ h.had kind = false) ∧
    (∀ v, found = some v → v ∈ h.seen kind ∧ (kind = .secret → h.awaiting .secret = true))) s

theorem holds_getCredential (hown : Own t (Facts crypto req name done waits) s) (hwaits : waits kind) :
    (access crypto).Holds t (Looked crypto t req name done waits kind) (perf (Op.getCredential kind name)) s := by
  refine holds_perf (.getCredential kind name) (by simp) fun s' i a s'' hrely hinv _ hop => ?_
  cases hop
  refine (hown.rely hrely fun _ _ hfacts hg => hfacts.grown hg).note fun h hlookup hfacts => ⟨_, rfl, ?_⟩
  have hcon := hinv.books t h hlookup
  have hchannel := hfacts.channel
  cases hfound : (s'.credentials kind).lookup name with
  | none =>
    rw [if_pos ⟨hchannel, .inl rfl⟩]
    refine ⟨hfacts.checked kind, fun _ => ⟨if_pos rfl, ?_⟩, fun v hv => by cases hv⟩
    -- What was registered would still be there.
    show h.had kind = false
    by_contra hhad
    have hsome := hcon.kept kind (Bool.eq_true_of_not_eq_false hhad) (hfacts.waiting kind hwaits)
    rw [hchannel, hfound] at hsome
    cases hsome
  | some v =>
    have hseen : v ∈ h.seen kind := hcon.seen kind v (hchannel ▸ hfound)
    by_cases hkind : kind = .secret
    · rw [if_neg (by simp [hkind])]
      refine ⟨hfacts.fewer fun k hk => hk.2, nofun, fun v' hv' => ?_⟩
      cases hv'
      exact ⟨hseen, fun _ => hkind ▸ hfacts.waiting kind hwaits⟩
    · rw [if_pos ⟨hchannel, .inr hkind⟩]
      refine ⟨hfacts.checked kind, nofun, fun v' hv' => ?_⟩
      cases hv'
      exact ⟨hseen, fun heq => absurd heq hkind⟩

/-- What a check that has let a request pass says. -/
def Passed (crypto : Crypto) (t : Nat) (req : WebhookRequest) (name : String) (done waits : Credential → Prop)
    (verdict : Option Rejection) (s : Shared) : Prop :=
  verdict = none → Own t (Facts crypto req name done waits) s

theorem passed_some (why : Rejection) : Passed crypto t req name done waits (some why) s := nofun

theorem holds_checkSecret (hown : Own t (Facts crypto req name done waits) s) (hwaits : waits .secret) :
    (access crypto).Holds t (Passed crypto t req name (fun k => k = .secret ∨ done k) (fun k => k ≠ .secret ∧ waits k))
      (checkSecret req name) s := by
  unfold checkSecret requiresSecret
  refine ((holds_getCredential hown hwaits).bind fun found s hlooked => Outline.holds_ret ?_).bind
    (Q := fun (required : Bool) s => ∃ found, Looked crypto t req name done waits .secret found s ∧
      required = found.isSome) ?_
  · exact ⟨found, hlooked, rfl⟩
  rintro required s ⟨found, hlooked, rfl⟩
  cases found with
  | none =>
    refine Outline.holds_ret fun _ => hlooked.mono fun h ⟨hfacts, hnone, _⟩ => hfacts.add ⟨(hnone rfl).1, ?_⟩
    rw [(hnone rfl).2]
    nofun
  | some v =>
    have hwaiting : Own t (fun h => Facts crypto req name done (fun k => k ≠ .secret ∧ waits k) h ∧
        h.awaiting .secret = true) s := hlooked.mono fun h ⟨hfacts, _, hsome⟩ => ⟨hfacts, (hsome v rfl).2 rfl⟩
    have hstable : ∀ h h', (Facts crypto req name done (fun k => k ≠ .secret ∧ waits k) h ∧
        h.awaiting .secret = true) → Grown h h' → (Facts crypto req name done (fun k => k ≠ .secret ∧ waits k) h' ∧
        h'.awaiting .secret = true) := fun h h' hh hg => ⟨hh.1.grown hg, by rw [hg.awaiting]; exact hh.2⟩
    refine Outline.Holds.bind (Q := fun (_ : String) s => Own t (fun h => Facts crypto req name done
      (fun k => k ≠ .secret ∧ waits k) h ∧ h.awaiting .secret = true) s) ?_ ?_
    · unfold getSecretHeader
      refine Outline.Holds.bind (Q := fun (_ : Option String) s => Own t (fun h => Facts crypto req name done
        (fun k => k ≠ .secret ∧ waits k) h ∧ h.awaiting .secret = true) s) ?_ fun _ s h => Outline.holds_ret h
      refine holds_perf (.getHeader name) (by simp) fun s' i a s'' hrely _ _ hop => ?_
      cases hop
      exact hwaiting.rely hrely hstable
    intro header s hwaiting
    cases hprovided : req.providedSecret header with
    | none => exact Outline.holds_ret (passed_some _)
    | some secret =>
      refine Outline.Holds.bind (Q := fun (valid : Bool) s => valid = true → Own t (Facts crypto req name
        (fun k => k = .secret ∨ done k) (fun k => k ≠ .secret ∧ waits k)) s) ?_ ?_
      · refine holds_perf (.validateSecret name secret) (by simp) fun s' i a s'' hrely hinv _ hop => ?_
        have hown' := hwaiting.rely hrely hstable
        simp only [perform] at hop
        split at hop
        next expected hexpected =>
          split at hop <;> cases hop
          next heq =>
            subst heq
            refine fun _ => hown'.note fun h hlookup ⟨hfacts, _⟩ => ⟨_, rfl, ?_⟩
            have hseen := (hinv.books t h hlookup).seen .secret expected (hfacts.channel ▸ hexpected)
            have hchecked := (hfacts.checked .secret).fewer fun k (hk : k ≠ .secret ∧ waits k) => ⟨hk.1, hk⟩
            refine Facts.add ⟨hchecked.request, hchecked.channel, hchecked.demands, ?_, ?_, hchecked.waiting⟩ ?_
            · intro v' hv'
              obtain rfl := Option.some.inj hv'
              exact ⟨hseen, carries_providedSecret hprovided⟩
            · intro k hk
              have hsat := hchecked.satisfied k hk
              cases k with
              | secret => exact ⟨hsat.1, fun _ => rfl⟩
              | signatureKey => exact hsat
              | hmacSecret => exact hsat
            · exact ⟨rfl, fun _ => rfl⟩
          next => exact nofun
        next hnone =>
          cases hop
          refine fun _ => hown'.note fun h hlookup ⟨hfacts, hawaiting⟩ => ⟨_, rfl, ?_⟩
          rw [if_pos hfacts.channel]
          have hchecked := (hfacts.checked .secret).fewer fun k (hk : k ≠ .secret ∧ waits k) => ⟨hk.1, hk⟩
          refine hchecked.add ⟨rfl, fun hhad => ?_⟩
          have hsome := (hinv.books t h hlookup).kept .secret hhad hawaiting
          rw [hfacts.channel, hnone] at hsome
          cases hsome
      intro valid s hvalid
      cases valid with
      | true => exact Outline.holds_ret fun _ => hvalid rfl
      | false => exact Outline.holds_ret (passed_some _)

theorem holds_checkSigned (hkind : kind ≠ .secret) (hown : Own t (Facts crypto req name done waits) s)
    (hwaits : waits kind) (missing invalid : Rejection) :
    (access crypto).Holds t (Passed crypto t req name (fun k => k = kind ∨ done k) (fun k => k ≠ kind ∧ waits k))
      (checkSigned kind name missing invalid (req.verdict crypto kind)) s := by
  have hsatisfies : ∀ h : Handling, (h.had kind = true → h.Signed crypto kind) → h.Satisfies crypto kind := by
    intro h hsigned
    cases kind with
    | secret => exact absurd rfl hkind
    | signatureKey => exact hsigned
    | hmacSecret => exact hsigned
  unfold checkSigned
  refine (holds_getCredential hown hwaits).bind fun found s hlooked => ?_
  cases found with
  | none =>
    refine Outline.holds_ret fun _ => hlooked.mono fun h ⟨hfacts, hnone, _⟩ => hfacts.add (hsatisfies h fun hhad => ?_)
    rw [(hnone rfl).2] at hhad
    cases hhad
  | some value =>
    cases hverdict : req.verdict crypto kind value with
    | none =>
      simp only [hverdict]
      exact Outline.holds_ret (passed_some _)
    | some valid =>
      simp only [hverdict]
      refine Outline.Holds.bind (Q := fun (now : Int64) s => Own t (fun h =>
        Facts crypto req name done (fun k => k ≠ kind ∧ waits k) h ∧ value ∈ h.seen kind ∧ now ∈ h.times) s) ?_ ?_
      · refine holds_perf .now (by simp) fun s' i a s'' hrely _ _ hop => ?_
        cases hop
        have hown' : Own t (fun h => Facts crypto req name done (fun k => k ≠ kind ∧ waits k) h ∧
            value ∈ h.seen kind) s' := by
          refine Own.rely (hlooked.mono fun h ⟨hfacts, _, hsome⟩ => ⟨hfacts, (hsome value rfl).1⟩) hrely ?_
          exact fun h h' hh hg => ⟨hh.1.grown hg, hg.seen _ _ hh.2⟩
        exact hown'.note fun h _ ⟨hfacts, hseen⟩ => ⟨_, rfl, hfacts.clock i.nowSecs, hseen, List.mem_cons_self ..⟩
      intro now s hown'
      split
      next hvalid =>
        refine Outline.holds_ret fun _ => hown'.mono fun h ⟨hfacts, hseen, hnow⟩ => ?_
        refine hfacts.add (hsatisfies h fun _ => ⟨value, hseen, now, hnow, valid, ?_, hvalid⟩)
        rw [hfacts.request]
        exact hverdict
      next => exact Outline.holds_ret (passed_some _)

theorem holds_checkAll {Q R : Shared → Prop} {check : Prog Op Ans (Option Rejection)}
    {rest : List (Prog Op Ans (Option Rejection))}
    (hcheck : (access crypto).Holds t (fun (verdict : Option Rejection) s => verdict = none → Q s) check s)
    (hrest : ∀ s, Q s → (access crypto).Holds t (fun (verdict : Option Rejection) s => verdict = none → R s)
      (checkAll rest) s) :
    (access crypto).Holds t (fun (verdict : Option Rejection) s => verdict = none → R s) (checkAll (check :: rest)) s := by
  unfold checkAll
  refine hcheck.bind fun verdict s hQ => ?_
  cases verdict with
  | some why => exact Outline.holds_ret nofun
  | none => exact hrest s (hQ rfl)

/-! ## The handler -/

/-- A request that has got its channel. -/
theorem holds_getChannelForPath (req : WebhookRequest) :
    (access crypto).Holds t (fun (channel : Option WasmChannel) s => ∀ c, channel = some c →
      Own t (Facts crypto req c.name (fun _ => False) fun _ => True) s) (getChannelForPath req) s := by
  unfold getChannelForPath
  refine Outline.Holds.bind (Q := fun (_ : Option String) _ => True)
    (holds_perf (.readPath req.fullPath) (by simp) fun _ _ _ _ _ _ _ _ => True.intro) fun found s _ => ?_
  cases found with
  | none =>
    refine Outline.Holds.bind (Q := fun (_ : Unit) _ => True)
      (holds_perf .releasePaths (by simp) fun _ _ _ _ _ _ _ _ => True.intro) fun _ s _ => ?_
    exact Outline.holds_ret nofun
  | some name =>
    refine Outline.Holds.bind (Q := fun (channel : Option WasmChannel) s => ∀ c, channel = some c →
      Own t (Facts crypto req c.name (fun _ => False) fun _ => True) s) ?_ fun channel s hchannel => ?_
    · refine holds_perf (.getChannel req name) (by simp) fun s' i a s'' _ _ hadmitted hop => ?_
      simp only [perform] at hop
      split at hop <;> cases hop
      next c hfound =>
        intro c' hc'
        obtain rfl := Option.some.inj hc'
        refine ⟨s'.resolve req c.name, AList.lookup_insert _, rfl, rfl, ?_, nofun, nofun, fun _ _ => rfl⟩
        exact fun e he => hadmitted c e hfound he
      next => exact nofun
    · refine Outline.Holds.bind (Q := fun (_ : Unit) s => ∀ c, channel = some c →
        Own t (Facts crypto req c.name (fun _ => False) fun _ => True) s) ?_ fun _ s h => Outline.holds_ret h
      refine holds_perf .releasePaths (by simp) fun s' i a s'' hrely _ _ hop => ?_
      cases hop
      exact fun c hc => (hchannel c hc).rely hrely fun _ _ hfacts hg => hfacts.grown hg

/-- The flag that is passed on is true only for a request whose secret matched. -/
theorem holds_flag (hown : Own t (Facts crypto req name done waits) s) (hdone : done .secret) :
    (access crypto).Holds t (fun (validated : Bool) s => Own t (fun h => Facts crypto req name done (fun _ => False) h ∧
      (validated = true → h.matched.isSome)) s) (requiresSecret name) s := by
  unfold requiresSecret
  refine Outline.Holds.bind (Q := fun (found : Option String) s => Own t (fun h =>
    Facts crypto req name done (fun _ => False) h ∧ (found.isSome → h.matched.isSome)) s) ?_ fun _ s h =>
      Outline.holds_ret h
  refine holds_perf (.getCredential .secret name) (by simp) fun s' i a s'' hrely hinv _ hop => ?_
  cases hop
  refine (hown.rely hrely fun _ _ hfacts hg => hfacts.grown hg).note fun h hlookup hfacts => ⟨_, rfl, ?_⟩
  have hcon := hinv.books t h hlookup
  have hmatched : ((s'.credentials .secret).lookup name).isSome → h.matched.isSome := by
    intro hsome
    by_contra hnone
    have habsent := hcon.unmatched (hfacts.satisfied .secret hdone).1 (Option.not_isSome_iff_eq_none.mp hnone)
    rw [hfacts.channel] at habsent
    rw [habsent] at hsome
    cases hsome
  split
  · exact ⟨(hfacts.checked .secret).fewer fun _ => False.elim, hmatched⟩
  · exact ⟨hfacts.fewer fun _ => False.elim, hmatched⟩

variable {call : HttpCall} {channel : WasmChannel}

/-- What is known when the channel is called. -/
theorem authenticated_of_facts (hfacts : Facts crypto req channel.name done waits h) (hdone : ∀ k, done k)
    (hcall : call.method = req.method ∧ call.path = req.fullPath)
    (hvalidated : call.secretValidated = true → h.matched.isSome) (other : Option Handling) :
    Authenticated crypto ⟨channel, call, other⟩ h := by
  have hmatched : h.matched.isSome → h.Matched := by
    intro hsome
    obtain ⟨v, hv⟩ := Option.isSome_iff_exists.mp hsome
    exact ⟨v, hv, (hfacts.matched v hv).1, by rw [hfacts.request]; exact (hfacts.matched v hv).2⟩
  refine ⟨hfacts.channel.symm, ?_, fun hhad => ?_, ?_, ?_, fun hflag => hmatched (hvalidated hflag), ?_, ?_⟩
  · rw [hfacts.request]
    exact hcall
  · obtain ⟨v, -, hseen, hcarries⟩ := hmatched ((hfacts.satisfied .secret (hdone _)).2 hhad)
    exact ⟨v, hseen, hcarries⟩
  · exact hfacts.satisfied .signatureKey (hdone _)
  · exact hfacts.satisfied .hmacSecret (hdone _)
  · intro e he hrequire
    exact hmatched ((hfacts.satisfied .secret (hdone _)).2 ((hfacts.demands e he).1 hrequire))
  · intro e he hmethods
    rw [hfacts.request]
    exact (hfacts.demands e he).2 hmethods

theorem holds_callOnHttpRequest
    (hown : Own t (fun h => Facts crypto req channel.name done waits h ∧
      (call.secretValidated = true → h.matched.isSome)) s)
    (hdone : ∀ k, done k) (hcall : call.method = req.method ∧ call.path = req.fullPath) :
    (access crypto).Holds t (fun _ _ => True) (perf (Op.callOnHttpRequest channel call)) s := by
  apply Outline.holds_op
  intro s' hrely hinv i a s'' hop _
  obtain ⟨h, hlookup, hfacts, hflag⟩ := hown.rely hrely fun h h' hh hg =>
    ⟨hh.1.grown hg, fun hvalidated => by rw [hg.matched]; exact hh.2 hvalidated⟩
  cases hop
  refine ⟨⟨⟨fun t' h' hlookup' => ?_, fun k hk => ?_⟩, fun t' hne => ?_⟩, Outline.holds_ret True.intro⟩
  · change (s'.requests.erase t).lookup t' = some h' at hlookup'
    rw [Map.lookup_erase_ite] at hlookup'
    split at hlookup'
    · cases hlookup'
    · exact hinv.books t' h' hlookup'
  · rcases List.mem_cons.mp hk with rfl | hk
    · exact ⟨h, hlookup, authenticated_of_facts hfacts hdone hcall hflag _⟩
    · exact hinv.invoked k hk
  · exact rely_of_eq (AList.lookup_erase_ne hne)

theorem holds_webhookHandler (req : WebhookRequest) (s : Shared) :
    (access crypto).Holds t (fun _ _ => True) (webhookHandler crypto req) s := by
  have hrespond : ∀ (answer : Answer) (s : Shared), (access crypto).Holds t (fun _ _ => True)
      (perf Op.respond >>= fun _ => pure answer) s := by
    intro answer s
    refine Outline.Holds.bind (Q := fun (_ : Unit) _ => True)
      (holds_perf .respond (by simp) fun _ _ _ _ _ _ _ _ => True.intro) fun _ s _ => Outline.holds_ret True.intro
  unfold webhookHandler
  refine (holds_getChannelForPath req).bind fun channel s hchannel => ?_
  cases channel with
  | none => exact hrespond _ s
  | some channel =>
    refine Outline.Holds.bind (Q := fun (verdict : Option Rejection) s => verdict = none →
      Own t (Facts crypto req channel.name (fun _ => True) fun _ => False) s) ?_ fun verdict s hpassed => ?_
    · -- The three checks, one after the other.
      refine holds_checkAll (holds_checkSecret (hchannel channel rfl) True.intro) fun s hown => ?_
      refine holds_checkAll (holds_checkSigned (by simp) hown ⟨by simp, True.intro⟩ _ _) fun s hown => ?_
      refine holds_checkAll (holds_checkSigned (by simp) hown ⟨by simp, by simp, True.intro⟩ _ _) fun s hown => ?_
      refine Outline.holds_ret fun _ => hown.mono fun h hfacts => ?_
      refine ⟨hfacts.request, hfacts.channel, hfacts.demands, hfacts.matched, fun k _ => ?_, nofun⟩
      cases k with
      | secret => exact hfacts.satisfied .secret (by simp)
      | signatureKey => exact hfacts.satisfied .signatureKey (by simp)
      | hmacSecret => exact hfacts.satisfied .hmacSecret (by simp)
    cases verdict with
    | some why => exact hrespond _ s
    | none =>
      refine (holds_flag (hpassed rfl) True.intro).bind fun validated s hown => ?_
      refine Outline.Holds.bind (Q := fun _ _ => True) (holds_callOnHttpRequest hown (fun _ => True.intro) ⟨rfl, rfl⟩)
        fun response s _ => ?_
      cases response with
      | ok response => exact Outline.holds_ret True.intro
      | error e => exact Outline.holds_ret True.intro

/-! ## All runs -/

/-- Registration never calls a channel. -/
def Quiet (o : Op) : Prop := ∀ channel call, o ≠ .callOnHttpRequest channel call

theorem quiet_perf {o : Op} (h : Quiet o) : (perf o : Prog Op Ans (Ans o)).Every Quiet := Prog.every_perf h

theorem quiet_insertPaths (name : String) (endpoints : List RegisteredEndpoint) :
    (insertPaths name endpoints).Every Quiet := by
  induction endpoints with
  | nil => exact Prog.every_ret
  | cons endpoint rest ih => exact Prog.Every.bind (quiet_perf nofun) fun _ => ih

theorem quiet_register (channel : WasmChannel) (endpoints : List RegisteredEndpoint)
    (secret secretHeader : Option String) : (register channel endpoints secret secretHeader).Every Quiet := by
  unfold register
  refine Prog.Every.bind (quiet_perf nofun) fun _ => ?_
  refine Prog.Every.bind (quiet_perf nofun) fun _ => ?_
  refine Prog.Every.bind (quiet_insertPaths channel.name endpoints) fun _ => ?_
  have hunlock : (perf Op.unlockPaths : Prog Op Ans Unit).Every Quiet := quiet_perf nofun
  have hheader : ∀ h, (perf (Op.insertHeader channel.name h) : Prog Op Ans Unit).Every Quiet := fun h => quiet_perf nofun
  have hsecret : ∀ s, (perf (Op.insertCredential .secret channel.name s) : Prog Op Ans Unit).Every Quiet :=
    fun s => quiet_perf nofun
  cases secret with
  | none =>
    cases secretHeader with
    | none => exact hunlock
    | some h => exact (hheader h).bind fun _ => hunlock
  | some s =>
    cases secretHeader with
    | none => exact (hsecret s).bind fun _ => hunlock
    | some h => exact (hsecret s).bind fun _ => (hheader h).bind fun _ => hunlock

theorem quiet_unregister (name : String) : (unregister name).Every Quiet := by
  unfold unregister
  refine Prog.Every.bind (quiet_perf nofun) fun _ => ?_
  refine Prog.Every.bind (quiet_perf nofun) fun _ => ?_
  refine Prog.Every.bind (quiet_perf nofun) fun _ => ?_
  refine Prog.Every.bind (quiet_perf nofun) fun _ => ?_
  exact Prog.Every.bind (quiet_perf nofun) fun _ => quiet_perf nofun

theorem holds_body (c : Call) (s : Shared) : (access crypto).Holds t (fun _ _ => True) (body crypto c) s := by
  cases c with
  | webhook req => exact holds_webhookHandler req s
  | register channel endpoints secret secretHeader => exact holds_any (quiet_register _ _ _ _)
  | updateSecret name secret => exact holds_any (quiet_perf nofun)
  | registerSignatureKey name publicKeyHex =>
    refine holds_any ?_
    show (registerSignatureKey crypto name publicKeyHex).Every Quiet
    unfold registerSignatureKey
    split
    · exact Prog.every_ret
    · split
      · exact Prog.Every.bind (quiet_perf nofun) fun _ => Prog.every_ret
      · exact Prog.every_ret
  | registerHmacSecret name secret => exact holds_any (quiet_perf nofun)
  | unregister name => exact holds_any (quiet_unregister name)

/-- **Every webhook that reaches a channel is authenticated**, in every run whose steps are admitted. -/
theorem webhooks_authenticated {ls : List (machine crypto).Label} {cfg : (machine crypto).Config}
    (run : Runs (machine crypto).step ((machine crypto).StepsMeet Admitted) ((machine crypto).initial {}) ls cfg) :
    ∀ k ∈ cfg.shared.invoked, ∃ h, k.handling = some h ∧ Authenticated crypto k h := by
  have hgood := (access crypto).run run ⟨nofun, nofun⟩ (fun _ => True.intro) (fun _ hmeets htask => hmeets _ _ _ htask)
    fun c _ _ => holds_body c _
  exact hgood.inv.invoked

/-! ## Two runs -/

/-- `Admitted`, computed. -/
def admits (_ : Nat) (o : Op) (_ : Input) (s : Shared) : Bool :=
  match o with
  | .removeCredential kind name =>
    s.requests.entries.all fun e => e.2.channel ≠ name || !e.2.had kind || !e.2.awaiting kind
  | .insertCredential .secret name _ =>
    ((s.credentials .secret).lookup name).isSome ||
      s.requests.entries.all fun e => e.2.channel ≠ name || e.2.awaiting .secret || e.2.matched.isSome
  | .getChannel req name =>
    match s.channels.lookup name, s.endpoints.lookup req.fullPath with
    | some channel, some e =>
      (!e.requireSecret || ((s.credentials .secret).lookup channel.name).isSome) &&
        (e.methods.isEmpty || e.methods.contains req.method)
    | _, _ => true
  | _ => true

theorem admits_sound (t : Nat) (o : Op) (i : Input) (s : Shared) (h : admits t o i s = true) : Admitted t o i s := by
  cases o with
  | removeCredential kind name =>
    intro t' h' hlookup hchannel hhad
    have hentry := List.all_eq_true.mp h _ (AList.mem_lookup_iff.mp hlookup)
    simpa [hchannel, hhad] using hentry
  | insertCredential kind name value =>
    cases kind with
    | secret =>
      rcases Bool.or_eq_true_iff.mp h with hsome | hall
      · exact .inl hsome
      · refine .inr fun t' h' hlookup hchannel => ?_
        have hentry := List.all_eq_true.mp hall _ (AList.mem_lookup_iff.mp hlookup)
        simpa [hchannel] using hentry
    | signatureKey => exact True.intro
    | hmacSecret => exact True.intro
  | getChannel req name =>
    intro channel e hchannel hendpoint
    simp only [admits, hchannel, hendpoint, Bool.and_eq_true, Bool.or_eq_true] at h
    refine ⟨fun hrequire => ?_, fun hmethods => ?_⟩
    · simpa [hrequire] using h.1
    · simpa [hmethods] using h.2
  | _ => exact True.intro

/-- No signatures are used. -/
def noCrypto : Crypto := ⟨fun _ => false, fun _ _ _ => false, fun _ _ => []⟩

def telegram : WasmChannel := ⟨0, "telegram"⟩

def telegramEndpoint : RegisteredEndpoint := ⟨"telegram", "/webhook/telegram", ["POST"], true⟩

/-- A call that performs `n` operations. -/
def started (t : Nat) (c : Call) (n : Nat) : List (machine noCrypto).Label :=
  .start t c :: List.replicate n (.step t ⟨0, .ok ⟨200, []⟩⟩)

/-- A channel is registered with a secret, and gets a request with it. -/
def withSecret : List (machine noCrypto).Label :=
  started 0 (.register telegram [telegramEndpoint] (some "s3cret") none) 5 ++
    started 1 (.webhook ⟨"POST", "telegram", (∅ : Map String String).insert "secret" "s3cret", [], []⟩) 10

/-- The channel is being unregistered when a request without any secret has just found it. -/
def unregisteredUnder : List (machine noCrypto).Label :=
  started 0 (.register telegram [telegramEndpoint] (some "s3cret") none) 5 ++
    started 1 (.webhook ⟨"POST", "telegram", ∅, [], []⟩) 3 ++ started 2 (.unregister "telegram") 2 ++
      List.replicate 5 (.step 1 ⟨0, .ok ⟨200, []⟩⟩)

/-- The request with the secret reaches the channel, authenticated. -/
theorem webhook_with_secret : ∃ cfg : (machine noCrypto).Config, cfg.shared.invoked.length = 1 ∧
    ∀ k ∈ cfg.shared.invoked, ∃ h, k.handling = some h ∧ Authenticated noCrypto k h := by
  have hcomputed : (withSecret.foldlM
      (fun cfg l => if Machine.stepsMeet (M := machine noCrypto) admits cfg l then (machine noCrypto).step cfg l else none)
      ((machine noCrypto).initial {})).map (fun cfg => cfg.shared.invoked.length) = some 1 := by
    decide
  obtain ⟨cfg, hls, hone⟩ := Option.map_eq_some_iff.mp hcomputed
  exact ⟨cfg, hone, webhooks_authenticated (Runs.of_checked (Machine.stepsMeet_sound admits_sound) hls)⟩

/-- The request without a secret reaches the channel as well. -/
theorem webhook_without_secret : ∃ cfg, Runs (machine noCrypto).step (fun _ _ => True) ((machine noCrypto).initial {})
    unregisteredUnder cfg ∧ ∃ k ∈ cfg.shared.invoked, ∀ h, k.handling = some h → ¬Authenticated noCrypto k h := by
  have hcomputed : (unregisteredUnder.foldlM (machine noCrypto).step ((machine noCrypto).initial {})).map
      (fun cfg => cfg.shared.invoked.map fun k => k.handling.map fun h =>
        (h.had .secret, (h.request.query.lookup "secret").isNone, h.request.headers.isEmpty)) =
        some [some (true, true, true)] := by
    decide
  obtain ⟨cfg, hls, hinvoked⟩ := Option.map_eq_some_iff.mp hcomputed
  obtain ⟨k, hk, hhandling⟩ := List.map_eq_singleton_iff.mp hinvoked
  refine ⟨cfg, Runs.of_foldlM hls, k, by simp [hk], fun h hh hauth => ?_⟩
  rw [hh] at hhandling
  obtain ⟨hhad, hquery, hheaders⟩ : h.had .secret = true ∧ h.request.query.lookup "secret" = none ∧
      h.request.headers = [] := by simpa using hhandling
  obtain ⟨v, -, hcarries⟩ := hauth.secret hhad
  rcases hcarries with hv | ⟨name, hv⟩
  · rw [hquery] at hv
    cases hv
  · simp [WebhookRequest.header, hheaders] at hv

end Freeclawdia.Webhook
