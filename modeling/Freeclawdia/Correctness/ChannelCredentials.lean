import Freeclawdia.Correctness.SecretVault
import Freeclawdia.Extensions.WasmTools
import Freeclawdia.Lib.Runs

/-!
# `Correctness.ChannelCredentials` — a channel and the secrets named for it

A secret is named for the channel whose name, with an underscore, it starts with. Of two such channels the longer name
counts: `a_b_token` is for `a_b` and not for `a`. Channels should hold the values of their own secrets, and after a refresh
exactly the current ones.

Injecting looks at the prefix only, and only ever adds. Here is when that is enough.
-/

namespace Freeclawdia.Extensions

open Rust Secrets

/-! ## Names -/

/-- The secret is named for the channel, among these channels. -/
def NamedFor (names : List String) (channelName secret : String) : Prop :=
  hasPrefix channelName secret = true ∧
    ∀ other ∈ names, hasPrefix other secret = true → other.length ≤ channelName.length

instance (names : List String) (channelName secret : String) : Decidable (NamedFor names channelName secret) :=
  inferInstanceAs (Decidable (_ ∧ _))

variable {c : String} {d secret : String}

/-- Two names of one length with the prefix are one. -/
theorem hasPrefix_inj (hc : hasPrefix c secret = true) (hd : hasPrefix d secret = true) (hlength : c.length = d.length) :
    c = d := by
  obtain ⟨t, ht⟩ := startsWith_iff.mp hc
  obtain ⟨u, hu⟩ := startsWith_iff.mp hd
  have heq : c.toList ++ ("_".toList ++ t.toList) = d.toList ++ ("_".toList ++ u.toList) := by
    have h := congrArg String.toList (ht.symm.trans hu)
    simpa [String.toList_append] using h
  have hlist : c.toList.length = d.toList.length := by rw [String.length_toList, String.length_toList, hlength]
  exact String.toList_inj.mp (List.append_inj heq hlist).1

theorem NamedFor.unique {names : List String} (hc : c ∈ names) (hd : d ∈ names) (hcs : NamedFor names c secret)
    (hds : NamedFor names d secret) : c = d := by
  have hle := hds.2 c hc hcs.1
  have hge := hcs.2 d hd hds.1
  exact hasPrefix_inj hcs.1 hds.1 (Nat.le_antisymm hle hge)

/-! ## One injection -/

section Injecting

variable {σ : Type} (s : SecretsStore σ) (secrets : σ) (userId : String)

/-- A secret with the prefix that can be read, with its value. -/
def readRef (channelName : String) (now : Int) (secretMeta : SecretRef) : Option (String × String) :=
  if hasPrefix channelName secretMeta.name then
    match s.getDecrypted secrets userId secretMeta.name now with
    | .error _ => none
    | .ok decrypted => some (secretMeta.name, decrypted)
  else none

/-- The stored secrets with the prefix that can be read. -/
def readable (channelName : String) (now : Int) : List (String × String) :=
  (s.list secrets userId).filterMap (readRef s secrets userId channelName now)

variable {now : Int} {channelName : String}

theorem mem_readable {secret value : String} : (secret, value) ∈ readable s secrets userId channelName now ↔
      secret ∈ (s.list secrets userId).map SecretRef.name ∧ hasPrefix channelName secret = true ∧
        s.getDecrypted secrets userId secret now = .ok value := by
  unfold readable readRef
  rw [List.mem_filterMap, List.mem_map]
  constructor
  · rintro ⟨secretMeta, hmem, h⟩
    split at h
    next hprefix =>
      split at h
      · cases h
      next decrypted hdecrypted =>
        obtain ⟨rfl, rfl⟩ := Prod.mk.inj (Option.some.inj h)
        exact ⟨⟨secretMeta, hmem, rfl⟩, hprefix, hdecrypted⟩
    next => cases h
  · rintro ⟨⟨secretMeta, hmem, rfl⟩, hprefix, hdecrypted⟩
    exact ⟨secretMeta, hmem, by rw [if_pos hprefix, hdecrypted]⟩

/-- What is set for a secret. -/
def entryOf (e : String × String) : String × Credential := (toUppercase e.1, ⟨e.2, e.1⟩)

theorem foldl_setCredential (es : List (String × String)) (credentials : Credentials) (count : Nat) :
    es.foldl (fun acc e => (setCredential (entryOf e).1 (entryOf e).2 acc.1, acc.2 + 1)) (credentials, count) =
      (Map.insertAll (es.map entryOf) credentials, count + es.length) := by
  induction es generalizing credentials count with
  | nil => rfl
  | cons e es ih =>
    rw [List.foldl_cons, ih, List.length_cons, Nat.add_assoc, Nat.add_comm 1]
    rfl

/-- An injection sets the readable secrets, one after the other. -/
theorem inject_eq (channelName : String) (now : Int) (credentials : Credentials) :
    injectChannelCredentials s secrets userId channelName now credentials =
      (Map.insertAll ((readable s secrets userId channelName now).map entryOf) credentials,
        (readable s secrets userId channelName now).length) := by
  have hfold := foldl_setCredential (readable s secrets userId channelName now) credentials 0
  rw [Nat.zero_add] at hfold
  rw [← hfold, readable, List.foldl_filterMap]
  unfold injectChannelCredentials
  congr 1
  funext ⟨credentials, count⟩ secretMeta
  unfold readRef
  dsimp only
  by_cases hprefix : hasPrefix channelName secretMeta.name = true
  · rw [if_pos hprefix, if_pos hprefix]
    cases s.getDecrypted secrets userId secretMeta.name now with
    | error e => rfl
    | ok decrypted => rfl
  · rw [if_neg hprefix, if_neg hprefix]

/-- Where a credential comes from: a readable secret, or it was there and no readable secret has its placeholder. -/
theorem lookup_inject {credentials : Credentials} {placeholder : String} {credential : Credential}
    (h : (injectChannelCredentials s secrets userId channelName now credentials).1.lookup placeholder = some credential) :
    ((credential.secret, credential.value) ∈ readable s secrets userId channelName now ∧
        toUppercase credential.secret = placeholder) ∨ (credentials.lookup placeholder = some credential ∧
        ∀ e ∈ readable s secrets userId channelName now, toUppercase e.1 ≠ placeholder) := by
  rw [inject_eq] at h
  rcases Map.lookup_insertAll_cases h with hmem | ⟨hold, hnone⟩
  · obtain ⟨e, he, heq⟩ := List.mem_map.mp hmem
    cases heq
    exact Or.inl ⟨he, rfl⟩
  · exact Or.inr ⟨hold, fun e he => hnone _ (List.mem_map_of_mem he)⟩

/-- The placeholder of a readable secret has the value of such a secret. -/
theorem lookup_inject_readable (credentials : Credentials) {e : String × String}
    (h : e ∈ readable s secrets userId channelName now) :
    ∃ e' ∈ readable s secrets userId channelName now, toUppercase e'.1 = toUppercase e.1 ∧
      (injectChannelCredentials s secrets userId channelName now credentials).1.lookup (toUppercase e.1) =
        some ⟨e'.2, e'.1⟩ := by
  rw [inject_eq]
  obtain ⟨credential, hlookup, hmem⟩ := Map.lookup_insertAll_mem credentials (List.mem_map_of_mem (f := entryOf) h)
  obtain ⟨e', he', heq⟩ := List.mem_map.mp hmem
  obtain ⟨hupper, rfl⟩ := Prod.mk.inj heq
  exact ⟨e', he', hupper, hlookup⟩

end Injecting

/-! ## What should hold -/

/-- The value of the secret is available in the channel. -/
def Available (w : WasmChannels) (channelName secret : String) : Prop :=
  ∃ credentials placeholder credential, w.channels.lookup channelName = some credentials ∧
    credentials.lookup placeholder = some credential ∧ credential.secret = secret

variable {σ : Type} (s : SecretsStore σ) (userId : String) (names : List String)

/-- The credentials of the channel are the current values of the stored secrets that are named for it. -/
def HoldsCurrent (secrets : σ) (channelName : String) (now : Int) (w : WasmChannels) : Prop :=
  ∃ credentials, w.channels.lookup channelName = some credentials ∧
    ∀ placeholder value,
      (∃ credential, credentials.lookup placeholder = some credential ∧ credential.value = value) ↔
        ∃ secret ∈ (s.list secrets userId).map SecretRef.name, NamedFor names channelName secret ∧
          s.getDecrypted secrets userId secret now = .ok value ∧ toUppercase secret = placeholder

/-! ## When an injection is right -/

/-- The readable secrets with the prefix are named for the channel. -/
def OwnOnly (secrets : σ) (channelName : String) (now : Int) : Prop :=
  ∀ e ∈ readable s secrets userId channelName now, NamedFor names channelName e.1

/-- A refresh is right: it reaches the channel, the secrets with the prefix are its own, those with one placeholder have
one value, and the channel holds nothing that is not set again. -/
structure Refreshable (secrets : σ) (channelName : String) (now : Int) (w : WasmChannels) : Prop where
  runtime : w.hasRuntime = true
  own : OwnOnly s userId names secrets channelName now
  distinct : ∀ e ∈ readable s secrets userId channelName now, ∀ e' ∈ readable s secrets userId channelName now,
    toUppercase e.1 = toUppercase e'.1 → e.2 = e'.2
  stored : ∀ credentials, w.channels.lookup channelName = some credentials → ∀ placeholder credential,
    credentials.lookup placeholder = some credential →
      ∃ e ∈ readable s secrets userId channelName now, toUppercase e.1 = placeholder

variable {s userId names} {now : Int} {channelName : String} {w : WasmChannels} {secrets : σ}

theorem Refreshable.holdsCurrent (h : Refreshable s userId names secrets channelName now w)
    (hrouted : (w.channels.lookup channelName).isSome) : HoldsCurrent s userId names secrets channelName now
      (w.refreshActiveChannel s secrets userId channelName now).1 := by
  obtain ⟨existing, hexisting⟩ := Option.isSome_iff_exists.mp hrouted
  refine ⟨(injectChannelCredentials s secrets userId channelName now existing).1, ?_, ?_⟩
  · unfold WasmChannels.refreshActiveChannel
    rw [if_pos h.runtime, hexisting]
    exact AList.lookup_insert _
  · intro placeholder value
    constructor
    · rintro ⟨credential, hlookup, rfl⟩
      rcases lookup_inject s secrets userId hlookup with ⟨hmem, hupper⟩ | ⟨hold, hnone⟩
      · obtain ⟨hstored, -, hread⟩ := (mem_readable s secrets userId).mp hmem
        exact ⟨credential.secret, hstored, h.own _ hmem, hread, hupper⟩
      · -- What was there before has the placeholder of a readable secret, so it has been replaced.
        obtain ⟨e, he, hupper⟩ := h.stored existing hexisting placeholder credential hold
        exact absurd hupper (hnone e he)
    · rintro ⟨secret, hstored, hnamed, hread, rfl⟩
      have hmem : (secret, value) ∈ readable s secrets userId channelName now :=
        (mem_readable s secrets userId).mpr ⟨hstored, hnamed.1, hread⟩
      obtain ⟨e, he, hupper, hlookup⟩ := lookup_inject_readable s secrets userId existing hmem
      exact ⟨⟨e.2, e.1⟩, hlookup, h.distinct e he (secret, value) hmem hupper⟩

/-! ## Steps -/

/-- The secrets and the channels. -/
structure World (σ : Type) where
  secrets : σ
  wasm : WasmChannels

inductive Event
  | vault (op : VaultOp) (draw : Draw)
  | setup (hasSecrets : Bool) (name : String) (now : Int)
  | setChannelRuntime
  | activate (name : String) (a : WasmChannels.Activation)

variable (s userId names)

def WasmChannels.step (w : World σ) : Event → Option (World σ)
  | .vault op draw => some { w with secrets := s.perform w.secrets (op, draw) }
  | .setup hasSecrets name now => some { w with wasm := w.wasm.setup s w.secrets userId hasSecrets name now }
  | .setChannelRuntime => some { w with wasm := w.wasm.setChannelRuntime }
  | .activate name a => some { w with wasm := (w.wasm.activateWasmChannel s w.secrets userId a name).1 }

/-- An activation gets as far as the credentials of a new channel. -/
def Loads (w : World σ) (a : WasmChannels.Activation) : Prop :=
  w.wasm.hasRuntime = true ∧ (∀ secret ∈ a.requiredSecrets, s.exists? w.secrets userId secret = true) ∧ a.loadError = none

/-- The steps that are right. Their channels are among the names. -/
def InjectsOwn (w : World σ) : Event → Prop
  | .vault _ _ => True
  | .setup hasSecrets name now => name ∈ names ∧ (hasSecrets = true → OwnOnly s userId names w.secrets name now)
  | .setChannelRuntime => True
  | .activate name a =>
    name ∈ names ∧
      if name ∈ w.wasm.activeChannelNames then Refreshable s userId names w.secrets name a.now w.wasm
      else Loads s userId w a → OwnOnly s userId names w.secrets name a.now

/-- Every channel is one of the names and holds secrets named for it; active channels are in the router. -/
structure Own (w : WasmChannels) : Prop where
  known : ∀ c credentials, w.channels.lookup c = some credentials → c ∈ names
  own : ∀ c credentials, w.channels.lookup c = some credentials → ∀ placeholder credential,
    credentials.lookup placeholder = some credential → NamedFor names c credential.secret
  routed : ∀ c ∈ w.activeChannelNames, (w.channels.lookup c).isSome

variable {s userId names} {credentials : Credentials}

/-- Only secrets of its own are injected into a channel that had no others. -/
theorem OwnOnly.inject (h : OwnOnly s userId names secrets channelName now)
    (hown : ∀ placeholder credential, credentials.lookup placeholder = some credential →
      NamedFor names channelName credential.secret) :
    ∀ placeholder credential,
      (injectChannelCredentials s secrets userId channelName now credentials).1.lookup placeholder = some credential →
        NamedFor names channelName credential.secret := by
  intro placeholder credential hlookup
  rcases lookup_inject s secrets userId hlookup with ⟨hmem, -⟩ | ⟨hold, -⟩
  · exact h _ hmem
  · exact hown _ _ hold

variable {name : String}

/-- Putting a channel of the set into the router with secrets of its own. -/
theorem Own.insert (h : Own names w) (hname : name ∈ names)
    (hown : ∀ placeholder credential, credentials.lookup placeholder = some credential →
      NamedFor names name credential.secret) :
    Own names { w with channels := w.channels.insert name credentials } where
  known c held hc := by
    rw [Map.lookup_insert_ite] at hc
    split at hc
    next heq => rw [heq]; exact hname
    next => exact h.known c held hc
  own c held hc := by
    rw [Map.lookup_insert_ite] at hc
    split at hc
    next heq =>
      rw [heq, ← Option.some.inj hc]
      exact hown
    next => exact h.own c held hc
  routed c hc := by
    rw [Map.lookup_insert_ite]
    split
    · rfl
    · exact h.routed c hc

/-- A channel in the router becomes active. -/
theorem Own.activate (h : Own names w) (hrouted : (w.channels.lookup name).isSome) :
    Own names { w with activeChannelNames := w.activeChannelNames.insert name } where
  known := h.known
  own := h.own
  routed c hc := by
    rcases List.mem_insert_iff.mp hc with heq | hold
    · rw [heq]; exact hrouted
    · exact h.routed c hold

theorem lookup_empty_own : ∀ placeholder credential,
    (∅ : Credentials).lookup placeholder = some credential → NamedFor names channelName credential.secret := by
  intro placeholder credential h
  cases h

theorem own_refresh (h : Own names w) (hown : OwnOnly s userId names secrets name now) :
    Own names (w.refreshActiveChannel s secrets userId name now).1 := by
  unfold WasmChannels.refreshActiveChannel
  split
  · split
    · exact h
    next existing hexisting => exact h.insert (h.known _ _ hexisting) (hown.inject (h.own _ _ hexisting))
  · exact h

theorem own_setup (h : Own names w) {hasSecrets : Bool} (hname : name ∈ names)
    (hown : hasSecrets = true → OwnOnly s userId names secrets name now) :
    Own names (w.setup s secrets userId hasSecrets name now) := by
  unfold WasmChannels.setup
  refine (h.insert hname ?_).activate ?_
  · split
    next hhas => exact (hown hhas).inject lookup_empty_own
    next => exact lookup_empty_own
  · show ((w.channels.insert name _).lookup name).isSome
    rw [AList.lookup_insert]
    rfl

theorem own_load {w : World σ} (h : Own names w.wasm) {a : WasmChannels.Activation} (hname : name ∈ names)
    (hinactive : name ∉ w.wasm.activeChannelNames)
    (hown : Loads s userId w a → OwnOnly s userId names w.secrets name a.now) :
    Own names (w.wasm.activateWasmChannel s w.secrets userId a name).1 := by
  unfold WasmChannels.activateWasmChannel
  rw [if_neg hinactive]
  split
  · exact h
  next hruntime =>
    split
    · exact h
    next hrequired =>
      split
      · exact h
      next hload =>
        have hloads : Loads s userId w a := by
          refine ⟨by simpa using hruntime, ?_, hload⟩
          intro secret hsecret
          by_contra hmissing
          exact hrequired (List.any_eq_true.mpr ⟨secret, hsecret, by simpa using hmissing⟩)
        have hinserted := h.insert hname ((hown hloads).inject lookup_empty_own)
        split
        · exact hinserted
        · refine hinserted.activate ?_
          show ((w.wasm.channels.insert name _).lookup name).isSome
          rw [AList.lookup_insert]
          rfl

/-- **One step** that is right keeps every channel to its own secrets. -/
theorem own_step {w w' : World σ} (h : Own names w.wasm) {e : Event} (hright : InjectsOwn s userId names w e)
    (hstep : WasmChannels.step s userId w e = some w') : Own names w'.wasm := by
  cases e with
  | vault op draw => cases hstep; exact h
  | setup hasSecrets name now => cases hstep; exact own_setup h hright.1 hright.2
  | setChannelRuntime => cases hstep; exact ⟨h.known, h.own, h.routed⟩
  | activate name a =>
    cases hstep
    obtain ⟨hname, hcase⟩ := hright
    split at hcase
    next hactive =>
      unfold WasmChannels.activateWasmChannel
      rw [if_pos hactive]
      exact own_refresh h hcase.own
    next hinactive => exact own_load h hname hinactive hcase

theorem own_new : Own names WasmChannels.new where
  known c credentials h := by cases h
  own c credentials h := by cases h
  routed c hc := by cases hc

theorem own_runs {events : List Event} {w : World σ}
    (run : Runs (WasmChannels.step s userId) (InjectsOwn s userId names) ⟨secrets, .new⟩ events w) : Own names w.wasm :=
  run.invariant (P := fun _ w => Own names w.wasm) own_new fun h hright hstep => own_step h hright hstep

/-- **A channel holds only its own secrets**, in every run whose steps are right: no secret is available in two channels,
one that is available is named for its channel, and a refresh leaves exactly the current values. -/
theorem channels_hold_own_secrets {secrets : σ} {events : List Event} {w : World σ}
    (run : Runs (WasmChannels.step s userId) (InjectsOwn s userId names) ⟨secrets, .new⟩ events w) :
    (∀ c d secret, Available w.wasm c secret → Available w.wasm d secret → c = d) ∧
    (∀ c secret, Available w.wasm c secret → NamedFor names c secret) ∧
    ∀ c a w', c ∈ w.wasm.activeChannelNames → InjectsOwn s userId names w (.activate c a) →
      WasmChannels.step s userId w (.activate c a) = some w' →
        HoldsCurrent s userId names w.secrets c a.now w'.wasm := by
  have hown := own_runs run
  refine ⟨?_, ?_, ?_⟩
  · rintro c d secret ⟨held, p, credential, hc, hp, rfl⟩ ⟨held', p', credential', hd, hp', hsame⟩
    have hcs := hown.own c held hc p credential hp
    have hds := hown.own d held' hd p' credential' hp'
    exact hcs.unique (hown.known c held hc) (hown.known d held' hd) (hsame ▸ hds)
  · rintro c secret ⟨held, p, credential, hc, hp, rfl⟩
    exact hown.own c held hc p credential hp
  · intro c a w' hactive hright hstep
    cases hstep
    obtain ⟨-, hcase⟩ := hright
    rw [if_pos hactive] at hcase
    show HoldsCurrent _ _ _ _ _ _ (w.wasm.activateWasmChannel s w.secrets userId a c).1
    unfold WasmChannels.activateWasmChannel
    rw [if_pos hactive]
    exact hcase.holdsCurrent (hown.routed c hactive)

/-! ## Two channels -/

/-- The store in memory, with a cipher that hides nothing. -/
abbrev memory : SecretsStore InMemorySecretsStore.SecretMap := InMemorySecretsStore.store exampleMemory

/-- Activating a channel that is there and needs no secrets. -/
def plainActivation : WasmChannels.Activation := ⟨[], none, none, 0⟩

/-- Store a secret of the program's user. -/
def storeSecret (name value : String) (n : Nat) : Event := .vault (.create "default" name value none none) (exampleDraw n)

/-- The program runs, with a secret for `a_b`. -/
def stored : List Event := [.setChannelRuntime, storeSecret "a_b_token" "1" 1]

/-- What a placeholder of a channel stands for. -/
def WasmChannels.credential (w : WasmChannels) (channelName placeholder : String) : Option Credential :=
  (w.channels.lookup channelName).bind fun credentials => credentials.lookup placeholder

theorem Available.of_credential (placeholder : String) (credential : Credential)
    (h : w.credential c placeholder = some credential) : Available w c credential.secret := by
  obtain ⟨credentials, hc, hp⟩ := Option.bind_eq_some_iff.mp h
  exact ⟨credentials, placeholder, credential, hc, hp, rfl⟩

theorem HoldsCurrent.mem_list (h : HoldsCurrent s userId names secrets c now w) (placeholder : String)
    (credential : Credential) (hc : w.credential c placeholder = some credential) :
    ∃ secret, secret ∈ (s.list secrets userId).map SecretRef.name := by
  obtain ⟨credentials, hlookup, hiff⟩ := h
  obtain ⟨held, hheld, hp⟩ := Option.bind_eq_some_iff.mp hc
  obtain rfl := Option.some.inj (hlookup.symm.trans hheld)
  obtain ⟨secret, hstored, -⟩ := (hiff placeholder credential.value).mp ⟨credential, hp, rfl⟩
  exact ⟨secret, hstored⟩

/-- What a channel holds is set again, by its entries. -/
theorem stored_of_entries
    (h : ∀ e ∈ ((w.channels.lookup channelName).getD ∅).entries, ∃ r ∈ readable s secrets userId channelName now,
      toUppercase r.1 = e.1) :
    ∀ credentials, w.channels.lookup channelName = some credentials → ∀ placeholder credential,
      credentials.lookup placeholder = some credential →
        ∃ e ∈ readable s secrets userId channelName now, toUppercase e.1 = placeholder := by
  intro credentials hlookup placeholder credential hcredential
  rw [hlookup] at h
  exact h ⟨placeholder, credential⟩ (AList.mem_lookup_iff.mp hcredential)

/-- A secret for `a_b` is replaced while the channel is active, and the channel refreshed. -/
theorem replaced_is_current : ∃ w w',
    Runs (WasmChannels.step memory "default") (InjectsOwn memory "default" ["a", "a_b"]) ⟨∅, .new⟩
        (stored ++ [.activate "a_b" plainActivation, storeSecret "a_b_token" "2" 2]) w ∧
      WasmChannels.step memory "default" w (.activate "a_b" plainActivation) = some w' ∧
      w'.wasm.credential "a_b" "A_B_TOKEN" = some ⟨"2", "a_b_token"⟩ ∧
      HoldsCurrent memory "default" ["a", "a_b"] w.secrets "a_b" 0 w'.wasm := by
  have hstored : Runs (WasmChannels.step memory "default") (InjectsOwn memory "default" ["a", "a_b"]) ⟨∅, .new⟩
      (([] ++ [.setChannelRuntime]) ++ [storeSecret "a_b_token" "1" 1]) _ :=
    .snoc (.snoc (.refl _) _ trivial rfl) _ trivial rfl
  have hactivated := hstored.snoc (.activate "a_b" plainActivation)
    ⟨by decide, fun _ => by unfold OwnOnly; decide⟩ rfl
  have hreplaced := hactivated.snoc (storeSecret "a_b_token" "2" 2) trivial rfl
  refine ⟨_, _, hreplaced, rfl, by decide, ?_⟩
  refine (channels_hold_own_secrets hreplaced).2.2 "a_b" plainActivation _ (by decide) ⟨by decide, ?_⟩ rfl
  rw [if_pos (by decide)]
  exact ⟨by decide, by unfold OwnOnly; decide, by decide, stored_of_entries (by decide)⟩

/-- The secret of `a_b` is injected into `a` as well, and stays in `a_b` when it has been deleted. -/
theorem secret_shared_and_kept : ∃ w w',
    Runs (WasmChannels.step memory "default") (fun _ _ => True) ⟨∅, .new⟩
        (stored ++ [.activate "a_b" plainActivation, .activate "a" plainActivation,
          .vault (.delete "default" "a_b_token") (exampleDraw 2)]) w ∧
      WasmChannels.step memory "default" w (.activate "a_b" plainActivation) = some w' ∧
      Available w.wasm "a" "a_b_token" ∧ Available w.wasm "a_b" "a_b_token" ∧
      ¬ NamedFor ["a", "a_b"] "a" "a_b_token" ∧
      ¬ HoldsCurrent memory "default" ["a", "a_b"] w.secrets "a_b" 0 w'.wasm := by
  refine ⟨_, _, Runs.of_foldlM rfl, rfl, ?_, ?_, by decide, ?_⟩
  · exact Available.of_credential "A_B_TOKEN" ⟨"1", "a_b_token"⟩ (by decide)
  · exact Available.of_credential "A_B_TOKEN" ⟨"1", "a_b_token"⟩ (by decide)
  · intro hcurrent
    obtain ⟨secret, hstored⟩ := hcurrent.mem_list "A_B_TOKEN" ⟨"1", "a_b_token"⟩ (by decide)
    exact absurd hstored List.not_mem_nil

end Freeclawdia.Extensions
