import Freeclawdia.Channels.Signal

/-!
# `Correctness.SignalAccess` — whose envelopes reach the agent

What `process_envelope` decides is compared with what the policies say (`Admitted`), for every configuration,
every answer of the pairing store and every envelope. The two agree as long as the policy that applies is one
of the texts the code knows: any other text takes the arm `_ => {}`, which admits everybody. The pairing store's
list is the only one that is compared with the sender as it stands, without taking the `uuid:` prefix off.
-/

namespace Freeclawdia.Signal

open Rust Pairing

variable {host : Host} {self : SignalConfig} {store : PairingStore} {envelope : Envelope} {s : String}

/-! ## What the policies say -/

/-- An entry of a list matches a sender: it is the wildcard, or both are the same but for a `uuid:` prefix. -/
def Matches (entry s : String) : Prop := entry = "*" ∨ normalizeAllowEntry entry = normalizeAllowEntry s

def OnList (list : List String) (s : String) : Prop := ∃ entry ∈ list, Matches entry s

/-- The pairing store has the sender among those approved for signal. -/
def ApprovedIn (store : PairingStore) (s : String) : Prop :=
  ∃ list, store.readAllowFrom "signal" = .ok list ∧ OnList list s

/-- The group id an envelope carries. -/
def groupOf (envelope : Envelope) : Option String := envelope.dataMessage.bind groupIdOf

/-- Who may write to a group that is let in, and who may write directly. -/
def Admitted (self : SignalConfig) (store : PairingStore) (envelope : Envelope) : Prop :=
  ∃ s, sender envelope = some s ∧
    match groupOf envelope with
    | some g => (∃ entry ∈ self.allowFromGroups, entry = "*" ∨ entry = g) ∧
        (self.groupPolicy = "open" ∨
          self.groupPolicy = "allowlist" ∧ OnList (effectiveGroupAllowFrom self) s)
    | none => self.dmPolicy = "open" ∨ OnList self.allowFrom s ∨
        self.dmPolicy = "pairing" ∧ ApprovedIn store s

/-- The policy that applies to the envelope is one of the documented texts. -/
def KnownPolicy (self : SignalConfig) (envelope : Envelope) : Prop :=
  match groupOf envelope with
  | some _ => self.groupPolicy ∈ ["disabled", "open", "allowlist"]
  | none => self.dmPolicy ∈ ["open", "pairing", "allowlist"]

/-- Every check of a sender matches him with the entries regardless of a `uuid:` prefix. -/
structure RegardlessOfPrefix (config : SignalConfig) (store : PairingStore) (s : String) : Prop where
  direct : isSenderAllowed config s = true ↔ OnList config.allowFrom s
  group : isGroupSenderAllowed config s = true ↔ OnList (effectiveGroupAllowFrom config) s
  paired : isSenderAllowedWithPairing config store s = true ↔ OnList config.allowFrom s ∨ ApprovedIn store s

/-- Access control for one envelope. -/
structure FailsClosed (host : Host) (config : SignalConfig) (store : PairingStore) (envelope : Envelope) :
    Prop where
  admitted : ∀ m, (processEnvelope host config store envelope).message = some m → Admitted config store envelope
  known : ∀ m, (processEnvelope host config store envelope).message = some m → KnownPolicy config envelope
  blind : ∀ s, sender envelope = some s → RegardlessOfPrefix config store s

/-! ## The checks -/

variable {list : List String}

theorem onList_iff_any :
    (list.any fun entry => entry = "*" ∨ normalizeAllowEntry entry = normalizeAllowEntry s) = true ↔ OnList list s := by
  simp [OnList, Matches]

theorem isSenderAllowed_iff : isSenderAllowed self s = true ↔ OnList self.allowFrom s := by
  unfold isSenderAllowed
  split
  · next hempty =>
      have hnil : self.allowFrom = [] := List.isEmpty_iff.mp hempty
      simp [OnList, hnil]
  · exact onList_iff_any

theorem isGroupSenderAllowed_iff : isGroupSenderAllowed self s = true ↔ OnList (effectiveGroupAllowFrom self) s := by
  unfold isGroupSenderAllowed
  dsimp only
  split
  · next hempty =>
      have hnil : effectiveGroupAllowFrom self = [] := List.isEmpty_iff.mp hempty
      simp [OnList, hnil]
  · exact onList_iff_any

theorem isGroupAllowed_iff {g : String} :
    isGroupAllowed self g = true ↔ ∃ entry ∈ self.allowFromGroups, entry = "*" ∨ entry = g := by
  unfold isGroupAllowed
  split
  · next hempty =>
      have hnil : self.allowFromGroups = [] := List.isEmpty_iff.mp hempty
      simp [hnil]
  · simp

/-- The pairing store's entries are compared with the sender as they stand. -/
theorem isSenderAllowedWithPairing_iff : isSenderAllowedWithPairing self store s = true ↔ OnList self.allowFrom s ∨
      ∃ list, store.readAllowFrom "signal" = .ok list ∧ ("*" ∈ list ∨ s ∈ list) := by
  unfold isSenderAllowedWithPairing
  split
  · next hallowed => simp [isSenderAllowed_iff.mp hallowed]
  · next hnot =>
      have hoff : ¬OnList self.allowFrom s := fun h => hnot (isSenderAllowed_iff.mpr h)
      cases hread : store.readAllowFrom "signal" with
      | error e => simp [hoff]
      | ok list => simp [hoff, List.any_eq_true, and_or_left, exists_or]

/-- Being found in the pairing store is being approved there; the converse needs the exact text. -/
theorem approvedIn_of_found (hread : store.readAllowFrom "signal" = .ok list) (hfound : "*" ∈ list ∨ s ∈ list) :
    ApprovedIn store s := by
  rcases hfound with hstar | hself
  · exact ⟨list, hread, "*", hstar, .inl rfl⟩
  · exact ⟨list, hread, s, hself, .inr rfl⟩

/-- No entry of the pairing store differs from the sender in the prefix alone, unless he is let in anyway. -/
def Spelled (self : SignalConfig) (store : PairingStore) (s : String) : Prop :=
  ∀ list, store.readAllowFrom "signal" = .ok list → OnList list s →
    OnList self.allowFrom s ∨ "*" ∈ list ∨ s ∈ list

theorem regardlessOfPrefix_iff : RegardlessOfPrefix self store s ↔ Spelled self store s := by
  constructor
  · intro h list hread hon
    rcases isSenderAllowedWithPairing_iff.mp (h.paired.mpr (.inr ⟨list, hread, hon⟩)) with
      hdirect | ⟨list', hread', hfound⟩
    · exact .inl hdirect
    · obtain rfl : list = list' := Except.ok.inj (hread.symm.trans hread')
      exact .inr hfound
  · intro h
    refine ⟨isSenderAllowed_iff, isGroupSenderAllowed_iff, isSenderAllowedWithPairing_iff.trans ⟨?_, ?_⟩⟩
    · rintro (hdirect | ⟨list, hread, hfound⟩)
      · exact .inl hdirect
      · exact .inr (approvedIn_of_found hread hfound)
    · rintro (hdirect | ⟨list, hread, hon⟩)
      · exact .inl hdirect
      · rcases h list hread hon with hdirect | hfound
        · exact .inl hdirect
        · exact .inr ⟨list, hread, hfound⟩

/-! ## One envelope -/

variable {dataMsg : DataMessage}

theorem content_of_contentOf {text : String} (h : contentOf self envelope = some (dataMsg, text, s)) :
    envelope.dataMessage = some dataMsg ∧ sender envelope = some s := by
  unfold contentOf at h
  split at h
  · cases h
  · obtain ⟨dataMsg', hdata, h⟩ := Option.bind_eq_some_iff.mp h
    dsimp only at h
    split at h
    · cases h
    · obtain ⟨text', -, h⟩ := Option.bind_eq_some_iff.mp h
      obtain ⟨s', hsender, h⟩ := Option.bind_eq_some_iff.mp h
      cases h
      exact ⟨hdata, hsender⟩

theorem groupOf_eq (h : envelope.dataMessage = some dataMsg) : groupOf envelope = groupIdOf dataMsg := by
  simp [groupOf, h]

variable {m : SignalMessage × String}

/-- **What a message that is passed on has gone through**: the arm of the policy that applies. -/
theorem passed_cases (h : (processEnvelope host self store envelope).message = some m) : ∃ s, sender envelope = some s ∧
      match groupOf envelope with
      | some g => droppedByGroupPolicy self g s = false
      | none => self.dmPolicy = "open" ∨ self.dmPolicy = "pairing" ∧ isSenderAllowedWithPairing self store s = true ∨
          self.dmPolicy = "allowlist" ∧ isSenderAllowed self s = true ∨
          self.dmPolicy ∉ ["open", "pairing", "allowlist"] := by
  unfold processEnvelope at h
  split at h
  · cases h
  · next dataMsg text s hcontent =>
      obtain ⟨hdata, hsender⟩ := content_of_contentOf hcontent
      refine ⟨s, hsender, ?_⟩
      rw [groupOf_eq hdata]
      dsimp only at h
      cases hgroup : groupIdOf dataMsg with
      | some g =>
        simp only [hgroup] at h
        show droppedByGroupPolicy self g s = false
        by_contra hdropped
        rw [Bool.not_eq_false] at hdropped
        rw [if_pos hdropped] at h
        cases h
      | none =>
        simp only [hgroup] at h
        show _ ∨ _
        split at h
        · next hopen => exact .inl hopen
        · split at h
          · next hpairing =>
              split at h
              · next hallowed => exact .inr (.inl ⟨hpairing, hallowed⟩)
              · cases h
          · split at h
            · next hlist =>
                split at h
                · next hallowed => exact .inr (.inr (.inl ⟨hlist, hallowed⟩))
                · cases h
            · next hopen hpairing hlist => exact .inr (.inr (.inr (by simp [hopen, hpairing, hlist])))

/-- **A text that is no policy admits everybody.** -/
theorem unknown_passes (host : Host) (store : PairingStore) (hcontent : contentOf self envelope ≠ none)
    (h : ¬KnownPolicy self envelope) :
    ∃ m, (processEnvelope host self store envelope).message = some m := by
  obtain ⟨⟨dataMsg, text, s⟩, hsome⟩ := Option.ne_none_iff_exists'.mp hcontent
  obtain ⟨hdata, -⟩ := content_of_contentOf hsome
  unfold KnownPolicy at h
  rw [groupOf_eq hdata] at h
  unfold processEnvelope
  simp only [hsome]
  cases hgroup : groupIdOf dataMsg with
  | some g =>
    simp only [hgroup, List.mem_cons, List.not_mem_nil, or_false, not_or] at h
    simp [droppedByGroupPolicy, h]
  | none =>
    simp only [hgroup, List.mem_cons, List.not_mem_nil, or_false, not_or] at h
    simp [h]

/-- Under a known policy, whoever gets in may. -/
theorem admitted_of_known (h : (processEnvelope host self store envelope).message = some m)
    (hknown : KnownPolicy self envelope) : Admitted self store envelope := by
  obtain ⟨s, hsender, hpassed⟩ := passed_cases h
  refine ⟨s, hsender, ?_⟩
  unfold KnownPolicy at hknown
  cases hgroup : groupOf envelope with
  | some g =>
    simp only [hgroup, List.mem_cons, List.not_mem_nil, or_false] at hpassed hknown ⊢
    unfold droppedByGroupPolicy at hpassed
    rcases hknown with hdisabled | hopen | hlist
    · simp [hdisabled] at hpassed
    · have hgroups : isGroupAllowed self g = true := by simpa [hopen] using hpassed
      exact ⟨isGroupAllowed_iff.mp hgroups, .inl hopen⟩
    · obtain ⟨hgroups, hsenders⟩ : isGroupAllowed self g = true ∧ isGroupSenderAllowed self s = true := by
        simpa [hlist] using hpassed
      exact ⟨isGroupAllowed_iff.mp hgroups, .inr ⟨hlist, isGroupSenderAllowed_iff.mp hsenders⟩⟩
  | none =>
    simp only [hgroup] at hpassed hknown ⊢
    rcases hpassed with hopen | ⟨hpairing, hallowed⟩ | ⟨-, hallowed⟩ | hunknown
    · exact .inl hopen
    · rcases isSenderAllowedWithPairing_iff.mp hallowed with hdirect | ⟨list, hread, hfound⟩
      · exact .inr (.inl hdirect)
      · exact .inr (.inr ⟨hpairing, approvedIn_of_found hread hfound⟩)
    · exact .inr (.inl (isSenderAllowed_iff.mp hallowed))
    · exact absurd hknown hunknown

/-- **When access control fails closed.** For every configuration, every answer of the pairing store and every
    envelope: exactly when the policy that applies is a known text, or the envelope is dropped before any policy
    is looked at, and no entry of the pairing store differs from the sender in the `uuid:` prefix alone. -/
theorem failsClosed_iff (host : Host) (self : SignalConfig) (store : PairingStore) (envelope : Envelope) :
    FailsClosed host self store envelope ↔
      (contentOf self envelope = none ∨ KnownPolicy self envelope) ∧
      ∀ s, sender envelope = some s → Spelled self store s := by
  constructor
  · intro h
    refine ⟨?_, fun s hs => regardlessOfPrefix_iff.mp (h.blind s hs)⟩
    by_cases hcontent : contentOf self envelope = none
    · exact .inl hcontent
    · refine .inr (by_contra fun hunknown => ?_)
      obtain ⟨m, hm⟩ := unknown_passes host store hcontent hunknown
      exact hunknown (h.known m hm)
  · rintro ⟨hpolicy, hspelled⟩
    have hknown : ∀ m, (processEnvelope host self store envelope).message = some m →
        KnownPolicy self envelope := by
      intro m hm
      rcases hpolicy with hnone | hknown
      · simp [processEnvelope, hnone, Processed.dropped] at hm
      · exact hknown
    exact ⟨fun m hm => admitted_of_known hm (hknown m hm), hknown,
      fun s hs => regardlessOfPrefix_iff.mpr (hspelled s hs)⟩

/-! ## Three strangers -/

/-- A stranger writes `hi`, in a group or directly. -/
def strangersEnvelope (groupId : Option String) (source : String) : Envelope where
  source := some source
  sourceNumber := none
  sourceName := none
  sourceUuid := none
  dataMessage := some ⟨some "hi", none, groupId.map fun g => ⟨some g⟩, none⟩
  storyMessage := none
  timestamp := none

/-- Nobody is on any list. -/
def closedConfig (dmPolicy groupPolicy : String) : SignalConfig where
  allowFrom := []
  allowFromGroups := []
  dmPolicy := dmPolicy
  groupPolicy := groupPolicy
  groupAllowFrom := []
  ignoreAttachments := true
  ignoreStories := true

/-- A pairing store with a list of approved senders. -/
def storeWith (approved : List String) : PairingStore where
  readAllowFrom _ := .ok approved
  upsertRequest _ _ _ := .ok ⟨"", false⟩

/-- With every list empty, a misspelt policy lets a stranger in, directly and in a group; and an approved sender
    who comes with the prefix is not recognised. -/
theorem strangers_get_in :
    ¬FailsClosed ⟨0, id⟩ (closedConfig "closed" "allowlist") (storeWith []) (strangersEnvelope none "+15550000000") ∧
    ¬FailsClosed ⟨0, id⟩ (closedConfig "pairing" "closed") (storeWith [])
      (strangersEnvelope (some "g") "+15550000000") ∧
    ¬FailsClosed ⟨0, id⟩ (closedConfig "pairing" "allowlist") (storeWith ["abc"])
      (strangersEnvelope none "uuid:abc") := by
  refine ⟨fun h => ?_, fun h => ?_, fun h => ?_⟩
  · have hknown := h.known _ rfl
    simp [KnownPolicy, groupOf, groupIdOf, strangersEnvelope, closedConfig] at hknown
  · have hknown := h.known _ rfl
    simp [KnownPolicy, groupOf, groupIdOf, strangersEnvelope, closedConfig] at hknown
  · have hpaired := (h.blind "uuid:abc" rfl).paired.mpr (.inr ⟨["abc"], rfl, "abc", by simp, .inr (by decide)⟩)
    revert hpaired
    decide

end Freeclawdia.Signal
