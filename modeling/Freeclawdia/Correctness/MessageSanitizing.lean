import Freeclawdia.Llm.Provider

/-!
# `Correctness.MessageSanitizing` — tool results after sanitizing

A provider wants every tool result to follow the assistant message that asked for it, with only other results between.
`sanitize_tool_messages` decides by the id alone: a result whose id some assistant message of the list carries is
kept, wherever the two stand. So it always keeps the list's length, every other message and the text of every orphan,
and it is idempotent; the order comes out right exactly when the results it keeps were in order before
(`WellPlaced`), the orphans between them counting as breaks, since they become user messages.
-/

namespace Freeclawdia

variable (messages : List ChatMessage)

/-- A tool result answers an assistant message before it: only tool results that satisfy `P` stand between the two, and
    none of them answers the same id. -/
def Answers (P : ChatMessage → Prop) (i : Nat) (id : String) : Prop :=
  ∃ j < i, (∃ a, messages[j]? = some a ∧ id ∈ a.callIds) ∧
    ∀ k, j < k → k < i → ∃ m, messages[k]? = some m ∧ m.role = .tool ∧ m.toolCallId ≠ some id ∧ P m

/-- Every tool result has an id and answers a call. -/
def ValidProtocol : Prop :=
  ∀ i m, messages[i]? = some m → m.role = .tool →
    ∃ id, m.toolCallId = some id ∧ Answers messages (fun _ => True) i id

/-- A result that is not orphaned. -/
def Kept (m : ChatMessage) : Prop :=
  ∃ id, m.toolCallId = some id ∧ id ∈ knownIds messages

/-- Every result whose id the list knows answers a call, with only such results between. -/
def WellPlaced : Prop :=
  ∀ i m id, messages[i]? = some m → m.role = .tool → m.toolCallId = some id → id ∈ knownIds messages →
    Answers messages (Kept messages) i id

/-- What sanitizing is for. -/
structure Sanitizes (messages : List ChatMessage) : Prop where
  valid : ValidProtocol (sanitizeToolMessages messages)
  length : (sanitizeToolMessages messages).length = messages.length
  others : ∀ (i : Nat) (m : ChatMessage), messages[i]? = some m →
    m.role ≠ .tool ∨ (sanitizeToolMessages messages)[i]?.map ChatMessage.role = some .tool →
      (sanitizeToolMessages messages)[i]? = some m
  orphans : ∀ (i : Nat) (m : ChatMessage), messages[i]? = some m → m.role = .tool →
    (sanitizeToolMessages messages)[i]?.map ChatMessage.role ≠ some .tool →
      ∃ (u : ChatMessage) (before after : String), (sanitizeToolMessages messages)[i]? = some u ∧ u.role = .user ∧
        u.content = before ++ m.content ++ after
  idempotent : sanitizeToolMessages (sanitizeToolMessages messages) = sanitizeToolMessages messages

/-! ## One message -/

variable (messages : List ChatMessage)

theorem isOrphaned_eq_false_iff (m : ChatMessage) : isOrphaned (knownIds messages) m = false ↔ Kept messages m := by
  unfold isOrphaned Kept
  cases m.toolCallId with
  | none => simp
  | some id => simp

/-- A message stays, or is an orphan that becomes a user message. -/
theorem getElem?_sanitize (i : Nat) : (sanitizeToolMessages messages)[i]? = messages[i]?.map fun m =>
      if m.role = .tool ∧ isOrphaned (knownIds messages) m = true then rewriteOrphan m else m := List.getElem?_map

theorem sanitize_of_ne_tool {messages : List ChatMessage} {i : Nat} {m : ChatMessage} (hm : messages[i]? = some m)
    (hrole : m.role ≠ .tool) : (sanitizeToolMessages messages)[i]? = some m := by
  simp [getElem?_sanitize, hm, hrole]

theorem sanitize_of_kept {messages : List ChatMessage} {i : Nat} {m : ChatMessage} (hm : messages[i]? = some m)
    (hkept : Kept messages m) : (sanitizeToolMessages messages)[i]? = some m := by
  simp [getElem?_sanitize, hm, (isOrphaned_eq_false_iff messages m).mpr hkept]

/-- What is a tool result afterwards was one before, and was kept. -/
theorem sanitize_tool {messages : List ChatMessage} {i : Nat} {m : ChatMessage}
    (hm : (sanitizeToolMessages messages)[i]? = some m) (hrole : m.role = .tool) :
    messages[i]? = some m ∧ Kept messages m := by
  rw [getElem?_sanitize] at hm
  obtain ⟨m0, hm0, heq⟩ := Option.map_eq_some_iff.mp hm
  by_cases horphan : m0.role = .tool ∧ isOrphaned (knownIds messages) m0 = true
  · rw [if_pos horphan] at heq
    subst heq
    cases hrole
  · rw [if_neg horphan] at heq
    subst heq
    refine ⟨hm0, (isOrphaned_eq_false_iff messages m0).mp ?_⟩
    simpa [hrole] using horphan

/-- No message loses or gains call ids. -/
theorem callIds_sanitize (i : Nat) :
    (sanitizeToolMessages messages)[i]?.map ChatMessage.callIds = messages[i]?.map ChatMessage.callIds := by
  rw [getElem?_sanitize, Option.map_map]
  cases messages[i]? with
  | none => rfl
  | some m =>
    by_cases horphan : m.role = .tool ∧ isOrphaned (knownIds messages) m = true
    · simp [horphan, rewriteOrphan, ChatMessage.callIds]
    · simp [horphan]

theorem knownIds_sanitize : knownIds (sanitizeToolMessages messages) = knownIds messages := by
  have hmap : (sanitizeToolMessages messages).map ChatMessage.callIds = messages.map ChatMessage.callIds := by
    apply List.ext_getElem?
    intro i
    rw [List.getElem?_map, List.getElem?_map, callIds_sanitize]
  rw [knownIds, knownIds, List.flatMap_def, List.flatMap_def, hmap]

/-! ## The list -/

theorem sanitize_idempotent : sanitizeToolMessages (sanitizeToolMessages messages) = sanitizeToolMessages messages := by
  apply List.ext_getElem?
  intro i
  cases hm : (sanitizeToolMessages messages)[i]? with
  | none =>
    rw [getElem?_sanitize, hm]
    rfl
  | some m =>
    by_cases hrole : m.role = .tool
    · obtain ⟨-, id, hid, hknown⟩ := sanitize_tool hm hrole
      exact sanitize_of_kept hm ⟨id, hid, (knownIds_sanitize messages).symm ▸ hknown⟩
    · exact sanitize_of_ne_tool hm hrole

/-- Who answers whom is the same before and after, for the results that are kept. -/
theorem answers_sanitize_iff (i : Nat) (id : String) :
    Answers (sanitizeToolMessages messages) (fun _ => True) i id ↔ Answers messages (Kept messages) i id := by
  refine exists_congr fun j => and_congr_right fun _ => and_congr ?_ ?_
  · have hids := callIds_sanitize messages j
    constructor
    · rintro ⟨a, ha, hid⟩
      rw [ha] at hids
      obtain ⟨b, hb, heq⟩ := Option.map_eq_some_iff.mp hids.symm
      exact ⟨b, hb, heq ▸ hid⟩
    · rintro ⟨a, ha, hid⟩
      rw [ha] at hids
      obtain ⟨b, hb, heq⟩ := Option.map_eq_some_iff.mp hids
      exact ⟨b, hb, heq ▸ hid⟩
  · refine forall_congr' fun k => forall_congr' fun _ => forall_congr' fun _ => ?_
    constructor
    · rintro ⟨m, hm, hrole, hne, -⟩
      obtain ⟨hm0, hkept⟩ := sanitize_tool hm hrole
      exact ⟨m, hm0, hrole, hne, hkept⟩
    · rintro ⟨m, hm, hrole, hne, hkept⟩
      exact ⟨m, sanitize_of_kept hm hkept, hrole, hne, True.intro⟩

theorem validProtocol_sanitize_iff : ValidProtocol (sanitizeToolMessages messages) ↔ WellPlaced messages := by
  constructor
  · intro hvalid i m id hm hrole hid hknown
    have hkept := sanitize_of_kept hm ⟨id, hid, hknown⟩
    obtain ⟨id', hid', hanswers⟩ := hvalid i m hkept hrole
    obtain rfl : id = id' := Option.some.inj (hid.symm.trans hid')
    exact (answers_sanitize_iff messages i id).mp hanswers
  · intro hplaced i m hm hrole
    obtain ⟨hm0, id, hid, hknown⟩ := sanitize_tool hm hrole
    exact ⟨id, hid, (answers_sanitize_iff messages i id).mpr (hplaced i m id hm0 hrole hid hknown)⟩

/-- **Sanitizing** gives a valid protocol, and keeps all that it is to keep, exactly when the results it does not take
    for orphans are well placed. -/
theorem sanitizes_iff (messages : List ChatMessage) : Sanitizes messages ↔ WellPlaced messages := by
  constructor
  · intro h
    exact (validProtocol_sanitize_iff messages).mp h.valid
  · intro hplaced
    refine ⟨(validProtocol_sanitize_iff messages).mpr hplaced, List.length_map _, ?_, ?_, sanitize_idempotent messages⟩
    · rintro i m hm (hrole | hstill)
      · exact sanitize_of_ne_tool hm hrole
      · obtain ⟨m', hm', hrole'⟩ := Option.map_eq_some_iff.mp hstill
        obtain ⟨hm0, -⟩ := sanitize_tool hm' hrole'
        obtain rfl : m = m' := Option.some.inj (hm.symm.trans hm0)
        exact hm'
    · intro i m hm hrole hgone
      have hget := getElem?_sanitize messages i
      rw [hm, Option.map_some] at hget
      by_cases horphan : m.role = .tool ∧ isOrphaned (knownIds messages) m = true
      · rw [if_pos horphan] at hget
        exact ⟨_, _, _, hget, rfl, rfl⟩
      · rw [if_neg horphan] at hget
        rw [hget] at hgone
        exact absurd (congrArg some hrole) hgone

/-- A result before the call it answers is taken for a valid one. -/
theorem result_before_call_is_kept :
    ¬Sanitizes [ChatMessage.toolResult "call_1" "echo" "ok",
      ChatMessage.assistantWithToolCalls none [⟨"call_1", "echo", .object []⟩]] := by
  intro h
  obtain ⟨id, -, j, hj, -⟩ := h.valid 0 (ChatMessage.toolResult "call_1" "echo" "ok") rfl rfl
  omega

end Freeclawdia
