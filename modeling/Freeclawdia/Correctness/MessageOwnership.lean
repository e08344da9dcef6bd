import Freeclawdia.Channels.MessageHandlers

/-!
# `Correctness.MessageOwnership` — whose messages a request touches

A request that goes through copies every message it names (`insertCopies_spec`) and, for a move, removes every one of
them (`mem_deleteMessages`). Neither step looks at the conversation of a message, so what is touched belongs to the
gateway's user exactly when everything that is named does.
-/

namespace Freeclawdia.Conversations

open Rust

variable {t t' : Tables} {user : String} {ids : List Uuid} {newId : Uuid} {draw : Nat → Draw}

/-! ## What is touched -/

/-- What a copy keeps of a message. -/
def textOf (m : MessageRow) : String × String := (m.role, m.content)

/-- Is the message in a conversation of the user? -/
def belongsTo (t : Tables) (user : String) (m : MessageRow) : Bool := conversationBelongsToUser t m.conversationId user

/-- The rows that are new. -/
def addedRows (t t' : Tables) : List MessageRow := t'.messages.filter fun m => m.id ∉ t.messages.map (·.id)

/-- Only the user's messages are touched: a row that is gone was the user's, and the rows that are new are copies of the
    user's messages among those that were named, each at most once. -/
structure TouchesOwn (user : String) (ids : List Uuid) (t t' : Tables) : Prop where
  removed : ∀ m ∈ t.messages, m ∉ t'.messages → belongsTo t user m = true
  copied : List.Sublist ((addedRows t t').map textOf) (((selectByIds t ids).filter (belongsTo t user)).map textOf)

/-- Every message that is named is the user's. -/
def AllOwn (t : Tables) (user : String) (ids : List Uuid) : Prop :=
  ∀ m ∈ t.messages, m.id ∈ ids → belongsTo t user m = true

variable {m : MessageRow}

theorem mem_selectByIds : m ∈ selectByIds t ids ↔ m ∈ t.messages ∧ m.id ∈ ids := by
  unfold selectByIds Tables.byCreatedAt
  rw [List.mem_insertionSort, List.mem_filter, decide_eq_true_eq]

theorem length_selectByIds_le (t : Tables) (ids : List Uuid) : (selectByIds t ids).length ≤ t.messages.length := by
  unfold selectByIds Tables.byCreatedAt
  rw [List.length_insertionSort]
  exact List.length_filter_le _ _

theorem mem_deleteMessages : m ∈ (t.deleteMessages ids).messages ↔ m ∈ t.messages ∧ m.id ∉ ids := by
  unfold Tables.deleteMessages
  rw [List.mem_filter, decide_eq_true_eq]

theorem addedRows_self (t : Tables) : addedRows t t = [] := by
  unfold addedRows
  rw [List.filter_eq_nil_iff]
  intro m hm
  simpa using ⟨m, hm, rfl⟩

/-- Nothing is touched when nothing changes. -/
theorem touchesOwn_self (t : Tables) (user : String) (ids : List Uuid) : TouchesOwn user ids t t where
  removed m hm hgone := absurd hm hgone
  copied := by
    rw [addedRows_self]
    exact List.nil_sublist _

/-! ## Copies -/

/-- The copies of a list of messages. -/
def copies (newId : Uuid) (draw : Nat → Draw) : Nat → List MessageRow → List MessageRow
  | _, [] => []
  | i, m :: rest =>
    ⟨⟨(draw i).id, m.role, m.content, (draw i).now⟩, newId⟩ :: copies newId draw (i + 1) rest

theorem textOf_copies (i : Nat) (rows : List MessageRow) : (copies newId draw i rows).map textOf = rows.map textOf := by
  induction rows generalizing i with
  | nil => rfl
  | cons m rest ih =>
    rw [copies, List.map_cons, List.map_cons, ih]
    rfl

theorem id_copies (i : Nat) (rows : List MessageRow) {c : MessageRow} (hc : c ∈ copies newId draw i rows) :
    ∃ j, i ≤ j ∧ j < i + rows.length ∧ c.id = (draw j).id := by
  induction rows generalizing i with
  | nil => simp [copies] at hc
  | cons m rest ih =>
    rw [List.length_cons]
    rcases List.mem_cons.mp hc with rfl | hc
    · exact ⟨i, le_refl i, by omega, rfl⟩
    · obtain ⟨j, hij, hj, hid⟩ := ih (i + 1) hc
      exact ⟨j, by omega, by omega, hid⟩

variable {rows : List MessageRow} {i : Nat}

/-- **The copies are appended**, if there are any: an identifier that is taken fails the transaction. -/
theorem insertCopies_spec (h : insertCopies newId draw i rows t = .ok t') :
    t'.messages = t.messages ++ copies newId draw i rows := by
  induction rows generalizing i t with
  | nil =>
    rw [insertCopies, Except.ok.injEq] at h
    rw [← h, copies, List.append_nil]
  | cons m rest ih =>
    unfold insertCopies addConversationMessage Tables.insertMessage at h
    split at h
    next inserted hinserted =>
      rw [ih h, copies]
      split at hinserted
      next =>
        rw [Except.ok.injEq] at hinserted
        rw [← hinserted, List.append_assoc]
        rfl
      next => cases hinserted
    next => cases h

/-- With new identifiers there are no failures. -/
theorem insertCopies_ok (newId : Uuid) {n : Nat} (hids : DrawsApart draw n) (rows : List MessageRow)
    (hn : i + rows.length ≤ n) (hfresh : FreshFrom draw i n t) : ∃ t', insertCopies newId draw i rows t = .ok t' := by
  induction rows generalizing i t with
  | nil => exact ⟨t, rfl⟩
  | cons m rest ih =>
    rw [List.length_cons] at hn
    have hnew : ∀ m ∈ t.messages, m.id ≠ (draw i).id := hfresh i (le_refl i) (by omega)
    unfold insertCopies addConversationMessage Tables.insertMessage
    rw [dif_pos hnew]
    apply ih (by omega)
    intro j hj hjn m' hm'
    simp only [List.mem_append, List.mem_singleton] at hm'
    rcases hm' with hold | rfl
    · exact hfresh j (by omega) hjn m' hold
    · exact hids i j (by omega) hjn

/-! ## Requests -/

variable {move : Bool} {fault : Option DatabaseError} {r : Uuid × Nat}

/-- **What a cherry-pick leaves.** -/
theorem messages_cherryPickMessages (h : cherryPickMessages t ids user move newId draw fault = .ok (r, t')) :
    t'.messages = (t.messages ++ copies newId draw 0 (selectByIds t ids)).filter fun m =>
      !move || decide (m.id ∉ ids) := by
  unfold cherryPickMessages at h
  split at h
  next => cases h
  next =>
    split at h
    next => cases h
    next created hcreated =>
      have hsame : created.messages = t.messages := by
        unfold Tables.insertConversation at hcreated
        split at hcreated
        next =>
          rw [Except.ok.injEq] at hcreated
          rw [← hcreated]
        next => cases hcreated
      split at h
      next => cases h
      next copied hcopied =>
        have hmessages := insertCopies_spec hcopied
        rw [hsame] at hmessages
        obtain ⟨-, rfl⟩ := Prod.mk.inj (Except.ok.inj h)
        cases move with
        | true =>
          simp only [if_true, Tables.deleteMessages, Bool.not_true, Bool.false_or]
          rw [hmessages]
        | false => simp [hmessages]

/-- With new identifiers and a database that works, a cherry-pick goes through. -/
theorem cherryPickMessages_ok (user : String) (ids : List Uuid) (move : Bool) (hnew : ∀ c ∈ t.conversations, c.id ≠ newId)
    (hids : DrawsApart draw t.messages.length) (hfresh : FreshFrom draw 0 t.messages.length t) :
    ∃ r t', cherryPickMessages t ids user move newId draw none = .ok (r, t') := by
  have hlength := length_selectByIds_le t ids
  unfold cherryPickMessages Tables.insertConversation
  rw [dif_pos hnew]
  have hfresh' : FreshFrom draw 0 t.messages.length
      { t with conversations := t.conversations ++ [⟨newId, user⟩]
               conversations_apart := Log.pairwise_concat t.conversations_apart hnew } := hfresh
  obtain ⟨copied, hcopied⟩ := insertCopies_ok newId hids (selectByIds t ids) (by omega) hfresh'
  simp only [hcopied]
  exact ⟨_, _, rfl⟩

variable {p : MessageRow → Bool}

theorem addedRows_append (h : t'.messages = (t.messages ++ rows).filter p) : (addedRows t t').Sublist rows := by
  have hnone : t.messages.filter (fun m => decide (m.id ∉ t.messages.map (·.id))) = [] := addedRows_self t
  have hall : ((t.messages ++ rows).filter fun m => decide (m.id ∉ t.messages.map (·.id))).Sublist rows := by
    rw [List.filter_append, hnone, List.nil_append]
    exact List.filter_sublist
  unfold addedRows
  rw [h]
  exact (List.filter_sublist.filter _).trans hall

/-- Own messages may be copied and removed. -/
theorem touchesOwn_of_allOwn (hown : AllOwn t user ids) (h : t'.messages = (t.messages ++ rows).filter p)
    (hp : ∀ m, p m = false → m.id ∈ ids) (hrows : rows.map textOf = (selectByIds t ids).map textOf ∨ rows = []) :
    TouchesOwn user ids t t' := by
  constructor
  · intro m hm hgone
    apply hown m hm
    apply hp
    by_contra hkept
    exact hgone (by rw [h, List.mem_filter]; exact ⟨List.mem_append_left _ hm, by simpa using hkept⟩)
  · have hadded := (addedRows_append h).map textOf
    rcases hrows with hrows | rfl
    · have hfilter : (selectByIds t ids).filter (belongsTo t user) = selectByIds t ids := by
        rw [List.filter_eq_self]
        intro m hm
        exact hown m (mem_selectByIds.mp hm).1 (mem_selectByIds.mp hm).2
      rw [hfilter, ← hrows]
      exact hadded
    · rw [List.map_nil, List.sublist_nil] at hadded
      rw [hadded]
      exact List.nil_sublist _

/-- What is copied whole is named, and not all of it is the user's: the copies are too many. -/
theorem allOwn_of_copied (hfresh : FreshFrom draw 0 t.messages.length t)
    (h : t'.messages = t.messages ++ copies newId draw 0 (selectByIds t ids)) (htouches : TouchesOwn user ids t t') :
    AllOwn t user ids := by
  have hlength := length_selectByIds_le t ids
  have hadded : addedRows t t' = copies newId draw 0 (selectByIds t ids) := by
    have hnone : t.messages.filter (fun m => decide (m.id ∉ t.messages.map (·.id))) = [] := addedRows_self t
    unfold addedRows
    rw [h, List.filter_append, hnone, List.nil_append, List.filter_eq_self]
    intro c hc
    obtain ⟨j, -, hj, hid⟩ := id_copies 0 _ hc
    rw [decide_eq_true_eq, List.mem_map]
    rintro ⟨m, hm, heq⟩
    exact hfresh j (Nat.zero_le j) (by omega) m hm (heq.trans hid)
  have hle := htouches.copied.length_le
  rw [hadded, textOf_copies, List.length_map, List.length_map] at hle
  have hall := List.length_filter_eq_length_iff.mp (Nat.le_antisymm (List.length_filter_le _ _) hle)
  intro m hm hid
  exact hall m (mem_selectByIds.mpr ⟨hm, hid⟩)

/-- What is removed is named. -/
theorem allOwn_of_removed (h : ∀ m ∈ t'.messages, m.id ∉ ids) (htouches : TouchesOwn user ids t t') :
    AllOwn t user ids :=
  fun m hm hid => htouches.removed m hm fun hkept => h m hkept hid

/-- **A cherry-pick that goes through.** -/
theorem touchesOwn_cherryPickMessages (hfresh : FreshFrom draw 0 t.messages.length t)
    (h : cherryPickMessages t ids user move newId draw fault = .ok (r, t')) :
    TouchesOwn user ids t t' ↔ AllOwn t user ids := by
  have hmessages := messages_cherryPickMessages h
  constructor
  · intro htouches
    cases move with
    | true =>
      refine allOwn_of_removed (fun m hm => ?_) htouches
      rw [hmessages, List.mem_filter] at hm
      simpa using hm.2
    | false =>
      have hcopied : t'.messages = t.messages ++ copies newId draw 0 (selectByIds t ids) := by
        rw [hmessages]
        simp
      exact allOwn_of_copied hfresh hcopied htouches
  · intro hown
    refine touchesOwn_of_allOwn hown hmessages (fun m hm => ?_) (.inl (textOf_copies 0 _))
    simp only [Bool.or_eq_false_iff, decide_eq_false_iff_not, not_not] at hm
    exact hm.2

/-- **A deletion.** -/
theorem touchesOwn_deleteMessages : TouchesOwn user ids t (t.deleteMessages ids) ↔ AllOwn t user ids := by
  constructor
  · exact allOwn_of_removed fun m hm => (mem_deleteMessages.mp hm).2
  · intro hown
    have hmessages : (t.deleteMessages ids).messages = (t.messages ++ []).filter fun m => decide (m.id ∉ ids) := by
      rw [List.append_nil]
      rfl
    refine touchesOwn_of_allOwn hown hmessages (fun m hm => ?_) (.inr rfl)
    simpa using hm

/-- **Whose messages a cherry-pick and a deletion touch.** With identifiers that are new, only messages of the gateway's
    user are copied or removed exactly when the database fails or every message that is named is the user's. -/
theorem touches_own_iff (t : Tables) (user : String) (sm : Option SessionManager) (req : CherryPickRequest)
    (draws : CherryPickDraws) (fault : Option DatabaseError) (hnew : ∀ c ∈ t.conversations, c.id ≠ draws.newId)
    (hids : DrawsApart draws.copies t.messages.length) (hfresh : FreshFrom draws.copies 0 t.messages.length t) :
    ((∀ t', (chatCherryPickHandler ⟨user, some t, sm⟩ req draws fault).2.store = some t' →
        TouchesOwn user req.messageIds t t') ↔ fault.isSome = true ∨ AllOwn t user req.messageIds)
    ∧ ((∀ t', (chatDeleteMessagesHandler ⟨user, some t, sm⟩ req.messageIds fault).2.store = some t' →
        TouchesOwn user req.messageIds t t') ↔ fault.isSome = true ∨ AllOwn t user req.messageIds) := by
  -- A request that is turned away touches nothing, and one without identifiers names nobody's messages.
  have hself : ∀ t', some t = some t' → TouchesOwn user req.messageIds t t' := by
    rintro _ ⟨⟩
    exact touchesOwn_self t user req.messageIds
  have hnobody : req.messageIds.isEmpty = true → AllOwn t user req.messageIds := by
    intro hempty m _ hid
    rw [List.isEmpty_iff.mp hempty] at hid
    cases hid
  unfold chatCherryPickHandler chatDeleteMessagesHandler
  split
  next hempty => exact ⟨⟨fun _ => .inr (hnobody hempty), fun _ => hself⟩, ⟨fun _ => .inr (hnobody hempty), fun _ => hself⟩⟩
  next =>
    cases fault with
    | some e => exact ⟨⟨fun _ => .inl rfl, fun _ => hself⟩, ⟨fun _ => .inl rfl, fun _ => hself⟩⟩
    | none =>
      simp only [Option.isSome_none, Bool.false_eq_true, false_or]
      constructor
      · obtain ⟨r, after, hafter⟩ := cherryPickMessages_ok user req.messageIds (req.action == "move") hnew hids hfresh
        simp only [hafter, Option.some.injEq, forall_eq']
        exact touchesOwn_cherryPickMessages hfresh hafter
      · simp only [deleteMessagesByIds, Option.some.injEq, forall_eq']
        exact touchesOwn_deleteMessages

/-- Bob's only message. -/
def bobsTables : Tables where
  conversations := [⟨1, "bob"⟩]
  messages := [⟨⟨10, "user", "my password is hunter2", "2024-01-15T10:30:00.123Z"⟩, 1⟩]
  conversations_apart := List.pairwise_singleton _ _
  messages_apart := List.pairwise_singleton _ _

/-- New identifiers. -/
def pickDraws : CherryPickDraws := ⟨2, fun _ => ⟨11, "2024-01-15T10:31:00.000Z"⟩, 3, 0⟩

theorem own_message_is_moved :
    ∃ t', (chatCherryPickHandler ⟨"bob", some bobsTables, none⟩ ⟨[10], "move"⟩ pickDraws none).2.store = some t' ∧
      TouchesOwn "bob" [10] bobsTables t' := by
  refine ⟨_, rfl, ?_⟩
  refine (touches_own_iff bobsTables "bob" none ⟨[10], "move"⟩ pickDraws none ?_ ?_ ?_).1.mpr (.inr ?_) _ rfl
  · decide
  · intro i j hij hj
    simp only [bobsTables, List.length_singleton] at hj
    omega
  · intro j _ _
    simp [bobsTables, pickDraws]
  · intro m hm _
    rw [List.mem_singleton.mp hm]
    decide

/-- Alice moves Bob's message into a thread of her own. -/
theorem foreign_message_is_moved :
    ¬ ∀ t', (chatCherryPickHandler ⟨"alice", some bobsTables, none⟩ ⟨[10], "move"⟩ pickDraws none).2.store = some t' →
      TouchesOwn "alice" [10] bobsTables t' := by
  intro h
  have hstore : ((chatCherryPickHandler ⟨"alice", some bobsTables, none⟩ ⟨[10], "move"⟩ pickDraws none).2.store.map
      fun t' => t'.messages) = some [⟨⟨11, "user", "my password is hunter2", "2024-01-15T10:31:00.000Z"⟩, 2⟩] := by
    decide
  obtain ⟨after, hafter, hmessages⟩ := Option.map_eq_some_iff.mp hstore
  have hremoved := (h after hafter).removed ⟨⟨10, "user", "my password is hunter2", "2024-01-15T10:30:00.123Z"⟩, 1⟩
    (List.mem_singleton.mpr rfl)
  rw [hmessages] at hremoved
  have hforeign := hremoved (by decide)
  revert hforeign
  decide

end Freeclawdia.Conversations
