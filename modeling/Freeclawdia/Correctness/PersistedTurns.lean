import Freeclawdia.Agent.Journal
import Freeclawdia.Correctness.HistoryPages

/-!
# `Correctness.PersistedTurns` — turns that are written are read back

A turn is written as one to three rows (`turnRows`). Writing appends them to the conversation's rows
(`rowsOf_persistTurns`), and reading regroups them, since what follows a turn's rows is the user row of the next turn or
nothing (`buildTurnsFrom_turnRows`). In between stands `serde_json`, of which only the records that are written matter.
-/

namespace Freeclawdia.Conversations

open Rust

variable {W : Type} {env : Env W} {fromStr : String → Option Json} {tid : Uuid} {user : String} {draw : Nat → Draw}

/-! ## What is written -/

/-- The rows of a conversation, in the order they were written. -/
def rowsOf (t : Tables) (tid : Uuid) : List ConversationMessage :=
  (t.messages.filter fun m => m.conversationId = tid).map MessageRow.toConversationMessage

/-- The record of a turn's tool calls. -/
def callsRow (env : Env W) (draw : Nat → Draw) (k : Nat) (turn : Turn) : Option ConversationMessage :=
  if turn.toolCalls.isEmpty then none
  else some ⟨(draw (k + 1)).id, "tool_calls", callsContent env turn.toolCalls, (draw (k + 1)).now⟩

/-- The answer of a turn. -/
def answerRow (draw : Nat → Draw) (k : Nat) (turn : Turn) : Option ConversationMessage :=
  turn.response.map fun response => ⟨(draw (k + 2)).id, "assistant", response, (draw (k + 2)).now⟩

def userRow (draw : Nat → Draw) (k : Nat) (turn : Turn) : ConversationMessage :=
  ⟨(draw k).id, "user", turn.userInput, (draw k).now⟩

def turnRows (env : Env W) (draw : Nat → Draw) (k : Nat) (turn : Turn) : List ConversationMessage :=
  userRow draw k turn :: ((callsRow env draw k turn).toList ++ (answerRow draw k turn).toList)

def turnsRows (env : Env W) (draw : Nat → Draw) : Nat → List Turn → List ConversationMessage
  | _, [] => []
  | k, turn :: rest => turnRows env draw k turn ++ turnsRows env draw (k + 3) rest

theorem messages_ensureConversation (t : Tables) (tid : Uuid) (user : String) :
    (ensureConversation t tid user).messages = t.messages := by
  unfold ensureConversation Tables.insertConversation
  split <;> rfl

variable {t : Tables}

/-- **One write.** A fresh identifier adds one row at the end. -/
theorem messages_persistMessage (tid : Uuid) (user role content : String) {d : Draw} (h : ∀ m ∈ t.messages, m.id ≠ d.id) :
    (persistMessage tid user role content d t).messages = t.messages ++ [⟨⟨d.id, role, content, d.now⟩, tid⟩] := by
  have hfresh : ∀ m ∈ (ensureConversation t tid user).messages, m.id ≠ d.id := by
    rw [messages_ensureConversation]
    exact h
  unfold persistMessage addConversationMessage Tables.insertMessage
  rw [dif_pos hfresh]
  simp only [Except.toOption, Option.getD_some]
  rw [messages_ensureConversation]

variable {n : Nat}

/-- A write with draw `j` leaves the later draws fresh. -/
theorem persistMessage_spec {j : Nat} (hids : DrawsApart draw n) (hj : j < n) (tid : Uuid) (user role content : String)
    (h : FreshFrom draw j n t) : rowsOf (persistMessage tid user role content (draw j) t) tid
        = rowsOf t tid ++ [⟨(draw j).id, role, content, (draw j).now⟩]
      ∧ FreshFrom draw (j + 1) n (persistMessage tid user role content (draw j) t) := by
  have hmessages := messages_persistMessage tid user role content (h j (le_refl j) hj)
  constructor
  · unfold rowsOf
    rw [hmessages, List.filter_append, List.map_append]
    simp
  · intro i hi hin m hm
    rw [hmessages, List.mem_append, List.mem_singleton] at hm
    rcases hm with hold | rfl
    · exact h i (by omega) hin m hold
    · exact hids j i (by omega) hin

variable {k : Nat}

/-- **One turn.** -/
theorem persistTurn_spec (hids : DrawsApart draw n) (hk : k + 3 ≤ n) (env : Env W) (tid : Uuid) (user : String)
    (turn : Turn) (h : FreshFrom draw k n t) :
    rowsOf (persistTurn env tid user draw k turn t) tid = rowsOf t tid ++ turnRows env draw k turn
      ∧ FreshFrom draw (k + 3) n (persistTurn env tid user draw k turn t) := by
  obtain ⟨hrows, hfresh⟩ := persistMessage_spec hids (by omega) tid user "user" turn.userInput h
  -- The record is written only when there are calls.
  have hcalls : ∀ t', FreshFrom draw (k + 1) n t' →
      rowsOf (persistToolCalls env tid user turn.toolCalls (draw (k + 1)) t') tid
          = rowsOf t' tid ++ (callsRow env draw k turn).toList
        ∧ FreshFrom draw (k + 2) n (persistToolCalls env tid user turn.toolCalls (draw (k + 1)) t') := by
    intro t' ht'
    unfold persistToolCalls callsRow
    split
    next => exact ⟨by simp, ht'.mono (by omega)⟩
    next => exact persistMessage_spec hids (by omega) tid user "tool_calls" _ ht'
  obtain ⟨hrows', hfresh'⟩ := hcalls _ hfresh
  unfold persistTurn turnRows answerRow persistUserMessage
  cases turn.response with
  | none =>
    refine ⟨?_, hfresh'.mono (by omega)⟩
    simp only [Option.map_none, Option.toList_none, List.append_nil]
    rw [hrows', hrows, List.append_assoc]
    rfl
  | some response =>
    obtain ⟨hrows'', hfresh''⟩ := persistMessage_spec hids (by omega) tid user "assistant" response hfresh'
    refine ⟨?_, hfresh''⟩
    simp only [Option.map_some, Option.toList_some]
    unfold persistAssistantResponse
    rw [hrows'', hrows', hrows, List.append_assoc, List.append_assoc]
    rfl

/-- **All turns.** -/
theorem rowsOf_persistTurns (env : Env W) (tid : Uuid) (user : String) (hids : DrawsApart draw n) (turns : List Turn)
    (hk : k + 3 * turns.length ≤ n) (h : FreshFrom draw k n t) :
    rowsOf (persistTurns env tid user draw k turns t) tid = rowsOf t tid ++ turnsRows env draw k turns := by
  induction turns generalizing k t with
  | nil => simp [persistTurns, turnsRows]
  | cons turn rest ih =>
    rw [List.length_cons] at hk
    obtain ⟨hrows, hfresh⟩ := persistTurn_spec hids (by omega) env tid user turn h
    rw [persistTurns, ih (by omega) hfresh, hrows, turnsRows, List.append_assoc]

/-! ## What is read -/

/-- The message after a turn's rows opens another turn, if there is one. -/
def OpensTurn (rest : List ConversationMessage) : Prop := ∀ m, rest.head? = some m → m.role = "user"

theorem opensTurn_turnsRows (k : Nat) (turns : List Turn) : OpensTurn (turnsRows env draw k turns) := by
  cases turns with
  | nil =>
    intro m hm
    cases hm
  | cons turn rest =>
    intro m hm
    have hm' : userRow draw k turn = m := Option.some.inj hm
    rw [← hm']
    rfl

variable {rest : List ConversationMessage}

theorem nextWith_of_opensTurn {role : String} (hrole : role ≠ "user") (h : OpensTurn rest) :
    nextWith role rest = none := by
  cases rest with
  | nil => rfl
  | cons m rest =>
    rw [nextWith_cons, if_neg]
    rw [h m rfl]
    exact hrole.symm

theorem turnRecords_turnRows (k : Nat) (turn : Turn) (h : OpensTurn rest) :
    turnRecords ((callsRow env draw k turn).toList ++ (answerRow draw k turn).toList ++ rest)
      = (callsRow env draw k turn, answerRow draw k turn) := by
  have hcalls := nextWith_of_opensTurn (show "tool_calls" ≠ "user" by decide) h
  have hanswer := nextWith_of_opensTurn (show "assistant" ≠ "user" by decide) h
  unfold callsRow answerRow turnRecords
  cases turn.response with
  | none => cases turn.toolCalls.isEmpty <;> simp [nextWith_cons, hcalls, hanswer]
  | some response => cases turn.toolCalls.isEmpty <;> simp [nextWith_cons]

/-- The rows of a turn that are no user's are passed over. -/
theorem buildTurnsFrom_records (k : Nat) (turn : Turn) (number : Nat) (rest : List ConversationMessage) :
    buildTurnsFrom fromStr number 0 ((callsRow env draw k turn).toList ++ (answerRow draw k turn).toList ++ rest)
      = buildTurnsFrom fromStr number 0 rest := by
  unfold callsRow answerRow
  cases turn.response with
  | none => cases turn.toolCalls.isEmpty <;> simp [buildTurnsFrom_cons]
  | some response => cases turn.toolCalls.isEmpty <;> simp [buildTurnsFrom_cons]

/-- **The rows of one turn are read as one turn.** -/
theorem buildTurnsFrom_turnRows (k number : Nat) (turn : Turn) (h : OpensTurn rest) :
    buildTurnsFrom fromStr number 0 (turnRows env draw k turn ++ rest)
      = turnOf fromStr number (userRow draw k turn) (callsRow env draw k turn) (answerRow draw k turn)
        :: buildTurnsFrom fromStr (number + 1) 0 rest := by
  unfold turnRows
  rw [List.cons_append, buildTurnsFrom_cons, turnRecords_turnRows k turn h, buildTurnsFrom_records]
  rfl

/-! ## Tool calls -/

/-- The text itself, or the characters it starts with and three dots. -/
def Previews (text preview : String) : Prop :=
  preview = text ∨ ∃ start, start <+: text.toList ∧ preview = String.ofList start ++ "..."

theorem takeBytes_isPrefix (max : Nat) (cs : List Char) : takeBytes max cs <+: cs := by
  induction cs generalizing max with
  | nil => exact List.prefix_rfl
  | cons c cs ih =>
    unfold takeBytes
    split
    next => exact List.prefix_cons_inj c |>.mpr (ih _)
    next => exact List.nil_prefix

theorem previews_truncatePreview (text : String) (max : Nat) : Previews text (truncatePreview text max) := by
  unfold truncatePreview
  split
  next => exact .inl rfl
  next => exact .inr ⟨_, takeBytes_isPrefix max text.toList, rfl⟩

/-- The text of a result: a JSON string is its own text. -/
def resultText (env : Env W) : Json → String
  | .string s => s
  | other => env.toText other

/-- What is shown of a tool call. -/
structure ShowsCall (env : Env W) (tc : TurnToolCall) (info : ToolCallInfo) : Prop where
  name : info.name = tc.name
  hasResult : info.hasResult = true ↔ tc.result.isSome
  hasError : info.hasError = true ↔ tc.error.isSome
  resultPreview : Option.Rel Previews (tc.result.map (resultText env)) info.resultPreview
  error : Option.Rel Previews tc.error info.error

/-- What is shown of a turn. -/
structure ShowsTurn (env : Env W) (turn : Turn) (info : DbTurnInfo) : Prop where
  userInput : info.userInput = turn.userInput
  response : info.response = turn.response
  toolCalls : List.Forall₂ (ShowsCall env) turn.toolCalls info.toolCalls

/-- Objects that answer every key alike. -/
def SameFields (item item' : Json) : Prop := ∀ key, item'.get key = item.get key

/-- `serde_json` reads an array back that it wrote, up to the order of the fields of its objects. -/
def ReadsBack (env : Env W) (fromStr : String → Option Json) (items : List Json) : Prop :=
  ∃ items', fromStr (env.toText (.array items)) = some (.array items') ∧ List.Forall₂ SameFields items items'

theorem callSummary_name (env : Env W) (tc : TurnToolCall) : (callSummary env tc).get "name" = some (.string tc.name) := by
  simp [callSummary, Json.get]

theorem callSummary_resultPreview (env : Env W) (tc : TurnToolCall) : (callSummary env tc).get "result_preview"
      = tc.result.map fun r => .string (truncatePreview (resultText env r) 500) := by
  unfold callSummary Json.get
  cases tc.result with
  | none => cases tc.error <;> simp
  | some r => cases r <;> simp [resultText]

theorem callSummary_error (env : Env W) (tc : TurnToolCall) :
    (callSummary env tc).get "error" = tc.error.map fun e => .string (truncatePreview e 200) := by
  unfold callSummary Json.get
  cases tc.result <;> cases tc.error <;> simp

variable {env : Env W}

/-- **One call of a record.** -/
theorem showsCall_recordedCall {tc : TurnToolCall} {item : Json} (h : SameFields (callSummary env tc) item) :
    ShowsCall env tc (recordedCall item) := by
  have hname : item.get "name" = some (.string tc.name) := (h _).trans (callSummary_name env tc)
  have hresult := (h "result_preview").trans (callSummary_resultPreview env tc)
  have herror := (h "error").trans (callSummary_error env tc)
  unfold recordedCall
  rw [hname, hresult, herror]
  refine ⟨rfl, ?_, ?_, ?_, ?_⟩
  · simp
  · simp
  · cases tc.result with
    | none => exact .none
    | some r => exact .some (previews_truncatePreview _ _)
  · cases tc.error with
    | none => exact .none
    | some e => exact .some (previews_truncatePreview _ _)

theorem showsCalls_recordedCalls {calls : List TurnToolCall} (h : ReadsBack env fromStr (calls.map (callSummary env))) :
    List.Forall₂ (ShowsCall env) calls (recordedCalls fromStr (callsContent env calls)) := by
  obtain ⟨items, hread, hsame⟩ := h
  unfold recordedCalls callsContent
  rw [hread]
  rw [List.forall₂_map_left_iff] at hsame
  rw [List.forall₂_map_right_iff]
  exact hsame.imp fun _ _ => showsCall_recordedCall

/-- **One turn.** -/
theorem showsTurn_turnOf (k number : Nat) (turn : Turn)
    (h : turn.toolCalls ≠ [] → ReadsBack env fromStr (turn.toolCalls.map (callSummary env))) : ShowsTurn env turn
      (turnOf fromStr number (userRow draw k turn) (callsRow env draw k turn) (answerRow draw k turn)) := by
  refine ⟨rfl, ?_, ?_⟩
  · unfold turnOf answerRow
    cases turn.response <;> rfl
  · unfold turnOf callsRow
    cases hcalls : turn.toolCalls with
    | nil => exact .nil
    | cons tc rest =>
      have hreads := h (by rw [hcalls]; exact List.cons_ne_nil tc rest)
      rw [hcalls] at hreads
      exact showsCalls_recordedCalls hreads

theorem messageIds_turnOf (k number : Nat) (turn : Turn) :
    (turnOf fromStr number (userRow draw k turn) (callsRow env draw k turn) (answerRow draw k turn)).messageIds
      = (turnRows env draw k turn).map (·.id) := rfl

/-- **All turns.** -/
theorem buildTurnsFrom_turnsRows (draw : Nat → Draw) (k number : Nat) (turns : List Turn)
    (h : ∀ turn ∈ turns, turn.toolCalls ≠ [] → ReadsBack env fromStr (turn.toolCalls.map (callSummary env))) :
    List.Forall₂ (ShowsTurn env) turns (buildTurnsFrom fromStr number 0 (turnsRows env draw k turns))
      ∧ (buildTurnsFrom fromStr number 0 (turnsRows env draw k turns)).flatMap (·.messageIds)
        = (turnsRows env draw k turns).map (·.id) := by
  induction turns generalizing k number with
  | nil => exact ⟨.nil, rfl⟩
  | cons turn rest ih =>
    obtain ⟨hshows, hids⟩ := ih (k + 3) (number + 1) fun turn' hturn' => h turn' (List.mem_cons_of_mem _ hturn')
    rw [turnsRows, buildTurnsFrom_turnRows k number turn (opensTurn_turnsRows (k + 3) rest)]
    constructor
    · exact .cons (showsTurn_turnOf k number turn (h turn List.mem_cons_self)) hshows
    · rw [List.flatMap_cons, hids, messageIds_turnOf, List.map_append]

/-! ## The order of the rows -/

/-- The stamps of the rows are those of the draws, in their order. -/
theorem turnsRows_drawn (env : Env W) (draw : Nat → Draw) (k : Nat) (turns : List Turn) :
    ∃ js : List Nat, js.Pairwise (· < ·) ∧ (∀ j ∈ js, k ≤ j ∧ j < k + 3 * turns.length) ∧
      (turnsRows env draw k turns).map (·.createdAt) = js.map fun j => (draw j).now := by
  induction turns generalizing k with
  | nil => exact ⟨[], .nil, by simp, rfl⟩
  | cons turn rest ih =>
    obtain ⟨js, hjs, hfrom, hstamps⟩ := ih (k + 3)
    have hturn : ∃ is : List Nat, is.Pairwise (· < ·) ∧ (∀ i ∈ is, k ≤ i ∧ i < k + 3) ∧
        (turnRows env draw k turn).map (·.createdAt) = is.map fun i => (draw i).now := by
      unfold turnRows callsRow answerRow
      cases turn.response with
      | none =>
        cases turn.toolCalls.isEmpty with
        | true => exact ⟨[k], by simp, by simp, rfl⟩
        | false => exact ⟨[k, k + 1], by simp, by simp, rfl⟩
      | some response =>
        cases turn.toolCalls.isEmpty with
        | true => exact ⟨[k, k + 2], by simp, by simp, rfl⟩
        | false => exact ⟨[k, k + 1, k + 2], by simp, by simp, rfl⟩
    obtain ⟨is, his, hwithin, hturn⟩ := hturn
    refine ⟨is ++ js, ?_, ?_, ?_⟩
    · rw [List.pairwise_append]
      exact ⟨his, hjs, fun i hi j hj => lt_of_lt_of_le (hwithin i hi).2 (hfrom j hj).1⟩
    · intro j hj
      rw [List.length_cons]
      rcases List.mem_append.mp hj with hi | hj
      · have := hwithin j hi
        omega
      · have := hfrom j hj
        omega
    · rw [turnsRows, List.map_append, List.map_append, hturn, hstamps]

/-- Rows with stamps in order are listed as they were written. -/
theorem listConversationMessages_of_ordered (h : ((rowsOf t tid).map (·.createdAt)).Pairwise (· ≤ ·)) :
    listConversationMessages t tid = rowsOf t tid := by
  unfold listConversationMessages rowsOf Tables.byCreatedAt
  rw [List.Pairwise.insertionSort_eq]
  unfold rowsOf at h
  rw [List.map_map, List.pairwise_map] at h
  exact h

/-- **Turns that are written are read back.** They are written into a conversation without messages, with identifiers
    that are new, and `serde_json` reads the records of tool calls back that it wrote. There is one turn for each, in
    order; the message identifiers of the turns, one after another, are those of the conversation's rows, and no row
    appears twice. A clock that does not go back lists the rows in the order they were written. -/
theorem persisted_turns_read_back (env : Env W) (fromStr : String → Option Json) (tid : Uuid) (user : String)
    (draw : Nat → Draw) (turns : List Turn) (t : Tables)
    (hnew : ∀ m ∈ t.messages, m.conversationId ≠ tid)
    (hids : DrawsApart draw (3 * turns.length))
    (hfresh : FreshFrom draw 0 (3 * turns.length) t)
    (hserde : ∀ turn ∈ turns, turn.toolCalls ≠ [] → ReadsBack env fromStr (turn.toolCalls.map (callSummary env))) :
    let written := persistTurns env tid user draw 0 turns t
    let infos := buildTurnsFromDbMessages fromStr (rowsOf written tid)
    List.Forall₂ (ShowsTurn env) turns infos
      ∧ infos.flatMap (·.messageIds) = (rowsOf written tid).map (·.id)
      ∧ ((rowsOf written tid).map (·.id)).Nodup
      ∧ ((∀ i j, i ≤ j → j < 3 * turns.length → (draw i).now ≤ (draw j).now) →
          listConversationMessages written tid = rowsOf written tid) := by
  intro written infos
  have hnone : rowsOf t tid = [] := by
    unfold rowsOf
    rw [List.filter_eq_nil_iff.mpr fun m hm => by simpa using hnew m hm]
    rfl
  have hrows : rowsOf written tid = turnsRows env draw 0 turns := by
    have happend := rowsOf_persistTurns env tid user hids turns (by omega) hfresh
    rw [hnone, List.nil_append] at happend
    exact happend
  obtain ⟨hshows, hmessageIds⟩ := buildTurnsFrom_turnsRows draw 0 0 turns hserde
  refine ⟨?_, ?_, ?_, ?_⟩
  · simp only [infos, buildTurnsFromDbMessages, hrows]
    exact hshows
  · simp only [infos, buildTurnsFromDbMessages, hrows]
    exact hmessageIds
  · -- Identifiers are primary keys.
    unfold rowsOf
    rw [List.map_map, List.Nodup, List.pairwise_map]
    exact written.messages_apart.filter _
  · intro hclock
    apply listConversationMessages_of_ordered
    obtain ⟨js, hjs, hbelow, hstamps⟩ := turnsRows_drawn env draw 0 turns
    rw [hrows, hstamps, List.pairwise_map]
    refine hjs.imp_of_mem fun {i j} hi hj hlt => hclock i j (Nat.le_of_lt hlt) ?_
    have := (hbelow j hj).2
    omega

/-- A turn that called one tool. -/
def echoTurn : Turn where
  turnNumber := 0
  userInput := "Hello"
  response := some "Done."
  toolCalls := [⟨"echo", .null, some (.string "Hello"), none⟩]

/-- The record of that call as `serde_json` writes it, and its fields as it reads them. -/
def echoRecord : String := "[\x7b\"name\":\"echo\",\"result_preview\":\"Hello\"\x7d]"

def readEchoRecord (text : String) : Option Json :=
  if text = echoRecord then
    some (.array [.object [("name", .string "echo"), ("result_preview", .string "Hello")]])
  else none

def echoEnv : Env Nat := { Env.idle Nat with toText := fun _ => echoRecord }

/-- Identifiers are counted and all stamps are one. -/
def countedDraw (j : Nat) : Draw := ⟨BitVec.ofNat 128 j, "2024-01-15T10:30:00.123Z"⟩

theorem echo_turn_is_read_back :
    List.Forall₂ (ShowsTurn echoEnv) [echoTurn]
      (buildTurnsFromDbMessages readEchoRecord
        (rowsOf (persistTurns echoEnv 7 "alice" countedDraw 0 [echoTurn] Tables.empty) 7)) := by
  refine (persisted_turns_read_back echoEnv readEchoRecord 7 "alice" countedDraw [echoTurn] Tables.empty
    ?_ ?_ ?_ ?_).1
  · simp [Tables.empty]
  · intro i j hij hj
    simp only [List.length_singleton] at hj
    intro heq
    have hnat := congrArg BitVec.toNat heq
    simp only [countedDraw, BitVec.toNat_ofNat] at hnat
    omega
  · intro j _ _ m hm
    simp [Tables.empty] at hm
  · intro turn hturn _
    rw [List.mem_singleton.mp hturn]
    refine ⟨[.object [("name", .string "echo"), ("result_preview", .string "Hello")]], if_pos rfl, ?_⟩
    refine .cons (fun key => ?_) .nil
    rfl

end Freeclawdia.Conversations
