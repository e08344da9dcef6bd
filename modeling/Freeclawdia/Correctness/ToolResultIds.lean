import Freeclawdia.Llm.RigAdapter

/-!
# `Correctness.ToolResultIds` — which call a tool result is sent back for

`convert_messages` keeps every message but the system ones, in order, and what it makes of one depends on its place
only. A call without an id is numbered by its place, and so is a result, which stands one place further on: the result
of one such call gets the number of the next.
-/

namespace Freeclawdia.RigAdapter

open Rust

/-! ## One entry for each message -/

/-- The messages that make an entry in the history. -/
def entries (messages : List ChatMessage) : List ChatMessage := messages.filter fun m => decide (m.role ≠ .system)

/-- The entry of a message in the `n`-th place. -/
def entry (n : Nat) (m : ChatMessage) : RigMessage :=
  match m.role with
  | .assistant => assistantEntry m n
  | .tool => .toolResult (normalizedToolCallId m.toolCallId n) m.content
  | _ => .user m.content

theorem entries_concat {m : ChatMessage} (h : m.role ≠ .system) (messages : List ChatMessage) :
    entries (messages ++ [m]) = entries messages ++ [m] := by
  simp [entries, h]

/-- **The history**, one entry for each message but the system ones, by its place. -/
theorem convertMessages_history (messages : List ChatMessage) :
    (convertMessages messages).2 = (entries messages).mapIdx entry := by
  unfold convertMessages
  induction messages using List.reverseRecOn with
  | nil => rfl
  | append_singleton messages m ih =>
    have hlength := congrArg List.length ih
    rw [List.length_mapIdx] at hlength
    rw [List.foldl_append, List.foldl_cons, List.foldl_nil]
    cases hrole : m.role with
    | system =>
      rw [show entries (messages ++ [m]) = entries messages by simp [entries, hrole], ← ih]
      simp [convertMessage, hrole]
    | user | assistant | tool =>
      rw [entries_concat (by rw [hrole]; decide), List.mapIdx_concat, ← ih, ← hlength]
      simp [convertMessage, entry, hrole]

/-! ## Calls and their results -/

/-- The messages of a batch: the calls, and one result for each in order. -/
def batch (content : String) (calls : List ToolCall) (answers : Nat → String) : List ChatMessage :=
  { role := .assistant, content, toolCalls := some calls } ::
    calls.mapIdx fun k tc => .toolResult tc.id tc.name (answers k)

def callIds : RigMessage → List String
  | .assistant contents => (contents.filterMap callOf).map ToolCall.id
  | _ => []

def resultId : RigMessage → Option String
  | .toolResult id _ => some id
  | _ => none

theorem entries_batch (content : String) (calls : List ToolCall) (answers : Nat → String) :
    entries (batch content calls answers) = batch content calls answers := by
  apply List.filter_eq_self.mpr
  intro m hm
  rcases List.mem_cons.mp hm with rfl | hm
  · rfl
  · obtain ⟨k, hk, rfl⟩ := List.mem_mapIdx.mp hm
    rfl

theorem callIds_assistantEntry (content : String) (calls : List ToolCall) (n : Nat) :
    callIds (assistantEntry { role := .assistant, content, toolCalls := some calls } n) =
      calls.mapIdx fun k tc => normalizedToolCallId (some tc.id) (n + k) := by
  have hcalls : ((calls.mapIdx fun idx tc => AssistantContent.toolCall (normalizedToolCallId (some tc.id) (n + idx))
      tc.name tc.arguments).filterMap callOf).map ToolCall.id =
      calls.mapIdx fun k tc => normalizedToolCallId (some tc.id) (n + k) := by
    rw [List.mapIdx_eq_zipIdx_map, List.mapIdx_eq_zipIdx_map, List.filterMap_map, List.map_filterMap]
    exact congrFun List.filterMap_eq_map _
  unfold assistantEntry
  dsimp only
  generalize (calls.mapIdx fun idx tc => AssistantContent.toolCall (normalizedToolCallId (some tc.id) (n + idx))
    tc.name tc.arguments) = made at hcalls ⊢
  rw [← hcalls]
  split
  · cases made <;> rfl
  · rfl

theorem normalizedToolCallId_of_blank {raw : String} (h : trim raw = "") (seed : Nat) :
    normalizedToolCallId (some raw) seed = "generated_tool_call_" ++ toString seed := by
  simp [normalizedToolCallId, Option.filter, h]

theorem normalizedToolCallId_of_text {raw : String} (h : trim raw ≠ "") (seed : Nat) :
    normalizedToolCallId (some raw) seed = trim raw := by
  simp [normalizedToolCallId, Option.filter, h]

theorem toString_injective {m n : Nat} (h : toString m = toString n) : m = n := by
  have hdigits : Nat.toDigits 10 m = Nat.toDigits 10 n := by
    rw [← Nat.toList_repr, ← Nat.toList_repr]
    exact congrArg String.toList h
  rw [← Nat.ofDigitChars_ten_toDigits (n := m), hdigits, Nat.ofDigitChars_ten_toDigits]

/-- **A result names its call exactly if the call has an id.** In every conversation, for every batch of calls with one
result for each, the `k`-th call and the `k`-th result are in their places with an id; the ids are one exactly if the
call's own is not blank. If it is blank, and that of the next call too, the result names the next call. -/
theorem results_name_their_calls_iff (before after : List ChatMessage) (content : String) (calls : List ToolCall)
    (answers : Nat → String) (k : Fin calls.length) :
    let history := (convertMessages (before ++ batch content calls answers ++ after)).2
    let n := (entries before).length
    ∃ ids call result, (history[n]?).map callIds = some ids ∧ ids[k.1]? = some call ∧
      (history[n + 1 + k.1]?).bind resultId = some result ∧
      (result = call ↔ trim (calls.get k).id ≠ "") ∧
      (trim (calls.get k).id = "" → ∀ j : Fin calls.length, j.1 = k.1 + 1 → trim (calls.get j).id = "" →
        ids[j.1]? = some result) := by
  intro history n
  have hhistory : ∀ i m, (batch content calls answers)[i]? = some m → history[n + i]? = some (entry (n + i) m) := by
    intro i m hi
    have hlt := (List.getElem?_eq_some_iff.mp hi).1
    show ((convertMessages _).2)[n + i]? = _
    rw [convertMessages_history, entries, List.filter_append, List.filter_append, ← entries, ← entries, entries_batch,
      List.getElem?_mapIdx, List.getElem?_append_left (by rw [List.length_append]; omega),
      List.getElem?_append_right (Nat.le_add_right n i), Nat.add_sub_cancel_left, hi]
    rfl
  have hcalls : ∀ j : Fin calls.length, calls[j.1]? = some (calls.get j) := fun j => List.getElem?_eq_getElem j.2
  have hids : ∀ j : Fin calls.length, (calls.mapIdx fun k tc => normalizedToolCallId (some tc.id) (n + k))[j.1]? =
      some (normalizedToolCallId (some (calls.get j).id) (n + j.1)) := by
    intro j
    rw [List.getElem?_mapIdx, hcalls j]
    rfl
  have hresult := hhistory (k.1 + 1) (.toolResult (calls.get k).id (calls.get k).name (answers k.1))
    (by simp [batch])
  refine ⟨_, _, normalizedToolCallId (some (calls.get k).id) (n + k.1 + 1), ?_, hids k, ?_, ?_, ?_⟩
  · rw [show history[n]? = _ from hhistory 0 _ rfl, Option.map_some]
    exact congrArg some (callIds_assistantEntry content calls n)
  · rw [show n + 1 + k.1 = n + (k.1 + 1) by omega, hresult]
    rfl
  · constructor
    · intro hsame hblank
      rw [normalizedToolCallId_of_blank hblank, normalizedToolCallId_of_blank hblank] at hsame
      have hnumber := toString_injective (String.append_right_inj _ |>.mp hsame)
      omega
    · intro htext
      rw [normalizedToolCallId_of_text htext, normalizedToolCallId_of_text htext]
  · intro hblank j hj hblank'
    rw [hids j, normalizedToolCallId_of_blank hblank, normalizedToolCallId_of_blank hblank', hj]
    rfl

end Freeclawdia.RigAdapter
