import Freeclawdia.Rust.Slice
import Freeclawdia.Tools.Mcp.Protocol

/-!
# `Correctness.EventStreams` — an answer and the pieces it comes in

The client decodes each chunk for itself, and looks for messages also in a line that has not ended. So what it reads
depends on where the chunks are cut; it does not where the cuts go through no character and leave no beginning of a
line that is another message than the line (`CutWell`). Then what it reads is the first message there is.
-/

namespace Freeclawdia.Mcp

open Rust Tools

variable {fromJson : List UInt8 → Except String McpResponse}

/-- The chunks of a body, decoded one by one. -/
def decoded : List (List UInt8) → String
  | [] => ""
  | chunk :: chunks => fromUtf8Lossy chunk ++ decoded chunks

theorem decoded_append (before after : List (List UInt8)) :
    decoded (before ++ after) = decoded before ++ decoded after := by
  induction before with
  | nil => exact (String.empty_append ..).symm
  | cons chunk chunks ih => rw [List.cons_append, decoded, ih, decoded, String.append_assoc]

theorem decoded_singleton (chunk : List UInt8) : decoded [chunk] = fromUtf8Lossy chunk := String.append_empty ..

variable (fromJson) in
/-- No cut between chunks goes through a character; and where one goes through a line whose beginning is a message,
the whole line is this message. -/
structure CutWell (chunks : List (List UInt8)) : Prop where
  characters : decoded chunks = fromUtf8Lossy chunks.flatten
  lines : ∀ before after, before ++ after = chunks → ∀ r,
    messageOfLine fromJson (lastLine (decoded before)) = some r →
      messageOfLine fromJson ((lines (lastLine (decoded before) ++ decoded after)).headD "") = some r

variable (fromJson) in
/-- The messages of a body, in their order. -/
def messages (answer : HttpAnswer) : List McpResponse :=
  if answer.isEventStream then
    (lines (fromUtf8Lossy answer.chunks.flatten)).filterMap (messageOfLine fromJson)
  else if answer.failure.isSome then []
  else (fromJson answer.chunks.flatten).toOption.toList

/-! ## A buffer that grows -/

theorem messageOfLine_empty : messageOfLine fromJson "" = none := rfl

variable {r : McpResponse}

/-- A message that was found stays the first one, when more text comes in. -/
theorem messageIn_append {a b : String} (h : messageIn fromJson a = some r)
    (hlast : messageOfLine fromJson (lastLine a) = some r →
      messageOfLine fromJson ((lines (lastLine a ++ b)).headD "") = some r) :
    messageIn fromJson (a ++ b) = some r := by
  unfold messageIn at h ⊢
  rw [lines_eq, List.findSome?_append] at h
  rw [lines_append, List.findSome?_append]
  cases hended : (endedLines a).findSome? (messageOfLine fromJson) with
  | some r' =>
    rw [hended] at h
    exact h
  | none =>
    rw [hended, Option.none_or] at h
    -- The message is in the line at the end; it is the first of those to come.
    have hfound : messageOfLine fromJson (lastLine a) = some r := by
      split at h
      · cases h
      · simpa using h
    have hhead := hlast hfound
    cases hrest : lines (lastLine a ++ b) with
    | nil =>
      rw [hrest] at hhead
      cases messageOfLine_empty.symm.trans hhead
    | cons line rest =>
      rw [hrest, List.headD_cons] at hhead
      rw [Option.none_or, List.findSome?_cons, hhead]

/-! ## Any pieces, and one -/

/-- What comes of an event stream, by the first message of its text. -/
def outcome (failure : Option String) (text : String) (first : Option McpResponse) : Except Tools.ToolError McpResponse :=
  match first with
  | some response => .ok response
  | none =>
    match failure with
    | some e => .error (.externalService ("Failed to read SSE chunk: " ++ e))
    | none => .error (.externalService ("No valid data in SSE response: " ++ text))

variable {chunks : List (List UInt8)}

theorem readEvents_eq (h : CutWell fromJson chunks) (failure : Option String) (before after : List (List UInt8))
    (hchunks : before ++ after = chunks) (hnone : messageIn fromJson (decoded before) = none) :
    readEvents fromJson failure (decoded before) after =
      outcome failure (decoded chunks) (messageIn fromJson (decoded chunks)) := by
  induction after generalizing before with
  | nil =>
    rw [List.append_nil] at hchunks
    rw [← hchunks, hnone]
    rfl
  | cons chunk rest ih =>
    have hbefore : decoded (before ++ [chunk]) = decoded before ++ fromUtf8Lossy chunk := by
      rw [decoded_append, decoded_singleton]
    have hsplit : (before ++ [chunk]) ++ rest = chunks := by rw [← hchunks, List.append_assoc, List.singleton_append]
    unfold readEvents
    rw [← hbefore]
    cases hfound : messageIn fromJson (decoded (before ++ [chunk])) with
    | none => exact ih _ hsplit hfound
    | some r =>
      have hwhole : messageIn fromJson (decoded chunks) = some r := by
        rw [← hsplit, decoded_append]
        exact messageIn_append hfound (h.lines _ _ hsplit r)
      rw [hwhole]
      rfl

/-- What is read of a stream that is cut well. -/
theorem readEvents_cutWell (h : CutWell fromJson chunks) (failure : Option String) :
    readEvents fromJson failure "" chunks =
      outcome failure (fromUtf8Lossy chunks.flatten) (messageIn fromJson (fromUtf8Lossy chunks.flatten)) := by
  rw [← h.characters]
  exact readEvents_eq h failure [] chunks rfl rfl

/-- A stream in one piece is read by its text. -/
theorem readEvents_singleton (failure : Option String) (bytes : List UInt8) : readEvents fromJson failure "" [bytes] =
      outcome failure (fromUtf8Lossy bytes) (messageIn fromJson (fromUtf8Lossy bytes)) := by
  unfold readEvents outcome
  rw [String.empty_append]
  cases messageIn fromJson (fromUtf8Lossy bytes) with
  | some r => rfl
  | none => rfl

variable (fromJson) in
/-- An answer from which a response can be read is cut well. -/
def AnswerCutWell (answer : HttpAnswer) : Prop :=
  answer.isSuccess = true → answer.isEventStream = true → CutWell fromJson answer.chunks

variable {answer : HttpAnswer}

/-- **The pieces do not matter**, where the answer is cut well. -/
theorem readResponse_inOnePiece (h : AnswerCutWell fromJson answer) :
    readResponse fromJson answer = readResponse fromJson answer.inOnePiece := by
  have hstream : answer.inOnePiece.isEventStream = answer.isEventStream := rfl
  have hsuccess : answer.inOnePiece.isSuccess = answer.isSuccess := rfl
  have hchunks : answer.inOnePiece.chunks = [answer.chunks.flatten] := rfl
  unfold readResponse
  rw [hstream, hsuccess]
  split
  next hok =>
    split
    next hevents =>
      rw [readEvents_cutWell (h hok hevents), hchunks, readEvents_singleton]
      rfl
    next =>
      unfold readDocument
      rw [hchunks, List.flatten_singleton]
      rfl
  next => rfl

/-- **What is read is the first message**, where the answer is cut well. -/
theorem head?_messages (h : AnswerCutWell fromJson answer) (hread : readResponse fromJson answer = .ok r) :
    (messages fromJson answer).head? = some r := by
  unfold readResponse at hread
  unfold messages
  split at hread
  next hok =>
    by_cases hevents : answer.isEventStream = true
    · rw [if_pos hevents, List.head?_filterMap]
      rw [if_pos hevents, readEvents_cutWell (h hok hevents)] at hread
      unfold outcome at hread
      split at hread
      next response hfirst =>
        cases hread
        exact hfirst
      next =>
        split at hread
        · cases hread
        · cases hread
    · rw [if_neg hevents] at hread ⊢
      unfold readDocument at hread
      split at hread
      next => cases hread
      next hfailure =>
        rw [hfailure]
        split at hread
        next response hparsed =>
          cases hread
          rw [hparsed]
          rfl
        next => cases hread
  next => cases hread

/-! ## Cuts, computed -/

variable (fromJson) in
/-- After so many chunks no line is cut whose beginning is a message. -/
def cutWellAt (chunks : List (List UInt8)) (n : Nat) : Bool :=
  let begun := lastLine (decoded (chunks.take n))
  (messageOfLine fromJson begun).isNone || (lines (begun ++ decoded (chunks.drop n))).headD "" = begun

variable (fromJson) in
/-- A check that is enough for `CutWell`. -/
def cutWell (chunks : List (List UInt8)) : Bool :=
  decoded chunks = fromUtf8Lossy chunks.flatten && (List.range (chunks.length + 1)).all (cutWellAt fromJson chunks)

theorem cutWell_sound (h : cutWell fromJson chunks = true) : CutWell fromJson chunks := by
  obtain ⟨hcharacters, hlines⟩ := Bool.and_eq_true_iff.mp h
  refine ⟨of_decide_eq_true hcharacters, fun before after hsplit r hr => ?_⟩
  subst hsplit
  have hn : before.length ∈ List.range ((before ++ after).length + 1) := by
    rw [List.mem_range, List.length_append]
    omega
  have hcut := List.all_eq_true.mp hlines _ hn
  unfold cutWellAt at hcut
  rw [List.take_left, List.drop_left] at hcut
  rcases Bool.or_eq_true_iff.mp hcut with hnone | hsame
  · rw [hr] at hnone
    cases hnone
  · rw [of_decide_eq_true hsame]
    exact hr

end Freeclawdia.Mcp
