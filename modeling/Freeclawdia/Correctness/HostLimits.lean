import Freeclawdia.Tools.Wasm.Host

/-!
# `Correctness.HostLimits` — what untrusted code can make the host keep

Over every sequence of calls, the first log entries and messages are kept and the others counted. Texts are cut at a
byte, though, so a long text makes the host panic unless a character ends just there: the calls go well exactly when
every text that is cut can be (`CutsFit`).
-/

namespace Freeclawdia.ChannelHostState

open Rust

/-! ## Sequences of calls -/

inductive HostCall
  | log (entry : LogEntry)
  | emit (msg : EmittedMessage)
  | takeLogs
  | takeEmittedMessages

/-- A host, and what has been taken from it so far. -/
structure Watched where
  host : ChannelHostState := {}
  takenLogs : List LogEntry := []
  takenMessages : List EmittedMessage := []

/-- One call; none is a panic. -/
def call (w : Watched) : HostCall → Option Watched
  | .log entry =>
    (w.host.base.log entry.level entry.message entry.timestampMillis).map fun base =>
      { w with host := { w.host with base } }
  | .emit msg => (w.host.emitMessage msg).map fun host => { w with host }
  | .takeLogs =>
    some { w with
      host := { w.host with base := w.host.base.takeLogs.2 }
      takenLogs := w.takenLogs ++ w.host.base.takeLogs.1 }
  | .takeEmittedMessages =>
    some { w with
      host := w.host.takeEmittedMessages.2
      takenMessages := w.takenMessages ++ w.host.takeEmittedMessages.1 }

def callAll (calls : List HostCall) : Option Watched := calls.foldlM call {}

def HostCall.entry? : HostCall → Option LogEntry
  | log entry => some entry
  | _ => none

def HostCall.message? : HostCall → Option EmittedMessage
  | emit msg => some msg
  | _ => none

/-! ## What should hold -/

/-- The text as it is, if it is within the limit, or the beginning of it within the limit and the marker. -/
def CutTo (limit : Nat) (text kept : String) : Prop :=
  (byteLen text ≤ limit ∧ kept = text) ∨
    ∃ lead : String, lead.toList <+: text.toList ∧ byteLen lead ≤ limit ∧ kept = lead ++ truncationMarker

/-- What was offered, taken and kept: no more than `max` are kept at a time, every offer was kept or counted, and
those kept are the first ones in their order, but for the cut. -/
structure KeepsFirst {α : Type} (max : Nat) (Cut : α → α → Prop) (offered taken : List α) (q : Quota α) : Prop where
  room : q.kept.length ≤ max
  count : (taken ++ q.kept).length + q.dropped = offered.length
  first : List.Forall₂ Cut (offered.take (taken ++ q.kept).length) (taken ++ q.kept)
  full : taken = [] → q.kept.length = min offered.length max

def EntryCut (offered kept : LogEntry) : Prop :=
  kept = { offered with message := kept.message } ∧ CutTo MAX_LOG_MESSAGE_BYTES offered.message kept.message

def MessageCut (offered kept : EmittedMessage) : Prop :=
  kept = { offered with content := kept.content } ∧ CutTo MAX_MESSAGE_CONTENT_SIZE offered.content kept.content

/-- A text can be cut to the limit. -/
def Cuttable (limit : Nat) (text : String) : Prop := limit < byteLen text → IsCharBoundary text limit

/-- A text that would be kept now can be cut to its limit. -/
def CutFits (w : Watched) : HostCall → Prop
  | .log entry => Quota.Accepts MAX_LOG_ENTRIES w.host.base.logs → Cuttable MAX_LOG_MESSAGE_BYTES entry.message
  | .emit msg =>
    Quota.Accepts MAX_EMITS_PER_EXECUTION w.host.emittedMessages → Cuttable MAX_MESSAGE_CONTENT_SIZE msg.content
  | .takeLogs => True
  | .takeEmittedMessages => True

/-- This is so at each call of a sequence. -/
def CutsFit (calls : List HostCall) : Prop :=
  ∀ before c after w, calls = before ++ c :: after → callAll before = some w → CutFits w c

/-! ## One text -/

variable {limit : Nat} {text : String}

theorem truncateTo_isSome_iff : (truncateTo limit text).isSome = true ↔ Cuttable limit text := by
  unfold truncateTo Cuttable
  split
  next h =>
    rw [Option.isSome_map, sliceTo_isSome_iff]
    exact ⟨fun hb _ => hb, fun hb => hb h⟩
  next h => exact ⟨fun _ hlt => absurd hlt h, fun _ => rfl⟩

theorem cutTo_of_truncateTo {kept : String} (h : truncateTo limit text = some kept) : CutTo limit text kept := by
  unfold truncateTo at h
  split at h
  next =>
    obtain ⟨lead, hlead, rfl⟩ := Option.map_eq_some_iff.mp h
    obtain ⟨hpre, hbytes⟩ := sliceTo_eq_some_iff.mp hlead
    exact .inr ⟨lead, hpre, hbytes.le, rfl⟩
  next hle =>
    cases h
    exact .inl ⟨Nat.not_lt.mp hle, rfl⟩

theorem entryCut_of_entryOf {offered kept : LogEntry} (h : HostState.entryOf offered = some kept) :
    EntryCut offered kept := by
  obtain ⟨message, hmessage, rfl⟩ := Option.map_eq_some_iff.mp h
  exact ⟨rfl, cutTo_of_truncateTo hmessage⟩

theorem messageCut_of_messageOf {offered kept : EmittedMessage} (h : messageOf offered = some kept) :
    MessageCut offered kept := by
  obtain ⟨content, hcontent, rfl⟩ := Option.map_eq_some_iff.mp h
  exact ⟨rfl, cutTo_of_truncateTo hcontent⟩

/-! ## One call -/

variable {c : HostCall} {w : Watched}

/-- **A call panics exactly when it would have to cut a text inside a character.** -/
theorem call_isSome_iff : (call w c).isSome = true ↔ CutFits w c := by
  cases c with
  | log entry =>
    unfold call HostState.log CutFits
    rw [Option.isSome_map, Option.isSome_map, Quota.offer_isSome_iff, HostState.entryOf, Option.isSome_map,
      truncateTo_isSome_iff]
  | emit msg =>
    unfold call emitMessage CutFits
    rw [Option.isSome_map, Option.isSome_map, Quota.offer_isSome_iff, messageOf, Option.isSome_map, truncateTo_isSome_iff]
  | takeLogs => exact ⟨fun _ => trivial, fun _ => rfl⟩
  | takeEmittedMessages => exact ⟨fun _ => trivial, fun _ => rfl⟩

/-- The accounts of the log and of the messages. -/
structure InOrder (calls : List HostCall) (w : Watched) : Prop where
  logs : Quota.Accounts MAX_LOG_ENTRIES HostState.entryOf (calls.filterMap HostCall.entry?) w.takenLogs w.host.base.logs
  messages : Quota.Accounts MAX_EMITS_PER_EXECUTION messageOf (calls.filterMap HostCall.message?) w.takenMessages
    w.host.emittedMessages

variable {calls : List HostCall}

theorem inOrder_call {w' : Watched} (h : InOrder calls w) (hcall : call w c = some w') : InOrder (calls ++ [c]) w' := by
  cases c with
  | log entry =>
    obtain ⟨base, hbase, rfl⟩ := Option.map_eq_some_iff.mp hcall
    obtain ⟨logs, hlogs, rfl⟩ := Option.map_eq_some_iff.mp hbase
    refine ⟨?_, ?_⟩
    · rw [List.filterMap_append]
      exact h.logs.offer hlogs
    · rw [List.filterMap_append]
      exact (List.append_nil _).symm ▸ h.messages
  | emit msg =>
    obtain ⟨host, hhost, rfl⟩ := Option.map_eq_some_iff.mp hcall
    obtain ⟨messages, hmessages, rfl⟩ := Option.map_eq_some_iff.mp hhost
    refine ⟨?_, ?_⟩
    · rw [List.filterMap_append]
      exact (List.append_nil _).symm ▸ h.logs
    · rw [List.filterMap_append]
      exact h.messages.offer hmessages
  | takeLogs =>
    cases hcall
    refine ⟨?_, ?_⟩
    · rw [List.filterMap_append]
      exact (List.append_nil (calls.filterMap HostCall.entry?)).symm ▸ h.logs.takeAll
    · rw [List.filterMap_append]
      exact (List.append_nil _).symm ▸ h.messages
  | takeEmittedMessages =>
    cases hcall
    refine ⟨?_, ?_⟩
    · rw [List.filterMap_append]
      exact (List.append_nil _).symm ▸ h.logs
    · rw [List.filterMap_append]
      exact (List.append_nil (calls.filterMap HostCall.message?)).symm ▸ h.messages.takeAll

/-! ## All calls -/

theorem callAll_concat (calls : List HostCall) (c : HostCall) :
    callAll (calls ++ [c]) = (callAll calls).bind fun w => call w c := by
  unfold callAll
  rw [List.foldlM_append]
  congr 1
  funext w
  simp only [List.foldlM_cons, List.foldlM_nil, bind_pure]

theorem inOrder_callAll (h : callAll calls = some w) : InOrder calls w := by
  induction calls using List.reverseRecOn generalizing w with
  | nil =>
    cases h
    exact ⟨Quota.accounts_new, Quota.accounts_new⟩
  | append_singleton calls c ih =>
    rw [callAll_concat] at h
    obtain ⟨w', hw', hcall⟩ := Option.bind_eq_some_iff.mp h
    exact inOrder_call (ih hw') hcall

theorem callAll_isSome_iff : (callAll calls).isSome = true ↔ CutsFit calls := by
  induction calls using List.reverseRecOn with
  | nil => exact ⟨fun _ before c after w heq => absurd heq (by simp), fun _ => rfl⟩
  | append_singleton calls c ih =>
    rw [callAll_concat]
    constructor
    · intro h before c' after w heq hbefore
      obtain ⟨w', hw', hcall⟩ := Option.bind_eq_some_iff.mp (Option.some_get h).symm
      rcases List.eq_nil_or_concat after with rfl | ⟨after, last, rfl⟩
      · obtain ⟨rfl, hc⟩ := List.append_inj' heq rfl
        obtain rfl := (List.cons.inj hc).1
        rw [hw'] at hbefore
        cases hbefore
        exact call_isSome_iff.mp (by rw [hcall]; rfl)
      · have hsplit : calls = before ++ c' :: after := by
          have heq : calls ++ [c] = (before ++ c' :: after) ++ [last] := by
            rw [heq]
            simp
          exact (List.append_inj' heq rfl).1
        exact ih.mp (by rw [hw']; rfl) before c' after w hsplit hbefore
    · intro h
      have hcalls : CutsFit calls := fun before c' after w heq => h before c' (after ++ [c]) w (by rw [heq]; simp)
      obtain ⟨w, hw⟩ := Option.isSome_iff_exists.mp (ih.mpr hcalls)
      rw [hw]
      exact call_isSome_iff.mpr (h calls c [] w rfl hw)

/-- The accounts say what should hold. -/
theorem keepsFirst_of_accounts {α : Type} {max : Nat} {prepare : α → Option α} {Cut : α → α → Prop}
    (hcut : ∀ {a b}, prepare a = some b → Cut a b) {offered taken : List α} {q : Quota α}
    (h : Quota.Accounts max prepare offered taken q) : KeepsFirst max Cut offered taken q where
  room := h.room
  count := h.count
  first := h.first.imp fun _ _ => hcut
  full htaken := by
    subst htaken
    exact h.length_kept

/-- **Logging and emitting neither crash nor flood the host**, exactly when every text that is cut can be: then no
call panics, at most 1000 entries and 100 messages are kept, those kept are the first ones in order, cut to their
limits, and every other call is counted. -/
theorem host_keeps_the_first (calls : List HostCall) :
    (∃ w, callAll calls = some w ∧
      KeepsFirst MAX_LOG_ENTRIES EntryCut (calls.filterMap HostCall.entry?) w.takenLogs w.host.base.logs ∧
      KeepsFirst MAX_EMITS_PER_EXECUTION MessageCut (calls.filterMap HostCall.message?) w.takenMessages
        w.host.emittedMessages) ↔
      CutsFit calls := by
  rw [← callAll_isSome_iff, Option.isSome_iff_exists]
  constructor
  · rintro ⟨w, hw, -⟩
    exact ⟨w, hw⟩
  · rintro ⟨w, hw⟩
    obtain ⟨hlogs, hmessages⟩ := inOrder_callAll hw
    exact ⟨w, hw, keepsFirst_of_accounts entryCut_of_entryOf hlogs,
      keepsFirst_of_accounts messageCut_of_messageOf hmessages⟩

/-! ## A text of two-byte characters -/

/-- One byte, and then so many characters of two bytes. -/
def accents (n : Nat) : String := String.ofList ('a' :: List.replicate n 'é')

theorem bytesOf_replicate (n : Nat) (c : Char) : bytesOf (List.replicate n c) = n * lenUtf8 c := by
  induction n with
  | zero => exact (Nat.zero_mul _).symm
  | succ n ih => rw [List.replicate_succ, bytesOf_cons, ih, Nat.succ_mul, Nat.add_comm]

/-- The first message of a plugin, of 4097 bytes: the 4096th is the first byte of its last character. -/
theorem accents_panic : callAll [.log ⟨.info, accents 2048, 0⟩] = none := by
  have hlong : MAX_LOG_MESSAGE_BYTES < byteLen (accents 2048) := by
    rw [byteLen_eq_bytesOf, accents, String.toList_ofList, bytesOf_cons, bytesOf_replicate]
    decide
  have hpanics : ¬CutFits {} (.log ⟨.info, accents 2048, 0⟩) := by
    intro h
    obtain ⟨lead, rest, hsplit, hbytes⟩ := h (by decide) hlong
    rw [accents, String.toList_ofList] at hsplit
    cases lead with
    | nil => cases hbytes
    | cons c lead =>
      obtain ⟨rfl, hrest⟩ := List.cons.inj hsplit
      -- An odd number of bytes.
      have hlead : lead = List.replicate lead.length 'é' := by
        refine List.eq_replicate_of_mem fun d hd => ?_
        have hmem : d ∈ lead ++ rest := List.mem_append_left rest hd
        rw [show lead ++ rest = List.replicate 2048 'é' from hrest.symm] at hmem
        exact List.eq_of_mem_replicate hmem
      rw [bytesOf_cons, hlead, bytesOf_replicate] at hbytes
      have ha : lenUtf8 'a' = 1 := rfl
      have he : lenUtf8 'é' = 2 := rfl
      rw [ha, he, MAX_LOG_MESSAGE_BYTES] at hbytes
      omega
  rw [← Option.not_isSome_iff_eq_none, callAll_isSome_iff]
  exact fun hfit => hpanics (hfit [] _ [] {} rfl rfl)

end Freeclawdia.ChannelHostState
