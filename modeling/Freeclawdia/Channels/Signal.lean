import Freeclawdia.Agent.Env
import Freeclawdia.Pairing.Store

/-!
# `Channels.Signal` — envelopes of the signal-cli daemon (`channels/signal.rs`)

`process_envelope` turns one event of the daemon into a message for the agent, or drops it. Who may write is
decided by two policies given as texts, three lists from the configuration and the pairing store.
-/

namespace Freeclawdia.Signal

open Rust Pairing

def groupTargetPrefix : String := "group:"

/-- The part of `SignalConfig` that `process_envelope` reads. -/
structure SignalConfig where
  allowFrom : List String
  allowFromGroups : List String
  dmPolicy : String
  groupPolicy : String
  groupAllowFrom : List String
  ignoreAttachments : Bool
  ignoreStories : Bool

structure GroupInfo where
  groupId : Option String

structure DataMessage where
  message : Option String
  timestamp : Option Nat
  groupInfo : Option GroupInfo
  attachments : Option (List Json)

structure Envelope where
  source : Option String
  sourceNumber : Option String
  sourceName : Option String
  sourceUuid : Option String
  dataMessage : Option DataMessage
  storyMessage : Option Json
  timestamp : Option Nat

/-- `PairingStore::new()`, as one call of `process_envelope` finds it: what its functions answer. -/
structure PairingStore where
  readAllowFrom : String → Except PairingStoreError (List String)
  upsertRequest : String → String → Option Json → Except PairingStoreError UpsertResult

/-- The clock, and the identifier `Uuid::new_v5` derives from a text. -/
structure Host where
  nowMillis : Nat
  newV5 : String → String

/-- `IncomingMessage` with the fields this channel fills in. -/
structure SignalMessage extends IncomingMessage where
  userName : Option String
  metadata : Json

/-- A pairing request made for an unknown sender: its arguments, and the reply that is sent to him. -/
structure PairingAttempt where
  id : String
  metadata : Json
  reply : Option String

/-- The result of `process_envelope`, and the pairing request it has made. -/
structure Processed where
  message : Option (SignalMessage × String)
  pairing : Option PairingAttempt

def Processed.dropped : Processed := ⟨none, none⟩

/-! ## Senders and lists -/

/-- Effective sender: `sourceNumber` (E.164) first, `source` otherwise. -/
def sender (envelope : Envelope) : Option String := envelope.sourceNumber.or envelope.source

/-- An allowlist entry without its `uuid:` prefix. -/
def normalizeAllowEntry (entry : String) : String := (stripPrefix entry "uuid:").getD entry

variable (self : SignalConfig)

/-- Check whether a sender is in the allowed users list. -/
def isSenderAllowed (sender : String) : Bool :=
  if self.allowFrom.isEmpty then false
  else self.allowFrom.any fun entry =>
    entry = "*" ∨ normalizeAllowEntry entry = normalizeAllowEntry sender

/-- Check if sender is allowed via config `allow_from` OR pairing store. -/
def isSenderAllowedWithPairing (store : PairingStore) (sender : String) : Bool :=
  if isSenderAllowed self sender then true
  else
    match store.readAllowFrom "signal" with
    | .ok allowed => allowed.any fun entry => entry = "*" ∨ entry = sender
    | .error _ => false

def effectiveGroupAllowFrom : List String :=
  if self.groupAllowFrom.isEmpty then self.allowFrom else self.groupAllowFrom

/-- Check whether a group is in the allowed groups list. -/
def isGroupAllowed (groupId : String) : Bool :=
  if self.allowFromGroups.isEmpty then false
  else self.allowFromGroups.any fun entry => entry = "*" ∨ entry = groupId

/-- Check whether a sender is allowed for group messages. -/
def isGroupSenderAllowed (sender : String) : Bool :=
  let effectiveList := effectiveGroupAllowFrom self
  if effectiveList.isEmpty then false
  else effectiveList.any fun entry =>
    entry = "*" ∨ normalizeAllowEntry entry = normalizeAllowEntry sender

/-! ## One envelope -/

/-- `handle_pairing_request`: whatever it answers, the caller drops the message. -/
def handlePairingRequest (store : PairingStore) (sender : String) (sourceName : Option String) :
    Except Unit Bool × PairingAttempt :=
  let metadata := .object [("sender", .string sender), ("name", (sourceName.map .string).getD .null)]
  match store.upsertRequest "signal" sender (some metadata) with
  | .ok result =>
    let reply := "To pair with this bot, run: `ironclaw pairing approve signal " ++ result.code ++ "`"
    (.ok false, ⟨sender, metadata, if result.created then some reply else none⟩)
  | .error _ => (.error (), ⟨sender, metadata, none⟩)

def groupIdOf (dataMsg : DataMessage) : Option String := dataMsg.groupInfo.bind GroupInfo.groupId

/-- The reply target: group id (prefixed) or the sender's identifier. -/
def replyTarget (dataMsg : DataMessage) (sender : String) : String :=
  match groupIdOf dataMsg with
  | some groupId => groupTargetPrefix ++ groupId
  | none => sender

/-- What of an envelope is for the agent, before anything is asked about its sender: the data message, the
    text and the sender. -/
def contentOf (envelope : Envelope) : Option (DataMessage × String × String) :=
  if self.ignoreStories ∧ envelope.storyMessage.isSome then none
  else do
    let dataMsg ← envelope.dataMessage
    let hasAttachments := dataMsg.attachments.any fun a => !a.isEmpty
    let hasMessageText := dataMsg.message.any fun m => m ≠ ""
    if self.ignoreAttachments ∧ hasAttachments ∧ !hasMessageText then none
    else
      let text ← (dataMsg.message.filter fun t => t ≠ "").or
        (if hasAttachments then some "[Attachment]" else none)
      let sender ← sender envelope
      return (dataMsg, text, sender)

/-- What becomes of an envelope that has passed its policy. -/
def messageOf (host : Host) (envelope : Envelope) (dataMsg : DataMessage) (text sender : String) :
    SignalMessage × String :=
  let target := replyTarget dataMsg sender
  let timestamp := (dataMsg.timestamp.or envelope.timestamp).getD host.nowMillis
  let metadata := Json.object
    [("signal_sender", .string sender),
     ("signal_sender_uuid", (envelope.sourceUuid.map .string).getD .null),
     ("signal_target", .string target),
     ("signal_timestamp", .number (.posInt timestamp))]
  let threadId :=
    if dataMsg.groupInfo.isSome then host.newV5 target
    else
      match envelope.sourceUuid with
      | some uuid => uuid
      | none => host.newV5 sender
  ({ channel := "signal", userId := sender, content := text, threadId := some threadId,
     userName := envelope.sourceName.filter fun name => name ≠ "", metadata := metadata }, target)

/-- The group policy: `true` when the message is dropped. -/
def droppedByGroupPolicy (groupId sender : String) : Bool :=
  if self.groupPolicy = "disabled" then true
  else if self.groupPolicy = "open" then !isGroupAllowed self groupId
  else if self.groupPolicy = "allowlist" then !isGroupAllowed self groupId || !isGroupSenderAllowed self sender
  -- The arm `_ => {}` of the source.
  else false

/-- Process a single SSE envelope. -/
def processEnvelope (host : Host) (self : SignalConfig) (store : PairingStore) (envelope : Envelope) :
    Processed :=
  match contentOf self envelope with
  | none => .dropped
  | some (dataMsg, text, sender) =>
    let passed : Processed := ⟨some (messageOf host envelope dataMsg text sender), none⟩
    match groupIdOf dataMsg with
    | some groupId => if droppedByGroupPolicy self groupId sender then .dropped else passed
    | none =>
      if self.dmPolicy = "open" then passed
      else if self.dmPolicy = "pairing" then
        if isSenderAllowedWithPairing self store sender then passed
        else ⟨none, some (handlePairingRequest store sender envelope.sourceName).2⟩
      else if self.dmPolicy = "allowlist" then
        if isSenderAllowed self sender then passed else .dropped
      -- The arm `_ => {}` of the source.
      else passed

end Freeclawdia.Signal
