import Freeclawdia.Lib.Interleave
import Freeclawdia.Rust.Str
import Freeclawdia.Tools.Tool

/-!
# `Agent.MessageContext` — the `message` tool and those who set its defaults

The message tool has one default channel and one default target, each behind a lock of its own. Chat turns
(`Agent::handle_message`) and routines (`execute_full_job`) set them; calls of the tool read them, from turns and from
the workers of jobs. All of these are programs over the operations under one lock.

For statements, a default remembers the task that set it, and the shared state keeps books on the broadcasts. No
operation of the code reads these.
-/

namespace Freeclawdia.MessageTool

open Rust

/-- The `attachments` parameter: a list of strings, or missing. None is the error. -/
def attachmentsOf (params : Json) : Option (List String) :=
  match params.get "attachments" with
  | some v => Serde.list Json.asStr v
  | none => some []

/-- What a turn needs of an incoming message. -/
structure TurnMessage where
  channel : String
  userId : String
  metadata : Json

/-- For Signal the target is in the metadata; otherwise it is the user. -/
def TurnMessage.target (message : TurnMessage) : String :=
  ((message.metadata.get "signal_target").bind Json.asStr).getD message.userId

/-- What a full job needs of `NotifyConfig`. -/
structure NotifyConfig where
  channel : Option String
  user : String

/-- In what a call of the tool is made: a chat turn, the job of a routine, or a job of no routine. -/
inductive Maker
  | turn (message : TurnMessage)
  | routineJob (notify : NotifyConfig)
  | job

/-- A default, and the task that set it. -/
structure Default where
  value : String
  setBy : Nat

/-- Where a message goes, by a parameter or by a default. -/
structure Destination where
  value : String
  setBy : Option Nat
deriving DecidableEq

/-- A parameter that takes the place of a default. -/
def given (params : Json) (name : String) : Option String := (params.get name).bind Json.asStr

/-- A message that was sent to a channel, whether or not the channel took it. -/
structure Broadcast where
  task : Nat
  /-- The turn or job in which the tool was called. -/
  maker : Nat
  params : Json
  channel : Destination
  target : Destination
  content : String
  attachments : List String

structure Shared where
  defaultChannel : Option Default := none
  defaultTarget : Option Default := none
  /-- The turns and jobs in which tools can be called. -/
  makers : List (Nat × Maker) := []
  broadcasts : List Broadcast := []

/-! ## Operations -/

inductive Op
  | setChannel (channel : Option String)
  | setTarget (target : Option String)
  /-- The turn goes on, or the job is dispatched. -/
  | goOn (maker : Maker)
  /-- A tool is called in a turn or job there is. -/
  | call (maker : Nat)
  | readChannel (maker : Nat) (params : Json)
  /-- The channel is already known. -/
  | readTarget (maker : Nat) (params : Json) (channel : Destination)
  | checkAttachments (paths : List String)
  | broadcast (maker : Nat) (params : Json) (channel target : Destination) (content : String) (attachments : List String)
  | channelNames

abbrev Ans : Op → Type
  | .goOn _ => Except String Unit
  | .readChannel _ _ | .readTarget _ _ _ => Option Destination
  | .checkAttachments _ => Option String
  | .broadcast _ _ _ _ _ _ => Except String Unit
  | .channelNames => List String
  | _ => Unit

/-- The error of dispatching a job, of an attachment or of a channel, and the names of the channels. -/
structure Input where
  failure : Option String := none
  channelNames : List String := []

/-- A default as a destination. -/
def Default.destination (d : Default) : Destination := ⟨d.value, some d.setBy⟩

/-- What an operation answers and leaves behind. -/
def perform (t : Nat) : (o : Op) → Input → Shared → Option (Ans o × Shared)
  | .setChannel channel, _, s => some ((), { s with defaultChannel := channel.map fun value => ⟨value, t⟩ })
  | .setTarget target, _, s => some ((), { s with defaultTarget := target.map fun value => ⟨value, t⟩ })
  | .goOn maker, i, s =>
    match i.failure with
    | some e => some (.error e, s)
    | none => some (.ok (), { s with makers := (t, maker) :: s.makers })
  | .call maker, _, s => if s.makers.any fun m => m.1 = maker then some ((), s) else none
  | .readChannel _ _, _, s => some (s.defaultChannel.map Default.destination, s)
  | .readTarget _ _ _, _, s => some (s.defaultTarget.map Default.destination, s)
  | .checkAttachments _, i, s => some (i.failure, s)
  | .broadcast maker params channel target content attachments, i, s =>
    some (match i.failure with
      | some e => .error e
      | none => .ok (),
      { s with broadcasts := ⟨t, maker, params, channel, target, content, attachments⟩ :: s.broadcasts })
  | .channelNames, i, s => some (i.channelNames, s)

/-! ## Setting the defaults -/

/-- `MessageTool::set_context`. -/
def setContext (channel target : Option String) : Prog Op Ans Unit := do
  perf (Op.setChannel channel)
  perf (Op.setTarget target)

/-- `Agent::handle_message`, up to where its turn begins. -/
def handleMessage (message : TurnMessage) : Prog Op Ans (Except String Unit) := do
  setContext (some message.channel) (some message.target)
  perf (Op.goOn (.turn message))

/-- `execute_full_job`, up to the dispatch. -/
def executeFullJob (notify : NotifyConfig) : Prog Op Ans (Except String Unit) := do
  if let some channel := notify.channel then setContext (some channel) (some notify.user)
  match ← perf (Op.goOn (.routineJob notify)) with
  | .error e => return .error ("failed to dispatch job: " ++ e)
  | .ok _ => return .ok ()

/-! ## Calling the tool -/

section Execute

-- The text of an error of serde.
variable (serdeError : Json → String)

/-- The channel, by the parameter or by the default. -/
def channelOf (maker : Nat) (params : Json) : Prog Op Ans (Option Destination) :=
  match given params "channel" with
  | some c => return some ⟨c, none⟩
  | none => perf (Op.readChannel maker params)

/-- The target, by the parameter or by the default. -/
def targetOf (maker : Nat) (params : Json) (channel : Destination) : Prog Op Ans (Option Destination) :=
  match given params "target" with
  | some t => return some ⟨t, none⟩
  | none => perf (Op.readTarget maker params channel)

/-- Check the attachments and send. -/
def send (maker : Nat) (params : Json) (channel target : Destination) (content : String) :
    Prog Op Ans (Except Tools.ToolError String) :=
  match attachmentsOf params with
  | none =>
    return .error (.executionFailed
      ("Invalid attachments format: " ++ ((params.get "attachments").map serdeError).getD ""))
  | some attachments => do
      match ← perf (Op.checkAttachments attachments) with
      | some e => return .error (.executionFailed e)
      | none =>
        match ← perf (Op.broadcast maker params channel target content attachments) with
        | .ok _ => return .ok ("Sent message to " ++ channel.value ++ ":" ++ target.value)
        | .error e => do
            let names ← perf Op.channelNames
            let available := join ", " names
            let failed := "Failed to send to " ++ channel.value ++ ":" ++ target.value
            return .error (.executionFailed
              (if available = "" then failed ++ ": " ++ e ++ ". No channels connected."
                else failed ++ ". Available channels: " ++ available ++ ". Error: " ++ e))

/-- `MessageTool::execute`, called in a turn or job. -/
def execute (maker : Nat) (params : Json) : Prog Op Ans (Except Tools.ToolError String) := do
  perf (Op.call maker)
  match requireStr params "content" with
  | .error e => return .error e
  | .ok content => do
      match ← channelOf maker params with
      | none =>
        return .error (.executionFailed
          "No channel specified and no active conversation. Provide channel parameter.")
      | some channel => do
          match ← targetOf maker params channel with
          | none =>
            return .error (.executionFailed
              "No target specified and no active conversation. Provide target parameter.")
          | some target => send serdeError maker params channel target content

end Execute

/-! ## Calls -/

inductive Call
  | handleMessage (message : TurnMessage)
  | executeFullJob (notify : NotifyConfig)
  /-- A job that no routine dispatches. -/
  | dispatchJob
  | execute (maker : Nat) (params : Json)

abbrev Out : Call → Type
  | .handleMessage _ | .executeFullJob _ | .dispatchJob => Except String Unit
  | .execute _ _ => Except Tools.ToolError String

def body (serdeError : Json → String) : (c : Call) → Prog Op Ans (Out c)
  | .handleMessage message => handleMessage message
  | .executeFullJob notify => executeFullJob notify
  | .dispatchJob => perf (Op.goOn .job)
  | .execute maker params => execute serdeError maker params

/-- Turns, routines, jobs and the message tool at work. -/
def machine (serdeError : Json → String) : Machine where
  Shared := Shared
  Op := Op
  Ans := Ans
  Input := Input
  Call := Call
  Out := Out
  body := body serdeError
  perform := perform

end Freeclawdia.MessageTool
