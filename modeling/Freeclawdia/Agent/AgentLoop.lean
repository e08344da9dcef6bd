import Freeclawdia.Agent.ThreadOps

/-!
# `Agent.AgentLoop` — handling one message

`Agent::handle_message` (`src/agent/agent_loop.rs`): parse, inbound hook, hydration, thread resolution, auth
mode, the handler of the submission, and the conversion of its result to a reply. `Agent::run` calls it for
one message after another and leaves its loop on `Ok(None)`.
-/

namespace Freeclawdia

open Rust

variable {W : Type} (env : Env W) (cmds : CommandEnv W) (msg : IncomingMessage)

/-- The `BeforeInbound` hooks on user input: the submission to go on with, or the reply that ends it. Other
    submissions pass without hooks. -/
def inboundHook (submission : Submission) (st : AgentState W) :
    Except String Submission × AgentState W :=
  match submission with
  | .userInput content =>
    match st.runHooks env (.inbound msg.userId msg.channel content msg.threadId) with
    | (.error (.rejected reason), st) => (.error ("[Message rejected: " ++ reason ++ "]"), st)
    | (.error err, st) => (.error ("[Message blocked by hook policy: " ++ err.display ++ "]"), st)
    | (.ok (.continue (some newContent)), st) => (.ok (.userInput newContent), st)
    | (.ok _, st) => (.ok submission, st)
  | other => (.ok other, st)

variable (now : Time)

/-- Hydrate and resolve the thread of a message. -/
def locateThread (st : AgentState W) : Uuid × AgentState W :=
  let st₁ := match msg.threadId with
    | some ext => maybeHydrateThread env msg ext now st
    | none => st
  match st₁.draw env with
  | (newSessionId, st₂) =>
    match st₂.draw env with
    | (newThreadId, st₃) =>
      match st₃.manager.resolveThread msg.userId msg.channel msg.threadId newSessionId newThreadId
          now with
      | (tid, manager) => (tid, { st₃ with manager })

/-- Lift a handler that only moves the world. -/
def onWorld (st : AgentState W) (r : SubmissionResult × W) :
    Except Error SubmissionResult × AgentState W :=
  (.ok r.1, { st with trace := { st.trace with world := r.2 } })

/-- The handler of a submission; `none` is quitting. -/
def dispatch (tid : Uuid) (submission : Submission)
    (st : AgentState W) : Option (Except Error SubmissionResult × AgentState W) :=
  match submission with
  | .userInput content => some (processUserInput env cmds msg tid content st)
  | .systemCommand command args =>
    some (onWorld st (handleSystemCommand cmds command args msg.channel st.trace.world))
  | .undo => some (processUndo env msg.userId tid st)
  | .redo => some (processRedo env msg.userId tid st)
  | .interrupt => some (processInterrupt msg.userId tid st)
  | .compact => some (processCompact env msg.userId tid st)
  | .clear => some (processClear msg.userId tid st)
  | .newThread => some (processNewThread env msg.userId now st)
  | .heartbeat => some (onWorld st (processHeartbeat env cmds st.trace.world))
  | .summarize => some (processSummarize env msg.userId tid st)
  | .suggest => some (processSuggest env msg.userId tid st)
  | .jobStatus jobId => some (.ok (processJobStatus cmds msg.userId jobId st.trace.world), st)
  | .jobCancel jobId => some (onWorld st (processJobCancel cmds msg.userId jobId st.trace.world))
  | .quit => none
  | .switchThread target => some (processSwitchThread msg.userId target now st)
  | .resume checkpointId => some (processResume msg.userId tid checkpointId st)
  | .execApproval requestId approved always =>
    some (processApproval env msg.userId tid (some requestId) approved always st)
  | .approvalResponse approved always =>
    some (processApproval env msg.userId tid none approved always st)

/-- The reply a submission result is turned into. A silent reply is suppressed by returning `none`, the
    value that also means quitting. -/
def replyOf : SubmissionResult → Option String
  | .response content => if isSilentReply content then none else some content
  | .ok message => message
  | .error message => some ("Error: " ++ message)
  | .interrupted => some "Interrupted."
  | .needApproval .. => some ""

/-- A submission that is not a token cancels auth mode. -/
def cancelAuth (user : String) (tid : Uuid) (auth : Option PendingAuth) (st : AgentState W) : AgentState W :=
  if auth.isSome then st.modifyThread user tid fun t => { t with pendingAuth := none } else st

/-- Run the handler of a submission and turn its result into a reply. -/
def handleSubmission (tid : Uuid) (submission : Submission)
    (st : AgentState W) : Except Error (Option String) × AgentState W :=
  match dispatch env cmds msg now tid submission st with
  | none => (.ok none, st)
  | some (result, st') => (result.map replyOf, st')

/-- After thread resolution: auth mode first, then the submission's handler. -/
def handleResolved (tid : Uuid) (submission : Submission)
    (st : AgentState W) : Except Error (Option String) × AgentState W :=
  match (st.thread msg.userId tid).bind (·.pendingAuth), submission with
  | some pending, .userInput content =>
    match processAuthToken env msg.userId tid pending content st with
    | (reply, st) => (.ok (some reply), st)
  | auth, submission =>
    handleSubmission env cmds msg now tid submission (cancelAuth msg.userId tid auth st)

/-- `Agent::handle_message`. -/
def handleMessage (st : AgentState W) :
    Except Error (Option String) × AgentState W :=
  match inboundHook env msg (SubmissionParser.parse env.decodeExecApproval msg.content) st with
  | (.error reply, st₁) => (.ok (some reply), st₁)
  | (.ok submission, st₁) =>
    match locateThread env msg now st₁ with
    | (tid, st₂) => handleResolved env cmds msg now tid submission st₂

end Freeclawdia
