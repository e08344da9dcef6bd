import Freeclawdia.Agent.Env
import Freeclawdia.Rust.Str

/-!
# `Agent.Submission` — what a message asks for

`SubmissionParser::parse` (`src/agent/submission.rs`) and the command router (`src/agent/router.rs`). The
parser compares the lower-cased, trimmed text with a fixed list of commands, in the order below; what is
left is user input. Decoding a structured approval is `serde`'s derived code and a parameter of the parser.
-/

namespace Freeclawdia

open Rust

/-- A submission to the agent. -/
inductive Submission
  | userInput (content : String)
  | execApproval (requestId : Uuid) (approved always : Bool)
  | approvalResponse (approved always : Bool)
  | interrupt
  | compact
  | undo
  | redo
  | resume (checkpointId : Uuid)
  | clear
  | switchThread (threadId : Uuid)
  | newThread
  | heartbeat
  | summarize
  | suggest
  | jobStatus (jobId : Option String)
  | jobCancel (jobId : String)
  | quit
  | systemCommand (command : String) (args : List String)
deriving DecidableEq

namespace SubmissionParser

variable (lower : String)

/-- The commands matched as a whole, up to the ones that take arguments. -/
def exactCommand : Option Submission :=
  if lower = "/undo" then some .undo
  else if lower = "/redo" then some .redo
  else if lower = "/interrupt" ∨ lower = "/stop" then some .interrupt
  else if lower = "/compact" then some .compact
  else if lower = "/clear" then some .clear
  else if lower = "/heartbeat" then some .heartbeat
  else if lower = "/summarize" ∨ lower = "/summary" then some .summarize
  else if lower = "/suggest" then some .suggest
  else if lower = "/thread new" ∨ lower = "/new" then some .newThread
  else if lower = "/help" ∨ lower = "/?" then some (.systemCommand "help" [])
  else if lower = "/version" then some (.systemCommand "version" [])
  else if lower = "/tools" then some (.systemCommand "tools" [])
  else if lower = "/skills" then some (.systemCommand "skills" [])
  else none

/-- The words of a command line after the first. -/
def argsOf (trimmed : String) : List String := (splitWhitespace trimmed).drop 1

/-- System commands with arguments and the ones after them, up to quitting. -/
def systemCommand (trimmed lower : String) : Option Submission :=
  if startsWith lower "/skills " then some (.systemCommand "skills" (argsOf trimmed))
  else if lower = "/ping" then some (.systemCommand "ping" [])
  else if lower = "/debug" then some (.systemCommand "debug" [])
  else if lower = "/restart" then some (.systemCommand "restart" [])
  else if startsWith lower "/model" then some (.systemCommand "model" (argsOf trimmed))
  else if lower = "/quit" ∨ lower = "/exit" ∨ lower = "/shutdown" then some .quit
  else none

/-- The trimmed rest after a prefix, unless it is empty. -/
def restAfter (lower pre : String) : Option String :=
  ((stripPrefix lower pre).map trim).filter fun rest => !rest.isEmpty

/-- Job commands. -/
def jobCommand : Option Submission :=
  if lower = "/status" ∨ lower = "/progress" then some (.jobStatus none)
  else
    match (if startsWith lower "/status " then restAfter lower "/status "
        else restAfter lower "/progress ") with
    | some id => some (.jobStatus (some id))
    | none =>
      if lower = "/list" then some (.jobStatus none)
      else (restAfter lower "/cancel ").map .jobCancel

/-- `/thread <uuid>` and `/resume <uuid>`. -/
def threadCommand : Option Submission :=
  match (((stripPrefix lower "/thread ").map trim).filter (· ≠ "new")).bind Uuid.parseStr with
  | some id => some (.switchThread id)
  | none => (((stripPrefix lower "/resume ").map trim).bind Uuid.parseStr).map .resume

/-- Approval given as a word. -/
def approvalWord : Option Submission :=
  if lower ∈ ["yes", "y", "approve", "ok", "/approve", "/yes", "/y"] then
    some (.approvalResponse true false)
  else if lower ∈ ["always", "a", "yes always", "approve always", "/always", "/a"] then
    some (.approvalResponse true true)
  else if lower ∈ ["no", "n", "deny", "reject", "cancel", "/deny", "/no", "/n"] then
    some (.approvalResponse false false)
  else none

/-- A structured approval, as the web gateway sends it. -/
def structuredApproval (decode : String → Option (Uuid × Bool × Bool)) (trimmed : String) :
    Option Submission :=
  if startsWith trimmed "\x7b" then
    (decode trimmed).map fun a => .execApproval a.1 a.2.1 a.2.2
  else none

/-- Parse message content into a submission. `decode` is `serde_json::from_str::<Submission>` restricted to
    the `ExecApproval` variant. -/
def parse (decode : String → Option (Uuid × Bool × Bool)) (content : String) : Submission :=
  ((exactCommand (toLowercase (trim content))).or
    ((systemCommand (trim content) (toLowercase (trim content))).or
      ((jobCommand (toLowercase (trim content))).or
        ((threadCommand (toLowercase (trim content))).or
          ((structuredApproval decode (trim content)).or
            (approvalWord (toLowercase (trim content)))))))).getD (.userInput content)

end SubmissionParser

/-! ## Results -/

/-- Result of processing a submission. -/
inductive SubmissionResult
  | response (content : String)
  | needApproval (requestId : Uuid) (toolName description : String) (parameters : Json)
  | ok (message : Option String)
  | error (message : String)
  | interrupted

/-- `SubmissionResult::ok_with_message`. -/
def SubmissionResult.okWithMessage (message : String) : SubmissionResult := .ok (some message)

/-! ## Router -/

/-- Intent extracted from an explicit command. The variants the router never produces are left out. -/
inductive MessageIntent
  | createJob (title description : String) (category : Option String)
  | checkJobStatus (jobId : Option String)
  | cancelJob (jobId : String)
  | listJobs (filter : Option String)
  | helpJob (jobId : String)
  | command (command : String) (args : List String)
  | unknown

namespace Router

def commandPrefix : String := "/"

/-- `Router::parse_command`. -/
def parseCommand (content : String) : MessageIntent :=
  match splitWhitespace ((stripPrefix content commandPrefix).getD content) with
  | [] => .unknown
  | first :: rest =>
    let cmd := toLowercase first
    if cmd = "job" ∨ cmd = "create" then .createJob (join " " rest) (join " " rest) none
    else if cmd = "status" then .checkJobStatus rest.head?
    else if cmd = "cancel" then
      match rest.head? with
      | some jobId => .cancelJob jobId
      | none => .unknown
    else if cmd = "list" ∨ cmd = "jobs" then .listJobs rest.head?
    else if cmd = "help" then
      match rest.head? with
      | some jobId => .helpJob jobId
      | none => .command "help" []
    else .command cmd rest

/-- Route an explicit command; `none` when the text is not one. -/
def routeCommand (content : String) : Option MessageIntent :=
  if startsWith (trim content) commandPrefix then some (parseCommand (trim content)) else none

end Router
end Freeclawdia
