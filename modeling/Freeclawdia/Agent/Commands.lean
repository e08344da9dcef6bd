import Freeclawdia.Agent.State
import Freeclawdia.Agent.Submission

/-!
# `Agent.Commands` — system commands and job handlers

The command handlers of `src/agent/commands.rs`. What they report about (jobs, models, skills, the
heartbeat) lives elsewhere in the program and is read through `CommandEnv`; the texts they make of it are
modelled as they are, since a command's text becomes the agent's reply.
-/

namespace Freeclawdia

open Rust

/-- A job as the handlers show it; state, times and cost are kept as the texts they are formatted to. -/
structure JobView where
  title : String
  userId : String
  state : String
  isStuck : Bool
  createdAt : String
  startedAt : Option String
  actualCost : String
  repairAttempts : Nat

/-- Job counts. -/
structure JobSummary where
  total : Nat
  inProgress : Nat
  completed : Nat
  failed : Nat
  stuck : Nat

/-- One line of a job list. -/
structure JobRow where
  id : String
  title : String
  status : String

/-- A skill, installed or found in the catalog; owner and statistics are as formatted. -/
structure SkillView where
  name : String
  version : String
  trust : String := ""
  description : String
  owner : Option String := none
  stats : List String := []

/-- Result of a heartbeat check. -/
inductive HeartbeatResult
  | ok
  | needsAttention (message : String)
  | skipped
  | failed (error : String)

/-- The parts of the program the handlers report about. -/
structure CommandEnv (W : Type) where
  dispatchJob : String → String → String → W → Except Error Uuid × W
  /-- `store.get_job`, when there is a store and it has the job. -/
  storedJob : Uuid → W → Option JobView
  jobContext : Uuid → W → Except Error JobView
  jobSummary : String → W → JobSummary
  stopJob : Uuid → W → Except Error Unit × W
  listJobs : String → W → List JobRow
  /-- Recovery of a stuck job followed by rescheduling it. -/
  recoverJob : Uuid → W → Except Error Unit × W
  heartbeat : W → HeartbeatResult × W
  toolNames : W → List String
  activeModel : W → String
  listModels : W → Except String (List String) × W
  setModel : String → W → Except String Unit × W
  inDocker : Bool
  /-- Installed skills: `none` when the skills system is off, an error when its lock is poisoned. -/
  installedSkills : W → Option (Except String (List SkillView))
  /-- Catalog search: `none` when there is no catalog, else the entries and the registry's error. -/
  searchSkills : String → W → Option (List SkillView × Option String) × W

/-- No jobs, no skills, one model. -/
def CommandEnv.idle (W : Type) : CommandEnv W where
  dispatchJob := fun _ _ _ w => (.error (.other "no scheduler"), w)
  storedJob := fun _ _ => none
  jobContext := fun id _ => .error (.job (.notFound id))
  jobSummary := fun _ _ => ⟨0, 0, 0, 0, 0⟩
  stopJob := fun id w => (.error (.job (.notFound id)), w)
  listJobs := fun _ _ => []
  recoverJob := fun id w => (.error (.job (.notFound id)), w)
  heartbeat := fun w => (.ok, w)
  toolNames := fun _ => []
  activeModel := fun _ => "model"
  listModels := fun w => (.ok ["model"], w)
  setModel := fun _ w => (.ok (), w)
  inDocker := false
  installedSkills := fun _ => none
  searchSkills := fun _ w => (none, w)

section Handlers

variable {W : Type} (env : Env W) (cmds : CommandEnv W)

/-! ## Jobs -/

/-- `handle_create_job`. -/
def handleCreateJob (user title description : String) (w : W) : Except Error String × W :=
  match cmds.dispatchJob user title description w with
  | (.error e, w) => (.error e, w)
  | (.ok id, w) =>
    (.ok ("Created job: " ++ title ++ "\nID: " ++ Uuid.toString id
      ++ "\n\nThe job has been scheduled and is now running."), w)

/-- A job as text. -/
def describeJob (job : JobView) : String :=
  "Job: " ++ job.title ++ "\nStatus: " ++ job.state ++ "\nCreated: " ++ job.createdAt ++ "\nStarted: "
    ++ job.startedAt.getD "Not started" ++ "\nActual cost: " ++ job.actualCost

/-- A job of the user, looked up by the text of its identifier. -/
def ownJob (user jobId : String) (w : W) : Except Error (Uuid × JobView) :=
  match Uuid.parseStr jobId with
  | none => .error (.job (.notFound 0))
  | some id =>
    match cmds.jobContext id w with
    | .error e => .error e
    | .ok job => if job.userId ≠ user then .error (.job (.notFound id)) else .ok (id, job)

/-- Job counts as text. -/
def describeSummary (s : JobSummary) : String :=
  "Jobs summary: Total: " ++ toString s.total ++ " In Progress: " ++ toString s.inProgress
    ++ " Completed: " ++ toString s.completed ++ " Failed: " ++ toString s.failed
    ++ " Stuck: " ++ toString s.stuck

/-- `handle_check_status`. A job found in the store is shown whoever it belongs to. -/
def handleCheckStatus (user : String) (jobId : Option String) (w : W) : Except Error String :=
  match jobId with
  | none => .ok (describeSummary (cmds.jobSummary user w))
  | some jobId =>
    match (Uuid.parseStr jobId).bind fun id => cmds.storedJob id w with
    | some job => .ok (describeJob job)
    | none => (ownJob cmds user jobId w).map fun j => describeJob j.2

/-- `handle_cancel_job`. -/
def handleCancelJob (user jobId : String) (w : W) : Except Error String × W :=
  match ownJob cmds user jobId w with
  | .error e => (.error e, w)
  | .ok (id, _) =>
    match cmds.stopJob id w with
    | (.error e, w) => (.error e, w)
    | (.ok (), w) => (.ok ("Job " ++ jobId ++ " has been cancelled."), w)

/-- `handle_list_jobs`. -/
def handleListJobs (user : String) (w : W) : String :=
  match cmds.listJobs user w with
  | [] => "No jobs found."
  | rows =>
    rows.foldl
      (fun out j => out ++ "  " ++ j.id ++ " - " ++ j.title ++ " (" ++ j.status ++ ")\n") "Jobs:\n"

/-- `handle_help_job`. -/
def handleHelpJob (user jobId : String) (w : W) : Except Error String × W :=
  match ownJob cmds user jobId w with
  | .error e => (.error e, w)
  | .ok (id, job) =>
    if job.isStuck then
      match cmds.recoverJob id w with
      | (.error e, w) => (.error e, w)
      | (.ok (), w) =>
        (.ok ("Job " ++ jobId ++ " was stuck. Attempting recovery (attempt #"
          ++ toString (job.repairAttempts + 1) ++ ")."), w)
    else
      (.ok ("Job " ++ jobId ++ " is not stuck (current state: " ++ job.state ++ "). No help needed."), w)

/-- `process_job_status`. -/
def processJobStatus (user : String) (jobId : Option String) (w : W) : SubmissionResult :=
  match handleCheckStatus cmds user jobId w with
  | .ok text => .response text
  | .error e => .error ("Job status error: " ++ e.display)

/-- `process_job_cancel`. -/
def processJobCancel (user jobId : String) (w : W) : SubmissionResult × W :=
  match handleCancelJob cmds user jobId w with
  | (.ok text, w) => (.response text, w)
  | (.error e, w) => (.error ("Cancel error: " ++ e.display), w)

/-- `process_heartbeat`. -/
def processHeartbeat (w : W) : SubmissionResult × W :=
  if env.hasWorkspace then
    match cmds.heartbeat w with
    | (.ok, w) => (.okWithMessage "Heartbeat: all clear, nothing needs attention.", w)
    | (.needsAttention msg, w) => (.response ("Heartbeat findings:\n\n" ++ msg), w)
    | (.skipped, w) =>
      (.okWithMessage "Heartbeat skipped: no HEARTBEAT.md checklist found in workspace.", w)
    | (.failed err, w) => (.error ("Heartbeat failed: " ++ err), w)
  else (.error "Heartbeat requires a workspace (database must be connected).", w)

/-! ## Asking the model about the thread -/

/-- The last twenty messages between an instruction and a question. -/
def questionContext (instruction question : String) (messages : List ChatMessage) : List ChatMessage :=
  ChatMessage.system instruction :: messages.drop (messages.length - 20) ++ [ChatMessage.user question]

/-- `process_summarize` and `process_suggest`: one completion over the thread's messages. -/
def askAboutThread (instruction question empty heading failure : String) (user : String) (tid : Uuid)
    (st : AgentState W) : Except Error SubmissionResult × AgentState W :=
  match st.thread user tid with
  | none => (.error (.job (.notFound tid)), st)
  | some thread =>
    if thread.messages.isEmpty then (.ok (.okWithMessage empty), st)
    else
      match completeText env (questionContext instruction question thread.messages) st.trace with
      | (.ok text, tr) => (.ok (.response (heading ++ trim text)), { st with trace := tr })
      | (.error e, tr) => (.ok (.error (failure ++ e.display)), { st with trace := tr })

def processSummarize (user : String) (tid : Uuid) (st : AgentState W) :
    Except Error SubmissionResult × AgentState W :=
  askAboutThread env
    ("Summarize the conversation so far in 3-5 concise bullet points. "
      ++ "Focus on decisions made, actions taken, and key outcomes. " ++ "Be brief and factual.")
    "Summarize this conversation." "Nothing to summarize (empty thread)." "Thread Summary:\n\n"
    "Summarize failed: " user tid st

def processSuggest (user : String) (tid : Uuid) (st : AgentState W) :
    Except Error SubmissionResult × AgentState W :=
  askAboutThread env
    ("Based on the conversation so far, suggest 2-4 concrete next steps the user could take. "
      ++ "Be actionable and specific. Format as a numbered list.")
    "What should I do next?" "Nothing to suggest from (empty thread)." "Suggested Next Steps:\n\n"
    "Suggest failed: " user tid st

/-! ## System commands -/

def helpText : String :=
  "System:\n" ++ "  /help             Show this help\n"
    ++ "  /model [name]     Show or switch the active model\n"
    ++ "  /version          Show version info\n" ++ "  /tools            List available tools\n"
    ++ "  /debug            Toggle debug mode\n" ++ "  /ping             Connectivity check\n" ++ "\n"
    ++ "Jobs:\n" ++ "  /job <desc>       Create a new job\n" ++ "  /status [id]      Check job status\n"
    ++ "  /cancel <id>      Cancel a job\n" ++ "  /list             List all jobs\n" ++ "\n"
    ++ "Session:\n" ++ "  /undo             Undo last turn\n" ++ "  /redo             Redo undone turn\n"
    ++ "  /compact          Compress context window\n" ++ "  /clear            Clear current thread\n"
    ++ "  /interrupt        Stop current operation\n" ++ "  /new              New conversation thread\n"
    ++ "  /thread <id>      Switch to thread\n" ++ "  /resume <id>      Resume from checkpoint\n" ++ "\n"
    ++ "Skills:\n" ++ "  /skills             List installed skills\n"
    ++ "  /skills search <q>  Search ClawHub registry\n" ++ "\n"
    ++ "Agent:\n" ++ "  /heartbeat        Run heartbeat check\n"
    ++ "  /summarize        Summarize current thread\n" ++ "  /suggest          Suggest next steps\n"
    ++ "  /restart          Gracefully restart the process\n" ++ "\n" ++ "  /quit             Exit"

/-- Pad on the right to a width, as `{:<n}` does. -/
def padRight (n : Nat) (s : String) : String :=
  s ++ String.ofList (List.replicate (n - s.toList.length) ' ')

/-- `RestartTool` run with no parameters; inside the container it always succeeds. -/
def restartMessage : String :=
  "Restarting in 2 second(s). The process will exit cleanly and the "
    ++ "entrypoint restart loop will bring IronClaw back online."

/-- `handle_skills_list`. -/
def handleSkillsList (w : W) : SubmissionResult :=
  match cmds.installedSkills w with
  | none => .error "Skills system not enabled."
  | some (.error e) => .error ("Skill registry lock error: " ++ e)
  | some (.ok []) =>
    .response "No skills installed.\n\nUse /skills search <query> to find skills on ClawHub."
  | some (.ok skills) =>
    .response (skills.foldl
      (fun out s =>
        out ++ "  " ++ padRight 24 s.name ++ " v" ++ padRight 10 s.version ++ " [" ++ s.trust ++ "]  "
          ++ (if s.description.toList.length > 60 then
                String.ofList (s.description.toList.take 57) ++ "..." else s.description) ++ "\n")
      "Installed skills:\n\n" ++ "\nUse /skills search <query> to find more on ClawHub.")

/-- A catalog entry as text. -/
def describeEntry (e : SkillView) : String :=
  "  " ++ padRight 24 e.name ++ " v" ++ padRight 10 e.version
    ++ (e.owner.map fun o => "  by " ++ o).getD ""
    ++ (if e.stats.isEmpty then "" else "  " ++ join "  " e.stats) ++ "\n"
    ++ (if e.description.isEmpty then "" else "    " ++ e.description ++ "\n\n")

/-- The installed skills that match a query, as text. -/
def describeMatches (query : String) (w : W) : String :=
  match cmds.installedSkills w with
  | some (.ok skills) =>
    let found := skills.filter fun s =>
      contains (toLowercase s.name) (toLowercase query)
        || contains (toLowercase s.description) (toLowercase query)
    if found.isEmpty then ""
    else
      found.foldl
        (fun out s =>
          out ++ "  " ++ padRight 24 s.name ++ " v" ++ padRight 10 s.version ++ " [" ++ s.trust ++ "]\n")
        ("Installed skills matching \"" ++ query ++ "\":\n")
  | _ => ""

/-- `handle_skills_search`. -/
def handleSkillsSearch (query : String) (w : W) : SubmissionResult × W :=
  match cmds.searchSkills query w with
  | (none, w) => (.error "Skill catalog not available.", w)
  | (some (entries, err), w) =>
    (.response ("ClawHub results for \"" ++ query ++ "\":\n\n"
      ++ (if entries.isEmpty then
            match err with
            | some e => "  (registry error: " ++ e ++ ")\n"
            | none => "  No results found.\n"
          else String.join (entries.map describeEntry))
      ++ describeMatches cmds query w), w)

/-- `/model` without an argument. -/
def showModels (w : W) : SubmissionResult × W :=
  match cmds.listModels w with
  | (.ok [], w') =>
    (.response ("Active model: " ++ cmds.activeModel w
      ++ "\n\nCould not fetch model list. Use /model <name> to switch."), w')
  | (.ok models, w') =>
    (.response ("Active model: " ++ cmds.activeModel w ++ "\n\nAvailable models:\n"
      ++ String.join (models.map fun m =>
          "  " ++ m ++ (if m = cmds.activeModel w then " (active)" else "") ++ "\n")
      ++ "\nUse /model <name> to switch."), w')
  | (.error e, w') =>
    (.response ("Active model: " ++ cmds.activeModel w ++ "\n\nCould not fetch models: " ++ e
      ++ ". Use /model <name> to switch."), w')

/-- `/model <name>`; an empty or missing list cannot be checked against. -/
def switchModel (requested : String) (w : W) : SubmissionResult × W :=
  match cmds.listModels w with
  | (listed, w) =>
    let unknown := match listed with
      | .ok models => !models.isEmpty && !models.contains requested
      | .error _ => false
    if unknown then
      (.error ("Unknown model: " ++ requested ++ ". Available models:\n  "
        ++ join "\n  " (listed.toOption.getD [])), w)
    else
      match cmds.setModel requested w with
      | (.ok (), w) => (.response ("Switched model to: " ++ requested), w)
      | (.error e, w) => (.error ("Failed to switch model: " ++ e), w)

/-- `handle_system_command`. -/
def handleSystemCommand (command : String) (args : List String) (channel : String) (w : W) :
    SubmissionResult × W :=
  if command = "help" then (.response helpText, w)
  else if command = "ping" then (.response "pong!", w)
  else if command = "restart" then
    if channel ≠ "gateway" then
      (.error ("Restart is only available through the web interface with explicit user confirmation. "
        ++ "Use the Restart button in the UI."), w)
    else if !cmds.inDocker then
      (.error ("Restart is not available in this environment. "
        ++ "The IRONCLAW_IN_DOCKER environment variable must be set to 'true' for Docker deployments."), w)
    else (.response restartMessage, w)
  else if command = "version" then (.response "ironclaw v0.16.1", w)
  else if command = "tools" then
    (.response ("Available tools: " ++ join ", " (cmds.toolNames w)), w)
  else if command = "debug" then (.okWithMessage "Debug toggle is handled by your client.", w)
  else if command = "skills" then
    match args with
    | [] => (handleSkillsList cmds w, w)
    | first :: rest =>
      if first ≠ "search" then (.error "Usage: /skills or /skills search <query>", w)
      else if (join " " rest).isEmpty then (.error "Usage: /skills search <query>", w)
      else handleSkillsSearch cmds (join " " rest) w
  else if command = "model" then
    match args with
    | [] => showModels cmds w
    | requested :: _ => switchModel cmds requested w
  else (.error ("Unknown command: " ++ command ++ ". Try /help"), w)

/-- `handle_command`: a system command's result as plain text. -/
def handleCommand (command : String) (args : List String) (channel : String) (w : W) :
    Option String × W :=
  match handleSystemCommand cmds command args channel w with
  | (.response content, w) => (some content, w)
  | (.ok message, w) => (message, w)
  | (.error message, w) => (some ("Error: " ++ message), w)
  | (_, w) => (none, w)

/-- `handle_job_or_command`. -/
def handleJobOrCommand (intent : MessageIntent) (user channel : String) (w : W) :
    Except Error SubmissionResult × W :=
  match intent with
  | .createJob title description _ =>
    match handleCreateJob cmds user title description w with
    | (r, w) => (r.map .response, w)
  | .checkJobStatus jobId => ((handleCheckStatus cmds user jobId w).map .response, w)
  | .cancelJob jobId =>
    match handleCancelJob cmds user jobId w with
    | (r, w) => (r.map .response, w)
  | .listJobs _ => (.ok (.response (handleListJobs cmds user w)), w)
  | .helpJob jobId =>
    match handleHelpJob cmds user jobId w with
    | (r, w) => (r.map .response, w)
  | .command command args =>
    match handleCommand cmds command args channel w with
    | (some s, w) => (.ok (.response s), w)
    | (none, w) => (.ok (.ok none), w)
  | .unknown => (.ok (.response "Unknown intent"), w)

end Handlers
end Freeclawdia
