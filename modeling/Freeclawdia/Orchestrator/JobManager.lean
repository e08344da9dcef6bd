import Freeclawdia.Lib.Interleave
import Freeclawdia.Lib.Map
import Freeclawdia.Rust.Uuid
import Freeclawdia.Rust.Path

/-!
# `Orchestrator.JobManager` — containers of sandboxed jobs (`orchestrator/job_manager.rs`, `orchestrator/auth.rs`)

A job has a token, credential grants, a handle and a container. They are kept in three maps under locks of their own and
by Docker, and four calls create and release them: programs whose operations are the sections under one lock and the
requests to Docker. `create_job` records the token first and the id of the container last; `complete_job` and
`stop_job` mark the handle before they revoke the token.

The fields of the shared state after `docker` are bookkeeping for statements.
-/

namespace Freeclawdia.Orchestrator

open Rust

/-! ## Jobs and their containers -/

/-- Which mode a sandbox container runs in. -/
inductive JobMode
  | worker
  | claudeCode

/-- Configuration for the container job manager. -/
structure ContainerJobConfig where
  image : String
  memoryLimitMb : UInt64
  cpuShares : UInt32
  orchestratorPort : UInt16
  claudeCodeApiKey : Option String
  claudeCodeOauthToken : Option String
  claudeCodeModel : String
  claudeCodeMaxTurns : UInt32
  claudeCodeMemoryLimitMb : UInt64
  claudeCodeAllowedTools : List String

/-- State of a container. -/
inductive ContainerState
  | creating
  | running
  | stopped
  | failed
deriving DecidableEq

/-- Result reported by a worker on completion. -/
structure CompletionResult where
  success : Bool
  message : Option String

/-- A credential grant that maps a secret to an environment variable name. -/
structure CredentialGrant where
  secretName : String
  envVar : String

/-- Handle to a container job. -/
structure ContainerHandle where
  jobId : Uuid
  /-- Empty until the container has been started. -/
  containerId : String
  state : ContainerState
  mode : JobMode
  createdAt : Nat
  projectDir : Option Path
  taskDescription : String
  lastWorkerStatus : Option String := none
  workerIteration : UInt32 := 0
  completionResult : Option CompletionResult := none

inductive OrchestratorError
  | containerCreationFailed (jobId : Uuid) (reason : String)
  | containerNotFound (jobId : Uuid)
  | invalidContainerState (jobId : Uuid) (state : String)
  | docker (reason : String)

/-! ## What Docker is asked for -/

/-- What a container is created from. -/
structure ContainerSpec where
  name : String
  image : String
  cmd : List String
  env : List String
  binds : Option (List String)
  memory : Int64
  cpuShares : Int64
  networkMode : String := "bridge"
  extraHosts : List String := ["host.docker.internal:host-gateway"]
  capDrop : List String := ["ALL"]
  capAdd : List String := ["CHOWN"]
  securityOpt : List String := ["no-new-privileges:true"]
  tmpfs : List (String × String) := [("/tmp", "size=512M")]
  user : String := "1000:1000"
  workingDir : String := "/workspace"

def pathText (p : Path) : String := (if p.absolute then "/" else "") ++ join "/" p.parts

variable (config : ContainerJobConfig)

/-- The specification of a job's container, on Linux; `bind` is the validated project directory. -/
def containerSpec (jobId : Uuid) (token : String) (bind : Option Path) (mode : JobMode) :
    ContainerSpec :=
  let url := "http://172.17.0.1:" ++ toString config.orchestratorPort
  let workspace := if bind.isSome then ["IRONCLAW_WORKSPACE=/workspace"] else []
  let claude :=
    match mode with
    | .worker => []
    | .claudeCode =>
      (match config.claudeCodeApiKey, config.claudeCodeOauthToken with
        | some key, _ => ["ANTHROPIC_API_KEY=" ++ key]
        | none, some oauth => ["CLAUDE_CODE_OAUTH_TOKEN=" ++ oauth]
        | none, none => []) ++
      (if config.claudeCodeAllowedTools.isEmpty then []
        else ["CLAUDE_CODE_ALLOWED_TOOLS=" ++ join "," config.claudeCodeAllowedTools])
  let memoryMb :=
    match mode with
    | .claudeCode => config.claudeCodeMemoryLimitMb
    | .worker => config.memoryLimitMb
  { name :=
      match mode with
      | .worker => "ironclaw-worker-" ++ jobId.toString
      | .claudeCode => "ironclaw-claude-" ++ jobId.toString
    image := config.image
    cmd :=
      match mode with
      | .worker => ["worker", "--job-id", jobId.toString, "--orchestrator-url", url]
      | .claudeCode =>
        ["claude-bridge", "--job-id", jobId.toString, "--orchestrator-url", url, "--max-turns",
          toString config.claudeCodeMaxTurns, "--model", config.claudeCodeModel]
    env :=
      ["IRONCLAW_WORKER_TOKEN=" ++ token, "IRONCLAW_JOB_ID=" ++ jobId.toString, "IRONCLAW_ORCHESTRATOR_URL=" ++ url] ++
        workspace ++ claude
    binds := bind.map fun p => [pathText p ++ ":/workspace:rw"]
    memory := (memoryMb * 1024 * 1024).toInt64
    cpuShares := Int64.ofNat config.cpuShares.toNat }

/-- A container there is. -/
structure Container where
  id : String
  jobId : Uuid
  spec : ContainerSpec
  started : Bool := false

/-! ## The shared state -/

structure Shared where
  tokens : Map Uuid String := ∅
  credentialGrants : Map Uuid (List CredentialGrant) := ∅
  containers : Map Uuid ContainerHandle := ∅
  /-- Is there a cached connection? -/
  connected : Bool := false
  docker : List Container := []
  /-- The jobs whose creation has begun. -/
  created : List Uuid := []
  /-- Who is creating a job. -/
  creating : List (Nat × Uuid) := []
  /-- The jobs whose handle was set to stopped. -/
  stopped : List Uuid := []
  /-- Who has a handle to record or a token to revoke. -/
  pending : List (Nat × Uuid) := []
  /-- Who has revoked a token and not yet its grants. -/
  revoking : List (Nat × Uuid) := []
  /-- Who has marked a job completed and not yet read the id of its container. -/
  reading : List (Nat × Uuid) := []
  /-- The tasks one of whose connections, stops or removals failed. -/
  failed : List Nat := []
  /-- The tasks that created a container which could not be started. -/
  unstarted : List Nat := []

/-! ## Operations -/

inductive Op
  | createToken (jobId : Uuid)
  | storeGrants (jobId : Uuid) (grants : List CredentialGrant)
  | insertHandle (jobId : Uuid) (mode : JobMode) (projectDir : Option Path) (task : String)
  | cachedDocker
  | connectDocker
  | cacheDocker
  | canonicalize (p : Path)
  | createDirAll (p : Path)
  | createContainer (jobId : Uuid) (spec : ContainerSpec)
  | startContainer (id : String)
  | setRunning (jobId : Uuid) (id : String)
  | dropHandle (jobId : Uuid)
  | completeHandle (jobId : Uuid) (result : CompletionResult)
  | containerIdOf (jobId : Uuid)
  | stopContainer (id : String)
  | removeContainer (id : String)
  | setStopped (jobId : Uuid)
  | revokeToken (jobId : Uuid)
  | revokeGrants (jobId : Uuid)
  | cleanupHandle (jobId : Uuid)

abbrev Ans : Op → Type
  | .createToken _ => String
  | .cachedDocker => Bool
  | .connectDocker => Except String Unit
  | .canonicalize _ => Except String Path
  | .createDirAll _ => Except String Unit
  | .createContainer _ _ => Except String String
  | .startContainer _ => Except String Unit
  | .containerIdOf _ => Option String
  | .stopContainer _ => Except String Unit
  | .removeContainer _ => Except String Unit
  | _ => Unit

/-- What is drawn, the time, and what Docker and the file system answer. -/
structure Input where
  bytes : List UInt8
  now : Nat
  docker : Except String Unit
  containerId : String
  path : Except String Path

/-- Change the handle of a job, if there is one. -/
def Shared.modifyHandle (s : Shared) (jobId : Uuid) (f : ContainerHandle → ContainerHandle) : Shared :=
  match s.containers.lookup jobId with
  | some h => { s with containers := s.containers.insert jobId (f h) }
  | none => s

/-- The handle of a job, if there is one, becomes stopped. -/
def Shared.stopHandle (s : Shared) (t : Nat) (jobId : Uuid) (f : ContainerHandle → ContainerHandle) : Shared :=
  { s.modifyHandle jobId fun h => { f h with state := .stopped } with
    stopped := if (s.containers.lookup jobId).isSome then jobId :: s.stopped else s.stopped
    pending := (t, jobId) :: s.pending }

/-- A request of task `t` to Docker: a failure is noted. -/
def Shared.noteDocker (s : Shared) (t : Nat) : Except String Unit → Shared
  | .ok () => s
  | .error _ => { s with failed := t :: s.failed }

/-- What an operation answers and leaves behind. -/
def perform (t : Nat) : (o : Op) → Input → Shared → Option (Ans o × Shared)
  | .createToken jobId, i, s =>
    some (hexEncode i.bytes,
      { s with
        tokens := s.tokens.insert jobId (hexEncode i.bytes)
        created := jobId :: s.created
        creating := (t, jobId) :: s.creating
        pending := (t, jobId) :: s.pending })
  | .storeGrants jobId grants, _, s =>
    some ((),
      if grants.isEmpty then s else { s with credentialGrants := s.credentialGrants.insert jobId grants })
  | .insertHandle jobId mode projectDir task, i, s =>
    some ((),
      { s with
        containers := s.containers.insert jobId
          { jobId, containerId := "", state := .creating, mode, createdAt := i.now, projectDir, taskDescription := task }
        pending := s.pending.filter (· ≠ (t, jobId)) })
  | .cachedDocker, _, s => some (s.connected, s)
  | .connectDocker, i, s => some (i.docker, s.noteDocker t i.docker)
  | .cacheDocker, _, s => some ((), { s with connected := true })
  | .canonicalize _, i, s => some (i.path, s)
  | .createDirAll _, i, s => some (i.docker, s)
  | .createContainer jobId spec, i, s =>
    match i.docker with
    | .error e => some (.error e, s)
    | .ok () =>
      -- Docker gives every container an id of its own.
      if i.containerId = "" ∨ s.docker.any (fun c => c.id = i.containerId) then none
      else some (.ok i.containerId, { s with docker := ⟨i.containerId, jobId, spec, false⟩ :: s.docker })
  | .startContainer id, i, s =>
    match i.docker with
    | .error e => some (.error e, { s with unstarted := t :: s.unstarted })
    | .ok () =>
      some (.ok (), { s with docker := s.docker.map fun c => if c.id = id then { c with started := true } else c })
  | .setRunning jobId id, _, s =>
    some ((),
      { s.modifyHandle jobId fun h => { h with containerId := id, state := .running } with
        creating := s.creating.filter (· ≠ (t, jobId)) })
  | .dropHandle jobId, _, s =>
    some ((),
      { s with
        containers := s.containers.erase jobId
        creating := s.creating.filter (· ≠ (t, jobId)) })
  | .completeHandle jobId result, _, s =>
    some ((),
      { s.stopHandle t jobId fun h => { h with completionResult := some result } with
        reading := (t, jobId) :: s.reading })
  | .containerIdOf jobId, _, s =>
    some ((s.containers.lookup jobId).map ContainerHandle.containerId,
      { s with reading := s.reading.filter (· ≠ (t, jobId)) })
  | .stopContainer _, i, s => some (i.docker, s.noteDocker t i.docker)
  | .removeContainer id, i, s =>
    match i.docker with
    | .error e => some (.error e, s.noteDocker t (.error e))
    | .ok () => some (.ok (), { s with docker := s.docker.filter fun c => c.id ≠ id })
  | .setStopped jobId, _, s => some ((), s.stopHandle t jobId id)
  | .revokeToken jobId, _, s =>
    some ((),
      { s with
        tokens := s.tokens.erase jobId
        pending := s.pending.filter (· ≠ (t, jobId))
        revoking := (t, jobId) :: s.revoking })
  | .revokeGrants jobId, _, s =>
    some ((),
      { s with
        credentialGrants := s.credentialGrants.erase jobId
        revoking := s.revoking.filter (· ≠ (t, jobId)) })
  | .cleanupHandle jobId, _, s => some ((), { s with containers := s.containers.erase jobId })

/-- Validate a token for a specific job. -/
def Shared.validate (s : Shared) (jobId : Uuid) (token : String) : Bool :=
  match s.tokens.lookup jobId with
  | some stored => stored = token
  | none => false

/-- Remove a token and its credential grants. -/
def revoke (jobId : Uuid) : Prog Op Ans Unit := do
  perf (Op.revokeToken jobId)
  perf (Op.revokeGrants jobId)

/-! ## Creation -/

/-- Get or create a Docker connection. -/
def docker : Prog Op Ans (Except OrchestratorError Unit) := do
  if ← perf Op.cachedDocker then pure (.ok ())
  else
    match ← perf Op.connectDocker with
    | .error e => pure (.error (.docker e))
    | .ok () =>
      perf Op.cacheDocker
      pure (.ok ())

/-- Validate that a project directory is under the base for projects. -/
def validateBindMountPath (projectsBase dir : Path) (jobId : Uuid) : Prog Op Ans (Except OrchestratorError Path) := do
  match ← perf (Op.canonicalize dir) with
  | .error e =>
    pure (.error (.containerCreationFailed jobId
      ("failed to canonicalize project dir " ++ pathText dir ++ ": " ++ e)))
  | .ok canonical =>
    if !projectsBase.absolute then
      pure (.error (.containerCreationFailed jobId
        "base directory is not absolute; cannot safely validate bind mounts"))
    else
      match ← perf (Op.createDirAll projectsBase) with
      | .error e =>
        pure (.error (.containerCreationFailed jobId
          ("failed to create projects base " ++ pathText projectsBase ++ ": " ++ e)))
      | .ok () =>
        match ← perf (Op.canonicalize projectsBase) with
        | .error e =>
          pure (.error (.containerCreationFailed jobId
            ("failed to canonicalize projects base " ++ pathText projectsBase ++ ": " ++ e)))
        | .ok canonicalBase =>
          if canonical.startsWith canonicalBase then pure (.ok canonical)
          else
            pure (.error (.containerCreationFailed jobId
              ("project directory " ++ pathText canonical ++ " is outside allowed base " ++
                pathText canonicalBase)))

variable (projectsBase : Path)

/-- The directory to be mounted, if there is one. -/
def bindMount (projectDir : Option Path) (jobId : Uuid) :
    Prog Op Ans (Except OrchestratorError (Option Path)) :=
  match projectDir with
  | none => pure (.ok none)
  | some dir => do
      match ← validateBindMountPath projectsBase dir jobId with
      | .error e => pure (.error e)
      | .ok canonical => pure (.ok (some canonical))

/-- Inner implementation of container creation. -/
def createJobInner (jobId : Uuid) (token : String)
    (projectDir : Option Path) (mode : JobMode) : Prog Op Ans (Except OrchestratorError Unit) := do
  match ← docker with
  | .error e => pure (.error e)
  | .ok () =>
    match ← bindMount projectsBase projectDir jobId with
    | .error e => pure (.error e)
    | .ok bind =>
      match ← perf (Op.createContainer jobId (containerSpec config jobId token bind mode)) with
      | .error e => pure (.error (.containerCreationFailed jobId e))
      | .ok containerId =>
        match ← perf (Op.startContainer containerId) with
        | .error e => pure (.error (.containerCreationFailed jobId ("failed to start container: " ++ e)))
        | .ok () =>
          perf (Op.setRunning jobId containerId)
          pure (.ok ())

/-- Create and start a new container for a job. -/
def createJob (jobId : Uuid) (task : String)
    (projectDir : Option Path) (mode : JobMode) (grants : List CredentialGrant) :
    Prog Op Ans (Except OrchestratorError String) := do
  let token ← perf (Op.createToken jobId)
  perf (Op.storeGrants jobId grants)
  perf (Op.insertHandle jobId mode projectDir task)
  match ← createJobInner config projectsBase jobId token projectDir mode with
  | .ok () => pure (.ok token)
  | .error e =>
    revoke jobId
    perf (Op.dropHandle jobId)
    pure (.error e)

/-! ## Release -/

/-- Stop and remove a container; what fails is logged. -/
def stopAndRemove (containerId : String) : Prog Op Ans Unit := do
  let _ ← perf (Op.stopContainer containerId)
  let _ ← perf (Op.removeContainer containerId)
  pure ()

/-- Stop a running container job. -/
def stopJob (jobId : Uuid) : Prog Op Ans (Except OrchestratorError Unit) := do
  match ← perf (Op.containerIdOf jobId) with
  | none => pure (.error (.containerNotFound jobId))
  | some containerId =>
    if containerId = "" then pure (.error (.invalidContainerState jobId "creating (no container ID yet)"))
    else
      match ← docker with
      | .error e => pure (.error e)
      | .ok () =>
        stopAndRemove containerId
        perf (Op.setStopped jobId)
        revoke jobId
        pure (.ok ())

/-- The container of a completed job is stopped as far as it is known and Docker can be reached. -/
def stopCompleted (containerId : Option String) : Prog Op Ans Unit :=
  match containerId with
  | none => pure ()
  | some containerId =>
    if containerId = "" then pure ()
    else do
      match ← docker with
      | .error _ => pure ()
      | .ok () => stopAndRemove containerId

/-- Mark a job as complete with a result. -/
def completeJob (jobId : Uuid) (result : CompletionResult) : Prog Op Ans (Except OrchestratorError Unit) := do
  perf (Op.completeHandle jobId result)
  let containerId ← perf (Op.containerIdOf jobId)
  stopCompleted containerId
  revoke jobId
  pure (.ok ())

/-- Remove a completed job handle from memory. -/
def cleanupJob (jobId : Uuid) : Prog Op Ans Unit := perf (Op.cleanupHandle jobId)

/-! ## The machine -/

inductive Call
  | createJob (jobId : Uuid) (task : String) (projectDir : Option Path) (mode : JobMode)
      (grants : List CredentialGrant)
  | stopJob (jobId : Uuid)
  | completeJob (jobId : Uuid) (result : CompletionResult)
  | cleanupJob (jobId : Uuid)

abbrev Out : Call → Type
  | .createJob .. => Except OrchestratorError String
  | .stopJob _ => Except OrchestratorError Unit
  | .completeJob _ _ => Except OrchestratorError Unit
  | .cleanupJob _ => Unit

def body : (c : Call) → Prog Op Ans (Out c)
  | .createJob jobId task projectDir mode grants => createJob config projectsBase jobId task projectDir mode grants
  | .stopJob jobId => stopJob jobId
  | .completeJob jobId result => completeJob jobId result
  | .cleanupJob jobId => cleanupJob jobId

/-- Any number of calls at once. -/
def machine : Machine where
  Shared := Shared
  Op := Op
  Ans := Ans
  Input := Input
  Call := Call
  Out := Out
  body := body config projectsBase
  perform := perform

end Freeclawdia.Orchestrator
