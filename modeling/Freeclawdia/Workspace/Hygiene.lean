import Freeclawdia.Workspace.Workspace

/-!
# `Workspace.Hygiene` — the cleanup of stale documents

`run_if_due` of `src/workspace/hygiene.rs`, for callers of one process that share the flag `RUNNING` and the
state file. Times are nanoseconds, except for those of documents, which the database keeps in milliseconds.
`Utc::now() - Duration::days(n)` is one operation, which panics when the result is before chrono's first date.

Who holds the flag, and the history of passes, deletions and failed statements, are recorded for the proofs
only; nothing reads them.
-/

namespace Freeclawdia.Memory

open Rust

/-- Paths that must never be deleted by hygiene, regardless of age. -/
def identityPaths : List String :=
  [paths.memory, paths.identity, paths.soul, paths.agents, paths.user, paths.heartbeat, paths.readme, paths.tools,
    paths.bootstrap]

/-- The part of a path after its last slash. -/
def fileName (path : String) : String := String.ofList (path.toList.reverse.takeWhile (· ≠ '/')).reverse

/-- Is this the path of an identity document, up to case? -/
def isIdentityPath (path : String) : Bool :=
  identityPaths.any fun p => toLowercase p == toLowercase (fileName path)

/-- Configuration for workspace hygiene; the numbers are `u32`. -/
structure HygieneConfig where
  enabled : Bool := true
  dailyRetentionDays : Nat := 30
  conversationRetentionDays : Nat := 7
  cadenceHours : Nat := 12

/-- Summary of what a hygiene pass cleaned up. -/
structure HygieneReport where
  dailyLogsDeleted : Nat := 0
  conversationDocsDeleted : Nat := 0
  skipped : Bool := false
deriving DecidableEq

/-- A call of `run_if_due`. -/
structure HygieneCall where
  workspace : Workspace
  config : HygieneConfig

/-! ## Operations -/

/-- What a pass does to the rest of the world. -/
inductive HygieneOp
  | acquire (c : HygieneCall)
  | release
  | loadState
  | now
  | saveState (lastRun : Int)
  | cutoff (days : Nat)
  | db (o : DbOp)

@[reducible] def HygieneOp.Ans : HygieneOp → Type
  | .acquire _ => Bool
  | .release => Unit
  | .loadState => Option Int
  | .now => Int
  | .saveState _ => Unit
  | .cutoff _ => Option Int
  | .db o => o.Ans

/-- What is noted about a pass. -/
inductive HygieneNote
  | started (time : Int)
  | deleted (d : DocumentRow) (time : Int)
  | failed (o : DbOp)

structure HygieneEvent where
  task : Nat
  call : HygieneCall
  note : HygieneNote

/-- What callers share: the documents, the flag, the state file, and the last reading of the clock. -/
structure HygieneWorld where
  db : Db
  running : Option (Nat × HygieneCall)
  lastRun : Option Int
  clock : Int
  history : List HygieneEvent

/-- The environment's part in an operation: the time, whether the state file fails, and the database's part. -/
structure HygieneInput where
  now : Int
  fails : Bool
  db : DbInput

/-- A day, in nanoseconds. -/
def nanosPerDay : Int := 86400 * 1000000000

/-- An hour, in nanoseconds. -/
def nanosPerHour : Int := 3600 * 1000000000

/-- `DateTime::<Utc>::MIN_UTC`: the first of January of the year -262143. -/
def minUtc : Int := -96465292 * nanosPerDay

namespace HygieneWorld

/-- Note something about the pass under way. -/
def noting (s : HygieneWorld) (notes : List HygieneNote) : HygieneWorld :=
  match s.running with
  | some (t, c) => { s with history := s.history ++ notes.map fun n => ⟨t, c, n⟩ }
  | none => s

/-- What is noted about a statement: the rows it removed, or its failure. -/
def dbNotes (s : HygieneWorld) (o : DbOp) (i : DbInput) : List HygieneNote :=
  match i.failure, o with
  | some _, _ => [.failed o]
  | none, .deleteDocument userId agentId path =>
    (s.db.documents.filter fun d => d.isAt userId agentId path).map fun d => .deleted d s.clock
  | none, _ => []

/-- One operation of task `t`. -/
def perform (t : Nat) (o : HygieneOp) (i : HygieneInput) (s : HygieneWorld) : o.Ans × HygieneWorld :=
  match o with
  | .acquire c => if s.running.isSome then (false, s) else (true, { s with running := some (t, c) })
  | .release => ((), { s with running := none })
  | .loadState => (if i.fails then none else s.lastRun, s)
  | .now => (i.now, { s with clock := i.now })
  | .saveState lastRun =>
    ((), (if i.fails then s else { s with lastRun := some lastRun }).noting [.started lastRun])
  | .cutoff days =>
    let cutoff := i.now - days * nanosPerDay
    (if cutoff < minUtc then none else some cutoff, { s with clock := i.now })
  | .db o =>
    let r := Db.perform o i.db s.db
    (r.1, { s.noting (s.dbNotes o i.db) with db := r.2 })

end HygieneWorld

/-! ## A pass -/

abbrev HygieneM := Prog HygieneOp HygieneOp.Ans

/-- The operation as a program. -/
def perform (o : HygieneOp) : HygieneM o.Ans := .op o .ret

/-- A function of the store as part of a pass. -/
def onStore {α : Type} (x : StoreM α) : HygieneM (Except WorkspaceError α) := x.run.lift HygieneOp.db fun _ ans => ans

/-- Chrono's range was left: the task panics. -/
inductive Panic
  | outOfRange
deriving DecidableEq

/-- Delete the stale ones of the entries, and count them. -/
def deleteStale (w : Workspace) (dir : String) (cutoff : Int) : Nat → List WorkspaceEntry → HygieneM Nat
  | deleted, [] => pure deleted
  | deleted, entry :: rest =>
    if entry.isDirectory then deleteStale w dir cutoff deleted rest
    -- Never delete identity documents.
    else if isIdentityPath entry.path then deleteStale w dir cutoff deleted rest
    else
      match entry.updatedAt with
      | none => deleteStale w dir cutoff deleted rest
      | some updatedAt =>
        if updatedAt * 1000000 < cutoff then do
          let path := if startsWith entry.path dir then entry.path else dir ++ entry.path
          match ← onStore (w.delete path) with
          | .error _ => deleteStale w dir cutoff deleted rest
          | .ok () => deleteStale w dir cutoff ((deleted + 1) % 2 ^ 32) rest
        else deleteStale w dir cutoff deleted rest

/-- Delete the documents of a directory older than `retentionDays`. -/
def cleanup (dir : String) (w : Workspace) (retentionDays : Nat) :
    HygieneM (Except Panic (Except WorkspaceError Nat)) := do
  match (← perform (.cutoff retentionDays) : Option Int) with
  | none => pure (.error .outOfRange)
  | some cutoff =>
    match ← onStore (w.list dir) with
    | .error e => pure (.ok (.error e))
    | .ok entries =>
      let deleted ← deleteStale w dir cutoff 0 entries
      pure (.ok (.ok deleted))

def cleanupDailyLogs : Workspace → Nat → HygieneM (Except Panic (Except WorkspaceError Nat)) := cleanup "daily/"

def cleanupConversationDocs : Workspace → Nat → HygieneM (Except Panic (Except WorkspaceError Nat)) :=
  cleanup "conversations/"

/-- A directory that could not be cleaned counts nothing. -/
def counted : Except WorkspaceError Nat → Nat
  | .ok n => n
  | .error _ => 0

variable (c : HygieneCall)

/-- The pass itself, with the flag held. -/
def cleanupPass : HygieneM (Except Panic HygieneReport) := do
  -- Save state before cleanup to claim the cadence window.
  let lastRun ← perform .now
  let () ← perform (.saveState lastRun)
  match ← cleanupDailyLogs c.workspace c.config.dailyRetentionDays with
  | .error p => pure (.error p)
  | .ok daily =>
    match ← cleanupConversationDocs c.workspace c.config.conversationRetentionDays with
    | .error p => pure (.error p)
    | .ok conversations =>
      pure (.ok { dailyLogsDeleted := counted daily, conversationDocsDeleted := counted conversations })

/-- Has the cadence not elapsed yet? -/
def checkCadence : HygieneM Bool := do
  match (← perform .loadState : Option Int) with
  | none => pure false
  | some lastRun =>
    let now ← perform .now
    pure (decide ((now : Int) - lastRun < c.config.cadenceHours * nanosPerHour))

/-- The pass with the flag held: skip it, or clean up. -/
def guardedPass : HygieneM (Except Panic HygieneReport) := do
  if ← checkCadence c then pure (.ok { skipped := true })
  else cleanupPass c

/-- Run a hygiene pass if the cadence has elapsed. The guard releases the flag, also when the pass panics. -/
def runIfDue : HygieneM (Except Panic HygieneReport) := do
  if !c.config.enabled then pure (.ok { skipped := true })
  else if !(← perform (.acquire c) : Bool) then pure (.ok { skipped := true })
  else
    let report ← guardedPass c
    let () ← perform .release
    pure report

/-- Callers of `run_if_due`. -/
abbrev hygiene : Machine where
  Shared := HygieneWorld
  Op := HygieneOp
  Ans := HygieneOp.Ans
  Input := HygieneInput
  Call := HygieneCall
  Out _ := Except Panic HygieneReport
  body := runIfDue
  perform t o i s := some (s.perform t o i)

end Freeclawdia.Memory
