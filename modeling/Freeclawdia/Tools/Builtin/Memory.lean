import Freeclawdia.Tools.Tool
import Freeclawdia.Workspace.Workspace

/-!
# `Tools.Builtin.Memory` — `memory_write`

`MemoryWriteTool::execute` of `src/tools/builtin/memory.rs`. Identity files are refused by name before the
workspace normalizes the path. The formatted readings of the clock are an argument.
-/

namespace Freeclawdia.Memory

open Rust Tools

/-- Identity files that the LLM must not overwrite via tool calls. -/
def protectedIdentityFiles : List String := [paths.identity, paths.soul, paths.agents, paths.user]

/-- `WorkspaceError` as it is displayed. -/
def WorkspaceError.text : WorkspaceError → String
  | .documentNotFound docType userId => "Document not found: " ++ docType ++ " for user " ++ userId
  | .searchFailed reason => "Search failed: " ++ reason
  | .chunkingFailed reason => "Document chunking failed: " ++ reason

/-- Programs of a tool. -/
abbrev ToolM := ExceptT Tools.ToolError (Prog DbOp DbOp.Ans)

/-- A workspace operation whose error becomes one of the tool. -/
def orWriteFailed {α : Type} (x : StoreM α) : ToolM α :=
  ExceptT.mk (x.run >>= fun
    | .ok a => .ret (.ok a)
    | .error e => .ret (.error (.executionFailed ("Write failed: " ++ e.text))))

/-- The clock while a daily log is written: the day and the time that are logged, and the day of the report. -/
structure DailyClock where
  today : String
  timestamp : String
  reportDay : String

/-- The target of a write. -/
def writeTarget (params : Json) : String := ((params.get "target").bind Json.asStr).getD "daily_log"

def shouldAppend (params : Json) : Bool := ((params.get "append").bind Json.asBool).getD true

/-- Append to a document of the workspace, or replace it. -/
def appendOrWrite (w : Workspace) (append : Bool) (path content : String) : ToolM Unit :=
  if append then orWriteFailed (w.append path content)
  else do
    let _ ← orWriteFailed (w.write path content)
    pure ()

/-- Is the target, without leading slashes, an identity file up to the case of letters? -/
def namesIdentityFile (target : String) : Bool :=
  protectedIdentityFiles.any fun p => eqIgnoreAsciiCase (trimStartMatches target '/') p

/-- `MemoryWriteTool::execute`. -/
def memoryWrite (w : Workspace) (clock : DailyClock) (params : Json) : ToolM Json := do
  let content ← ExceptT.mk (.ret (requireStr params "content"))
  let target := writeTarget params
  -- Bootstrap target: clear BOOTSTRAP.md to mark first-run ritual complete.
  if target = "bootstrap" then
    let _ ← orWriteFailed (w.write paths.bootstrap "")
    pure (.object [("status", .string "cleared"), ("path", .string paths.bootstrap),
      ("message", .string "BOOTSTRAP.md cleared. First-run ritual will not repeat.")])
  else if trim content = "" then throw (.invalidParameters "content cannot be empty")
  else if target ∈ protectedIdentityFiles then
    throw (.notAuthorized ("writing to '" ++ target ++
      "' is not allowed (identity file protected from tool writes)"))
  else
    let append := shouldAppend params
    let report (path : String) : Json :=
      .object [("status", .string "written"), ("path", .string path), ("append", .bool append),
        ("content_length", .number (.posInt (byteLen content)))]
    if target = "memory" then
      if append then
        orWriteFailed (w.appendMemory content)
        pure (report paths.memory)
      else
        let _ ← orWriteFailed (w.write paths.memory content)
        pure (report paths.memory)
    else if target = "daily_log" then
      orWriteFailed (w.appendDailyLog clock.today clock.timestamp content)
      pure (report (Workspace.dailyPath clock.reportDay))
    else if target = "heartbeat" then
      appendOrWrite w append paths.heartbeat content
      pure (report paths.heartbeat)
    -- Protect identity files from LLM overwrites (prompt injection defense).
    else if namesIdentityFile target then
      throw (.notAuthorized ("writing to '" ++ target ++
        "' is not allowed (identity file protected from tool access)"))
    else
      appendOrWrite w append target content
      pure (report target)

end Freeclawdia.Memory
