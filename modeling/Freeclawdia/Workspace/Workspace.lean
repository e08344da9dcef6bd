import Freeclawdia.Workspace.Paths
import Freeclawdia.Workspace.Store

/-!
# `Workspace.Workspace` — documents, their chunks and the file operations of a workspace

`chunk_document` of `src/workspace/chunker.rs`. The source keeps the overlap as an `f32` share of the chunk size and
truncates the product (`overlap_size`). The configuration here holds the words that come out, so it stands for every
share; the default share of 0.15 gives 120 words of 800.
-/

namespace Freeclawdia.Memory

open Rust

/-- Configuration for document chunking, in words. -/
structure ChunkConfig where
  chunkSize : Nat := 800
  /-- What `overlap_size` computes. -/
  overlapSize : Nat := 120
  minChunkSize : Nat := 50

/-- Words between the starts of two chunks. -/
def ChunkConfig.stepSize (config : ChunkConfig) : Nat := config.chunkSize - config.overlapSize

/-- The loop of `chunk_document` from word `start` on, with the chunks made so far. A step of at least one
    word makes `words.length` rounds enough (`chunkLoop_enough`). -/
def chunkLoop (config : ChunkConfig) (words : List String) : Nat → Nat → List String → List String
  | 0, _, chunks => chunks
  | fuel + 1, start, chunks =>
    if words.length ≤ start then chunks
    else
      let last := min (start + config.chunkSize) words.length
      let chunkWords := (words.drop start).take (last - start)
      if chunkWords.length < config.minChunkSize ∧ chunks ≠ [] then
        -- Don't create tiny trailing chunks, merge with previous.
        chunks.dropLast ++ [(chunks.getLast?.getD "") ++ " " ++ join " " chunkWords]
      else
        let chunks := chunks ++ [join " " chunkWords]
        let start := start + config.stepSize
        if words.length ≤ start + config.minChunkSize ∧ last = words.length then chunks
        else chunkLoop config words fuel start chunks

/-- Split a document into overlapping chunks. -/
def chunkDocument (content : String) (config : ChunkConfig := {}) : List String :=
  let words := splitWhitespace content
  if content = "" then []
  else if words = [] then []
  else if words.length ≤ config.chunkSize then [content]
  else chunkLoop config words words.length 0 []

/-- **The loop ends by itself**: more rounds than there are words left change nothing. -/
theorem chunkLoop_enough {config : ChunkConfig} (hstep : 0 < config.stepSize) {words : List String}
    {fuel fuel' start : Nat} (hfuel : words.length ≤ start + fuel) (hfuel' : fuel ≤ fuel') (chunks : List String) :
    chunkLoop config words fuel' start chunks = chunkLoop config words fuel start chunks := by
  induction fuel generalizing fuel' start chunks with
  | zero =>
    cases fuel' with
    | zero => rfl
    | succ fuel' =>
      have hend : words.length ≤ start := by omega
      simp [chunkLoop, hend]
  | succ fuel ih =>
    obtain ⟨fuel', rfl⟩ : ∃ n, fuel' = n + 1 := ⟨fuel' - 1, by omega⟩
    simp only [chunkLoop]
    split
    · rfl
    · split
      · rfl
      · split
        · rfl
        · exact ih (by omega) (by omega) _

/-! ## The file operations of a workspace

`src/workspace/mod.rs`: every path is normalized and handed to the store. A write is a get-or-create, an update
of the whole content and a reindexing of the document, with other tasks free to run in between; embeddings are
left out. The readings of the clock that `append_daily_log` formats are arguments of its call. -/

/-- A workspace is scoped to a user (and optionally an agent). -/
structure Workspace where
  userId : String
  agentId : Option Uuid
deriving DecidableEq

/-- Insert chunks with consecutive indexes. -/
def insertChunks (documentId : Uuid) : Nat → List String → StoreM Unit
  | _, [] => pure ()
  | index, content :: rest => do
      insertChunk documentId index content
      insertChunks documentId (index + 1) rest

/-- Re-index a document. -/
def reindexDocument (documentId : Uuid) : StoreM Unit := do
  let doc ← getDocumentById documentId
  let chunks := chunkDocument doc.content
  deleteChunks documentId
  insertChunks documentId 0 chunks

/-- New content after what is there already. -/
def appended (separator old new : String) : String := if old = "" then new else old ++ separator ++ new

namespace Workspace

variable (w : Workspace)

/-- Read a file by path. -/
def read (path : String) : StoreM MemoryDocument := getDocumentByPath w.userId w.agentId (normalizePath path)

/-- Write (create or update) a file. -/
def write (path content : String) : StoreM MemoryDocument := do
  let doc ← getOrCreateDocumentByPath w.userId w.agentId (normalizePath path)
  updateDocument doc.id content
  reindexDocument doc.id
  getDocumentById doc.id

/-- Append content to a file, after a newline. -/
def append (path content : String) : StoreM Unit := do
  let doc ← getOrCreateDocumentByPath w.userId w.agentId (normalizePath path)
  updateDocument doc.id (appended "\n" doc.content content)
  reindexDocument doc.id

/-- Delete a file. -/
def delete (path : String) : StoreM Unit := deleteDocumentByPath w.userId w.agentId (normalizePath path)

/-- List files and directories in a path. -/
def list (directory : String) : StoreM (List WorkspaceEntry) :=
  listDirectory w.userId w.agentId (normalizeDirectory directory)

/-- List all files recursively (flat list of all paths). -/
def listAll : StoreM (List String) := listAllPaths w.userId w.agentId

/-- Get the main MEMORY.md document. -/
def memory : StoreM MemoryDocument := getOrCreateDocumentByPath w.userId w.agentId paths.memory

/-- Append an entry to the main MEMORY.md document, after an empty line. -/
def appendMemory (entry : String) : StoreM Unit := do
  let doc ← memory w
  updateDocument doc.id (appended "\n\n" doc.content entry)
  reindexDocument doc.id

/-- The path of a day's log. -/
def dailyPath (today : String) : String := "daily/" ++ today ++ ".md"

/-- Append an entry to today's daily log; `today` and `timestamp` are the formatted readings of the clock. -/
def appendDailyLog (today timestamp entry : String) : StoreM Unit :=
  append w (dailyPath today) ("[" ++ timestamp ++ "] " ++ entry)

end Workspace

/-! ## Calls -/

/-- The operations that change documents. -/
inductive Request
  | write (path content : String)
  | append (path content : String)
  | appendMemory (entry : String)
  | appendDailyLog (today timestamp entry : String)
  | delete (path : String)
deriving DecidableEq

/-- An operation on one workspace. -/
structure Call where
  workspace : Workspace
  request : Request
deriving DecidableEq

/-- What a call runs; the document that `write` returns is dropped. -/
def Call.body (c : Call) : StoreM Unit :=
  match c.request with
  | .write path content => do
      let _ ← c.workspace.write path content
      pure ()
  | .append path content => c.workspace.append path content
  | .appendMemory entry => c.workspace.appendMemory entry
  | .appendDailyLog today timestamp entry => c.workspace.appendDailyLog today timestamp entry
  | .delete path => c.workspace.delete path

/-- The path a call is about, as it is written. -/
def Request.path : Request → String
  | .write path _ => path
  | .append path _ => path
  | .appendMemory _ => paths.memory
  | .appendDailyLog today _ _ => Workspace.dailyPath today
  | .delete path => path

/-- May the call create a document? -/
def Request.creates : Request → Bool
  | .delete _ => false
  | _ => true

end Freeclawdia.Memory
