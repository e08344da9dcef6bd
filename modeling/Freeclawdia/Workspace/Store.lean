import Freeclawdia.Lib.Interleave
import Freeclawdia.Lib.Log
import Freeclawdia.Rust.Str
import Freeclawdia.Rust.Uuid
import Mathlib.Data.List.Sort

/-!
# `Workspace.Store` — the document tables and the statements run on them

The libSQL backend of the workspace (`src/db/libsql/workspace.rs`). A `Db` is the tables `memory_documents` and
`memory_chunks` with the constraints of the schema as fields, so that no statement can break them: ids are
unique, `(user_id, agent_id, path)` is unique where the agent id is not `NULL`, and so is
`(document_id, chunk_index)`. A statement is one operation (`DbOp`), atomic; it may fail, and then it has no
effect. The functions of `WorkspaceStore` are programs of such statements.

Columns that no function here reads (`created_at`, `metadata`, `embedding`) are left out. Times are milliseconds.
-/

namespace Freeclawdia.Memory

open Rust

/-! ## The tables -/

/-- A row of `memory_documents`; `updatedAt` is `none` when the column's text is no timestamp. -/
structure DocumentRow where
  id : Uuid
  userId : String
  agentId : Option Uuid
  path : String
  content : String
  updatedAt : Option Int
deriving DecidableEq

/-- A row of `memory_chunks`. -/
structure ChunkRow where
  id : Uuid
  documentId : Uuid
  chunkIndex : Nat
  content : String

/-- The row is where this user and agent keep the document at `path` (`agent_id IS ?2`). -/
def DocumentRow.isAt (d : DocumentRow) (userId : String) (agentId : Option Uuid) (path : String) : Bool :=
  d.userId == userId && d.agentId == agentId && d.path == path

/-- Two rows that `memory_documents` can hold together; `NULL` agent ids are distinct from each other. -/
def DocumentRow.Apart (d e : DocumentRow) : Prop :=
  d.id ≠ e.id ∧ (d.agentId.isSome → ¬ d.isAt e.userId e.agentId e.path)

/-- Two rows that `memory_chunks` can hold together. -/
def ChunkRow.Apart (c d : ChunkRow) : Prop :=
  c.id ≠ d.id ∧ ¬ (c.documentId = d.documentId ∧ c.chunkIndex = d.chunkIndex)

instance (d e : DocumentRow) : Decidable (d.Apart e) := inferInstanceAs (Decidable (_ ∧ (_ → _)))

instance (c d : ChunkRow) : Decidable (c.Apart d) := inferInstanceAs (Decidable (_ ∧ _))

/-- The tables, in the order of insertion. `foreignKeys` says whether the connection enforces them. -/
structure Db where
  documents : List DocumentRow
  chunks : List ChunkRow
  foreignKeys : Bool
  documents_apart : documents.Pairwise DocumentRow.Apart
  chunks_apart : chunks.Pairwise ChunkRow.Apart

/-- Nothing is stored. -/
def Db.empty (foreignKeys : Bool) : Db := ⟨[], [], foreignKeys, .nil, .nil⟩

/-- The first row at a path. -/
def Db.find (db : Db) (userId : String) (agentId : Option Uuid) (path : String) : Option DocumentRow :=
  db.documents.find? fun d => d.isAt userId agentId path

/-! ## Statements -/

/-- Why a statement failed: no connection, or the statement itself. -/
inductive SqlError
  | connect (reason : String)
  | statement (reason : String)

/-- The text an error is reported with. -/
def SqlError.text (what : String) : SqlError → String
  | .connect reason => reason
  | .statement reason => what ++ " failed: " ++ reason

/-- What `list_directory` selects of a row. -/
structure ListedRow where
  path : String
  updatedAt : Option Int
  contentPreview : Option String

/-- The statements of the backend. -/
inductive DbOp
  | selectByPath (userId : String) (agentId : Option Uuid) (path : String)
  | selectById (id : Uuid)
  | insertDocument (userId : String) (agentId : Option Uuid) (path : String)
  | updateDocument (id : Uuid) (content : String)
  | deleteDocument (userId : String) (agentId : Option Uuid) (path : String)
  | selectLike (userId : String) (agentId : Option Uuid) (pattern : String)
  | selectPaths (userId : String) (agentId : Option Uuid)
  | deleteChunks (documentId : Uuid)
  | insertChunk (documentId : Uuid) (chunkIndex : Nat) (content : String)

/-- The rows a statement answers with. -/
@[reducible] def DbOp.Rows : DbOp → Type
  | .selectByPath _ _ _ => Option DocumentRow
  | .selectById _ => Option DocumentRow
  | .selectLike _ _ _ => List ListedRow
  | .selectPaths _ _ => List String
  | _ => Unit

/-- A statement's answer. -/
def DbOp.Ans (o : DbOp) : Type := Except SqlError o.Rows

/-- What the environment contributes to a statement: a failure, the clock of the process and of the database,
    and a new id. -/
structure DbInput where
  failure : Option SqlError
  now : Int
  sqlNow : Int
  id : Uuid

/-- `datetime('now')` has no fraction of a second. -/
def wholeSeconds (t : Int) : Int := t / 1000 * 1000

/-- `LIKE` without an escape character: `%` stands for any text, `_` for one character, and ASCII letters match
    in either case. -/
def like : List Char → List Char → Bool
  | [], cs => cs.isEmpty
  | p :: ps, cs =>
    if p = '%' then cs.tails.any fun rest => like ps rest
    else
      match cs with
      | [] => false
      | c :: cs => (p == '_' || p.toLower == c.toLower) && like ps cs

/-- Rows that are changed in other columns are still apart. -/
theorem documents_apart_map {documents : List DocumentRow} (h : documents.Pairwise DocumentRow.Apart)
    {f : DocumentRow → DocumentRow} (hid : ∀ d, (f d).id = d.id)
    (hat : ∀ d, ((f d).userId, (f d).agentId, (f d).path) = (d.userId, d.agentId, d.path)) :
    (documents.map f).Pairwise DocumentRow.Apart := by
  refine h.map f ?_
  intro d e hde
  obtain ⟨hud, had, hpd⟩ := by simpa using hat d
  obtain ⟨hue, hae, hpe⟩ := by simpa using hat e
  simpa [DocumentRow.Apart, DocumentRow.isAt, hid, hud, had, hpd, hue, hae, hpe] using hde

namespace Db

variable (db : Db)

/-- `INSERT INTO memory_documents … ON CONFLICT (user_id, agent_id, path) DO NOTHING`. -/
def insertDocument (userId : String) (agentId : Option Uuid) (path : String) (i : DbInput) :
    Except SqlError Unit × Db :=
  let row : DocumentRow := ⟨i.id, userId, agentId, path, "", some (wholeSeconds i.sqlNow)⟩
  if db.documents.any fun d => d.agentId.isSome && d.isAt userId agentId path then (.ok (), db)
  else if h : ∀ d ∈ db.documents, d.Apart row then
    (.ok (), { db with documents := db.documents ++ [row]
                       documents_apart := Log.pairwise_concat db.documents_apart h })
  else (.error (.statement "UNIQUE constraint failed: memory_documents.id"), db)

/-- The row of document `id` with new content. An update that leaves the time as it is triggers one to the
    database's own time. -/
def updatedRow (id : Uuid) (content : String) (i : DbInput) (d : DocumentRow) : DocumentRow :=
  if d.id = id then
    { d with content := content
             updatedAt := some (if d.updatedAt = some i.now then wholeSeconds i.sqlNow else i.now) }
  else d

theorem updatedRow_id (id : Uuid) (content : String) (i : DbInput) (d : DocumentRow) :
    (updatedRow id content i d).id = d.id := by unfold updatedRow; split <;> rfl

theorem updatedRow_at (id : Uuid) (content : String) (i : DbInput) (d : DocumentRow) :
    ((updatedRow id content i d).userId, (updatedRow id content i d).agentId, (updatedRow id content i d).path)
      = (d.userId, d.agentId, d.path) := by unfold updatedRow; split <;> rfl

/-- `UPDATE memory_documents SET content = ?2, updated_at = ?3 WHERE id = ?1`. -/
def updateDocument (id : Uuid) (content : String) (i : DbInput) : Db :=
  { db with documents := db.documents.map (updatedRow id content i)
            documents_apart := documents_apart_map db.documents_apart (updatedRow_id id content i)
              (updatedRow_at id content i) }

/-- `DELETE FROM memory_chunks WHERE document_id = ?1`. -/
def deleteChunks (documentId : Uuid) : Db :=
  { db with chunks := db.chunks.filter fun c => c.documentId ≠ documentId
            chunks_apart := db.chunks_apart.sublist List.filter_sublist }

/-- The chunks that stay when documents leave. -/
def chunksWithout (gone : List DocumentRow) : List ChunkRow :=
  if db.foreignKeys then db.chunks.filter fun c => !gone.any fun d => d.id == c.documentId else db.chunks

theorem chunksWithout_sublist (gone : List DocumentRow) : (db.chunksWithout gone).Sublist db.chunks := by
  unfold chunksWithout
  split
  · exact List.filter_sublist
  · exact List.Sublist.refl _

/-- `DELETE FROM memory_documents WHERE user_id = ?1 AND agent_id IS ?2 AND path = ?3`, with
    `ON DELETE CASCADE` where foreign keys are enforced. -/
def deleteDocument (userId : String) (agentId : Option Uuid) (path : String) : Db :=
  { db with documents := db.documents.filter fun d => !d.isAt userId agentId path
            chunks := db.chunksWithout (db.documents.filter fun d => d.isAt userId agentId path)
            documents_apart := db.documents_apart.sublist List.filter_sublist
            chunks_apart := db.chunks_apart.sublist (db.chunksWithout_sublist _) }

/-- `INSERT INTO memory_chunks`. -/
def insertChunk (documentId : Uuid) (chunkIndex : Nat) (content : String) (i : DbInput) :
    Except SqlError Unit × Db :=
  let row : ChunkRow := ⟨i.id, documentId, chunkIndex, content⟩
  if db.foreignKeys && !db.documents.any fun d => d.id == documentId then
    (.error (.statement "FOREIGN KEY constraint failed"), db)
  else if h : ∀ c ∈ db.chunks, c.Apart row then
    (.ok (), { db with chunks := db.chunks ++ [row], chunks_apart := Log.pairwise_concat db.chunks_apart h })
  else (.error (.statement "UNIQUE constraint failed: memory_chunks"), db)

/-- The rows of one user and agent, in the order of their paths. -/
def owned (userId : String) (agentId : Option Uuid) : List DocumentRow :=
  (db.documents.filter fun d => d.userId == userId && d.agentId == agentId).insertionSort fun d e => d.path ≤ e.path

/-- What a statement answers and leaves behind when it does not fail from outside. -/
def apply (i : DbInput) : (o : DbOp) → o.Ans × Db
  | .selectByPath userId agentId path => (.ok (db.find userId agentId path), db)
  | .selectById id => (.ok (db.documents.find? fun d => d.id == id), db)
  | .insertDocument userId agentId path => db.insertDocument userId agentId path i
  | .updateDocument id content => (.ok (), db.updateDocument id content i)
  | .deleteDocument userId agentId path => (.ok (), db.deleteDocument userId agentId path)
  | .selectLike userId agentId pattern =>
    (.ok (((db.owned userId agentId).filter fun d => pattern == "%" || like pattern.toList d.path.toList).map
      fun d => ⟨d.path, d.updatedAt, some (String.ofList (d.content.toList.take 200))⟩), db)
  | .selectPaths userId agentId => (.ok ((db.owned userId agentId).map DocumentRow.path), db)
  | .deleteChunks documentId => (.ok (), db.deleteChunks documentId)
  | .insertChunk documentId chunkIndex content => db.insertChunk documentId chunkIndex content i

/-- One statement. -/
def perform (o : DbOp) (i : DbInput) (db : Db) : o.Ans × Db :=
  match i.failure with
  | some e => (.error e, db)
  | none => db.apply i o

end Db

/-! ## The functions of the store -/

/-- A memory document. -/
structure MemoryDocument where
  id : Uuid
  userId : String
  agentId : Option Uuid
  path : String
  content : String
  updatedAt : Int
deriving DecidableEq

/-- Workspace/memory errors. -/
inductive WorkspaceError
  | documentNotFound (docType userId : String)
  | searchFailed (reason : String)
  | chunkingFailed (reason : String)
deriving DecidableEq

/-- Programs of statements that may end with an error. -/
abbrev StoreM := ExceptT WorkspaceError (Prog DbOp DbOp.Ans)

/-- One statement, with its failure turned into a workspace error. -/
def statement (o : DbOp) (fail : SqlError → WorkspaceError) : StoreM o.Rows :=
  ExceptT.mk (.op o fun
    | .ok rows => .ret (.ok rows)
    | .error e => .ret (.error (fail e)))

/-- An unreadable time is read as the epoch. -/
def rowToMemoryDocument (d : DocumentRow) : MemoryDocument :=
  ⟨d.id, d.userId, d.agentId, d.path, d.content, d.updatedAt.getD 0⟩

variable (userId : String)

def getDocumentByPath (agentId : Option Uuid) (path : String) : StoreM MemoryDocument := do
  let row ← statement (.selectByPath userId agentId path) fun e => .searchFailed (e.text "Query")
  match (row : Option DocumentRow) with
  | some d => pure (rowToMemoryDocument d)
  | none => throw (.documentNotFound path userId)

def getDocumentById (id : Uuid) : StoreM MemoryDocument := do
  let row ← statement (.selectById id) fun e => .searchFailed (e.text "Query")
  match (row : Option DocumentRow) with
  | some d => pure (rowToMemoryDocument d)
  | none => throw (.documentNotFound "unknown" "unknown")

def getOrCreateDocumentByPath (agentId : Option Uuid) (path : String) : StoreM MemoryDocument :=
  ExceptT.tryCatch (getDocumentByPath userId agentId path) fun
    | .documentNotFound _ _ => do
        let () ← statement (.insertDocument userId agentId path) fun e => .searchFailed (e.text "Insert")
        getDocumentByPath userId agentId path
    | e => throw e

def updateDocument (id : Uuid) (content : String) : StoreM Unit :=
  statement (.updateDocument id content) fun e => .searchFailed (e.text "Update")

def deleteChunks (documentId : Uuid) : StoreM Unit :=
  statement (.deleteChunks documentId) fun e => .chunkingFailed (e.text "Delete")

def insertChunk (documentId : Uuid) (chunkIndex : Nat) (content : String) : StoreM Unit :=
  statement (.insertChunk documentId chunkIndex content) fun e => .chunkingFailed (e.text "Insert")

def deleteDocumentByPath (agentId : Option Uuid) (path : String) : StoreM Unit := do
  let doc ← getDocumentByPath userId agentId path
  deleteChunks doc.id
  statement (.deleteDocument userId agentId path) fun e => .searchFailed (e.text "Delete")

def listAllPaths (agentId : Option Uuid) : StoreM (List String) :=
  statement (.selectPaths userId agentId) fun e => .searchFailed (e.text "List paths")

/-! ## Directory listings -/

/-- An entry in a workspace directory listing. -/
structure WorkspaceEntry where
  path : String
  isDirectory : Bool
  updatedAt : Option Int
  contentPreview : Option String

/-- The part of a path below a directory. -/
def relativePath (dir full : String) : Option String := if dir = "" then some full else stripPrefix full dir

/-- The name of the child a relative path leads to. -/
def childName (relative : String) : String := String.ofList (relative.toList.takeWhile (· ≠ '/'))

/-- What a further row of the same child does to its entry. -/
def WorkspaceEntry.merge (e : WorkspaceEntry) (isDir : Bool) (updatedAt : Option Int) : WorkspaceEntry :=
  let e := if isDir then { e with isDirectory := true, contentPreview := none } else e
  match e.updatedAt, updatedAt with
  | some existing, some new => if existing < new then { e with updatedAt := some new } else e
  | _, _ => e

/-- `entry(name).and_modify(..).or_insert(..)`. -/
def upsertEntry (name : String) (modify : WorkspaceEntry → WorkspaceEntry) (fresh : WorkspaceEntry) :
    List (String × WorkspaceEntry) → List (String × WorkspaceEntry)
  | [] => [(name, fresh)]
  | (n, e) :: rest => if n = name then (n, modify e) :: rest else (n, e) :: upsertEntry name modify fresh rest

/-- Account for one row. -/
def addRow (dir : String) (entries : List (String × WorkspaceEntry)) (row : ListedRow) :
    List (String × WorkspaceEntry) :=
  match relativePath dir row.path with
  | none => entries
  | some relative =>
    if childName relative = "" then entries
    else
      let isDir := decide ('/' ∈ relative.toList)
      upsertEntry (childName relative) (fun e => e.merge isDir row.updatedAt)
        ⟨dir ++ childName relative, isDir, row.updatedAt, if isDir then none else row.contentPreview⟩ entries

/-- The entries of a directory. -/
def entriesOf (dir : String) (rows : List ListedRow) : List WorkspaceEntry :=
  ((rows.foldl (addRow dir) []).map Prod.snd).insertionSort fun a b => a.path ≤ b.path

def listDirectory (agentId : Option Uuid) (directory : String) : StoreM (List WorkspaceEntry) := do
  let dir := if directory ≠ "" ∧ ¬ endsWith directory "/" then directory ++ "/" else directory
  let pattern := if dir = "" then "%" else dir ++ "%"
  let rows ← statement (.selectLike userId agentId pattern) fun e => .searchFailed (e.text "List directory")
  pure (entriesOf dir rows)

end Freeclawdia.Memory
