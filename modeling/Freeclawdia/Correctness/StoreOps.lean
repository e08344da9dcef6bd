import Freeclawdia.Workspace.Workspace

/-!
# `Correctness.StoreOps` — what the statements and the functions of the store do

One inversion lemma for each statement that can refuse, the effect of a statement on where documents are, and
for each function of the store the statements it can come to.
-/

namespace Freeclawdia.Memory

open Rust Prog

variable {db : Db} {userId path : String} {agentId : Option Uuid} {A : DbInput → Prop}

/-! ## Where documents are -/

/-- Whose document it is, and at which path. -/
def DocumentRow.place (d : DocumentRow) : String × Option Uuid × String := (d.userId, d.agentId, d.path)

def Db.places (db : Db) : List (String × Option Uuid × String) := db.documents.map DocumentRow.place

variable {d : DocumentRow}

theorem isAt_iff : d.isAt userId agentId path = true ↔ d.place = (userId, agentId, path) := by
  simp [DocumentRow.isAt, DocumentRow.place, and_assoc]

theorem mem_owned {w : Workspace} :
    d ∈ db.owned w.userId w.agentId ↔ d ∈ db.documents ∧ d.userId = w.userId ∧ d.agentId = w.agentId := by
  simp [Db.owned]

theorem find_eq_none_iff : db.find userId agentId path = none ↔ (userId, agentId, path) ∉ db.places := by
  rw [Db.find, List.find?_eq_none, Db.places, List.mem_map]
  constructor
  · rintro h ⟨d, hd, hplace⟩
    exact h d hd (isAt_iff.mpr hplace)
  · intro h d hd hat
    exact h ⟨d, hd, isAt_iff.mp hat⟩

theorem find_place (h : db.find userId agentId path = some d) :
    d ∈ db.documents ∧ d.place = (userId, agentId, path) := by
  rw [Db.find] at h
  have hat := List.find?_some h
  exact ⟨List.mem_of_find?_eq_some h, isAt_iff.mp hat⟩

/-- Ids are unique. -/
theorem Db.eq_of_id (db : Db) {e : DocumentRow} (hd : d ∈ db.documents) (he : e ∈ db.documents) (h : d.id = e.id) :
    d = e := by
  have hnodup : (db.documents.map DocumentRow.id).Nodup :=
    List.pairwise_map.mpr (db.documents_apart.imp fun hapart => hapart.1)
  exact List.inj_on_of_nodup_map hnodup hd he h

theorem places_updateDocument (id : Uuid) (content : String) (i : DbInput) :
    (db.updateDocument id content i).places = db.places := by
  simp only [Db.places, Db.updateDocument, List.map_map]
  apply List.map_congr_left
  intro d _
  exact Db.updatedRow_at id content i d

/-- A new row for `userId`, `agentId` and `path`. -/
def newRow (userId : String) (agentId : Option Uuid) (path : String) (i : DbInput) : DocumentRow :=
  ⟨i.id, userId, agentId, path, "", some (wholeSeconds i.sqlNow)⟩

theorem insertDocument_cases (userId : String) (agentId : Option Uuid) (path : String) (i : DbInput) (db : Db) :
    (db.insertDocument userId agentId path i).2 = db ∨ (db.insertDocument userId agentId path i).1 = .ok () ∧
      (db.insertDocument userId agentId path i).2.documents = db.documents ++ [newRow userId agentId path i] ∧
      (db.insertDocument userId agentId path i).2.chunks = db.chunks := by
  simp only [Db.insertDocument]
  split
  · exact .inl rfl
  · split
    · exact .inr ⟨rfl, rfl, rfl⟩
    · exact .inl rfl

theorem insertChunk_cases (documentId : Uuid) (chunkIndex : Nat) (content : String) (i : DbInput) (db : Db) :
    (db.insertChunk documentId chunkIndex content i).2 = db ∨
      (db.insertChunk documentId chunkIndex content i).1 = .ok () ∧
      (db.insertChunk documentId chunkIndex content i).2.documents = db.documents ∧
      (db.insertChunk documentId chunkIndex content i).2.chunks =
        db.chunks ++ [⟨i.id, documentId, chunkIndex, content⟩] := by
  simp only [Db.insertChunk]
  split
  · exact .inl rfl
  · split
    · exact .inr ⟨rfl, rfl, rfl⟩
    · exact .inl rfl

/-- **Only an insertion adds a place**, and it adds the one it is about. -/
theorem places_of_perform (o : DbOp) (i : DbInput) (db : Db) : (Db.perform o i db).2.places.Sublist db.places ∨
      ∃ userId agentId path, o = .insertDocument userId agentId path ∧
        (Db.perform o i db).2.places = db.places ++ [(userId, agentId, path)] := by
  unfold Db.perform
  split
  · exact .inl (List.Sublist.refl _)
  · cases o with
    | updateDocument id content =>
      left
      show (db.updateDocument id content i).places.Sublist db.places
      rw [places_updateDocument]
    | deleteDocument userId agentId path => exact .inl (List.filter_sublist.map _)
    | insertDocument userId agentId path =>
      rcases insertDocument_cases userId agentId path i db with hsame | ⟨-, hdocuments, -⟩
      · left
        show (db.insertDocument userId agentId path i).2.places.Sublist db.places
        rw [hsame]
      · right
        refine ⟨userId, agentId, path, rfl, ?_⟩
        show (db.insertDocument userId agentId path i).2.places = _
        simp [Db.places, hdocuments, DocumentRow.place, newRow]
    | insertChunk documentId chunkIndex content =>
      left
      show (db.insertChunk documentId chunkIndex content i).2.places.Sublist db.places
      rcases insertChunk_cases documentId chunkIndex content i db with hsame | ⟨-, hdocuments, -⟩
      · rw [hsame]
      · rw [Db.places, hdocuments, Db.places]
    | _ => exact .inl (List.Sublist.refl _)

/-! ## Programs -/

variable {o : DbOp} {φ : DbOp → Prop} {fail : SqlError → WorkspaceError}

/-- A statement goes through, or fails and changes nothing. -/
theorem every_statement (h : φ o) : Every φ (statement o fail).run := by
  apply every_op h
  intro ans
  cases ans with
  | ok rows => exact every_ret
  | error e => exact every_ret

theorem getDocumentByPath_every (h : φ (.selectByPath userId agentId path)) :
    Every φ (getDocumentByPath userId agentId path).run := by
  apply Every.bindE (every_statement h)
  intro row
  cases row with
  | none => exact every_ret
  | some d => exact every_ret

variable {id : Uuid}

theorem getDocumentById_every (h : φ (.selectById id)) : Every φ (getDocumentById id).run := by
  apply Every.bindE (every_statement h)
  intro row
  cases row with
  | none => exact every_ret
  | some d => exact every_ret

theorem insertChunks_every (h : ∀ index content, φ (.insertChunk id index content)) (index : Nat) (chunks : List String) :
    Every φ (insertChunks id index chunks).run := by
  induction chunks generalizing index with
  | nil => exact every_ret
  | cons content rest ih => exact Every.bindE (every_statement (h index content)) fun _ => ih (index + 1)

theorem reindexDocument_every (hselect : φ (.selectById id)) (hdelete : φ (.deleteChunks id))
    (hinsert : ∀ index content, φ (.insertChunk id index content)) : Every φ (reindexDocument id).run := by
  apply Every.bindE (getDocumentById_every hselect)
  intro doc
  apply Every.bindE (every_statement hdelete)
  intro _
  exact insertChunks_every hinsert 0 _

/-! ## Running alone -/

/-- `get_document_by_path` changes nothing; it answers with the first row at the place, or finds none there. -/
theorem getDocumentByPath_ensures : Ensures Db.perform A (fun r db' => db' = db ∧
        (∀ doc, r = .ok doc → ∃ d, db.find userId agentId path = some d ∧ doc = rowToMemoryDocument d) ∧
        ∀ docType user, r = .error (.documentNotFound docType user) → db.find userId agentId path = none)
      (getDocumentByPath userId agentId path).run db := by
  refine ensures_op fun i _ => ?_
  unfold Db.perform
  cases i.failure with
  | some e => exact ensures_ret ⟨rfl, by rintro _ ⟨⟩, by rintro _ _ ⟨⟩⟩
  | none =>
    show Ensures _ _ _ (Prog.bind _ _) db
    cases hfind : db.find userId agentId path with
    | none =>
      simp only [Db.apply, hfind]
      exact ensures_ret ⟨rfl, by rintro _ ⟨⟩, fun _ _ _ => True.intro⟩
    | some d =>
      simp only [Db.apply, hfind]
      exact ensures_ret ⟨rfl, by rintro _ ⟨⟩; exact ⟨d, rfl, rfl⟩, by rintro _ _ ⟨⟩⟩

/-- No statement fails from outside. -/
def Smooth (i : DbInput) : Prop := i.failure = none

theorem statement_smooth {Q : Except WorkspaceError o.Rows → Db → Prop}
    (h : ∀ i, ∃ rows db', db.apply i o = (.ok rows, db') ∧ Q (.ok rows) db') :
    Ensures Db.perform Smooth Q (statement o fail).run db := by
  refine ensures_op fun i hsmooth => ?_
  obtain ⟨rows, db', happly, hQ⟩ := h i
  have hperform : Db.perform o i db = (.ok rows, db') := by
    simp only [Db.perform, show i.failure = none from hsmooth, happly]
  rw [hperform]
  exact ensures_ret hQ

/-- What `get_document_by_path` answers when the statement goes through. -/
def answerAt (db : Db) (userId : String) (agentId : Option Uuid) (path : String) :
    Except WorkspaceError MemoryDocument :=
  match db.find userId agentId path with
  | some d => .ok (rowToMemoryDocument d)
  | none => .error (.documentNotFound path userId)

theorem getDocumentByPath_smooth :
    Ensures Db.perform Smooth (fun r db' => r = answerAt db userId agentId path ∧ db' = db)
      (getDocumentByPath userId agentId path).run db := by
  refine Ensures.bindE (Q := fun r db' => r = .ok (db.find userId agentId path) ∧ db' = db) ?_ ?_ ?_
  · apply statement_smooth (o := .selectByPath userId agentId path)
    intro i
    exact ⟨_, db, rfl, rfl, rfl⟩
  · rintro row db' ⟨hrow, rfl⟩
    obtain rfl := Except.ok.inj hrow
    unfold answerAt
    split
    next d hd =>
      simp only [hd]
      exact ensures_ret ⟨rfl, rfl⟩
    next hnone =>
      simp only [hnone]
      exact ensures_ret ⟨rfl, rfl⟩
  · rintro e db' ⟨he, -⟩
    cases he

theorem getDocumentByPath_found (hfind : db.find userId agentId path = some d) :
    Ensures Db.perform Smooth (fun r db' => r = .ok (rowToMemoryDocument d) ∧ db' = db)
      (getDocumentByPath userId agentId path).run db := by
  apply getDocumentByPath_smooth.mono
  rintro r db' ⟨hr, hdb⟩
  rw [answerAt, hfind] at hr
  exact ⟨hr, hdb⟩

/-! ## The documents at one place -/

/-- The rows at a place. -/
def Db.rowsAt (db : Db) (place : String × Option Uuid × String) : List DocumentRow :=
  db.documents.filter fun d => d.place = place

theorem find_eq_head? : db.find userId agentId path = (db.rowsAt (userId, agentId, path)).head? := by
  rw [Db.find, Db.rowsAt, List.head?_filter]
  congr 1
  funext d
  rw [Bool.eq_iff_iff, isAt_iff, decide_eq_true_iff]

/-- The statement does not touch the documents at a place. -/
def DbOp.Spares (place : String × Option Uuid × String) (db : Db) : DbOp → Prop
  | .insertDocument userId agentId path => (userId, agentId, path) ≠ place
  | .updateDocument id _ => ∀ d ∈ db.documents, d.id = id → d.place ≠ place
  | .deleteDocument userId agentId path => (userId, agentId, path) ≠ place
  | _ => True

variable {place : String × Option Uuid × String}

theorem rowsAt_updateDocument {content : String} {i : DbInput} (h : ∀ d ∈ db.documents, d.id = id → d.place ≠ place) :
    (db.updateDocument id content i).rowsAt place = db.rowsAt place := by
  have hplace : ∀ d, (Db.updatedRow id content i d).place = d.place := fun d => Db.updatedRow_at id content i d
  simp only [Db.rowsAt, Db.updateDocument, List.filter_map, Function.comp_def, hplace]
  conv_rhs => rw [← List.map_id (List.filter _ _)]
  apply List.map_congr_left
  intro d hd
  obtain ⟨hmem, hat⟩ := List.mem_filter.mp hd
  have hne : d.id ≠ id := fun hid => h d hmem hid (by simpa using hat)
  simp [Db.updatedRow, hne]

theorem rowsAt_of_perform (h : o.Spares place db) (i : DbInput) :
    (Db.perform o i db).2.rowsAt place = db.rowsAt place := by
  unfold Db.perform
  split
  · rfl
  · cases o with
    | insertDocument userId agentId path =>
      show (db.insertDocument userId agentId path i).2.rowsAt place = _
      rcases insertDocument_cases userId agentId path i db with hsame | ⟨-, hdocuments, -⟩
      · rw [hsame]
      · have hnew : (newRow userId agentId path i).place ≠ place := h
        simp [Db.rowsAt, hdocuments, hnew]
    | updateDocument id content => exact rowsAt_updateDocument h
    | deleteDocument userId agentId path =>
      show (db.deleteDocument userId agentId path).rowsAt place = _
      simp only [Db.rowsAt, Db.deleteDocument, List.filter_filter]
      apply List.filter_congr
      intro d _
      have hnot : d.place = place → d.isAt userId agentId path = false := by
        rintro rfl
        rw [← Bool.not_eq_true, isAt_iff]
        exact fun hat => h hat.symm
      by_cases hat : d.place = place <;> simp [hat, hnot]
    | insertChunk documentId chunkIndex content =>
      show (db.insertChunk documentId chunkIndex content i).2.rowsAt place = _
      rcases insertChunk_cases documentId chunkIndex content i db with hsame | ⟨-, hdocuments, -⟩
      · rw [hsame]
      · rw [Db.rowsAt, hdocuments, Db.rowsAt]
    | _ => rfl

end Freeclawdia.Memory
