import Freeclawdia.Correctness.StoreOps
import Freeclawdia.Lib.Turns

/-!
# `Correctness.MemoryWrites` — are memory writes lost, and does the index follow the content?

A write is a get-or-create, an update of the whole content and a replacement of the chunks, without a
transaction: two writes to one path that overlap lose an entry, or create two documents where the agent id is
`NULL`, or leave the chunks of one content under the other. `writing` shows that nothing else can go wrong: when
calls on one path take turns, whatever happens on other paths, the content is what the calls wrote one after
another, in one document, and the chunks are those of the content.
-/

namespace Freeclawdia.Memory

open Rust Prog

variable {db db' : Db} {P : String × Option Uuid × String} {t : Nat}

/-! ## The system -/

/-- Where a call reads and writes. -/
def Call.place (c : Call) : String × Option Uuid × String :=
  (c.workspace.userId, c.workspace.agentId, normalizePath c.request.path)

/-- Tasks that write and append to documents. -/
abbrev writers : Machine where
  Shared := Db
  Op := DbOp
  Ans := DbOp.Ans
  Input := DbInput
  Call := { c : Call // c.request.creates = true }
  Out _ := Except WorkspaceError Unit
  body c := c.1.body.run
  perform _ o i db := some (Db.perform o i db)

/-- The text a call writes. -/
def Request.entry : Request → String
  | .write _ content => content
  | .append _ content => content
  | .appendMemory entry => entry
  | .appendDailyLog _ timestamp entry => "[" ++ timestamp ++ "] " ++ entry
  | .delete _ => ""

/-- Does the call replace what was there? -/
def Request.replaces : Request → Bool
  | .write _ _ => true
  | _ => false

/-- The content a call leaves when it runs alone. -/
def Request.over (r : Request) (old : String) : String :=
  match r with
  | .write _ _ => r.entry
  | .appendMemory _ => appended "\n\n" old r.entry
  | _ => appended "\n" old r.entry

/-- The content that calls leave one after another. -/
def contentAfter (calls : List writers.Call) : String := calls.foldl (fun old c => c.1.request.over old) ""

/-- The chunks of a document. -/
def Db.chunksOf (db : Db) (id : Uuid) : List ChunkRow := db.chunks.filter fun c => c.documentId = id

/-- The index holds the chunks of the content, numbered from 0. -/
def Indexed (db : Db) (d : DocumentRow) : Prop :=
  (db.chunksOf d.id).map (fun c => (c.content, c.chunkIndex)) = (chunkDocument d.content).zipIdx

/-- The rows at a place and their chunks are as they were. -/
def SameAt (P : String × Option Uuid × String) (db db' : Db) : Prop :=
  db'.rowsAt P = db.rowsAt P ∧ ∀ d ∈ db.rowsAt P, db'.chunksOf d.id = db.chunksOf d.id

/-- Every chunk belongs to a document. -/
def NoOrphans (db : Db) : Prop := ∀ c ∈ db.chunks, ∃ d ∈ db.documents, d.id = c.documentId

/-- If all calls so far have returned `Ok`: no document before the first call, and then one, with the content
    they wrote and its chunks. -/
def Written (P : String × Option Uuid × String) (past : List (Σ c, writers.Out c)) (db : Db) : Prop :=
  (∀ r ∈ past, r.2 = .ok ()) →
    (past = [] ∧ db.rowsAt P = []) ∨
      (past ≠ [] ∧ ∃ d, db.rowsAt P = [d] ∧ d.content = contentAfter (past.map Sigma.fst) ∧ Indexed db d)

theorem SameAt.trans {db'' : Db} (h : SameAt P db db') (h' : SameAt P db' db'') : SameAt P db db'' := by
  refine ⟨h'.1.trans h.1, ?_⟩
  intro d hd
  rw [h'.2 d (by rwa [h.1]), h.2 d hd]

/-- Calls on one place take turns. -/
def writing : Turns writers (String × Option Uuid × String) where
  key c := c.1.place
  Inv := NoOrphans
  Same := SameAt
  After := Written
  same_refl _ _ := ⟨rfl, fun _ _ => rfl⟩
  same_trans := SameAt.trans
  after_stable {P past db db'} h hsame _ hok := by
    rcases h hok with ⟨hpast, hrows⟩ | ⟨hpast, d, hrows, hcontent, hindexed⟩
    · exact .inl ⟨hpast, hsame.1.trans hrows⟩
    · refine .inr ⟨hpast, d, hsame.1.trans hrows, hcontent, ?_⟩
      have hd : d ∈ db.rowsAt P := by
        rw [hrows]
        exact List.mem_singleton.mpr rfl
      rw [Indexed, hsame.2 d hd]
      exact hindexed

/-! ## One statement of a call on `P` -/

/-- The statement is about the place `P`, or a document there, or changes nothing. -/
def DbOp.Touches (P : String × Option Uuid × String) (db : Db) : DbOp → Prop
  | .insertDocument userId agentId path => (userId, agentId, path) = P
  | .updateDocument id _ => ∃ d ∈ db.rowsAt P, d.id = id
  | .deleteDocument _ _ _ => False
  | .deleteChunks id => ∃ d ∈ db.rowsAt P, d.id = id
  | .insertChunk id _ _ => ∃ d ∈ db.rowsAt P, d.id = id
  | _ => True

variable {d : DocumentRow}

theorem mem_rowsAt : d ∈ db.rowsAt P ↔ d ∈ db.documents ∧ d.place = P := by
  simp [Db.rowsAt]

variable {P' : String × Option Uuid × String}

theorem id_ne_of_rowsAt {e : DocumentRow} (hd : d ∈ db.rowsAt P) (he : e ∈ db.rowsAt P') (hne : P' ≠ P) : e.id ≠ d.id := by
  obtain ⟨hmem, hplace⟩ := mem_rowsAt.mp hd
  obtain ⟨hmem', hplace'⟩ := mem_rowsAt.mp he
  intro hid
  have heq := db.eq_of_id hmem' hmem hid
  rw [heq, hplace] at hplace'
  exact hne hplace'.symm

variable {o : DbOp}

theorem spares_of_touches (h : o.Touches P db) (hne : P' ≠ P) : o.Spares P' db := by
  cases o with
  | insertDocument userId agentId path => exact fun heq => hne (heq.symm.trans h)
  | updateDocument id content =>
    obtain ⟨d, hd, rfl⟩ := h
    intro e he hid hplace
    exact id_ne_of_rowsAt hd (mem_rowsAt.mpr ⟨he, hplace⟩) hne hid
  | deleteDocument userId agentId path => exact h.elim
  | _ => exact True.intro

/-- **What a statement does to chunks**: nothing, or what it says to those of one document. -/
theorem chunks_of_perform (db : Db) (i : DbInput) (hdocument : ∀ u a p, o ≠ .deleteDocument u a p) :
    (Db.perform o i db).2.chunks = db.chunks ∨
      (∃ id, o = .deleteChunks id ∧ (Db.perform o i db).2.chunks = db.chunks.filter fun c => c.documentId ≠ id) ∨
      ∃ id index content, o = .insertChunk id index content ∧
        (Db.perform o i db).2.chunks = db.chunks ++ [⟨i.id, id, index, content⟩] := by
  unfold Db.perform
  split
  · exact .inl rfl
  · cases o with
    | insertDocument userId agentId path =>
      left
      show (db.insertDocument userId agentId path i).2.chunks = _
      rcases insertDocument_cases userId agentId path i db with hsame | ⟨-, -, hchunks⟩
      · rw [hsame]
      · exact hchunks
    | deleteChunks id => exact .inr (.inl ⟨id, rfl, rfl⟩)
    | insertChunk id index content =>
      rcases insertChunk_cases id index content i db with hsame | ⟨-, -, hchunks⟩
      · left
        show (db.insertChunk id index content i).2.chunks = _
        rw [hsame]
      · exact .inr (.inr ⟨id, index, content, rfl, hchunks⟩)
    | deleteDocument userId agentId path => exact absurd rfl (hdocument userId agentId path)
    | _ => exact .inl rfl

variable {id : Uuid}

theorem chunksOf_of_perform (h : o.Touches P db) (i : DbInput) (hid : ∀ d ∈ db.rowsAt P, id ≠ d.id) :
    (Db.perform o i db).2.chunksOf id = db.chunksOf id := by
  have hdocument : ∀ u a p, o ≠ .deleteDocument u a p := by
    rintro u a p rfl
    exact h
  rcases chunks_of_perform db i hdocument with hchunks | ⟨id', rfl, hchunks⟩ | ⟨id', n, c, rfl, hchunks⟩
  · rw [Db.chunksOf, hchunks, Db.chunksOf]
  · obtain ⟨d, hd, rfl⟩ := h
    rw [Db.chunksOf, hchunks, Db.chunksOf, List.filter_filter]
    apply List.filter_congr
    intro c _
    by_cases hc : c.documentId = id
    · simp [hc, hid d hd]
    · simp [hc]
  · obtain ⟨d, hd, rfl⟩ := h
    rw [Db.chunksOf, hchunks, Db.chunksOf, List.filter_append]
    simp [(hid d hd).symm]

/-- Documents stay, with their ids. -/
theorem ids_of_perform (h : o.Touches P db) (i : DbInput) (hid : ∃ d ∈ db.documents, d.id = id) :
    ∃ d ∈ (Db.perform o i db).2.documents, d.id = id := by
  obtain ⟨d, hd, rfl⟩ := hid
  unfold Db.perform
  split
  · exact ⟨d, hd, rfl⟩
  · cases o with
    | insertDocument userId agentId path =>
      show ∃ e ∈ (db.insertDocument userId agentId path i).2.documents, e.id = d.id
      rcases insertDocument_cases userId agentId path i db with hsame | ⟨-, hdocuments, -⟩
      · rw [hsame]
        exact ⟨d, hd, rfl⟩
      · rw [hdocuments]
        exact ⟨d, List.mem_append_left _ hd, rfl⟩
    | updateDocument id content => exact ⟨_, List.mem_map_of_mem hd, Db.updatedRow_id id content i d⟩
    | insertChunk id index content =>
      show ∃ e ∈ (db.insertChunk id index content i).2.documents, e.id = d.id
      rcases insertChunk_cases id index content i db with hsame | ⟨-, hdocuments, -⟩
      · rw [hsame]
        exact ⟨d, hd, rfl⟩
      · rw [hdocuments]
        exact ⟨d, hd, rfl⟩
    | deleteDocument userId agentId path => exact h.elim
    | _ => exact ⟨d, hd, rfl⟩

theorem noOrphans_of_perform (h : o.Touches P db) (i : DbInput) (hinv : NoOrphans db) :
    NoOrphans (Db.perform o i db).2 := by
  intro c hc
  apply ids_of_perform h i
  have hdocument : ∀ u a p, o ≠ .deleteDocument u a p := by
    rintro u a p rfl
    exact h
  rcases chunks_of_perform db i hdocument with hchunks | ⟨id, rfl, hchunks⟩ | ⟨id, n, text, rfl, hchunks⟩
  · exact hinv c (by rwa [hchunks] at hc)
  · rw [hchunks] at hc
    exact hinv c (List.mem_of_mem_filter hc)
  · rw [hchunks] at hc
    rcases List.mem_append.mp hc with hc | hc
    · exact hinv c hc
    · obtain ⟨d, hd, rfl⟩ := h
      rw [List.mem_singleton.mp hc]
      exact ⟨d, (mem_rowsAt.mp hd).1, rfl⟩

/-- **A statement about `P` is a move of a call on `P`.** -/
theorem move_of_perform (h : o.Touches P db) (i : DbInput) (hinv : NoOrphans db) :
    writing.Move P db (Db.perform o i db).2 := by
  refine ⟨noOrphans_of_perform h i hinv, ?_⟩
  intro P' hne
  refine ⟨rowsAt_of_perform (spares_of_touches h hne) i, ?_⟩
  intro e he
  exact chunksOf_of_perform h i fun d hd => id_ne_of_rowsAt hd he hne

/-! ## Programs on `P` -/

/-- What a program promises when it ends well. -/
def OnOk {α : Type} (Q : α → Db → Prop) (r : Except WorkspaceError α) (db : Db) : Prop := ∀ a, r = .ok a → Q a db

theorem holds_bind {α β : Type} {Q : α → Db → Prop} {Q' : β → Db → Prop} {x : StoreM α} {f : α → StoreM β}
    (h : writing.Holds P t (OnOk Q) x.run db) (hf : ∀ a db, Q a db → writing.Holds P t (OnOk Q') (f a).run db) :
    writing.Holds P t (OnOk Q') (x >>= f).run db := by
  apply Turns.Holds.bindE h
  · intro a db hQ
    exact hf a db (hQ a rfl)
  · intro e db _ a ha
    cases ha

/-- One statement about `P`. -/
theorem holds_statement {fail : SqlError → WorkspaceError} {Q : o.Rows → Db → Prop}
    (h : ∀ db', SameAt P db db' → NoOrphans db' → o.Touches P db' ∧ ∀ i rows db'', db'.apply i o = (.ok rows, db'') →
      Q rows db'') :
    writing.Holds P t (OnOk Q) (statement o fail).run db := by
  refine Turns.holds_op fun db' hsame hinv i a db'' hperform => ?_
  obtain ⟨htouches, hok⟩ := h db' hsame hinv
  have hpair : Db.perform o i db' = (a, db'') := Option.some.inj hperform
  have hmove := move_of_perform htouches i hinv
  rw [hpair] at hmove
  refine ⟨hmove, ?_⟩
  cases a with
  | error e => exact Turns.holds_ret (by rintro _ ⟨⟩)
  | ok rows =>
    refine Turns.holds_ret ?_
    rintro _ ⟨⟩
    unfold Db.perform at hpair
    split at hpair
    · cases hpair
    · exact hok i rows db'' hpair

/-- A document at `P`, with its id and content; the only one there if `Fine`. -/
def Holding (Fine : Prop) (P : String × Option Uuid × String) (id : Uuid) (content : String) (db : Db) : Prop :=
  ∃ d ∈ db.rowsAt P, d.id = id ∧ d.content = content ∧ (Fine → db.rowsAt P = [d])

variable {Fine : Prop} {id : Uuid} {content : String}

theorem Holding.same (h : Holding Fine P id content db) (hsame : SameAt P db db') : Holding Fine P id content db' := by
  obtain ⟨d, hd, hid, hcontent, hfine⟩ := h
  exact ⟨d, by rwa [hsame.1], hid, hcontent, fun hF => hsame.1.trans (hfine hF)⟩

theorem Holding.touches (h : Holding Fine P id content db) : ∃ d ∈ db.rowsAt P, d.id = id :=
  let ⟨d, hd, hid, _⟩ := h
  ⟨d, hd, hid⟩

variable {agentId : Option Uuid} {path userId : String}

/-- `get_document_by_path` on `P`. -/
theorem getDocumentByPath_holds (hP : (userId, agentId, path) = P) : writing.Holds P t (fun r db' => SameAt P db db' ∧
        (∀ doc, r = .ok doc → ∃ d, (db'.rowsAt P).head? = some d ∧ doc = rowToMemoryDocument d) ∧
        ∀ docType user, r = .error (.documentNotFound docType user) → db'.rowsAt P = [])
      (getDocumentByPath userId agentId path).run db := by
  subst hP
  refine Turns.holds_op fun db' hsame hinv i a db'' hperform => ?_
  have hmove := move_of_perform (P := (userId, agentId, path)) (o := .selectByPath userId agentId path) True.intro i hinv
  have hpair : Db.perform (.selectByPath userId agentId path) i db' = (a, db'') := Option.some.inj hperform
  rw [hpair] at hmove
  refine ⟨hmove, ?_⟩
  unfold Db.perform at hpair
  split at hpair
  · cases hpair
    exact Turns.holds_ret ⟨hsame, by rintro _ ⟨⟩, by rintro _ _ ⟨⟩⟩
  · cases hpair
    rw [find_eq_head?]
    cases hrows : (db'.rowsAt (userId, agentId, path)).head? with
    | none => exact Turns.holds_ret ⟨hsame, by rintro _ ⟨⟩, fun _ _ _ => List.head?_eq_none_iff.mp hrows⟩
    | some d => exact Turns.holds_ret ⟨hsame, by rintro _ ⟨⟩; exact ⟨d, hrows, rfl⟩, by rintro _ _ ⟨⟩⟩

/-- What is at `P` before a call: nothing yet, or one document with the content so far. -/
def Start (P : String × Option Uuid × String) (old : String) (db : Db) : Prop :=
  db.rowsAt P = [] ∧ old = "" ∨ ∃ d, db.rowsAt P = [d] ∧ d.content = old

variable {old : String}

theorem Start.same (h : Start P old db) (hsame : SameAt P db db') : Start P old db' := by
  rcases h with ⟨hrows, hold⟩ | ⟨d, hrows, hcontent⟩
  · exact .inl ⟨hsame.1.trans hrows, hold⟩
  · exact .inr ⟨d, hsame.1.trans hrows, hcontent⟩

/-- A document that was found, as the call knows it. -/
def Found (Fine : Prop) (P : String × Option Uuid × String) (old : String) (doc : MemoryDocument) (db : Db) : Prop :=
  Holding Fine P doc.id doc.content db ∧ (Fine → doc.content = old)

theorem found_of_head (h : Fine → Start P old db) (hd : (db.rowsAt P).head? = some d) :
    Found Fine P old (rowToMemoryDocument d) db := by
  have hmem : d ∈ db.rowsAt P := List.mem_of_head? hd
  have hone : Fine → db.rowsAt P = [d] ∧ d.content = old := by
    intro hF
    rcases h hF with ⟨hrows, -⟩ | ⟨e, hrows, hcontent⟩
    · rw [hrows] at hd
      cases hd
    · rw [hrows] at hd
      cases hd
      exact ⟨hrows, hcontent⟩
  exact ⟨⟨d, hmem, rfl, rfl, fun hF => (hone hF).1⟩, fun hF => (hone hF).2⟩

/-- The first document at `P`. -/
theorem start_of_insert (hP : (userId, agentId, path) = P) (hempty : db.rowsAt P = []) (hold : old = "") (i : DbInput) :
    Start P old (db.insertDocument userId agentId path i).2 := by
  rcases insertDocument_cases userId agentId path i db with hsame | ⟨-, hdocuments, -⟩
  · rw [hsame]
    exact .inl ⟨hempty, hold⟩
  · refine .inr ⟨newRow userId agentId path i, ?_, hold.symm⟩
    have hnew : (newRow userId agentId path i).place = P := hP
    rw [Db.rowsAt] at hempty
    rw [Db.rowsAt, hdocuments, List.filter_append, hempty]
    simp [hnew]

/-- **Get or create.** Nobody else is at work on `P`, so a document that was missing is still missing when it is
    inserted. -/
theorem getOrCreateDocumentByPath_holds (hP : (userId, agentId, path) = P) (h : Fine → Start P old db) :
    writing.Holds P t (OnOk (Found Fine P old)) (getOrCreateDocumentByPath userId agentId path).run db := by
  apply Turns.Holds.bind (getDocumentByPath_holds hP)
  rintro r db' ⟨hsame, hfound, hmissing⟩
  cases r with
  | ok doc =>
    refine Turns.holds_ret ?_
    rintro _ ⟨⟩
    obtain ⟨d, hd, rfl⟩ := hfound doc rfl
    exact found_of_head (fun hF => (h hF).same hsame) hd
  | error e =>
    cases e with
    | searchFailed reason => exact Turns.holds_ret (by rintro _ ⟨⟩)
    | chunkingFailed reason => exact Turns.holds_ret (by rintro _ ⟨⟩)
    | documentNotFound docType user =>
      have hempty := hmissing docType user rfl
      have hold : Fine → old = "" := by
        intro hF
        rcases (h hF).same hsame with ⟨-, hold⟩ | ⟨d, hrows, -⟩
        · exact hold
        · rw [hempty] at hrows
          cases hrows
      refine holds_bind (Q := fun _ db => Fine → Start P old db) ?_ ?_
      · apply holds_statement (o := .insertDocument userId agentId path)
        intro dbNow hsame' hinv
        refine ⟨hP, ?_⟩
        intro i rows dbNext happly hF
        have hnext : (dbNow.insertDocument userId agentId path i).2 = dbNext := congrArg Prod.snd happly
        rw [← hnext]
        exact start_of_insert hP (hsame'.1.trans hempty) (hold hF) i
      · intro _ dbNow hstart
        apply Turns.Holds.mono (getDocumentByPath_holds hP)
        rintro r dbNext ⟨hsame', hfound', -⟩ doc rfl
        obtain ⟨d, hd, rfl⟩ := hfound' doc rfl
        exact found_of_head (fun hF => (hstart hF).same hsame') hd

/-! ## Updating and reindexing -/

theorem rowsAt_update_self (db : Db) (id : Uuid) (content : String) (i : DbInput) :
    (db.updateDocument id content i).rowsAt P = (db.rowsAt P).map (Db.updatedRow id content i) := by
  have hplace : ∀ d, (Db.updatedRow id content i d).place = d.place := fun d => Db.updatedRow_at id content i d
  simp only [Db.rowsAt, Db.updateDocument, List.filter_map, Function.comp_def, hplace]

theorem updateDocument_holds (h : Holding Fine P id old db) (content : String) :
    writing.Holds P t (OnOk fun _ db => Holding Fine P id content db) (updateDocument id content).run db := by
  apply holds_statement (o := .updateDocument id content)
  intro db' hsame _
  obtain ⟨d, hd, hid, -, hfine⟩ := h.same hsame
  refine ⟨⟨d, hd, hid⟩, ?_⟩
  intro i rows dbNext happly
  have hnext : db'.updateDocument id content i = dbNext := congrArg Prod.snd happly
  rw [← hnext]
  refine ⟨Db.updatedRow id content i d, ?_, ?_, ?_, ?_⟩
  · rw [rowsAt_update_self]
    exact List.mem_map_of_mem hd
  · rw [Db.updatedRow_id, hid]
  · rw [Db.updatedRow, if_pos hid]
  · intro hF
    rw [rowsAt_update_self, hfine hF]
    rfl

/-- As `Holding`, with the chunks of the document. -/
def HoldingChunks (Fine : Prop) (P : String × Option Uuid × String) (id : Uuid) (content : String)
    (chunks : List (String × Nat)) (db : Db) : Prop :=
  Holding Fine P id content db ∧ (db.chunksOf id).map (fun c => (c.content, c.chunkIndex)) = chunks

variable {chunks : List (String × Nat)}

theorem HoldingChunks.same (h : HoldingChunks Fine P id content chunks db) (hsame : SameAt P db db') :
    HoldingChunks Fine P id content chunks db' := by
  obtain ⟨hholding, hchunks⟩ := h
  obtain ⟨d, hd, rfl⟩ := hholding.touches
  exact ⟨hholding.same hsame, by rw [hsame.2 d hd]; exact hchunks⟩

/-- A holding is not touched by statements about chunks. -/
theorem Holding.of_documents (h : Holding Fine P id content db) (hdocuments : db'.documents = db.documents) :
    Holding Fine P id content db' := by
  have hrows : db'.rowsAt P = db.rowsAt P := by rw [Db.rowsAt, hdocuments, Db.rowsAt]
  obtain ⟨d, hd, hid, hcontent, hfine⟩ := h
  exact ⟨d, by rwa [hrows], hid, hcontent, fun hF => hrows.trans (hfine hF)⟩

theorem getDocumentById_holds (h : Holding Fine P id content db) :
    writing.Holds P t (OnOk fun doc db => Holding Fine P id content db ∧ doc.content = content)
      (getDocumentById id).run db := by
  refine holds_bind (Q := fun row db => Holding Fine P id content db ∧ ∀ d, row = some d → d.content = content) ?_ ?_
  · apply holds_statement (o := .selectById id)
    intro db' hsame _
    refine ⟨True.intro, ?_⟩
    intro i row dbNext happly
    have hrow : Except.ok (db'.documents.find? fun d => d.id == id) = Except.ok row := congrArg Prod.fst happly
    have hnext : db' = dbNext := congrArg Prod.snd happly
    have hholding := h.same hsame
    rw [← hnext]
    refine ⟨hholding, ?_⟩
    rintro e rfl
    -- Ids are unique, so the row found is the document held.
    obtain ⟨d, hd, hid, hcontent, -⟩ := hholding
    have hfind := Except.ok.inj hrow
    have he : e.id = id := by simpa using List.find?_some hfind
    have heq := db'.eq_of_id (List.mem_of_find?_eq_some hfind) (mem_rowsAt.mp hd).1 (he.trans hid.symm)
    rw [heq, hcontent]
  · rintro row db' ⟨hholding, hrow⟩
    cases row with
    | none => exact Turns.holds_ret (by rintro _ ⟨⟩)
    | some d =>
      refine Turns.holds_ret ?_
      rintro _ ⟨⟩
      exact ⟨hholding, hrow d rfl⟩

theorem deleteChunks_holds (h : Holding Fine P id content db) :
    writing.Holds P t (OnOk fun _ db => HoldingChunks Fine P id content [] db) (deleteChunks id).run db := by
  apply holds_statement (o := .deleteChunks id)
  intro db' hsame _
  refine ⟨(h.same hsame).touches, ?_⟩
  intro i rows dbNext happly
  have hnext : db'.deleteChunks id = dbNext := congrArg Prod.snd happly
  rw [← hnext]
  refine ⟨(h.same hsame).of_documents rfl, ?_⟩
  have hnone : (db'.deleteChunks id).chunksOf id = [] := by simp [Db.chunksOf, Db.deleteChunks, List.filter_filter]
  rw [hnone]
  rfl

theorem insertChunk_holds (h : HoldingChunks Fine P id content chunks db) (index : Nat) (text : String) :
    writing.Holds P t (OnOk fun _ db => HoldingChunks Fine P id content (chunks ++ [(text, index)]) db)
      (insertChunk id index text).run db := by
  apply holds_statement (o := .insertChunk id index text)
  intro db' hsame _
  obtain ⟨hholding, hchunks⟩ := h.same hsame
  refine ⟨hholding.touches, ?_⟩
  intro i rows dbNext happly
  have hpair : db'.insertChunk id index text i = (.ok rows, dbNext) := happly
  -- A statement that goes through has inserted its row.
  have hinserted : dbNext.documents = db'.documents ∧ dbNext.chunks = db'.chunks ++ [⟨i.id, id, index, text⟩] := by
    simp only [Db.insertChunk] at hpair
    split at hpair
    · cases hpair
    · split at hpair
      · cases hpair
        exact ⟨rfl, rfl⟩
      · cases hpair
  refine ⟨hholding.of_documents hinserted.1, ?_⟩
  rw [Db.chunksOf, hinserted.2, List.filter_append, List.map_append, ← Db.chunksOf, hchunks]
  simp

theorem insertChunks_holds (texts : List String) (index : Nat) (h : HoldingChunks Fine P id content chunks db) :
    writing.Holds P t (OnOk fun _ db => HoldingChunks Fine P id content (chunks ++ texts.zipIdx index) db)
      (insertChunks id index texts).run db := by
  induction texts generalizing index chunks db with
  | nil =>
    refine Turns.holds_ret ?_
    rintro _ ⟨⟩
    simpa using h
  | cons text rest ih =>
    refine holds_bind (insertChunk_holds h index text) ?_
    intro _ db' hnext
    have hrest := ih (index + 1) hnext
    rwa [List.append_assoc, List.singleton_append, ← List.zipIdx_cons] at hrest

/-- **Reindexing** leaves the chunks of the content. -/
theorem reindexDocument_holds (h : Holding Fine P id content db) :
    writing.Holds P t (OnOk fun _ db => HoldingChunks Fine P id content (chunkDocument content).zipIdx db)
      (reindexDocument id).run db := by
  refine holds_bind (getDocumentById_holds h) ?_
  rintro doc db' ⟨hholding, hcontent⟩
  rw [hcontent]
  refine holds_bind (deleteChunks_holds hholding) ?_
  intro _ db'' hcleared
  exact insertChunks_holds (chunkDocument content) 0 hcleared

/-! ## Calls -/

/-- One document at `P`, with the content and its chunks. -/
def Complete (P : String × Option Uuid × String) (content : String) (db : Db) : Prop :=
  ∃ d, db.rowsAt P = [d] ∧ d.content = content ∧ Indexed db d

theorem HoldingChunks.complete (h : HoldingChunks Fine P id content (chunkDocument content).zipIdx db) (hF : Fine) :
    Complete P content db := by
  obtain ⟨⟨d, -, rfl, hcontent, hfine⟩, hchunks⟩ := h
  refine ⟨d, hfine hF, hcontent, ?_⟩
  rw [Indexed, hcontent]
  exact hchunks

theorem Complete.same {content : String} (h : Complete P content db) (hsame : SameAt P db db') :
    Complete P content db' := by
  obtain ⟨d, hrows, hcontent, hindexed⟩ := h
  refine ⟨d, hsame.1.trans hrows, hcontent, ?_⟩
  have hd : d ∈ db.rowsAt P := by
    rw [hrows]
    exact List.mem_singleton.mpr rfl
  rw [Indexed, hsame.2 d hd]
  exact hindexed

/-- The second half of every write. -/
theorem rewrite_holds {new : String} {doc : MemoryDocument} (h : Found Fine P old doc db) {written : String}
    (hnew : Fine → written = new) : writing.Holds P t (OnOk fun _ db => Fine → Complete P new db)
      (do updateDocument doc.id written; reindexDocument doc.id : StoreM Unit).run db := by
  refine holds_bind (updateDocument_holds h.1 written) ?_
  intro _ db' hholding
  apply Turns.Holds.mono (reindexDocument_holds hholding)
  intro r db'' hdone a ha hF
  rw [← hnew hF]
  exact (hdone a ha).complete hF

variable {w : Workspace}

theorem append_holds (hP : (w.userId, w.agentId, normalizePath path) = P) (h : Fine → Start P old db) (content : String) :
    writing.Holds P t (OnOk fun _ db => Fine → Complete P (appended "\n" old content) db)
      (w.append path content).run db := by
  refine holds_bind (getOrCreateDocumentByPath_holds hP h) ?_
  intro doc db' hfound
  exact rewrite_holds hfound fun hF => by rw [hfound.2 hF]

theorem appendMemory_holds (hP : (w.userId, w.agentId, paths.memory) = P) (h : Fine → Start P old db) (entry : String) :
    writing.Holds P t (OnOk fun _ db => Fine → Complete P (appended "\n\n" old entry) db)
      (w.appendMemory entry).run db := by
  refine holds_bind (getOrCreateDocumentByPath_holds hP h) ?_
  intro doc db' hfound
  exact rewrite_holds hfound fun hF => by rw [hfound.2 hF]

theorem write_holds (hP : (w.userId, w.agentId, normalizePath path) = P) (h : Fine → Start P old db) (content : String) :
    writing.Holds P t (OnOk fun _ db => Fine → Complete P content db) (w.write path content).run db := by
  refine holds_bind (getOrCreateDocumentByPath_holds hP h) ?_
  intro doc db' hfound
  refine holds_bind (updateDocument_holds hfound.1 content) ?_
  intro _ db'' hholding
  refine holds_bind (reindexDocument_holds hholding) ?_
  intro _ dbNow hdone
  -- Reading the document back changes nothing.
  refine holds_bind (Q := fun _ db => Fine → Complete P content db) ?_ ?_
  · apply holds_statement (o := .selectById doc.id)
    intro db' hsame _
    refine ⟨True.intro, ?_⟩
    intro i rows dbNext happly hF
    have hnext : db' = dbNext := congrArg Prod.snd happly
    rw [← hnext]
    exact (hdone.complete hF).same hsame
  · intro row dbNext hcomplete
    cases row with
    | none => exact Turns.holds_ret (by rintro _ ⟨⟩)
    | some d =>
      refine Turns.holds_ret ?_
      rintro _ ⟨⟩
      exact hcomplete

/-- **A call** writes over what was there. -/
theorem body_holds (c : writers.Call) (h : Fine → Start c.1.place old db) :
    writing.Holds c.1.place t (OnOk fun _ db => Fine → Complete c.1.place (c.1.request.over old) db) c.1.body.run db := by
  obtain ⟨⟨w, request⟩, hcreates⟩ := c
  cases request with
  | write path content =>
    refine holds_bind (write_holds rfl h content) ?_
    intro _ db' hcomplete
    refine Turns.holds_ret ?_
    rintro _ ⟨⟩
    exact hcomplete
  | append path content => exact append_holds rfl h content
  | appendMemory entry =>
    have hplace : normalizePath paths.memory = paths.memory := by decide
    exact appendMemory_holds (by simp [Call.place, Request.path, hplace]) h entry
  | appendDailyLog today timestamp entry => exact append_holds rfl h _
  | delete path => cases hcreates

theorem start_of_written {past : List (Σ c, writers.Out c)} (h : Written P past db) (hok : ∀ r ∈ past, r.2 = .ok ()) :
    Start P (contentAfter (past.map Sigma.fst)) db := by
  rcases h hok with ⟨rfl, hrows⟩ | ⟨-, d, hrows, hcontent, -⟩
  · exact .inl ⟨hrows, rfl⟩
  · exact .inr ⟨d, hrows, hcontent⟩

theorem written_body {past : List (Σ c, writers.Out c)} (c : writers.Call) (h : Written c.1.place past db) :
    writing.Holds c.1.place t (fun out db => Written c.1.place (past ++ [⟨c, out⟩]) db) (writers.body c) db := by
  apply Turns.Holds.mono (body_holds c fun hok => start_of_written h hok)
  intro out db' hdone hok
  have hout : out = .ok () := hok ⟨c, out⟩ (List.mem_append_right _ (List.mem_singleton.mpr rfl))
  have hpast : ∀ r ∈ past, r.2 = .ok () := fun r hr => hok r (List.mem_append_left _ hr)
  refine .inr ⟨by simp, ?_⟩
  rw [List.map_append, contentAfter, List.foldl_append]
  exact hdone () hout hpast

/-! ## Entries in the content -/

theorem infix_appended_left (separator old new : String) : old.toList <:+: (appended separator old new).toList := by
  unfold appended
  split
  next hold =>
    rw [hold]
    exact List.nil_infix
  next =>
    rw [String.toList_append, String.toList_append, List.append_assoc]
    exact (List.prefix_append _ _).isInfix

theorem infix_appended_right (separator old new : String) : new.toList <:+: (appended separator old new).toList := by
  unfold appended
  split
  · exact List.infix_rfl
  · rw [String.toList_append]
    exact (List.suffix_append _ _).isInfix

theorem infix_over (r : Request) (old : String) : r.entry.toList <:+: (r.over old).toList := by
  cases r with
  | write path content => exact List.infix_rfl
  | appendMemory entry => exact infix_appended_right _ _ _
  | append path content => exact infix_appended_right _ _ _
  | appendDailyLog today timestamp entry => exact infix_appended_right _ _ _
  | delete path => exact infix_appended_right _ _ _

theorem infix_over_old {r : Request} (h : r.replaces = false) (old : String) : old.toList <:+: (r.over old).toList := by
  cases r with
  | write path content => cases h
  | appendMemory entry => exact infix_appended_left _ _ _
  | append path content => exact infix_appended_left _ _ _
  | appendDailyLog today timestamp entry => exact infix_appended_left _ _ _
  | delete path => exact infix_appended_left _ _ _

variable {c : writers.Call}

/-- An entry stays until a write replaces it. -/
theorem infix_contentAfter {before after : List writers.Call}
    (h : ∀ c' ∈ after, c'.1.request.replaces = false) :
    c.1.request.entry.toList <:+: (contentAfter (before ++ c :: after)).toList := by
  induction after using List.reverseRecOn with
  | nil =>
    rw [contentAfter, List.foldl_append]
    exact infix_over c.1.request _
  | append_singleton after c' ih =>
    have hrest := ih fun c'' hc'' => h c'' (List.mem_append_left _ hc'')
    have hlast := h c' (List.mem_append_right _ (List.mem_singleton.mpr rfl))
    rw [← List.cons_append, ← List.append_assoc, contentAfter, List.foldl_append]
    exact hrest.trans (infix_over_old hlast _)

/-! ## The result -/

/-- When calls have been made on `P` and all have returned `Ok`: one document is there, it has every entry that
    no later write replaced, and its chunks are those of its content. -/
def WritesKept (P : String × Option Uuid × String) (ls : List writers.Label) (cfg : writers.Config) : Prop :=
  writing.callsWith P ls ≠ [] →
  (∀ t c p, cfg.tasks t = some ⟨c, p⟩ → c.1.place = P → p = .ret (.ok ())) →
    ∃ d, cfg.shared.rowsAt P = [d] ∧
      (∀ before c after, writing.callsWith P ls = before ++ c :: after →
        (∀ c' ∈ after, c'.1.request.replaces = false) → c.1.request.entry.toList <:+: d.content.toList) ∧
      Indexed cfg.shared d

/-- **Writes that take turns are kept.** In every interleaving in which a call starts only when no other call on
    the same path is under way, no entry is lost, there is one document, and the index follows the content. -/
theorem writes_kept {foreignKeys : Bool} {ls : List writers.Label} {cfg : writers.Config}
    (run : Runs writers.step writing.TakesTurns (writers.initial (Db.empty foreignKeys)) ls cfg)
    (P : String × Option Uuid × String) : WritesKept P ls cfg := by
  intro hcalled hdone
  obtain ⟨-, hprogress⟩ := Turns.run run (by intro c hc; cases hc) (fun P _ => .inl ⟨rfl, rfl⟩)
    (fun c _ hafter => written_body c hafter)
  obtain ⟨past, hpast, ⟨-, hcalls, hafter⟩ | ⟨t, c, o, next, htask, hkey, -⟩⟩ := hprogress P
  · have hok : ∀ r ∈ past, r.2 = .ok () := by
      intro r hr
      obtain ⟨hkey, t, hreturned⟩ := hpast r hr
      have hret := hdone t r.1 _ hreturned hkey
      exact Prog.ret.inj hret
    rcases hafter hok with ⟨rfl, -⟩ | ⟨-, d, hrows, hcontent, hindexed⟩
    · exact absurd hcalls.symm hcalled
    · refine ⟨d, hrows, ?_, hindexed⟩
      intro before c after hsplit hlater
      rw [hcontent, hcalls, hsplit]
      exact infix_contentAfter hlater
  · cases hdone t c _ htask hkey

/-- The task has returned `Ok`. -/
def endedWell (cfg : writers.Config) (t : Nat) : Bool :=
  match cfg.tasks t with
  | some ⟨_, .ret (.ok ())⟩ => true
  | _ => false

variable {p : Prog DbOp DbOp.Ans (writers.Out c)}

theorem rest_of_endedWell {cfg : writers.Config}
    (h : endedWell cfg t = true) (htask : cfg.tasks t = some ⟨c, p⟩) : p = .ret (.ok ()) := by
  rw [endedWell, htask] at h
  split at h
  next heq =>
    cases heq
    rfl
  next => cases h

/-- `append(path, entry)` by one user without an agent. -/
def note (path entry : String) : writers.Call := ⟨⟨⟨"u", none⟩, .append path entry⟩, rfl⟩

/-- A statement of task `t` that goes through, with a new id at hand. -/
def turn (t n : Nat) : writers.Label := .step t ⟨none, 0, 0, BitVec.ofNat 128 n⟩

/-- Two tasks write to different paths, their statements alternating; when the first has returned, a third appends to
    its path. -/
def twoPaths : List writers.Label :=
  [.start 0 (note "a" "x"), .start 1 (note "b" "y"), turn 0 1, turn 1 2, turn 0 3, turn 1 4, turn 0 5, turn 1 6,
    turn 0 7, turn 1 8, turn 0 9, turn 1 10, turn 0 11, turn 1 12, turn 0 13, .start 2 (note "a" "z"), turn 2 14,
    turn 1 15, turn 2 16, turn 2 17, turn 2 18, turn 2 19]

/-- The first `n` tasks have returned `Ok`. -/
def allEnded (n : Nat) (cfg : writers.Config) : Bool := (List.range n).all (endedWell cfg)

theorem rest_of_allEnded {C : writers.Config → writers.Label → Prop} {s : Db} {ls : List writers.Label}
    {cfg : writers.Config}
    (run : Runs writers.step C (writers.initial s) ls cfg) (hstarts : ∀ t c, .start t c ∈ ls → t < n)
    (hended : allEnded n cfg = true) (htask : cfg.tasks t = some ⟨c, p⟩) : p = .ret (.ok ()) := by
  have hlt : t < n := hstarts t c (Machine.started_of_run run t _ htask)
  exact rest_of_endedWell (List.all_eq_true.mp hended t (List.mem_range.mpr hlt)) htask

/-- The labels start only the first `n` tasks. -/
def startsBelow (n : Nat) (ls : List writers.Label) : Bool :=
  ls.all fun
    | .start t _ => t < n
    | .step _ _ => true

theorem starts_of_startsBelow {ls : List writers.Label} (h : startsBelow n ls = true)
    (hmem : .start t c ∈ ls) : t < n := by
  have hlabel := List.all_eq_true.mp h _ hmem
  simpa using hlabel

/-- What was appended first and what was appended after it are both there. -/
theorem two_paths_are_kept : ∃ cfg,
    Runs writers.step writing.TakesTurns (writers.initial (Db.empty false)) twoPaths cfg ∧ allEnded 3 cfg = true ∧
    ∃ d, cfg.shared.rowsAt ("u", none, "a") = [d] ∧ "x".toList <:+: d.content.toList ∧
      "z".toList <:+: d.content.toList ∧ Indexed cfg.shared d := by
  have hcomputed : (twoPaths.foldlM (fun cfg l => if writing.takesTurns 3 cfg l then writers.step cfg l else none)
      (writers.initial (Db.empty false))).map (allEnded 3) = some true := by decide
  obtain ⟨cfg, hls, hended⟩ := Option.map_eq_some_iff.mp hcomputed
  have run := Turns.run_of_checked hls
  obtain ⟨d, hrows, hentries, hindexed⟩ := writes_kept run ("u", none, "a") (by decide)
    (fun t c p htask _ => rest_of_allEnded run (fun _ _ => starts_of_startsBelow (by decide)) hended htask)
  refine ⟨cfg, run, hended, d, hrows, ?_, ?_, hindexed⟩
  · refine hentries [] (note "a" "x") [note "a" "z"] (by decide) fun c' hc' => ?_
    rw [List.mem_singleton.mp hc']
    rfl
  · exact hentries [note "a" "x"] (note "a" "z") [] (by decide) (by intro c' hc'; cases hc')

/-- Two tasks append to one path, and both look for the document before either creates it. -/
def onePath : List writers.Label :=
  [.start 0 (note "a" "x"), .start 1 (note "a" "y"), turn 0 1, turn 1 2, turn 0 3, turn 1 4, turn 0 5, turn 1 6,
    turn 0 7, turn 1 8, turn 0 9, turn 0 10, turn 0 11, turn 1 12, turn 1 13, turn 1 14]

/-- Both calls return `Ok`, and there are two documents, neither with the entry `x`. -/
theorem overlapping_appends_lose_an_entry : ∃ cfg,
    Runs writers.step (fun _ _ => True) (writers.initial (Db.empty false)) onePath cfg ∧ allEnded 2 cfg = true ∧
    (cfg.shared.rowsAt ("u", none, "a")).map DocumentRow.content = ["y", ""] ∧
    ¬ WritesKept ("u", none, "a") onePath cfg := by
  have hcomputed : (onePath.foldlM writers.step (writers.initial (Db.empty false))).map
      (fun cfg => allEnded 2 cfg && decide ((cfg.shared.rowsAt ("u", none, "a")).map DocumentRow.content = ["y", ""]))
        = some true := by decide
  obtain ⟨cfg, hls, hobserved⟩ := Option.map_eq_some_iff.mp hcomputed
  obtain ⟨hended, hcontents⟩ := Bool.and_eq_true_iff.mp hobserved
  have hcontents := of_decide_eq_true hcontents
  have run := Runs.of_foldlM hls
  refine ⟨cfg, run, hended, hcontents, ?_⟩
  intro hkept
  obtain ⟨d, hrows, -⟩ := hkept (by decide)
    (fun t c p htask _ => rest_of_allEnded run (fun _ _ => starts_of_startsBelow (by decide)) hended htask)
  rw [hrows] at hcontents
  exact absurd (congrArg List.length hcontents) (by simp)

end Freeclawdia.Memory
