import Freeclawdia.Correctness.StoreOps
import Freeclawdia.Tools.Builtin.Memory

/-!
# `Correctness.IdentityFiles` — can `memory_write` change an identity file?

The tool refuses identity files by the text of its target, with leading slashes cut off; the workspace then
normalizes the target in its own way. A target such as `"SOUL.md/"` or `" SOUL.md"` passes the first and is
`SOUL.md` for the second. The targets for which the two agree are exactly those that leave the identity
documents alone, whatever is written and whatever is stored.
-/

namespace Freeclawdia.Memory

open Rust Prog Tools

variable {db : Db} {userId path : String} {agentId : Option Uuid} {A : DbInput → Prop}
  {place : String × Option Uuid × String}

/-! ## Writes spare other places -/

/-- The statement touches no document. -/
def DbOp.Bystander (o : DbOp) : Prop := ∀ place db, o.Spares place db

variable {rows : List DocumentRow} {α : Type}

theorem rows_every {ε : Type} {x : ExceptT ε (Prog DbOp DbOp.Ans) α} (hx : Every DbOp.Bystander x.run)
    (h : db.rowsAt place = rows) : Ensures Db.perform A (fun _ db' => db'.rowsAt place = rows) x.run db := by
  refine ensures_every (φ := DbOp.Bystander) ?_ hx h
  intro o i s ho _ hrows
  rw [rowsAt_of_perform (ho place s), hrows]

/-- `get_or_create` leaves other places alone, and the document it answers with is at its own. -/
theorem getOrCreateDocumentByPath_rows (hne : (userId, agentId, path) ≠ place) (h : db.rowsAt place = rows) :
    Ensures Db.perform A (fun r db' => db'.rowsAt place = rows ∧
        ∀ doc, r = .ok doc → ∃ d ∈ db'.documents, d.id = doc.id ∧ d.place = (userId, agentId, path))
      (getOrCreateDocumentByPath userId agentId path).run db := by
  have hget : ∀ db : Db, db.rowsAt place = rows → Ensures Db.perform A
      (fun r db' => db'.rowsAt place = rows ∧
        ∀ doc, r = .ok doc → ∃ d ∈ db'.documents, d.id = doc.id ∧ d.place = (userId, agentId, path))
      (getDocumentByPath userId agentId path).run db := by
    intro db hrows
    apply getDocumentByPath_ensures.mono
    rintro r db' ⟨rfl, hfound, -⟩
    refine ⟨hrows, ?_⟩
    intro doc hdoc
    obtain ⟨d, hfind, rfl⟩ := hfound doc hdoc
    exact ⟨d, (find_place hfind).1, rfl, (find_place hfind).2⟩
  refine Ensures.bind (hget db h) ?_
  rintro r db' ⟨hrows, hfound⟩
  cases r with
  | ok doc => exact ensures_ret ⟨hrows, hfound⟩
  | error e =>
    cases e with
    | documentNotFound docType user =>
      refine Ensures.bindE (Q := fun _ db' => db'.rowsAt place = rows) ?_ ?_ ?_
      · refine ensures_op fun i _ => ?_
        have hrows' := (rowsAt_of_perform (o := .insertDocument userId agentId path) hne i).trans hrows
        cases (Db.perform (.insertDocument userId agentId path) i db').1 with
        | ok rows => exact ensures_ret hrows'
        | error e => exact ensures_ret hrows'
      · intro _ db'' hrows'
        exact hget db'' hrows'
      · intro e db'' hrows'
        exact ⟨hrows', by rintro _ ⟨⟩⟩
    | searchFailed reason => exact ensures_ret ⟨hrows, by rintro _ ⟨⟩⟩
    | chunkingFailed reason => exact ensures_ret ⟨hrows, by rintro _ ⟨⟩⟩

/-- An update of a document elsewhere, and what follows it without touching documents. -/
theorem update_rows {id : Uuid} {content : String} {rest : StoreM α} (hrest : Every DbOp.Bystander rest.run)
    (hid : ∃ d ∈ db.documents, d.id = id ∧ d.place ≠ place) (h : db.rowsAt place = rows) :
    Ensures Db.perform A (fun _ db' => db'.rowsAt place = rows)
      (do updateDocument id content; rest : StoreM α).run db := by
  obtain ⟨d, hd, hidd, hplace⟩ := hid
  have hspares : (DbOp.updateDocument id content).Spares place db := by
    intro e he hide
    rwa [db.eq_of_id he hd (hide.trans hidd.symm)]
  refine Ensures.bindE (Q := fun _ db' => db'.rowsAt place = rows) ?_ (fun _ _ hrows => rows_every hrest hrows)
    fun _ _ hrows => hrows
  refine ensures_op fun i _ => ?_
  have hrows := (rowsAt_of_perform hspares i).trans h
  cases (Db.perform (.updateDocument id content) i db).1 with
  | ok rows => exact ensures_ret hrows
  | error e => exact ensures_ret hrows

theorem reindexDocument_bystander (id : Uuid) : Every DbOp.Bystander (reindexDocument id).run :=
  reindexDocument_every (fun _ _ => True.intro) (fun _ _ => True.intro) (fun _ _ _ _ => True.intro)

variable (w : Workspace)

theorem write_rows (content : String) (hne : (w.userId, w.agentId, normalizePath path) ≠ place)
    (h : db.rowsAt place = rows) :
    Ensures Db.perform A (fun _ db' => db'.rowsAt place = rows) (w.write path content).run db := by
  refine Ensures.bindE (getOrCreateDocumentByPath_rows hne h) ?_ fun _ _ hrows => hrows.1
  rintro doc db' ⟨hrows, hfound⟩
  obtain ⟨d, hd, hid, hplace⟩ := hfound doc rfl
  refine update_rows ?_ ⟨d, hd, hid, by rwa [hplace]⟩ hrows
  apply Every.bindE (reindexDocument_bystander doc.id)
  intro _
  exact getDocumentById_every fun _ _ => True.intro

theorem append_rows (content : String) (hne : (w.userId, w.agentId, normalizePath path) ≠ place)
    (h : db.rowsAt place = rows) :
    Ensures Db.perform A (fun _ db' => db'.rowsAt place = rows) (w.append path content).run db := by
  refine Ensures.bindE (getOrCreateDocumentByPath_rows hne h) ?_ fun _ _ hrows => hrows.1
  rintro doc db' ⟨hrows, hfound⟩
  obtain ⟨d, hd, hid, hplace⟩ := hfound doc rfl
  exact update_rows (reindexDocument_bystander doc.id) ⟨d, hd, hid, by rwa [hplace]⟩ hrows

theorem appendMemory_rows (entry : String) (hne : (w.userId, w.agentId, paths.memory) ≠ place)
    (h : db.rowsAt place = rows) :
    Ensures Db.perform A (fun _ db' => db'.rowsAt place = rows) (w.appendMemory entry).run db := by
  refine Ensures.bindE (getOrCreateDocumentByPath_rows hne h) ?_ fun _ _ hrows => hrows.1
  rintro doc db' ⟨hrows, hfound⟩
  obtain ⟨d, hd, hid, hplace⟩ := hfound doc rfl
  exact update_rows (reindexDocument_bystander doc.id) ⟨d, hd, hid, by rwa [hplace]⟩ hrows

/-! ## The tool -/

variable {J : Db → Prop}

theorem orWriteFailed_ensures {x : StoreM α} (h : Ensures Db.perform A (fun _ => J) x.run db) :
    Ensures Db.perform A (fun _ => J) (orWriteFailed x).run db := by
  apply h.bind
  intro r db' hJ
  cases r with
  | ok a => exact ensures_ret hJ
  | error e => exact ensures_ret hJ

theorem orWriteFailed_then {β : Type} {x : StoreM α} {out : β} (h : Ensures Db.perform A (fun _ => J) x.run db) :
    Ensures Db.perform A (fun _ => J) (do let _ ← orWriteFailed x; pure out : ToolM β).run db :=
  Ensures.bindE (orWriteFailed_ensures h) (fun _ _ hJ => ensures_ret hJ) fun _ _ hJ => hJ

theorem appendOrWrite_rows (append : Bool) (content : String)
    (hne : (w.userId, w.agentId, normalizePath path) ≠ place) (h : db.rowsAt place = rows) :
    Ensures Db.perform A (fun _ db' => db'.rowsAt place = rows) (appendOrWrite w append path content).run db := by
  unfold appendOrWrite
  split
  · exact orWriteFailed_ensures (append_rows w content hne h)
  · exact orWriteFailed_then (write_rows w content hne h)

/-- The tool's own guard refuses the target, or the workspace does not take it for an identity file. -/
def Guarded (target : String) : Prop :=
  normalizePath target ∈ protectedIdentityFiles → namesIdentityFile target = true

instance (target : String) : Decidable (Guarded target) := inferInstanceAs (Decidable (_ → _))

/-- The path of a daily log begins with a `d`. -/
theorem dailyPath_not_protected (today : String) :
    normalizePath (Workspace.dailyPath today) ∉ protectedIdentityFiles := by
  have hfirst : (Workspace.dailyPath today).toList.head? = some 'd' := by simp [Workspace.dailyPath]
  have hlast : (Workspace.dailyPath today).toList.getLast? = some 'd' := by
    rw [Workspace.dailyPath, String.toList_append, List.getLast?_append]
    rfl
  have htrimmed : ∀ p : Char → Bool, p 'd' = false → Trimmed p (Workspace.dailyPath today).toList := by
    intro p hp
    simp [Trimmed, hfirst, hlast, hp]
  have hhead : (normalizePath (Workspace.dailyPath today)).toList.head? = some 'd' := by
    rw [normalizePath, String.toList_ofList, head?_collapseSlashes, trimmedPath,
      trim_eq_self_iff.mpr (htrimmed _ (by decide)), trimMatches_eq_self_iff.mpr (htrimmed _ (by decide)), hfirst]
  intro hmem
  have hnone : ∀ p ∈ protectedIdentityFiles, p.toList.head? ≠ some 'd' := by decide
  exact hnone _ hmem hhead

/-- **A guarded target leaves the identity files alone.** -/
theorem memoryWrite_rows (clock : DailyClock) {params : Json} (hguarded : Guarded (writeTarget params))
    {name : String} (hname : name ∈ protectedIdentityFiles) (h : db.rowsAt (w.userId, w.agentId, name) = rows) :
    Ensures Db.perform A (fun _ db' => db'.rowsAt (w.userId, w.agentId, name) = rows)
      (memoryWrite w clock params).run db := by
  -- A document at a path that is no identity file is at another place.
  have helsewhere : ∀ path, path ∉ protectedIdentityFiles →
      (w.userId, w.agentId, path) ≠ (w.userId, w.agentId, name) := by
    intro path hpath heq
    simp only [Prod.mk.injEq, true_and] at heq
    exact hpath (heq ▸ hname)
  unfold memoryWrite
  refine Ensures.bindE (Q := fun _ db' => db'.rowsAt (w.userId, w.agentId, name) = rows) (ensures_ret h) ?_
    fun _ _ hrows => hrows
  intro content db hrows
  simp only
  split
  · exact orWriteFailed_then (write_rows w "" (helsewhere _ (by decide)) hrows)
  split
  · exact ensures_ret hrows
  split
  · exact ensures_ret hrows
  split
  · split
    · exact orWriteFailed_then (appendMemory_rows w content (helsewhere _ (by decide)) hrows)
    · exact orWriteFailed_then (write_rows w content (helsewhere _ (by decide)) hrows)
  split
  · exact orWriteFailed_then (append_rows w _ (helsewhere _ (dailyPath_not_protected _)) hrows)
  split
  · refine Ensures.bindE (appendOrWrite_rows w _ content (helsewhere _ (by decide)) hrows) ?_ fun _ _ h => h
    exact fun _ _ hrows => ensures_ret hrows
  split
  next => exact ensures_ret hrows
  next hnames =>
    have hpath : normalizePath (writeTarget params) ∉ protectedIdentityFiles := fun hmem => hnames (hguarded hmem)
    refine Ensures.bindE (appendOrWrite_rows w _ content (helsewhere _ hpath) hrows) ?_ fun _ _ h => h
    exact fun _ _ hrows => ensures_ret hrows

/-! ## A target that is not guarded -/

/-- The statement removes no document. -/
def DbOp.Keeps (o : DbOp) : Prop := ∀ userId agentId path, o ≠ .deleteDocument userId agentId path

theorem places_of_keeps {o : DbOp} (h : o.Keeps) (i : DbInput) (hmem : place ∈ db.places) :
    place ∈ (Db.perform o i db).2.places := by
  unfold Db.perform
  split
  · exact hmem
  · cases o with
    | insertDocument userId agentId path =>
      show place ∈ (db.insertDocument userId agentId path i).2.places
      rcases insertDocument_cases userId agentId path i db with hsame | ⟨-, hdocuments, -⟩
      · rwa [hsame]
      · rw [Db.places, hdocuments, List.map_append]
        exact List.mem_append_left _ hmem
    | updateDocument id content =>
      show place ∈ (db.updateDocument id content i).places
      rwa [places_updateDocument]
    | deleteDocument userId agentId path => exact absurd rfl (h userId agentId path)
    | insertChunk documentId chunkIndex content =>
      show place ∈ (db.insertChunk documentId chunkIndex content i).2.places
      rcases insertChunk_cases documentId chunkIndex content i db with hsame | ⟨-, hdocuments, -⟩
      · rwa [hsame]
      · rwa [Db.places, hdocuments]
    | _ => exact hmem

/-- In an empty store, a write that goes through leaves a document at its place. -/
theorem write_creates (path content : String) :
    Ensures Db.perform Smooth (fun _ db' => (w.userId, w.agentId, normalizePath path) ∈ db'.places)
      (w.write path content).run (Db.empty false) := by
  refine Ensures.bindE (Q := fun _ db' => (w.userId, w.agentId, normalizePath path) ∈ db'.places) ?_ ?_
    fun _ _ hmem => hmem
  · refine Ensures.bind getDocumentByPath_smooth ?_
    rintro r db' ⟨rfl, rfl⟩
    refine Ensures.bindE (Q := fun _ db' => (w.userId, w.agentId, normalizePath path) ∈ db'.places) ?_ ?_
      fun _ _ hmem => hmem
    · apply statement_smooth (o := .insertDocument w.userId w.agentId (normalizePath path))
      intro i
      exact ⟨(), _, rfl, List.mem_singleton.mpr rfl⟩
    · intro _ db' hmem
      exact ensures_every (φ := DbOp.Keeps) (fun ho _ hmem => places_of_keeps ho _ hmem)
        (getDocumentByPath_every (by rintro _ _ _ ⟨⟩)) hmem
  · intro doc db' hmem
    refine ensures_every (φ := DbOp.Keeps) (fun ho _ hmem => places_of_keeps ho _ hmem) ?_ hmem
    apply Every.bindE (every_statement (by rintro _ _ _ ⟨⟩))
    intro _
    apply Every.bindE
    · exact reindexDocument_every (by rintro _ _ _ ⟨⟩) (by rintro _ _ _ ⟨⟩) (by rintro _ _ _ _ _ ⟨⟩)
    · intro _
      exact getDocumentById_every (by rintro _ _ _ ⟨⟩)

/-- The parameters of a write of `x` to a target, in place of what is there. -/
def overwriteParams (target : String) : Json :=
  .object [("content", .string "x"), ("target", .string target), ("append", .bool false)]

theorem memoryWrite_creates (clock : DailyClock) {target : String}
    (hnot : ¬ namesIdentityFile target = true) (hpath : normalizePath target ∈ protectedIdentityFiles) :
    Ensures Db.perform Smooth (fun _ db' => (w.userId, w.agentId, normalizePath target) ∈ db'.places)
      (memoryWrite w clock (overwriteParams target)).run (Db.empty false) := by
  -- The special targets are no identity files, and the plain names are refused by the second guard too.
  have hspecial : ∀ name ∈ ["bootstrap", "memory", "daily_log", "heartbeat"], target ≠ name := by
    rintro name hname rfl
    revert hpath
    have hall : ∀ name ∈ ["bootstrap", "memory", "daily_log", "heartbeat"],
        normalizePath name ∉ protectedIdentityFiles := by decide
    exact hall target hname
  have hplain : target ∉ protectedIdentityFiles := by
    intro hmem
    have hall : ∀ name ∈ protectedIdentityFiles, namesIdentityFile name = true := by decide
    exact hnot (hall target hmem)
  have htarget : writeTarget (overwriteParams target) = target := rfl
  have happend : shouldAppend (overwriteParams target) = false := rfl
  have htrim : trim "x" ≠ "" := by decide
  show Ensures _ _ _ (memoryWrite w clock (overwriteParams target)).run _
  unfold memoryWrite
  refine Ensures.bindE (Q := fun r db' => r = .ok "x" ∧ db' = Db.empty false) (ensures_ret ⟨rfl, rfl⟩) ?_ ?_
  · rintro content db' ⟨hcontent, rfl⟩
    obtain rfl := Except.ok.inj hcontent
    simp only [htarget, happend]
    rw [if_neg (hspecial _ (by decide)), if_neg htrim, if_neg hplain, if_neg (hspecial _ (by decide)),
      if_neg (hspecial _ (by decide)), if_neg (hspecial _ (by decide)), if_neg hnot]
    refine Ensures.bindE (Q := fun _ db' => (w.userId, w.agentId, normalizePath target) ∈ db'.places) ?_
      (fun _ _ hmem => ensures_ret hmem) fun _ _ hmem => hmem
    exact orWriteFailed_then (write_creates w target "x")
  · rintro e db' ⟨he, -⟩
    cases he

/-! ## The result -/

/-- Every identity document is read as it was, or is still missing. -/
def IdentityUnchanged (db db' : Db) : Prop :=
  ∀ name ∈ protectedIdentityFiles, ∀ inputs, (∀ n, Smooth (inputs n)) →
    ((w.read name).run.alone Db.perform inputs db').1 = ((w.read name).run.alone Db.perform inputs db).1

theorem read_alone {inputs : Nat → DbInput} (hsmooth : ∀ n, Smooth (inputs n)) (w : Workspace) (path : String) (db : Db) :
    ((w.read path).run.alone Db.perform inputs db).1 = answerAt db w.userId w.agentId (normalizePath path) :=
  (getDocumentByPath_smooth.alone hsmooth).1

theorem normalizePath_protected : ∀ name ∈ protectedIdentityFiles, normalizePath name = name := by decide

/-- **The targets that are safe.** A target leaves the identity documents of every workspace as they are, for all
    parameters with that target, in every state and under all failures, if and only if it is guarded. -/
theorem identity_files_protected_iff (target : String) :
    (∀ (w : Workspace) (clock : DailyClock) (params : Json) (inputs : Nat → DbInput) (db : Db),
        writeTarget params = target →
        IdentityUnchanged w db ((memoryWrite w clock params).run.alone Db.perform inputs db).2) ↔
      Guarded target := by
  constructor
  · intro hall hpath
    by_contra hnot
    let w : Workspace := ⟨"", none⟩
    let inputs : Nat → DbInput := fun _ => ⟨none, 0, 0, 0⟩
    have hsmooth : ∀ n, Smooth (inputs n) := fun _ => rfl
    have hsame := hall w ⟨"", "", ""⟩ (overwriteParams target) inputs (Db.empty false) rfl _ hpath inputs hsmooth
    rw [read_alone hsmooth, read_alone hsmooth, normalizePath_protected _ hpath] at hsame
    -- The document was missing, and now it is there.
    have hthere := (memoryWrite_creates w ⟨"", "", ""⟩ hnot hpath).alone hsmooth
    cases hfind : Db.find _ w.userId w.agentId (normalizePath target) with
    | none => exact absurd hthere (find_eq_none_iff.mp hfind)
    | some d =>
      rw [answerAt, hfind] at hsame
      cases hsame
  · rintro hguarded w clock params inputs db rfl name hname inputs' hsmooth
    rw [read_alone hsmooth, read_alone hsmooth, normalizePath_protected _ hname]
    have hkeeps := memoryWrite_rows (A := fun _ => True) w clock hguarded hname (Eq.refl (db.rowsAt _))
    have hrows : ((memoryWrite w clock params).run.alone Db.perform inputs db).2.rowsAt _ = db.rowsAt _ :=
      hkeeps.alone fun _ => True.intro
    rw [answerAt, answerAt, find_eq_head?, find_eq_head?, hrows]

/-- `memory_write` with target `"SOUL.md/"` writes `SOUL.md`. -/
theorem soul_overwritten :
    let w : Workspace := ⟨"u", none⟩
    let inputs : Nat → DbInput := fun n => ⟨none, 0, 0, BitVec.ofNat 128 n⟩
    let db := ((memoryWrite w ⟨"", "", ""⟩ (overwriteParams "SOUL.md/")).run.alone Db.perform inputs (Db.empty false)).2
    ((w.read paths.soul).run.alone Db.perform inputs (Db.empty false)).1 = .error (.documentNotFound "SOUL.md" "u") ∧
    ((w.read paths.soul).run.alone Db.perform inputs db).1 = .ok ⟨1, "u", none, "SOUL.md", "x", 0⟩ := by
  decide +kernel

end Freeclawdia.Memory
