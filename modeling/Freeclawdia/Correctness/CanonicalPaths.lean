import Freeclawdia.Correctness.StoreOps

/-!
# `Correctness.CanonicalPaths` — is a listed path the path of its document?

`normalize_path` trims white space before slashes, so `"/ a"` is stored as `" a"`, and reading the listed path
`" a"` looks for `"a"`. The paths for which this cannot happen are those with clean ends
(`normalizePath_normalizePath_iff`). When every path written has clean ends, calls one after another leave
documents at canonical paths only, one at each (`Kept`), and each of them is read and deleted under the path it
is listed with.
-/

namespace Freeclawdia.Memory

open Rust Prog

variable {db : Db} {userId path : String} {agentId : Option Uuid} {A : DbInput → Prop}

/-! ## What is kept -/

/-- Documents are at canonical paths, one at each. -/
structure Kept (db : Db) : Prop where
  canonical : ∀ place ∈ db.places, normalizePath place.2.2 = place.2.2
  single : db.places.Nodup

theorem kept_empty (foreignKeys : Bool) : Kept (Db.empty foreignKeys) :=
    ⟨fun _ h => absurd h (List.not_mem_nil), List.nodup_nil⟩

variable {db db' : Db}

theorem Kept.sublist (h : Kept db) (hsub : db'.places.Sublist db.places) : Kept db' :=
  ⟨fun place hplace => h.canonical place (hsub.subset hplace), h.single.sublist hsub⟩

/-- A statement other than an insertion. -/
def DbOp.Settled (o : DbOp) : Prop := ∀ userId agentId path, o ≠ .insertDocument userId agentId path

theorem kept_of_settled {o : DbOp} (ho : o.Settled) (i : DbInput) (h : Kept db) : Kept (Db.perform o i db).2 := by
  rcases places_of_perform o i db with hsub | ⟨userId, agentId, path, hinsert, -⟩
  · exact h.sublist hsub
  · exact absurd hinsert (ho userId agentId path)

theorem kept_of_insert (i : DbInput) (h : Kept db) (hpath : normalizePath path = path)
    (hnew : (userId, agentId, path) ∉ db.places) : Kept (Db.perform (.insertDocument userId agentId path) i db).2 := by
  rcases places_of_perform (.insertDocument userId agentId path) i db with hsub | ⟨_, _, _, hinsert, hplaces⟩
  · exact h.sublist hsub
  · cases hinsert
    constructor
    · intro place hplace
      rw [hplaces] at hplace
      rcases List.mem_append.mp hplace with hold | hadded
      · exact h.canonical place hold
      · rw [List.mem_singleton.mp hadded]
        exact hpath
    · rw [hplaces]
      apply h.single.append (List.nodup_singleton _)
      intro place hold hadded
      rw [List.mem_singleton.mp hadded] at hold
      exact hnew hold

/-! ## Calls one after another -/

theorem ensures_settled {α : Type} {x : StoreM α} (hx : Every DbOp.Settled x.run) (h : Kept db) :
    Ensures Db.perform A (fun _ => Kept) x.run db :=
  ensures_every (fun ho _ hkept => kept_of_settled ho _ hkept) hx h

theorem getOrCreateDocumentByPath_ensures (h : Kept db) (hpath : normalizePath path = path) :
    Ensures Db.perform A (fun _ => Kept) (getOrCreateDocumentByPath userId agentId path).run db := by
  refine Ensures.bind getDocumentByPath_ensures ?_
  rintro r db' ⟨rfl, -, hnotFound⟩
  cases r with
  | ok doc => exact ensures_ret h
  | error e =>
    cases e with
    | documentNotFound docType user =>
      -- Nobody else is about, so the place is still free when the row is inserted.
      have hnew := find_eq_none_iff.mp (hnotFound docType user rfl)
      refine Ensures.bindE (Q := fun _ => Kept) ?_ ?_ fun _ _ hkept => hkept
      · refine ensures_op fun i _ => ?_
        have hkept := kept_of_insert i h hpath hnew
        cases (Db.perform (.insertDocument userId agentId path) i db').1 with
        | ok rows => exact ensures_ret hkept
        | error e => exact ensures_ret hkept
      · intro _ db'' hkept
        exact ensures_settled (getDocumentByPath_every (by rintro _ _ _ ⟨⟩)) hkept
    | searchFailed reason => exact ensures_ret h
    | chunkingFailed reason => exact ensures_ret h

/-- The rest of a write: everything after the get-or-create. -/
theorem update_ensures {id : Uuid} {content : String} (h : Kept db) :
    Ensures Db.perform A (fun _ => Kept) (do updateDocument id content; reindexDocument id : StoreM Unit).run db := by
  apply ensures_settled (h := h)
  apply Every.bindE (every_statement (by rintro _ _ _ ⟨⟩))
  intro _
  exact reindexDocument_every (by rintro _ _ _ ⟨⟩) (by rintro _ _ _ ⟨⟩) (by rintro _ _ _ _ _ ⟨⟩)

theorem write_ensures (w : Workspace) (content : String) (h : Kept db) (hpath : CleanEnds path) :
    Ensures Db.perform A (fun _ => Kept) (w.write path content).run db := by
  have hcanonical := (normalizePath_normalizePath_iff path).mpr hpath
  refine Ensures.bindE (getOrCreateDocumentByPath_ensures h hcanonical) ?_ fun _ _ hkept => hkept
  intro doc db' hkept
  apply ensures_settled (h := hkept)
  apply Every.bindE (every_statement (by rintro _ _ _ ⟨⟩))
  intro _
  apply Every.bindE
  · exact reindexDocument_every (by rintro _ _ _ ⟨⟩) (by rintro _ _ _ ⟨⟩) (by rintro _ _ _ _ _ ⟨⟩)
  · intro _
    exact getDocumentById_every (by rintro _ _ _ ⟨⟩)

theorem append_ensures (w : Workspace) (content : String) (h : Kept db) (hpath : CleanEnds path) :
    Ensures Db.perform A (fun _ => Kept) (w.append path content).run db := by
  have hcanonical := (normalizePath_normalizePath_iff path).mpr hpath
  refine Ensures.bindE (getOrCreateDocumentByPath_ensures h hcanonical) ?_ fun _ _ hkept => hkept
  intro doc db' hkept
  exact update_ensures hkept

theorem delete_ensures (w : Workspace) (h : Kept db) : Ensures Db.perform A (fun _ => Kept) (w.delete path).run db := by
  apply ensures_settled (h := h)
  apply Every.bindE (getDocumentByPath_every (by rintro _ _ _ ⟨⟩))
  intro doc
  apply Every.bindE (every_statement (by rintro _ _ _ ⟨⟩))
  intro _
  exact every_statement (by rintro _ _ _ ⟨⟩)

/-- **A call keeps what is kept** when the path it may create a document at has clean ends. -/
theorem body_ensures (c : Call) (h : Kept db) (hpath : c.request.creates = true → CleanEnds c.request.path) :
    Ensures Db.perform A (fun _ => Kept) c.body.run db := by
  obtain ⟨w, request⟩ := c
  cases request with
  | write path content =>
    exact Ensures.bindE (write_ensures w content h (hpath rfl)) (fun _ _ hkept => ensures_ret hkept)
      fun _ _ hkept => hkept
  | append path content => exact append_ensures w content h (hpath rfl)
  | appendMemory entry =>
    refine Ensures.bindE (getOrCreateDocumentByPath_ensures h (by decide)) ?_ fun _ _ hkept => hkept
    intro doc db' hkept
    exact update_ensures hkept
  | appendDailyLog today timestamp entry => exact append_ensures w _ h (hpath rfl)
  | delete path => exact delete_ensures w h

/-- One call after another, each with its own inputs. -/
def callStep (db : Db) (l : Call × (Nat → DbInput)) : Option Db := some (l.1.body.run.alone Db.perform l.2 db).2

/-- The condition on a call: a path it may create a document at has clean ends. -/
def WritesClean (_ : Db) (l : Call × (Nat → DbInput)) : Prop :=
  l.1.request.creates = true → CleanEnds l.1.request.path

theorem kept_of_run {ls : List (Call × (Nat → DbInput))} (run : Runs callStep WritesClean db ls db') (h : Kept db) :
    Kept db' := by
  refine run.invariant (P := fun _ => Kept) h ?_
  rintro _ db db' ⟨c, inputs⟩ hkept hclean hstep
  cases hstep
  exact (body_ensures (A := fun _ => True) c hkept hclean).alone fun _ => True.intro

/-! ## Reading and deleting what is listed -/

theorem listAll_smooth (w : Workspace) : Ensures Db.perform Smooth
      (fun r db' => r = .ok ((db.owned w.userId w.agentId).map DocumentRow.path) ∧ db' = db) w.listAll.run db := by
  apply statement_smooth (o := .selectPaths w.userId w.agentId)
  intro i
  exact ⟨_, db, rfl, rfl, rfl⟩

variable {d : DocumentRow}

/-- In a kept database a document is the only one at its place. -/
theorem Kept.eq_of_place {e : DocumentRow} (h : Kept db) (hd : d ∈ db.documents) (he : e ∈ db.documents)
    (hplace : d.place = e.place) : d = e := List.inj_on_of_nodup_map h.single hd he hplace

variable {w : Workspace}

theorem Kept.place_of_owned (h : Kept db) (hd : d ∈ db.owned w.userId w.agentId) :
    d.place = (w.userId, w.agentId, normalizePath d.path) := by
  obtain ⟨hmem, huser, hagent⟩ := mem_owned.mp hd
  have hpath : normalizePath d.path = d.path := h.canonical d.place (List.mem_map_of_mem hmem)
  rw [hpath, ← huser, ← hagent]
  rfl

theorem Kept.find_eq (h : Kept db) (hd : d ∈ db.owned w.userId w.agentId) :
    db.find w.userId w.agentId (normalizePath d.path) = some d := by
  have hmem := (mem_owned.mp hd).1
  have hplace := h.place_of_owned hd
  cases hfind : db.find w.userId w.agentId (normalizePath d.path) with
  | none =>
    have hfree := find_eq_none_iff.mp hfind
    rw [← hplace] at hfree
    exact absurd (List.mem_map_of_mem hmem) hfree
  | some e =>
    obtain ⟨he, hplace'⟩ := find_place hfind
    rw [h.eq_of_place he hmem (hplace'.trans hplace.symm)]

/-- A document is read under the path it is listed with. -/
theorem read_smooth (h : Kept db) (hd : d ∈ db.owned w.userId w.agentId) :
    Ensures Db.perform Smooth (fun r _ => r = .ok (rowToMemoryDocument d)) (w.read d.path).run db :=
  (getDocumentByPath_found (h.find_eq hd)).mono fun _ _ hread => hread.1

/-- A document is deleted under the path it is listed with, and no other is. -/
theorem delete_smooth (h : Kept db) (hd : d ∈ db.owned w.userId w.agentId) : Ensures Db.perform Smooth
      (fun r db' => r = .ok () ∧ ∀ e, e ∈ db'.documents ↔ e ∈ db.documents ∧ e ≠ d) (w.delete d.path).run db := by
  refine Ensures.bindE (getDocumentByPath_found (h.find_eq hd)) ?_ (by rintro e db' ⟨he, -⟩; cases he)
  rintro doc db' ⟨-, rfl⟩
  refine Ensures.bindE (Q := fun r db'' => r = .ok () ∧ db''.documents = db'.documents) ?_ ?_ ?_
  · apply statement_smooth (o := .deleteChunks doc.id)
    intro i
    exact ⟨(), _, rfl, rfl, rfl⟩
  · rintro _ db'' ⟨-, hdocuments⟩
    apply statement_smooth (o := .deleteDocument w.userId w.agentId (normalizePath d.path))
    intro i
    refine ⟨(), _, rfl, rfl, ?_⟩
    intro e
    rw [Db.deleteDocument, List.mem_filter, hdocuments, Bool.not_eq_true', ← Bool.not_eq_true, isAt_iff,
      ← h.place_of_owned hd]
    constructor
    · rintro ⟨he, hplace⟩
      exact ⟨he, fun heq => hplace (congrArg DocumentRow.place heq)⟩
    · rintro ⟨he, hne⟩
      exact ⟨he, fun hplace => hne (h.eq_of_place he (mem_owned.mp hd).1 hplace)⟩
  · rintro e db'' ⟨he, -⟩
    cases he

/-! ## The result -/

/-- What a listed path is good for: it is the path of one document, which is read and deleted under it. -/
def Reachable (w : Workspace) (db : Db) (p : String) : Prop :=
  ∃ d ∈ db.documents, d.place = (w.userId, w.agentId, p) ∧
    ∀ inputs, (∀ n, Smooth (inputs n)) →
      ((w.read p).run.alone Db.perform inputs db).1 = .ok (rowToMemoryDocument d) ∧
      ((w.delete p).run.alone Db.perform inputs db).1 = .ok () ∧
      ∀ e, e ∈ ((w.delete p).run.alone Db.perform inputs db).2.documents ↔ e ∈ db.documents ∧ e ≠ d

theorem reachable_of_owned (h : Kept db) (hd : d ∈ db.owned w.userId w.agentId) : Reachable w db d.path := by
  obtain ⟨hmem, huser, hagent⟩ := mem_owned.mp hd
  refine ⟨d, hmem, by rw [← huser, ← hagent]; rfl, ?_⟩
  intro inputs hsmooth
  exact ⟨(read_smooth h hd).alone hsmooth, (delete_smooth h hd).alone hsmooth⟩

/-- **Paths are canonical exactly when their ends are clean.** Normalizing a second time changes nothing for
    these paths and no others; and after any calls that write only to such paths, every listed path is read as
    its own document and deletes it, and every document is listed. -/
theorem listed_paths_are_canonical (path : String) :
    (normalizePath (normalizePath path) = normalizePath path ↔ CleanEnds path) ∧
    ∀ foreignKeys ls db, Runs callStep WritesClean (Db.empty foreignKeys) ls db → ∀ (w : Workspace) inputs,
      (∀ n, Smooth (inputs n)) → ∃ listed, (w.listAll.run.alone Db.perform inputs db).1 = .ok listed ∧
        (∀ p ∈ listed, Reachable w db p) ∧
        ∀ d ∈ db.documents, d.userId = w.userId → d.agentId = w.agentId → d.path ∈ listed := by
  refine ⟨normalizePath_normalizePath_iff path, ?_⟩
  intro foreignKeys ls db run w inputs hsmooth
  have hkept := kept_of_run run (kept_empty foreignKeys)
  refine ⟨_, ((listAll_smooth w).alone hsmooth).1, ?_, ?_⟩
  · intro p hp
    obtain ⟨d, hd, rfl⟩ := List.mem_map.mp hp
    exact reachable_of_owned hkept hd
  · intro d hd huser hagent
    exact List.mem_map_of_mem (mem_owned.mpr ⟨hd, huser, hagent⟩)

/-- Inputs without failures that hand out the ids `base`, `base + 1`, … -/
def calm (base : Nat) (n : Nat) : DbInput := ⟨none, 0, 0, BitVec.ofNat 128 (base + n)⟩

/-- What `write(" /notes//a.md ", "x")` stores is listed, read and deleted as `notes/a.md`. -/
theorem written_note_reachable :
    CleanEnds " /notes//a.md " ∧
    let w : Workspace := ⟨"u", none⟩
    Reachable w ((callStep (Db.empty false) (⟨w, .write " /notes//a.md " "x"⟩, calm 1)).getD (Db.empty false))
      "notes/a.md" := by
  have hclean : CleanEnds " /notes//a.md " := by decide
  refine ⟨hclean, ?_⟩
  intro w
  have run : Runs callStep WritesClean (Db.empty false) [(⟨w, .write " /notes//a.md " "x"⟩, calm 1)] _ :=
    .snoc (.refl _) _ (fun _ => hclean) rfl
  obtain ⟨listed, hlisted, hreachable, -⟩ :=
    (listed_paths_are_canonical " /notes//a.md ").2 false _ _ run w (calm 9) fun _ => rfl
  have hmem : ["notes/a.md"] = listed := by
    apply Except.ok.inj
    rw [← hlisted]
    decide
  exact hreachable _ (by rw [← hmem]; exact List.mem_singleton.mpr rfl)

/-- After `write("/ a", "x")` the listing is `" a"`, and there is no document to read or delete at that path. -/
theorem written_path_not_found :
    normalizePath (normalizePath "/ a") ≠ normalizePath "/ a" ∧
    let w : Workspace := ⟨"u", none⟩
    let db := (callStep (Db.empty false) (⟨w, .write "/ a" "x"⟩, calm 1)).getD (Db.empty false)
    (w.listAll.run.alone Db.perform (calm 9) db).1 = .ok [" a"] ∧
    ((w.read " a").run.alone Db.perform (calm 9) db).1 = .error (.documentNotFound "a" "u") ∧
    ((w.delete " a").run.alone Db.perform (calm 9) db).1 = .error (.documentNotFound "a" "u") := by
  decide

end Freeclawdia.Memory
