import Freeclawdia.Correctness.Listings
import Freeclawdia.Workspace.Hygiene

/-!
# `Correctness.HygienePasses` — what hygiene deletes, and how often

While a task holds the flag `RUNNING` nobody else changes anything (`passing`, the outline of all callers), so a
pass is walked as if it ran alone. What goes wrong in the code is outside of that: a cutoff before chrono's first
date panics; a document whose name ends in white space is deleted under another name; two documents at one path
are counted once. Without these, a pass deletes what it may and everything it should, and counts it.
-/

namespace Freeclawdia.Memory

open Rust

variable {t : Nat} {c : HygieneCall} {s s' : HygieneWorld} {docs : List DocumentRow}

/-! ## What may be deleted -/

/-- The directories that are cleaned, with their retention in days. -/
def directories (config : HygieneConfig) : List (String × Nat) :=
  [("daily/", config.dailyRetentionDays), ("conversations/", config.conversationRetentionDays)]

/-- The document belongs to the workspace. -/
def Owns (w : Workspace) (d : DocumentRow) : Prop := d.userId = w.userId ∧ d.agentId = w.agentId

/-- At a time, the document is in the directory, no identity file, and older than the retention. -/
structure Stale (w : Workspace) (dir : String) (days : Nat) (time : Int) (d : DocumentRow) : Prop where
  owner : Owns w d
  direct : Direct dir d.path
  plain : isIdentityPath d.path = false
  old : ∃ u, d.updatedAt = some u ∧ u * 1000000 < time - days * nanosPerDay

/-- What a pass may delete at a time. -/
def MayDelete (c : HygieneCall) (time : Int) (d : DocumentRow) : Prop :=
  ∃ dir days, (dir, days) ∈ directories c.config ∧ Stale c.workspace dir days time d

/-- What is asked of the documents: names in the two directories do not end in white space, and no two documents
    are at one path there. -/
structure Orderly (docs : List DocumentRow) : Prop where
  few : docs.length < 2 ^ 32
  canonical : ∀ d ∈ docs, ∀ dir ∈ ["daily/", "conversations/"], Direct dir d.path → normalizePath d.path = d.path
  single : ∀ d ∈ docs, ∀ dir ∈ ["daily/", "conversations/"], Direct dir d.path → ∀ e ∈ docs, e.place = d.place → e = d

/-- The statement is about a document, or about the listing it should be in. -/
def Concerns (w : Workspace) (d : DocumentRow) : DbOp → Prop
  | .selectLike userId agentId pattern =>
    userId = w.userId ∧ agentId = w.agentId ∧ ∃ dir, pattern = dir ++ "%" ∧ Direct dir d.path
  | .selectByPath userId agentId path => (userId, agentId, path) = d.place
  | .deleteDocument userId agentId path => (userId, agentId, path) = d.place
  | .deleteChunks id => id = d.id
  | _ => False

/-! ## The outline -/

/-- What is noted about a task's pass. -/
def HygieneWorld.notesOf (s : HygieneWorld) (t : Nat) : List HygieneNote :=
  (s.history.filter fun e => e.task = t).map HygieneEvent.note

/-- How many documents of a directory are noted as deleted. -/
def deletedIn (dir : String) (notes : List HygieneNote) : Nat :=
  notes.countP fun
    | .deleted d _ => startsWith d.path dir
    | _ => false

/-- The task's pass has started. -/
def Begun (t : Nat) (s : HygieneWorld) : Prop := ∃ a, .started a ∈ s.notesOf t

/-- All callers, at any time: documents only go, each of those gone was deleted by a pass that might, and passes
    keep their distance. -/
structure Sound (docs : List DocumentRow) (s : HygieneWorld) : Prop where
  sub : s.db.documents.Sublist docs
  gone : ∀ d ∈ docs, d ∉ s.db.documents → ∃ e ∈ s.history, ∃ time, e.note = .deleted d time
  fair : ∀ e ∈ s.history, ∀ d time, e.note = .deleted d time → MayDelete e.call time d
  apart : s.history.Pairwise fun e e' => ∀ a b, e.note = .started a → e'.note = .started b →
    a + e'.call.config.cadenceHours * nanosPerHour ≤ b
  last : ∀ e ∈ s.history, ∀ a, e.note = .started a → ∃ l, s.lastRun = some l ∧ a ≤ l
  begun : ∀ e ∈ s.history, Begun e.task s

/-- What a task sees of the others: nothing at all while it holds the flag. -/
structure Seen (t : Nat) (s s' : HygieneWorld) : Prop where
  frozen : ∀ c, s.running = some (t, c) → s' = s
  flag : ∀ c, s'.running = some (t, c) → s.running = some (t, c)
  notes : s'.notesOf t = s.notesOf t
  shrinks : s'.db.documents ⊆ s.db.documents

theorem Seen.refl (t : Nat) (s : HygieneWorld) : Seen t s s := ⟨fun _ _ => rfl, fun _ h => h, rfl, fun _ h => h⟩

theorem Seen.trans {s'' : HygieneWorld} (h : Seen t s s') (h' : Seen t s' s'') : Seen t s s'' := by
  refine ⟨?_, fun c hc => h.flag c (h'.flag c hc), h'.notes.trans h.notes, fun d hd => h.shrinks (h'.shrinks hd)⟩
  intro c hc
  have hsame := h.frozen c hc
  have hsame' := h'.frozen c (by rw [hsame]; exact hc)
  rw [hsame', hsame]

/-- What a report says about the documents that were there at the beginning. -/
structure Reported (docs : List DocumentRow) (t : Nat) (c : HygieneCall) (report : HygieneReport) (s : HygieneWorld) :
    Prop where
  daily : report.dailyLogsDeleted = deletedIn "daily/" (s.notesOf t)
  conversations : report.conversationDocsDeleted = deletedIn "conversations/" (s.notesOf t)
  complete : report.skipped = false → ∃ start, .started start ∈ s.notesOf t ∧
    ∀ d ∈ docs, MayDelete c start d → (∀ e ∈ docs, Owns c.workspace e → ∀ rest, e.path ≠ d.path ++ "/" ++ rest) →
      d ∉ s.db.documents ∨ ∃ o, .failed o ∈ s.notesOf t ∧ Concerns c.workspace d o

/-- The state file works, the clock does not go back, and no cutoff is before chrono's first date. -/
def Orderly.step (_ : Nat) : HygieneOp → HygieneInput → HygieneWorld → Prop
  | .loadState, i, _ => i.fails = false
  | .saveState _, i, _ => i.fails = false
  | .now, i, s => s.clock ≤ i.now
  | .cutoff days, i, s => s.clock ≤ i.now ∧ minUtc ≤ i.now - days * nanosPerDay
  | _, _, _ => True

def passing (docs : List DocumentRow) : Outline hygiene where
  Inv := Sound docs
  Rely := Seen
  Pre t s := (∀ c, s.running ≠ some (t, c)) ∧ s.notesOf t = []
  Allowed := Orderly.step
  Post t c out s := ∃ report, out = .ok report ∧ Reported docs t c report s
  rely_refl := Seen.refl
  rely_trans := Seen.trans
  pre_stable h hseen := ⟨fun c hc => h.1 c (hseen.flag c hc), hseen.notes.trans h.2⟩
  post_stable {t c out s s'} h hseen _ := by
    obtain ⟨report, hout, hdaily, hconversations, hcomplete⟩ := h
    refine ⟨report, hout, by rw [hseen.notes, hdaily], by rw [hseen.notes, hconversations], ?_⟩
    intro hran
    obtain ⟨start, hstart, hall⟩ := hcomplete hran
    refine ⟨start, by rwa [hseen.notes], ?_⟩
    intro d hd hmay hbelow
    rcases hall d hd hmay hbelow with hgone | ⟨o, ho, hconcerns⟩
    · exact .inl fun hmem => hgone (hseen.shrinks hmem)
    · exact .inr ⟨o, by rwa [hseen.notes], hconcerns⟩

/-! ## An operation of the task that holds the flag -/

theorem noting_held (h : s.running = some (t, c)) (notes : List HygieneNote) :
    s.noting notes = { s with history := s.history ++ notes.map fun n => ⟨t, c, n⟩ } := by
  rw [HygieneWorld.noting, h]

theorem notesOf_append {history : List HygieneEvent} (hhistory : s'.history = s.history ++ history) (t : Nat) :
    s'.notesOf t = s.notesOf t ++ (history.filter fun e => e.task = t).map HygieneEvent.note := by
  rw [HygieneWorld.notesOf, hhistory, List.filter_append, List.map_append, ← HygieneWorld.notesOf]

theorem Begun.append {history : List HygieneEvent} (h : Begun t s) (hhistory : s'.history = s.history ++ history) :
    Begun t s' := by
  obtain ⟨a, ha⟩ := h
  refine ⟨a, ?_⟩
  rw [notesOf_append hhistory]
  exact List.mem_append_left _ ha

variable {notes : List HygieneNote}

theorem notesOf_held (hhistory : s'.history = s.history ++ notes.map fun n => ⟨t, c, n⟩) :
    s'.notesOf t = s.notesOf t ++ notes := by
  rw [notesOf_append hhistory]
  simp [List.filter_map, Function.comp_def]

/-- What an operation adds to the history is about the task that holds the flag. -/
theorem history_of_perform (h : s.running = some (t, c)) (o : HygieneOp) (i : HygieneInput) :
    ∃ notes : List HygieneNote, (s.perform t o i).2.history = s.history ++ notes.map fun n => ⟨t, c, n⟩ := by
  cases o with
  | acquire c' => exact ⟨[], by simp [HygieneWorld.perform, h]⟩
  | saveState lastRun =>
    refine ⟨[.started lastRun], ?_⟩
    cases hfails : i.fails with
    | true => simp [HygieneWorld.perform, hfails, noting_held h]
    | false => simp [HygieneWorld.perform, hfails, HygieneWorld.noting, h]
  | db o => exact ⟨s.dbNotes o i.db, by simp [HygieneWorld.perform, noting_held h]⟩
  | _ => exact ⟨[], by simp [HygieneWorld.perform]⟩

theorem running_of_perform (h : s.running = some (t, c)) (o : HygieneOp) (i : HygieneInput) :
    (s.perform t o i).2.running = some (t, c) ∨ (s.perform t o i).2.running = none := by
  cases o with
  | acquire c' => exact .inl (by simp [HygieneWorld.perform, h])
  | release => exact .inr rfl
  | saveState lastRun =>
    left
    cases hfails : i.fails with
    | true => simp [HygieneWorld.perform, hfails, noting_held h, h]
    | false => simp [HygieneWorld.perform, hfails, HygieneWorld.noting, h]
  | db o => exact .inl (by simp [HygieneWorld.perform, noting_held h, h])
  | _ => exact .inl h

variable {α : Type}

/-- **One operation with the flag held**: the state is as it was left, and nobody else is disturbed. -/
theorem holds_held {Q : α → HygieneWorld → Prop} {o : HygieneOp} {next : o.Ans → HygieneM α}
    (hheld : s.running = some (t, c))
    (h : ∀ i, Orderly.step t o i s → Sound docs s → Sound docs (s.perform t o i).2 ∧
      (s.perform t o i).2.db.documents ⊆ s.db.documents ∧
        (passing docs).Holds t Q (next (s.perform t o i).1) (s.perform t o i).2) :
    (passing docs).Holds t Q (.op o next) s := by
  refine Outline.holds_op fun s' hseen hsound i a s'' hperform hallowed => ?_
  obtain rfl := hseen.frozen c hheld
  have hpair : HygieneWorld.perform t o i s' = (a, s'') := Option.some.inj hperform
  obtain ⟨hsound', hshrinks, hrest⟩ := h i hallowed hsound
  obtain ⟨notes, hhistory⟩ := history_of_perform hheld o i
  have hrunning := running_of_perform hheld o i
  rw [hpair] at hsound' hshrinks hrest hhistory hrunning
  refine ⟨⟨hsound', ?_⟩, hrest⟩
  intro t' ht'
  refine ⟨?_, ?_, ?_, hshrinks⟩
  · intro c' hc'
    rw [hheld] at hc'
    exact absurd (Prod.mk.inj (Option.some.inj hc')).1.symm ht'
  · intro c' hc'
    rcases hrunning with hsame | hnone
    · rw [hsame] at hc'
      exact absurd (Prod.mk.inj (Option.some.inj hc')).1.symm ht'
    · rw [hnone] at hc'
      cases hc'
  · rw [notesOf_append hhistory]
    simp [List.filter_map, Function.comp_def, ht'.symm]

/-- More is noted and fewer documents are left, but no pass has started. -/
theorem Sound.extend (h : Sound docs s) {es : List HygieneEvent} (hhistory : s'.history = s.history ++ es)
    (hlastRun : s'.lastRun = s.lastRun) (hsub : s'.db.documents.Sublist s.db.documents)
    (hgone : ∀ d ∈ s.db.documents, d ∉ s'.db.documents → ∃ e ∈ es, ∃ time, e.note = .deleted d time)
    (hfair : ∀ e ∈ es, ∀ d time, e.note = .deleted d time → MayDelete e.call time d)
    (hstarted : ∀ e ∈ es, ∀ a, e.note ≠ .started a) (hbegun : ∀ e ∈ es, Begun e.task s) : Sound docs s' := by
  refine ⟨hsub.trans h.sub, ?_, ?_, ?_, ?_, ?_⟩
  · intro d hd hnot
    rw [hhistory]
    by_cases hmem : d ∈ s.db.documents
    · obtain ⟨e, he, hnote⟩ := hgone d hmem hnot
      exact ⟨e, List.mem_append_right _ he, hnote⟩
    · obtain ⟨e, he, hnote⟩ := h.gone d hd hmem
      exact ⟨e, List.mem_append_left _ he, hnote⟩
  · intro e he
    rw [hhistory] at he
    rcases List.mem_append.mp he with he | he
    · exact h.fair e he
    · exact hfair e he
  · rw [hhistory, List.pairwise_append]
    refine ⟨h.apart, List.pairwise_of_forall_mem_list ?_, ?_⟩
    · intro e he e' _ a b ha
      exact absurd ha (hstarted e he a)
    · intro e _ e' he' a b _ hb
      exact absurd hb (hstarted e' he' b)
  · intro e he a ha
    rw [hhistory] at he
    rw [hlastRun]
    rcases List.mem_append.mp he with he | he
    · exact h.last e he a ha
    · exact absurd ha (hstarted e he a)
  · intro e he
    rw [hhistory] at he
    rcases List.mem_append.mp he with he | he
    · exact (h.begun e he).append hhistory
    · exact (hbegun e he).append hhistory

/-- Nothing that matters has changed. -/
theorem Sound.same (h : Sound docs s) (hhistory : s'.history = s.history) (hlastRun : s'.lastRun = s.lastRun)
    (hdocuments : s'.db.documents = s.db.documents) : Sound docs s' := by
  have hnone : s'.history = s.history ++ [] := by rw [hhistory, List.append_nil]
  refine h.extend hnone hlastRun (by rw [hdocuments]) ?_ ?_ ?_ ?_
  · intro d hd hnot
    exact absurd (by rwa [hdocuments]) hnot
  · intro e he
    cases he
  · intro e he
    cases he
  · intro e he
    cases he

variable {time : Int}

/-- A new pass that starts late enough. -/
theorem Sound.start (h : Sound docs s) (hheld : s.running = some (t, c))
    (hlate : ∀ l, s.lastRun = some l → l + c.config.cadenceHours * nanosPerHour ≤ time) :
    Sound docs ({ s with lastRun := some time }.noting [.started time]) := by
  have hcadence : 0 ≤ (c.config.cadenceHours : Int) * nanosPerHour :=
    Int.mul_nonneg (Int.natCast_nonneg _) (by decide)
  have hworld : ({ s with lastRun := some time } : HygieneWorld).noting [.started time]
      = { s with lastRun := some time, history := s.history ++ [⟨t, c, .started time⟩] } :=
    noting_held (s := { s with lastRun := some time }) hheld [.started time]
  rw [hworld]
  have hearlier : ∀ e ∈ s.history, ∀ a, e.note = .started a → a + c.config.cadenceHours * nanosPerHour ≤ time := by
    intro e he a ha
    obtain ⟨l, hl, hle⟩ := h.last e he a ha
    have := hlate l hl
    omega
  refine ⟨h.sub, ?_, ?_, ?_, ?_, ?_⟩
  · intro d hd hnot
    obtain ⟨e, he, hnote⟩ := h.gone d hd hnot
    exact ⟨e, List.mem_append_left _ he, hnote⟩
  · intro e he d time' hnote
    rcases List.mem_append.mp he with he | he
    · exact h.fair e he d time' hnote
    · rw [List.mem_singleton.mp he] at hnote
      cases hnote
  · refine List.pairwise_append.mpr ⟨h.apart, List.pairwise_singleton _ _, ?_⟩
    intro e he e' he' a b ha hb
    rw [List.mem_singleton.mp he'] at hb ⊢
    cases hb
    exact hearlier e he a ha
  · intro e he a ha
    refine ⟨time, rfl, ?_⟩
    rcases List.mem_append.mp he with he | he
    · have := hearlier e he a ha
      omega
    · rw [List.mem_singleton.mp he] at ha
      cases ha
      exact le_refl _
  · intro e he
    rcases List.mem_append.mp he with he | he
    · exact (h.begun e he).append rfl
    · rw [List.mem_singleton.mp he]
      have hhistory : s.history ++ [⟨t, c, .started time⟩] =
        s.history ++ [HygieneNote.started time].map fun n => ⟨t, c, n⟩ := rfl
      refine ⟨time, ?_⟩
      rw [notesOf_held (s := s) hhistory]
      exact List.mem_append_right _ (List.mem_singleton.mpr rfl)

/-! ## Statements of a pass -/

variable {o : DbOp}

/-- The failure of a statement is noted, and nothing else happens. -/
theorem perform_db_failed {i : HygieneInput} {e : SqlError} (hheld : s.running = some (t, c))
    (hfailure : i.db.failure = some e) : s.perform t (.db o) i =
      (.error e, { s with history := s.history ++ [⟨t, c, .failed o⟩] }) := by
  simp only [HygieneWorld.perform, HygieneWorld.dbNotes, hfailure, Db.perform, noting_held hheld, List.map_cons,
    List.map_nil]

theorem perform_db_ok {i : HygieneInput} (hheld : s.running = some (t, c)) (hfailure : i.db.failure = none) :
    s.perform t (.db o) i = ((s.db.apply i.db o).1,
      { s with history := s.history ++ (s.dbNotes o i.db).map (fun n => ⟨t, c, n⟩), db := (s.db.apply i.db o).2 }) := by
  simp only [HygieneWorld.perform, hfailure, Db.perform, noting_held hheld]

/-- A statement that may fail, and otherwise only reads or removes chunks. -/
theorem holds_reading {Q : α → HygieneWorld → Prop} {next : (HygieneOp.db o).Ans → HygieneM α}
    (hheld : s.running = some (t, c)) (hbegun : Begun t s)
    (hdocuments : ∀ i, (s.db.apply i o).2.documents = s.db.documents)
    (hnotes : ∀ i, i.failure = none → s.dbNotes o i = [])
    (hfailed : ∀ e, (passing docs).Holds t Q (next (.error e)) { s with history := s.history ++ [⟨t, c, .failed o⟩] })
    (hok : ∀ i, (passing docs).Holds t Q (next (s.db.apply i o).1) { s with db := (s.db.apply i o).2 }) :
    (passing docs).Holds t Q (.op (.db o) next) s := by
  refine holds_held hheld fun i _ hsound => ?_
  cases hfailure : i.db.failure with
  | some e =>
    rw [perform_db_failed hheld hfailure]
    refine ⟨?_, fun _ hd => hd, hfailed e⟩
    refine hsound.extend rfl rfl (List.Sublist.refl _) (fun d hd hnot => absurd hd hnot) ?_ ?_ ?_
    · intro event he d time hnote
      rw [List.mem_singleton.mp he] at hnote
      cases hnote
    · intro event he a hnote
      rw [List.mem_singleton.mp he] at hnote
      cases hnote
    · intro event he
      rw [List.mem_singleton.mp he]
      exact hbegun
  | none =>
    rw [perform_db_ok hheld hfailure, hnotes i.db hfailure, List.map_nil, List.append_nil]
    refine ⟨hsound.same rfl rfl (hdocuments i.db), ?_, hok i.db⟩
    intro d hd
    rwa [← hdocuments i.db]

/-- A function of the store in two parts. -/
theorem onStore_bind {β : Type} (x : StoreM α) (f : α → StoreM β) : onStore (x >>= f) = onStore x >>= fun
      | .ok a => onStore (f a)
      | .error e => .ret (.error e) := by
  unfold onStore
  show (Prog.lift _ _ (x.run >>= _)) = _
  rw [Prog.lift_bind]
  congr 1
  funext r
  cases r with
  | ok a => rfl
  | error e => rfl

/-- What the deletion of a stale document comes to: it is gone and noted, or nothing was deleted and, if it is
    still there, a statement about it failed. -/
structure Deletion (w : Workspace) (d : DocumentRow) (s : HygieneWorld) (notes : List HygieneNote)
    (r : Except WorkspaceError Unit) (s' : HygieneWorld) : Prop where
  effect : (r = .ok () ∧ notes = [.deleted d s.clock] ∧ s'.db.documents.length + 1 = s.db.documents.length) ∨
    ((∃ e, r = .error e) ∧ (∀ n ∈ notes, ∃ o, n = .failed o) ∧ s'.db.documents = s.db.documents)
  outcome : d ∉ s'.db.documents ∨ ∃ o, .failed o ∈ notes ∧ Concerns w d o

/-- What holds of the world after a part of a pass, apart from what was deleted. -/
structure Onward (t : Nat) (c : HygieneCall) (notes : List HygieneNote) (s s' : HygieneWorld) : Prop where
  held : s'.running = some (t, c)
  notes : s'.notesOf t = s.notesOf t ++ notes
  shrinks : s'.db.documents ⊆ s.db.documents
  clock : s.clock ≤ s'.clock

variable {d : DocumentRow} {agentId : Option Uuid} {path userId : String}

theorem filter_isAt_of_single {documents : List DocumentRow} (hnodup : documents.Nodup) (hd : d ∈ documents)
    (hsingle : ∀ e ∈ documents, e.place = d.place → e = d) (hplace : d.place = (userId, agentId, path)) :
    (documents.filter fun e => e.isAt userId agentId path) = [d] := by
  have hcongr : (documents.filter fun e => e.isAt userId agentId path) = documents.filter fun e => e = d := by
    apply List.filter_congr
    intro e he
    rw [Bool.eq_iff_iff, isAt_iff, decide_eq_true_iff, ← hplace]
    exact ⟨fun hat => hsingle e he hat, fun heq => by rw [heq]⟩
  rw [hcongr, List.filter_eq, List.count_eq_one_of_mem hnodup hd]
  rfl

theorem documents_nodup (db : Db) : db.documents.Nodup :=
  db.documents_apart.imp fun hapart heq => hapart.1 (congrArg DocumentRow.id heq)

/-- The document is looked up: the statement fails, or the answer is what is there. -/
theorem lookup_holds (hheld : s.running = some (t, c)) (hbegun : Begun t s) : (passing docs).Holds t (fun r s' =>
        (∃ e, r = .error e ∧ s' = { s with history := s.history ++ [⟨t, c,
          .failed (.selectByPath userId agentId path)⟩] }) ∨
        (s' = s ∧ r = answerAt s.db userId agentId path))
      (onStore (getDocumentByPath userId agentId path)) s := by
  unfold getDocumentByPath
  rw [onStore_bind]
  refine holds_reading (o := .selectByPath userId agentId path) hheld hbegun (fun _ => rfl) ?_ ?_ ?_
  · intro i hfailure
    simp [HygieneWorld.dbNotes, hfailure]
  · intro e
    exact Outline.holds_ret (.inl ⟨_, rfl, rfl⟩)
  · intro i
    show (passing docs).Holds t _ (Prog.bind (Prog.lift _ _ _) _) s
    unfold answerAt
    cases hfind : s.db.find userId agentId path with
    | none =>
      simp only [Db.apply, hfind]
      exact Outline.holds_ret (.inr ⟨rfl, rfl⟩)
    | some d =>
      simp only [Db.apply, hfind]
      exact Outline.holds_ret (.inr ⟨rfl, rfl⟩)

/-- The rows at a place are removed, or the statement fails. -/
theorem removal_holds {fail : SqlError → WorkspaceError} (hheld : s.running = some (t, c)) (hbegun : Begun t s)
    (hmay : ∀ d ∈ s.db.documents, d.isAt userId agentId path = true → MayDelete c s.clock d) :
    (passing docs).Holds t (fun r s' =>
        (∃ e, r = .error e ∧ s' = { s with history := s.history ++ [⟨t, c,
          .failed (.deleteDocument userId agentId path)⟩] }) ∨
        (r = .ok () ∧ s' = { s with
          db := s.db.deleteDocument userId agentId path
          history := s.history ++ ((s.db.documents.filter fun d => d.isAt userId agentId path).map
            fun d => .deleted d s.clock).map fun n => ⟨t, c, n⟩ }))
      (onStore (statement (.deleteDocument userId agentId path) fail)) s := by
  refine holds_held (o := .db (.deleteDocument userId agentId path)) hheld fun i _ hsound => ?_
  cases hfailure : i.db.failure with
  | some e =>
    rw [perform_db_failed hheld hfailure]
    refine ⟨?_, fun _ hd => hd, Outline.holds_ret (.inl ⟨_, rfl, rfl⟩)⟩
    refine hsound.extend rfl rfl (List.Sublist.refl _) (fun d hd hnot => absurd hd hnot) ?_ ?_ ?_
    · intro event he d time hnote
      rw [List.mem_singleton.mp he] at hnote
      cases hnote
    · intro event he a hnote
      rw [List.mem_singleton.mp he] at hnote
      cases hnote
    · intro event he
      rw [List.mem_singleton.mp he]
      exact hbegun
  | none =>
    have hnotes : s.dbNotes (.deleteDocument userId agentId path) i.db =
        (s.db.documents.filter fun d => d.isAt userId agentId path).map fun d => .deleted d s.clock := by
      simp [HygieneWorld.dbNotes, hfailure]
    rw [perform_db_ok hheld hfailure, hnotes]
    have hevent : ∀ event ∈ ((s.db.documents.filter fun d => d.isAt userId agentId path).map
        fun d => HygieneNote.deleted d s.clock).map (fun n => (⟨t, c, n⟩ : HygieneEvent)),
        ∃ d ∈ s.db.documents, d.isAt userId agentId path = true ∧ event = ⟨t, c, .deleted d s.clock⟩ := by
      intro event he
      obtain ⟨n, hn, rfl⟩ := List.mem_map.mp he
      obtain ⟨d, hd, rfl⟩ := List.mem_map.mp hn
      exact ⟨d, List.mem_of_mem_filter hd, (List.mem_filter.mp hd).2, rfl⟩
    refine ⟨?_, ?_, Outline.holds_ret (.inr ⟨rfl, rfl⟩)⟩
    · refine hsound.extend rfl rfl List.filter_sublist ?_ ?_ ?_ ?_
      · intro d hd hnot
        have hat : d.isAt userId agentId path = true := by
          by_contra hat
          exact hnot (List.mem_filter.mpr ⟨hd, by simpa using hat⟩)
        exact ⟨_, List.mem_map_of_mem (List.mem_map_of_mem (List.mem_filter.mpr ⟨hd, hat⟩)), s.clock, rfl⟩
      · intro event he d time hnote
        obtain ⟨d', hd', hat, rfl⟩ := hevent event he
        cases hnote
        exact hmay d hd' hat
      · intro event he a hnote
        obtain ⟨d', -, -, rfl⟩ := hevent event he
        cases hnote
      · intro event he
        obtain ⟨d', -, -, rfl⟩ := hevent event he
        exact hbegun
    · exact (List.filter_sublist).subset

variable {days : Nat} {dir : String}

theorem name_of_directories (h : (dir, days) ∈ directories c.config) : dir ∈ ["daily/", "conversations/"] := by
  simp only [directories, List.mem_cons, Prod.mk.injEq, List.not_mem_nil, or_false] at h ⊢
  exact h.imp And.left And.left

/-- **The deletion of a stale document.** -/
theorem delete_holds (horderly : Orderly docs) (hdir : (dir, days) ∈ directories c.config) (hd : d ∈ docs)
    (hstale : Stale c.workspace dir days s.clock d) (hheld : s.running = some (t, c)) (hbegun : Begun t s)
    (hsub : s.db.documents.Sublist docs) :
    (passing docs).Holds t (fun r s' => s'.clock = s.clock ∧ s'.db.documents.Sublist docs ∧ ∃ notes,
        Onward t c notes s s' ∧ Deletion c.workspace d s notes r s') (onStore (c.workspace.delete d.path)) s := by
  have hname := name_of_directories hdir
  have hplace : d.place = (c.workspace.userId, c.workspace.agentId, d.path) := by
    rw [← hstale.owner.1, ← hstale.owner.2]
    rfl
  have hsingle : ∀ e ∈ s.db.documents, e.place = d.place → e = d := fun e he =>
    horderly.single d hd dir hname hstale.direct e (hsub.subset he)
  -- A statement that fails leaves the documents alone.
  have hstay : ∀ {s' : HygieneWorld} {e : WorkspaceError} {o : DbOp}, s'.running = some (t, c) →
      s'.history = s.history ++ [⟨t, c, .failed o⟩] → s'.clock = s.clock → s'.db.documents = s.db.documents →
      Concerns c.workspace d o → s'.clock = s.clock ∧ s'.db.documents.Sublist docs ∧ ∃ notes,
        Onward t c notes s s' ∧ Deletion c.workspace d s notes (.error e) s' := by
    intro s' e o hrunning hhistory hclock hdocuments hconcerns
    have hshrinks : s'.db.documents ⊆ s.db.documents := by
      rw [hdocuments]
      exact fun _ hmem => hmem
    refine ⟨hclock, by rwa [hdocuments], [.failed o], ⟨hrunning, notesOf_held hhistory, hshrinks, hclock.ge⟩, ?_, ?_⟩
    · refine .inr ⟨⟨e, rfl⟩, ?_, hdocuments⟩
      intro n hn
      exact ⟨o, List.mem_singleton.mp hn⟩
    · exact .inr ⟨o, List.mem_singleton.mpr rfl, hconcerns⟩
  unfold Workspace.delete deleteDocumentByPath
  rw [horderly.canonical d hd dir hname hstale.direct, onStore_bind]
  refine Outline.Holds.bind (lookup_holds hheld hbegun) ?_
  rintro r s' (⟨e, rfl, rfl⟩ | ⟨rfl, rfl⟩)
  · exact Outline.holds_ret (hstay hheld rfl rfl rfl hplace.symm)
  unfold answerAt
  cases hfind : s'.db.find c.workspace.userId c.workspace.agentId d.path with
  | none =>
    -- It is gone already.
    refine Outline.holds_ret ⟨rfl, hsub, [], ⟨hheld, (List.append_nil _).symm, fun _ h => h, le_refl _⟩, ?_, ?_⟩
    · exact .inr ⟨⟨_, rfl⟩, (by intro n hn; cases hn), rfl⟩
    · left
      intro hmem
      apply find_eq_none_iff.mp hfind
      rw [← hplace]
      exact List.mem_map_of_mem hmem
  | some e =>
    obtain ⟨hmem, heplace⟩ := find_place hfind
    obtain rfl := hsingle e hmem (heplace.trans hplace.symm)
    simp only [rowToMemoryDocument]
    rw [onStore_bind]
    refine holds_reading (o := .deleteChunks e.id) hheld hbegun (fun _ => rfl) ?_ ?_ ?_
    · intro i hfailure
      simp [HygieneWorld.dbNotes, hfailure]
    · intro error
      exact Outline.holds_ret (hstay hheld rfl rfl rfl rfl)
    · intro i
      refine Outline.Holds.mono (removal_holds (s := { s' with db := s'.db.deleteChunks e.id }) hheld hbegun ?_) ?_
      · intro e' he' hat
        rw [hsingle e' he' ((isAt_iff.mp hat).trans hplace.symm)]
        exact ⟨dir, days, hdir, hstale⟩
      · rintro r s'' (⟨error, rfl, rfl⟩ | ⟨rfl, rfl⟩)
        · exact hstay hheld rfl rfl rfl hplace.symm
        · have hone := filter_isAt_of_single (documents_nodup s'.db) hmem hsingle hplace
          refine ⟨rfl, List.filter_sublist.trans hsub, [.deleted e s'.clock], ⟨hheld, ?_, ?_, le_refl _⟩, ?_, ?_⟩
          · apply notesOf_held (c := c)
            show s'.history ++ _ = _
            simp only [Db.deleteChunks, hone, List.map_cons, List.map_nil]
          · exact List.filter_sublist.subset
          · refine .inl ⟨rfl, rfl, ?_⟩
            have hlength := List.length_eq_length_filter_add (l := s'.db.documents)
              fun e' => e'.isAt c.workspace.userId c.workspace.agentId e.path
            rw [hone] at hlength
            simp only [Db.deleteDocument, Db.deleteChunks]
            simp only [List.length_singleton] at hlength
            omega
          · left
            intro hstill
            have hnot := (List.mem_filter.mp hstill).2
            rw [Bool.not_eq_true', ← Bool.not_eq_true, isAt_iff] at hnot
            exact hnot hplace

/-! ## Cleaning a directory -/

/-- Is this the note of a deletion? -/
def HygieneNote.isDeletion : HygieneNote → Bool
  | .deleted _ _ => true
  | _ => false

/-- What cleaning a directory notes: deletions there, and failures. -/
def NotesIn (dir : String) (notes : List HygieneNote) : Prop :=
  ∀ n ∈ notes, (∃ d time, n = .deleted d time ∧ Direct dir d.path) ∨ ∃ o, n = .failed o

variable {notes' : List HygieneNote}

theorem NotesIn.append (h : NotesIn dir notes) (h' : NotesIn dir notes') : NotesIn dir (notes ++ notes') := by
  intro n hn
  rcases List.mem_append.mp hn with hn | hn
  · exact h n hn
  · exact h' n hn

/-- The entry is of a file that is stale at the cutoff. -/
def StaleEntry (cutoff : Int) (e : WorkspaceEntry) : Prop :=
  e.isDirectory = false ∧ isIdentityPath e.path = false ∧ ∃ u, e.updatedAt = some u ∧ u * 1000000 < cutoff

/-- File entries are of documents. -/
def EntriesOf (docs : List DocumentRow) (w : Workspace) (dir : String) (entries : List WorkspaceEntry) : Prop :=
  ∀ e ∈ entries, e.isDirectory = false →
    ∃ d ∈ docs, Owns w d ∧ d.path = e.path ∧ d.updatedAt = e.updatedAt ∧ Direct dir d.path

/-- The document is gone, or a statement about it failed. -/
def Settled (w : Workspace) (d : DocumentRow) (notes : List HygieneNote) (s : HygieneWorld) : Prop :=
  d ∉ s.db.documents ∨ ∃ o, .failed o ∈ notes ∧ Concerns w d o

variable {w : Workspace}

theorem Settled.mono (h : Settled w d notes s) (hshrinks : s'.db.documents ⊆ s.db.documents) (hnotes : notes ⊆ notes') :
    Settled w d notes' s' := by
  rcases h with hgone | ⟨o, ho, hconcerns⟩
  · exact .inl fun hmem => hgone (hshrinks hmem)
  · exact .inr ⟨o, hnotes ho, hconcerns⟩

theorem Onward.begun (h : Onward t c notes s s') (hbegun : Begun t s) : Begun t s' := by
  obtain ⟨a, ha⟩ := hbegun
  refine ⟨a, ?_⟩
  rw [h.notes]
  exact List.mem_append_left _ ha

theorem Onward.refl (hheld : s.running = some (t, c)) : Onward t c [] s s :=
  ⟨hheld, (List.append_nil _).symm, fun _ h => h, le_refl _⟩

theorem Onward.trans {s'' : HygieneWorld} (h : Onward t c notes s s') (h' : Onward t c notes' s' s'') :
    Onward t c (notes ++ notes') s s'' := by
  refine ⟨h'.held, ?_, fun d hd => h.shrinks (h'.shrinks hd), h.clock.trans h'.clock⟩
  rw [h'.notes, h.notes, List.append_assoc]

/-- What the loop over the entries comes to. -/
structure Cleaned (docs : List DocumentRow) (w : Workspace) (dir : String) (cutoff : Int) (deleted : Nat)
    (entries : List WorkspaceEntry) (notes : List HygieneNote) (n : Nat) (s' : HygieneWorld) : Prop where
  within : NotesIn dir notes
  count : n = deleted + notes.countP HygieneNote.isDeletion
  settled : ∀ e ∈ entries, StaleEntry cutoff e → ∀ d ∈ docs, Owns w d → d.path = e.path → Settled w d notes s'

theorem startsWith_of_direct (h : Direct dir path) : startsWith path dir = true := by
  obtain ⟨child, rfl, -⟩ := h
  rw [startsWith, String.toList_append]
  exact List.isPrefixOf_iff_prefix.mpr (List.prefix_append _ _)

variable {deleted : Nat}

/-- An entry that is not stale is passed over. -/
theorem Cleaned.skip {cutoff : Int} {n : Nat} {entry : WorkspaceEntry} {entries : List WorkspaceEntry}
    (h : Cleaned docs w dir cutoff deleted entries notes n s) (hnot : ¬ StaleEntry cutoff entry) :
    Cleaned docs w dir cutoff deleted (entry :: entries) notes n s := by
  refine ⟨h.within, h.count, ?_⟩
  intro e he hstale
  rcases List.mem_cons.mp he with rfl | he
  · exact absurd hstale hnot
  · exact h.settled e he hstale

/-- An entry whose document was dealt with, and then the rest. -/
theorem Cleaned.cons {cutoff : Int} {deleted' n : Nat} {entry : WorkspaceEntry} {entries : List WorkspaceEntry}
    (h : Cleaned docs w dir cutoff deleted' entries notes' n s') (hwithin : NotesIn dir notes)
    (hcount : deleted' = deleted + notes.countP HygieneNote.isDeletion)
    (hsettled : ∀ d ∈ docs, Owns w d → d.path = entry.path → Settled w d notes s)
    (hshrinks : s'.db.documents ⊆ s.db.documents) :
    Cleaned docs w dir cutoff deleted (entry :: entries) (notes ++ notes') n s' := by
  refine ⟨hwithin.append h.within, ?_, ?_⟩
  · rw [h.count, hcount, List.countP_append, Nat.add_assoc]
  · intro e he hstale d hd howns hpath
    rcases List.mem_cons.mp he with rfl | he
    · exact (hsettled d hd howns hpath).mono hshrinks (List.subset_append_left _ _)
    · exact (h.settled e he hstale d hd howns hpath).mono (fun _ h => h) (List.subset_append_right _ _)

theorem Deletion.within {r : Except WorkspaceError Unit} (h : Deletion w d s notes r s') (hdirect : Direct dir d.path) :
    NotesIn dir notes := by
  intro n hn
  rcases h.effect with ⟨-, rfl, -⟩ | ⟨-, hfailed, -⟩
  · exact .inl ⟨d, s.clock, List.mem_singleton.mp hn, hdirect⟩
  · exact .inr (hfailed n hn)

/-- **The loop.** -/
theorem deleteStale_holds (horderly : Orderly docs) (hdir : (dir, days) ∈ directories c.config)
    (entries : List WorkspaceEntry) (hentries : EntriesOf docs c.workspace dir entries) (hheld : s.running = some (t, c))
    (hbegun : Begun t s) (hsub : s.db.documents.Sublist docs) (hfew : deleted + s.db.documents.length < 2 ^ 32) :
    (passing docs).Holds t (fun n s' => ∃ notes, Onward t c notes s s' ∧ s'.db.documents.Sublist docs ∧
        Cleaned docs c.workspace dir (s.clock - days * nanosPerDay) deleted entries notes n s')
      (deleteStale c.workspace dir (s.clock - days * nanosPerDay) deleted entries) s := by
  induction entries generalizing s deleted with
  | nil =>
    refine Outline.holds_ret ⟨[], Onward.refl hheld, hsub, ?_, rfl, ?_⟩
    · intro n hn
      cases hn
    · intro e he
      cases he
  | cons entry rest ih =>
    have hrest : EntriesOf docs c.workspace dir rest := fun e he => hentries e (List.mem_cons_of_mem _ he)
    have hskip : ¬ StaleEntry (s.clock - days * nanosPerDay) entry →
        (passing docs).Holds t (fun n s' => ∃ notes, Onward t c notes s s' ∧ s'.db.documents.Sublist docs ∧
            Cleaned docs c.workspace dir (s.clock - days * nanosPerDay) deleted (entry :: rest) notes n s')
          (deleteStale c.workspace dir (s.clock - days * nanosPerDay) deleted rest) s := by
      intro hnot
      apply Outline.Holds.mono (ih hrest hheld hbegun hsub hfew)
      rintro n s' ⟨notes, honward, hsub', hcleaned⟩
      exact ⟨notes, honward, hsub', hcleaned.skip hnot⟩
    unfold deleteStale
    split
    next hdirectory => exact hskip fun hstale => absurd hstale.1 (by simp [hdirectory])
    next hfile =>
      split
      next hidentity => exact hskip fun hstale => absurd hstale.2.1 (by simp [hidentity])
      next hplain =>
        split
        next hnone => exact hskip fun hstale => by obtain ⟨u, hu, -⟩ := hstale.2.2; rw [hnone] at hu; cases hu
        next updatedAt hupdated =>
          split
          next hold =>
            -- The entry is stale: its document is deleted.
            have hfile' : entry.isDirectory = false := by simpa using hfile
            have hplain' : isIdentityPath entry.path = false := by simpa using hplain
            obtain ⟨d, hd, howns, hpath, hdupdated, hdirect⟩ := hentries entry List.mem_cons_self hfile'
            have hstale : Stale c.workspace dir days s.clock d :=
              ⟨howns, hdirect, by rw [hpath]; exact hplain', updatedAt, hdupdated.trans hupdated, hold⟩
            have hstarts : startsWith entry.path dir = true := by
              rw [← hpath]
              exact startsWith_of_direct hdirect
            simp only [hstarts, if_true]
            rw [← hpath]
            refine Outline.Holds.bind (delete_holds horderly hdir hd hstale hheld hbegun hsub) ?_
            rintro r s' ⟨hclock, hsub', notes, honward, hdeletion⟩
            have hsettled : ∀ d' ∈ docs, Owns c.workspace d' → d'.path = entry.path →
                Settled c.workspace d' notes s' := by
              intro d' hd' howns' hpath'
              have hsame : d' = d := by
                apply horderly.single d hd dir (name_of_directories hdir) hdirect d' hd'
                rw [DocumentRow.place, DocumentRow.place, howns.1, howns.2, howns'.1, howns'.2, hpath, hpath']
              rw [hsame]
              exact hdeletion.outcome
            have hwithin := hdeletion.within hdirect
            rw [← hclock]
            rcases hdeletion.effect with ⟨rfl, hnotes, hlength⟩ | ⟨⟨e, rfl⟩, hfailed, hsame⟩
            · have hmod : (deleted + 1) % 2 ^ 32 = deleted + 1 := Nat.mod_eq_of_lt (by omega)
              simp only [hmod]
              apply Outline.Holds.mono (ih hrest honward.held (honward.begun hbegun) hsub' (by omega))
              rintro n s'' ⟨notes', honward', hsub'', hcleaned⟩
              refine ⟨notes ++ notes', honward.trans honward', hsub'', ?_⟩
              exact hcleaned.cons hwithin (by rw [hnotes]; rfl) hsettled honward'.shrinks
            · have hnone : notes.countP HygieneNote.isDeletion = 0 := by
                rw [List.countP_eq_zero]
                intro m hm
                obtain ⟨o, rfl⟩ := hfailed m hm
                simp [HygieneNote.isDeletion]
              apply Outline.Holds.mono (ih hrest honward.held (honward.begun hbegun) hsub' (by rw [hsame]; exact hfew))
              rintro n s'' ⟨notes', honward', hsub'', hcleaned⟩
              refine ⟨notes ++ notes', honward.trans honward', hsub'', ?_⟩
              exact hcleaned.cons hwithin (by rw [hnone, Nat.add_zero]) hsettled honward'.shrinks
          next hnew =>
            refine hskip fun hstale => ?_
            obtain ⟨u, hu, hold⟩ := hstale.2.2
            rw [hupdated] at hu
            cases hu
            exact hnew hold

/-- What listing a directory is, for the two that are cleaned. -/
theorem list_eq (hname : dir ∈ ["daily/", "conversations/"]) : w.list dir = (do
      let rows ← statement (.selectLike w.userId w.agentId (dir ++ "%")) fun e => .searchFailed (e.text "List directory")
      pure (entriesOf dir rows)) := by
  have hdir : normalizeDirectory dir ≠ "" ∧ ¬ endsWith (normalizeDirectory dir) "/" ∧
      normalizeDirectory dir ++ "/" = dir ∧ dir ≠ "" := by
    simp only [List.mem_cons, List.not_mem_nil, or_false] at hname
    rcases hname with rfl | rfl <;> decide
  obtain ⟨hempty, hends, hslash, hsome⟩ := hdir
  unfold Workspace.list listDirectory
  rw [if_pos ⟨hempty, hends⟩, hslash]
  dsimp only
  rw [if_neg hsome]

/-- The directory is listed, or the statement fails. -/
theorem listing_holds (hname : dir ∈ ["daily/", "conversations/"]) (hheld : s.running = some (t, c)) (hbegun : Begun t s) :
    (passing docs).Holds t (fun r s' =>
        (∃ e, r = .error e ∧ s' = { s with history := s.history ++
          [⟨t, c, .failed (.selectLike c.workspace.userId c.workspace.agentId (dir ++ "%"))⟩] }) ∨
        (s' = s ∧ r = .ok (entriesOf dir (rowsBelow s.db c.workspace dir))))
      (onStore (c.workspace.list dir)) s := by
  rw [list_eq hname, onStore_bind]
  refine holds_reading (o := .selectLike c.workspace.userId c.workspace.agentId (dir ++ "%")) hheld hbegun (fun _ => rfl)
    ?_ ?_ ?_
  · intro i hfailure
    simp [HygieneWorld.dbNotes, hfailure]
  · intro e
    exact Outline.holds_ret (.inl ⟨_, rfl, rfl⟩)
  · intro i
    exact Outline.holds_ret (.inr ⟨rfl, rfl⟩)

theorem Stale.later {time' : Int} (h : Stale w dir days time d) (hle : time ≤ time') : Stale w dir days time' d := by
  obtain ⟨u, hu, hold⟩ := h.old
  exact ⟨h.owner, h.direct, h.plain, u, hu, by omega⟩

/-- Nothing is below a document's path. -/
def Leaf (docs : List DocumentRow) (w : Workspace) (d : DocumentRow) : Prop :=
  ∀ e ∈ docs, Owns w e → ∀ rest, e.path ≠ d.path ++ "/" ++ rest

/-- What cleaning a directory comes to. -/
structure Cleanup (docs : List DocumentRow) (w : Workspace) (dir : String) (days : Nat) (time : Int)
    (notes : List HygieneNote) (r : Except Panic (Except WorkspaceError Nat)) (s' : HygieneWorld) : Prop where
  within : NotesIn dir notes
  count : ∃ n, r = .ok n ∧ counted n = notes.countP HygieneNote.isDeletion
  settled : ∀ d ∈ docs, Stale w dir days time d → Leaf docs w d → Settled w d notes s'

/-- The entries of a listing are of documents. -/
theorem entriesOf_documents (hsub : s.db.documents.Sublist docs) :
    EntriesOf docs w dir (entriesOf dir (rowsBelow s.db w dir)) := by
  intro e he hfile
  obtain ⟨d, hd, hpath, hupdated, hdirect⟩ := file_of_entry he hfile
  obtain ⟨hmem, howns⟩ := mem_owned.mp hd
  exact ⟨d, hsub.subset hmem, howns, hpath, hupdated, hdirect⟩

/-- A stale document that is there is listed as a stale entry. -/
theorem staleEntry_of_stale (horderly : Orderly docs) (hname : dir ∈ ["daily/", "conversations/"])
    (hsub : s.db.documents.Sublist docs) (hd : d ∈ s.db.documents) (hstale : Stale w dir days time d)
    (hleaf : Leaf docs w d) :
    ∃ e ∈ entriesOf dir (rowsBelow s.db w dir), StaleEntry (time - days * nanosPerDay) e ∧ d.path = e.path := by
  have hlisted := entry_of_file (w := w) (mem_owned.mpr ⟨hd, hstale.owner⟩) hstale.direct ?_ ?_
  · obtain ⟨e, he, hpath, hfile, hupdated⟩ := hlisted
    exact ⟨e, he, ⟨hfile, by rw [hpath]; exact hstale.plain, by rw [hupdated]; exact hstale.old⟩, hpath.symm⟩
  · intro d' hd'
    obtain ⟨hmem, howns⟩ := mem_owned.mp hd'
    exact hleaf d' (hsub.subset hmem) howns
  · intro d' hd' hpath
    obtain ⟨hmem, howns⟩ := mem_owned.mp hd'
    apply horderly.single d (hsub.subset hd) dir hname hstale.direct d' (hsub.subset hmem)
    rw [DocumentRow.place, DocumentRow.place, howns.1, howns.2, hstale.owner.1, hstale.owner.2, hpath]

/-- **Cleaning a directory.** -/
theorem cleanup_holds (horderly : Orderly docs) (hdir : (dir, days) ∈ directories c.config)
    (hheld : s.running = some (t, c)) (hbegun : Begun t s) (hsub : s.db.documents.Sublist docs) :
    (passing docs).Holds t (fun r s' => ∃ notes, Onward t c notes s s' ∧ s'.db.documents.Sublist docs ∧
        Cleanup docs c.workspace dir days s.clock notes r s') (cleanup dir c.workspace days) s := by
  have hname := name_of_directories hdir
  unfold cleanup
  refine holds_held (o := .cutoff days) hheld fun i hallowed hsound => ?_
  obtain ⟨hclock, hrange⟩ := hallowed
  have hcutoff : ¬ (i.now - days * nanosPerDay < minUtc) := by omega
  simp only [HygieneWorld.perform, hcutoff, if_false]
  refine ⟨hsound.same rfl rfl rfl, fun _ hd => hd, ?_⟩
  have hheld' : ({ s with clock := i.now } : HygieneWorld).running = some (t, c) := hheld
  show (passing docs).Holds t _ (onStore (c.workspace.list dir) >>= _) _
  refine Outline.Holds.bind (listing_holds hname hheld' hbegun) ?_
  rintro r s' (⟨e, rfl, rfl⟩ | ⟨rfl, rfl⟩)
  · -- The listing failed, which concerns every document in the directory.
    refine Outline.holds_ret ⟨[.failed (.selectLike c.workspace.userId c.workspace.agentId (dir ++ "%"))],
      ⟨hheld, notesOf_held (c := c) rfl, fun _ hd => hd, hclock⟩, hsub, ?_, ⟨_, rfl, rfl⟩, ?_⟩
    · intro n hn
      exact .inr ⟨_, List.mem_singleton.mp hn⟩
    · intro d _ hstale _
      exact .inr ⟨_, List.mem_singleton.mpr rfl, rfl, rfl, dir, rfl, hstale.direct⟩
  · have hfew : 0 + s.db.documents.length < 2 ^ 32 := by
      have := horderly.few
      have := hsub.length_le
      omega
    refine Outline.Holds.bind (deleteStale_holds (s := { s with clock := i.now }) horderly hdir _
      (entriesOf_documents hsub) hheld' hbegun hsub hfew) ?_
    rintro n s' ⟨notes, honward, hsub', hcleaned⟩
    refine Outline.holds_ret ⟨notes, ⟨honward.held, honward.notes, honward.shrinks, hclock.trans honward.clock⟩, hsub',
      hcleaned.within, ⟨_, rfl, by rw [counted, hcleaned.count, Nat.zero_add]⟩, ?_⟩
    intro d hd hstale hleaf
    by_cases hmem : d ∈ s.db.documents
    · obtain ⟨e, he, hentry, hpath⟩ := staleEntry_of_stale (s := { s with clock := i.now }) horderly hname hsub hmem
        (hstale.later hclock) hleaf
      exact hcleaned.settled e he hentry d hd hstale.owner hpath
    · exact .inl fun hstill => hmem (honward.shrinks hstill)

/-! ## A pass -/

/-- The directories have nothing in common. -/
theorem startsWith_of_other {dir' : String} (hname : dir ∈ ["daily/", "conversations/"])
    (hname' : dir' ∈ ["daily/", "conversations/"]) (hne : dir ≠ dir') (h : Direct dir path) :
    startsWith path dir' = false := by
  obtain ⟨child, rfl, -⟩ := h
  simp only [List.mem_cons, List.not_mem_nil, or_false] at hname hname'
  rcases hname with rfl | rfl <;> rcases hname' with rfl | rfl
  · exact absurd rfl hne
  · simp [startsWith, String.toList_append, List.isPrefixOf]
  · simp [startsWith, String.toList_append, List.isPrefixOf]
  · exact absurd rfl hne

theorem deletedIn_append (dir : String) (notes notes' : List HygieneNote) :
    deletedIn dir (notes ++ notes') = deletedIn dir notes + deletedIn dir notes' := List.countP_append

/-- The deletions in a directory are those noted while it was cleaned. -/
theorem deletedIn_same (h : NotesIn dir notes) : deletedIn dir notes = notes.countP HygieneNote.isDeletion := by
  apply List.countP_congr
  intro n hn
  rcases h n hn with ⟨d, time, rfl, hdirect⟩ | ⟨o, rfl⟩
  · simp [HygieneNote.isDeletion, startsWith_of_direct hdirect]
  · simp [HygieneNote.isDeletion]

theorem deletedIn_other {dir' : String} (hname : dir ∈ ["daily/", "conversations/"])
    (hname' : dir' ∈ ["daily/", "conversations/"]) (hne : dir ≠ dir') (h : NotesIn dir notes) :
    deletedIn dir' notes = 0 := by
  rw [deletedIn, List.countP_eq_zero]
  intro n hn
  rcases h n hn with ⟨d, time, rfl, hdirect⟩ | ⟨o, rfl⟩
  · simp [startsWith_of_other hname hname' hne hdirect]
  · simp

/-- The state of a pass that has just started. -/
structure Fresh (docs : List DocumentRow) (t : Nat) (c : HygieneCall) (s : HygieneWorld) : Prop where
  held : s.running = some (t, c)
  notes : s.notesOf t = []
  sub : s.db.documents.Sublist docs

/-- **The pass itself.** -/
theorem cleanupPass_holds (horderly : Orderly docs) (h : Fresh docs t c s)
    (hdue : ∀ l, s.lastRun = some l → l + c.config.cadenceHours * nanosPerHour ≤ s.clock) :
    (passing docs).Holds t (fun out s' => s'.running = some (t, c) ∧ ∃ report, out = .ok report ∧
      Reported docs t c report s') (cleanupPass c) s := by
  unfold cleanupPass
  refine holds_held (o := .now) h.held fun i hclock hsound => ⟨hsound.same rfl rfl rfl, fun _ hd => hd, ?_⟩
  refine holds_held (o := .saveState i.now) (s := { s with clock := i.now }) h.held fun i' hworks hsound' => ?_
  have hclock : s.clock ≤ i.now := hclock
  have hworks : i'.fails = false := hworks
  simp only [HygieneWorld.perform, hworks, Bool.false_eq_true, if_false]
  have hlate : ∀ l, s.lastRun = some l → l + c.config.cadenceHours * nanosPerHour ≤ i.now :=
    fun l hl => (hdue l hl).trans hclock
  have hstart := Sound.start hsound' h.held hlate
  generalize hs₁ : ({ s with clock := i.now, lastRun := some i.now } : HygieneWorld).noting [.started i.now] = s₁ at *
  have hworld : s₁ =
      { s with clock := i.now, lastRun := some i.now, history := s.history ++ [⟨t, c, .started i.now⟩] } := by
    rw [← hs₁]
    exact noting_held (s := { s with clock := i.now, lastRun := some i.now }) h.held _
  have hheld₁ : s₁.running = some (t, c) := by rw [hworld]; exact h.held
  have hsub₁ : s₁.db.documents.Sublist docs := by rw [hworld]; exact h.sub
  have hclock₁ : s₁.clock = i.now := by rw [hworld]
  have hnotes₁ : s₁.notesOf t = [.started i.now] := by
    have hhistory : s₁.history = s.history ++ [HygieneNote.started i.now].map fun n => ⟨t, c, n⟩ := by rw [hworld]; rfl
    rw [notesOf_held hhistory, h.notes, List.nil_append]
  have hbegun₁ : Begun t s₁ := ⟨i.now, by rw [hnotes₁]; exact List.mem_singleton.mpr rfl⟩
  refine ⟨hstart, by rw [hworld]; exact fun _ hd => hd, ?_⟩
  have hdaily : ("daily/", c.config.dailyRetentionDays) ∈ directories c.config := List.mem_cons_self
  have hconversations : ("conversations/", c.config.conversationRetentionDays) ∈ directories c.config :=
    List.mem_cons_of_mem _ List.mem_cons_self
  show (passing docs).Holds t _ (cleanupDailyLogs c.workspace c.config.dailyRetentionDays >>= _) s₁
  refine Outline.Holds.bind (cleanup_holds horderly hdaily hheld₁ hbegun₁ hsub₁) ?_
  rintro r s₂ ⟨notes₂, honward₂, hsub₂, hcleanup₂⟩
  obtain ⟨n₂, rfl, hcount₂⟩ := hcleanup₂.count
  show (passing docs).Holds t _ (cleanupConversationDocs c.workspace c.config.conversationRetentionDays >>= _) s₂
  refine Outline.Holds.bind (cleanup_holds horderly hconversations honward₂.held (honward₂.begun hbegun₁) hsub₂) ?_
  rintro r s₃ ⟨notes₃, honward₃, hsub₃, hcleanup₃⟩
  obtain ⟨n₃, rfl, hcount₃⟩ := hcleanup₃.count
  have hnotes : s₃.notesOf t = .started i.now :: (notes₂ ++ notes₃) := by
    rw [honward₃.notes, honward₂.notes, hnotes₁]
    rfl
  refine Outline.holds_ret ⟨honward₃.held, _, rfl, ?_, ?_, ?_⟩
  · rw [hnotes, ← List.singleton_append, deletedIn_append, deletedIn_append, deletedIn_same hcleanup₂.within,
      deletedIn_other (by decide) (by decide) (by decide) hcleanup₃.within, hcount₂]
    simp [deletedIn]
  · rw [hnotes, ← List.singleton_append, deletedIn_append, deletedIn_append, deletedIn_same hcleanup₃.within,
      deletedIn_other (by decide) (by decide) (by decide) hcleanup₂.within, hcount₃]
    simp [deletedIn]
  · intro _
    refine ⟨i.now, by rw [hnotes]; exact List.mem_cons_self, ?_⟩
    rintro d hd ⟨dir, days, hmem, hstale⟩ hleaf
    rw [hnotes]
    simp only [directories, List.mem_cons, Prod.mk.injEq, List.not_mem_nil, or_false] at hmem
    rcases hmem with ⟨rfl, rfl⟩ | ⟨rfl, rfl⟩
    · apply (hcleanup₂.settled d hd (by rw [hclock₁]; exact hstale) hleaf).mono honward₃.shrinks
      exact fun n hn => List.mem_cons_of_mem _ (List.mem_append_left _ hn)
    · have hlater : i.now ≤ s₂.clock := by rw [← hclock₁]; exact honward₂.clock
      apply (hcleanup₃.settled d hd (hstale.later hlater) hleaf).mono (fun _ h => h)
      exact fun n hn => List.mem_cons_of_mem _ (List.mem_append_right _ hn)

/-- A report of a call that did nothing. -/
theorem reported_skipped (hnotes : s.notesOf t = []) : Reported docs t c { skipped := true } s := by
  refine ⟨?_, ?_, fun hran => by cases hran⟩
  · rw [hnotes]
    rfl
  · rw [hnotes]
    rfl

/-- **The pass with the flag held.** -/
theorem guardedPass_holds (horderly : Orderly docs) (h : Fresh docs t c s) :
    (passing docs).Holds t (fun out s' => s'.running = some (t, c) ∧ ∃ report, out = .ok report ∧
      Reported docs t c report s') (guardedPass c) s := by
  unfold guardedPass
  have hcadence : (passing docs).Holds t (fun skip s' => Fresh docs t c s' ∧ (skip = false →
      ∀ l, s'.lastRun = some l → l + c.config.cadenceHours * nanosPerHour ≤ s'.clock)) (checkCadence c) s := by
    unfold checkCadence
    refine holds_held (o := .loadState) h.held fun i hworks hsound => ⟨hsound, fun _ hd => hd, ?_⟩
    have hworks : i.fails = false := hworks
    simp only [HygieneWorld.perform, hworks, Bool.false_eq_true, if_false]
    cases hlast : s.lastRun with
    | none =>
      refine Outline.holds_ret ⟨h, fun _ l hl => ?_⟩
      rw [hlast] at hl
      cases hl
    | some lastRun =>
      refine holds_held (o := .now) h.held fun i _ hsound => ⟨hsound.same rfl rfl rfl, fun _ hd => hd, ?_⟩
      refine Outline.holds_ret ⟨⟨h.held, h.notes, h.sub⟩, fun hskip l hl => ?_⟩
      have hl : s.lastRun = some l := hl
      rw [hlast] at hl
      cases hl
      have hnot : ¬ (i.now - lastRun < c.config.cadenceHours * nanosPerHour) := of_decide_eq_false hskip
      show lastRun + _ ≤ i.now
      omega
  refine Outline.Holds.bind hcadence ?_
  rintro skip s' ⟨hfresh, hdue⟩
  cases skip with
  | true => exact Outline.holds_ret ⟨hfresh.held, _, rfl, reported_skipped hfresh.notes⟩
  | false => exact cleanupPass_holds horderly hfresh (hdue rfl)

/-- **A call of `run_if_due`.** -/
theorem runIfDue_holds (horderly : Orderly docs) (hpre : (passing docs).Pre t s) :
    (passing docs).Holds t ((passing docs).Post t c) (runIfDue c) s := by
  unfold runIfDue
  split
  next => exact Outline.holds_ret ⟨_, rfl, reported_skipped hpre.2⟩
  next =>
    refine Outline.holds_op fun s' hseen hsound i a s'' hperform _ => ?_
    obtain ⟨hfree, hnotes⟩ := (passing docs).pre_stable hpre hseen
    have hpair : HygieneWorld.perform t (.acquire c) i s' = (a, s'') := Option.some.inj hperform
    simp only [HygieneWorld.perform] at hpair
    split at hpair
    next =>
      -- Another pass is under way.
      obtain ⟨rfl, rfl⟩ := Prod.mk.inj hpair
      exact ⟨⟨hsound, fun t' _ => Seen.refl t' s'⟩, Outline.holds_ret ⟨_, rfl, reported_skipped hnotes⟩⟩
    next hfree' =>
      obtain ⟨rfl, rfl⟩ := Prod.mk.inj hpair
      have hnone : s'.running = none := by simpa using hfree'
      refine ⟨⟨hsound.same rfl rfl rfl, ?_⟩, ?_⟩
      · intro t' ht'
        refine ⟨?_, ?_, rfl, fun _ hd => hd⟩
        · intro c' hc'
          rw [hnone] at hc'
          cases hc'
        · intro c' hc'
          exact absurd (Prod.mk.inj (Option.some.inj hc')).1.symm ht'
      · show (passing docs).Holds t _ (guardedPass c >>= _) _
        refine Outline.Holds.bind (guardedPass_holds horderly ⟨rfl, hnotes, hsound.sub⟩) ?_
        rintro out s₁ ⟨hheld, report, rfl, hdaily, hconversations, hcomplete⟩
        refine holds_held (o := .release) hheld fun i _ hsound => ⟨hsound.same rfl rfl rfl, fun _ hd => hd, ?_⟩
        exact Outline.holds_ret ⟨report, rfl, hdaily, hconversations, hcomplete⟩

/-! ## Whose pass it is -/

/-- A call only takes the flag in its own name. -/
def InOwnName (c : HygieneCall) (o : HygieneOp) : Prop := ∀ c', o = .acquire c' → c' = c

theorem perform_every {o : HygieneOp} (h : InOwnName c o) : (perform o).Every (InOwnName c) :=
  Prog.every_call h

theorem onStore_every (x : StoreM α) : (onStore x).Every (InOwnName c) :=
  Prog.every_lift (fun _ _ h => by cases h) _

theorem deleteStale_every (w : Workspace) (dir : String) (cutoff : Int) (entries : List WorkspaceEntry) (deleted : Nat) :
    (deleteStale w dir cutoff deleted entries).Every (InOwnName c) := by
  induction entries generalizing deleted with
  | nil => exact Prog.every_ret
  | cons entry rest ih =>
    unfold deleteStale
    split
    next => exact ih deleted
    next =>
      split
      next => exact ih deleted
      next =>
        split
        next => exact ih deleted
        next =>
          split
          next =>
            refine Prog.Every.bind (onStore_every _) fun r => ?_
            cases r with
            | error e => exact ih deleted
            | ok u => exact ih ((deleted + 1) % 2 ^ 32)
          next => exact ih deleted

theorem cleanup_every (dir : String) (w : Workspace) (days : Nat) : (cleanup dir w days).Every (InOwnName c) := by
  unfold cleanup
  refine Prog.Every.bind (perform_every (fun _ h => by cases h)) fun cutoff => ?_
  cases cutoff with
  | none => exact Prog.every_ret
  | some cutoff =>
    refine Prog.Every.bind (onStore_every _) fun r => ?_
    cases r with
    | error e => exact Prog.every_ret
    | ok entries => exact Prog.Every.bind (deleteStale_every w dir cutoff entries 0) fun _ => Prog.every_ret

theorem runIfDue_every (c : HygieneCall) : (runIfDue c).Every (InOwnName c) := by
  have hpass : (cleanupPass c).Every (InOwnName c) := by
    unfold cleanupPass
    refine Prog.Every.bind (perform_every (fun _ h => by cases h)) fun _ => ?_
    refine Prog.Every.bind (perform_every (fun _ h => by cases h)) fun _ => ?_
    refine Prog.Every.bind (cleanup_every _ _ _) fun r => ?_
    cases r with
    | error p => exact Prog.every_ret
    | ok daily =>
      refine Prog.Every.bind (cleanup_every _ _ _) fun r => ?_
      cases r with
      | error p => exact Prog.every_ret
      | ok conversations => exact Prog.every_ret
  have hcadence : (checkCadence c).Every (InOwnName c) := by
    unfold checkCadence
    refine Prog.Every.bind (perform_every (fun _ h => by cases h)) fun r => ?_
    cases r with
    | none => exact Prog.every_ret
    | some lastRun => exact Prog.Every.bind (perform_every (fun _ h => by cases h)) fun _ => Prog.every_ret
  unfold runIfDue
  split
  next => exact Prog.every_ret
  next =>
    refine Prog.Every.bind (perform_every fun c' h => by cases h; rfl) fun acquired => ?_
    split
    next => exact Prog.every_ret
    next =>
      refine Prog.Every.bind ?_ fun _ =>
        Prog.Every.bind (perform_every (fun _ h => by cases h)) fun _ => Prog.every_ret
      unfold guardedPass
      refine Prog.Every.bind hcadence fun skip => ?_
      split
      next => exact Prog.every_ret
      next => exact hpass

/-- Task `t` is a call `c`. -/
def MadeBy (cfg : hygiene.Config) (t : Nat) (c : HygieneCall) : Prop := ∃ rest, cfg.tasks t = some ⟨c, rest⟩

/-- The flag and the history name calls that were made. -/
structure Attributed (cfg : hygiene.Config) : Prop where
  obeys : Machine.Obeys InOwnName cfg
  holder : ∀ t c, cfg.shared.running = some (t, c) → MadeBy cfg t c
  events : ∀ e ∈ cfg.shared.history, MadeBy cfg e.task e.call

/-- What an operation does to the flag and the history. -/
theorem perform_attributes (t : Nat) (o : HygieneOp) (i : HygieneInput) (s : HygieneWorld) :
    ((s.perform t o i).2.running = s.running ∨ (s.perform t o i).2.running = none ∨
      ∃ c, o = .acquire c ∧ (s.perform t o i).2.running = some (t, c)) ∧
    ∀ e ∈ (s.perform t o i).2.history, e ∈ s.history ∨ s.running = some (e.task, e.call) := by
  have hnoting : ∀ (s : HygieneWorld) notes, (s.noting notes).running = s.running ∧
      ∀ e ∈ (s.noting notes).history, e ∈ s.history ∨ s.running = some (e.task, e.call) := by
    intro s notes
    cases hrunning : s.running with
    | none => simp [HygieneWorld.noting, hrunning]
    | some holder =>
      simp only [HygieneWorld.noting, hrunning]
      refine ⟨trivial, fun e he => ?_⟩
      rcases List.mem_append.mp he with he | he
      · exact .inl he
      · obtain ⟨n, -, rfl⟩ := List.mem_map.mp he
        exact .inr rfl
  cases o with
  | acquire c =>
    simp only [HygieneWorld.perform]
    split
    next => exact ⟨.inl rfl, fun e he => .inl he⟩
    next => exact ⟨.inr (.inr ⟨c, rfl, rfl⟩), fun e he => .inl he⟩
  | release => exact ⟨.inr (.inl rfl), fun e he => .inl he⟩
  | saveState lastRun =>
    simp only [HygieneWorld.perform]
    split
    next => exact ⟨.inl (hnoting _ _).1, (hnoting _ _).2⟩
    next => exact ⟨.inl (hnoting _ _).1, (hnoting { s with lastRun := some lastRun } _).2⟩
  | db o => exact ⟨.inl (hnoting _ _).1, (hnoting _ _).2⟩
  | _ => exact ⟨.inl rfl, fun e he => .inl he⟩

theorem attributed_of_run {C : hygiene.Config → hygiene.Label → Prop} {ls : List hygiene.Label} {cfg : hygiene.Config}
    (run : Runs hygiene.step C (hygiene.initial s) ls cfg) (hfree : s.running = none) (hnew : s.history = []) :
    Attributed cfg := by
  refine run.invariant (P := fun _ cfg => Attributed cfg) ?_ ?_
  · refine ⟨(by intro t task h; cases h), ?_, ?_⟩
    · intro t c h
      have h : s.running = some (t, c) := h
      rw [hfree] at h
      cases h
    · intro e he
      have he : e ∈ s.history := he
      rw [hnew] at he
      cases he
  intro _ cfg cfg' l h _ hstep
  have hobeys := h.obeys.step runIfDue_every hstep
  rcases Machine.step_cases hstep with ⟨t, c, rfl, hnone, rfl⟩ | ⟨t, i, c, o, next, a, s', rfl, htask, hop, rfl⟩
  · have hkept : ∀ t' c', MadeBy cfg t' c' →
        MadeBy ⟨cfg.shared, Function.update cfg.tasks t (some ⟨c, hygiene.body c⟩)⟩ t' c' := by
      rintro t' c' ⟨rest, hrest⟩
      have hne : t' ≠ t := by
        rintro rfl
        rw [hnone] at hrest
        cases hrest
      exact ⟨rest, (Function.update_of_ne hne ..).trans hrest⟩
    exact ⟨hobeys, fun t' c' hheld => hkept t' c' (h.holder t' c' hheld), fun e he => hkept _ _ (h.events e he)⟩
  · have hkept : ∀ t' c', MadeBy cfg t' c' →
        MadeBy ⟨s', Function.update cfg.tasks t (some ⟨c, next a⟩)⟩ t' c' := by
      rintro t' c' ⟨rest, hrest⟩
      by_cases ht : t' = t
      · subst ht
        rw [htask] at hrest
        cases hrest
        exact ⟨next a, Function.update_self ..⟩
      · exact ⟨rest, (Function.update_of_ne ht ..).trans hrest⟩
    have hpair : HygieneWorld.perform t o i cfg.shared = (a, s') := Option.some.inj hop
    obtain ⟨hrunning, hhistory⟩ := perform_attributes t o i cfg.shared
    rw [hpair] at hrunning hhistory
    refine ⟨hobeys, ?_, ?_⟩
    · intro t' c' hheld
      have hheld : s'.running = some (t', c') := hheld
      rcases hrunning with hsame | hnone | ⟨c'', hacquire, hsome⟩
      · exact hkept t' c' (h.holder t' c' (hsame ▸ hheld))
      · rw [hnone] at hheld
        cases hheld
      · rw [hsome] at hheld
        cases hheld
        rw [(h.obeys t _ htask).head c' hacquire]
        exact ⟨next a, Function.update_self ..⟩
    · intro e he
      rcases hhistory e he with hold | hheld
      · exact hkept _ _ (h.events e hold)
      · exact hkept _ _ (h.holder _ _ hheld)

/-! ## All callers -/

/-- What is asked of hygiene, when the documents were `docs` at first: what is gone was deleted by a pass of a
    caller that might delete it then; passes start at least a cadence apart; and every call returns a report of
    all it deleted, having deleted all it should. -/
structure Hygienic (docs : List DocumentRow) (cfg : hygiene.Config) : Prop where
  sub : cfg.shared.db.documents.Sublist docs
  gone : ∀ d ∈ docs, d ∉ cfg.shared.db.documents → ∃ e ∈ cfg.shared.history, ∃ time, e.note = .deleted d time
  fair : ∀ e ∈ cfg.shared.history, MadeBy cfg e.task e.call ∧ Begun e.task cfg.shared ∧
    ∀ d time, e.note = .deleted d time → MayDelete e.call time d
  apart : cfg.shared.history.Pairwise fun e e' => ∀ a b, e.note = .started a → e'.note = .started b →
    a + e'.call.config.cadenceHours * nanosPerHour ≤ b
  reports : ∀ t c out, cfg.Returned t c out → ∃ report, out = .ok report ∧ Reported docs t c report cfg.shared

/-- Nobody has called yet. -/
def HygieneWorld.initial (db : Db) (lastRun : Option Int) (clock : Int) : HygieneWorld := ⟨db, none, lastRun, clock, []⟩

/-- **Hygiene deletes only what it may**, in every interleaving of callers, on orderly documents, as long as the
    state file works, the clock does not go back, and no cutoff is before chrono's first date. -/
theorem hygiene_deletes_what_it_may {db : Db} {lastRun : Option Int} {clock : Int} {ls : List hygiene.Label}
    {cfg : hygiene.Config} (horderly : Orderly db.documents)
    (run : Runs hygiene.step (hygiene.StepsMeet Orderly.step) (hygiene.initial (.initial db lastRun clock)) ls cfg) :
    Hygienic db.documents cfg := by
  have hsound : Sound db.documents (.initial db lastRun clock) := by
    refine ⟨List.Sublist.refl _, fun d hd hnot => absurd hd hnot, ?_, List.Pairwise.nil, ?_, ?_⟩
    · intro e he
      cases he
    · intro e he
      cases he
    · intro e he
      cases he
  have hgood : (passing db.documents).Good cfg := by
    refine Outline.run run hsound (fun t => ⟨(by intro c hc; cases hc), rfl⟩) ?_ ?_
    · intro cfg t i c o next _ hmeets htask
      exact hmeets c o next htask
    · intro t s c _ hpre
      exact runIfDue_holds horderly hpre
  have hattributed := attributed_of_run run rfl rfl
  refine ⟨hgood.inv.sub, hgood.inv.gone, ?_, hgood.inv.apart, fun t c out hret => hgood.post hret⟩
  intro e he
  exact ⟨hattributed.events e he, hgood.inv.begun e he, hgood.inv.fair e he⟩

/-- `Orderly.step`, computed. -/
def orderlyStep (_ : Nat) (o : HygieneOp) (i : HygieneInput) (s : HygieneWorld) : Bool :=
  match o with
  | .loadState => !i.fails
  | .saveState _ => !i.fails
  | .now => decide (s.clock ≤ i.now)
  | .cutoff days => decide (s.clock ≤ i.now) && decide (minUtc ≤ i.now - days * nanosPerDay)
  | _ => true

theorem orderlyStep_sound (t : Nat) (o : HygieneOp) (i : HygieneInput) (s : HygieneWorld)
    (h : orderlyStep t o i s = true) : Orderly.step t o i s := by
  cases o with
  | loadState => simpa [orderlyStep, Orderly.step] using h
  | saveState lastRun => simpa [orderlyStep, Orderly.step] using h
  | now => simpa [orderlyStep, Orderly.step] using h
  | cutoff days => simpa [orderlyStep, Orderly.step] using h
  | _ => exact True.intro

/-- One user, and a log of the day the epoch began. -/
def oldLog : Db := ((Db.empty false).insertDocument "u" none "daily/x" ⟨none, 0, 0, 7⟩).2

/-- A call with this retention of daily logs. -/
def clean (days : Nat) : HygieneCall := ⟨⟨"u", none⟩, { dailyRetentionDays := days }⟩

/-- An operation of task `t` on the fortieth day; no statement fails. -/
def onDay40 (t : Nat) : hygiene.Label := .step t ⟨40 * nanosPerDay, false, ⟨none, 0, 0, 0⟩⟩

/-- A call, and `n` operations of it. -/
def cleaning (days n : Nat) : List hygiene.Label := .start 0 (clean days) :: List.replicate n (onDay40 0)

/-- Task 0 has returned, and this is what. -/
def returned (cfg : hygiene.Config) : Option (Except Panic HygieneReport) :=
  match cfg.tasks 0 with
  | some ⟨_, .ret out⟩ => some out
  | _ => none

theorem returned_of {cfg : hygiene.Config} {out : Except Panic HygieneReport} (h : returned cfg = some out) :
    ∃ c, cfg.Returned 0 c out := by
  rw [returned] at h
  split at h
  next c out' htask =>
    cases h
    exact ⟨c, htask⟩
  next => cases h

theorem oldLog_orderly : Orderly oldLog.documents := by
  have hrows : oldLog.documents = [⟨7, "u", none, "daily/x", "", some 0⟩] := by decide
  rw [hrows]
  refine ⟨by decide, ?_, ?_⟩
  · intro d hd _ _ _
    rw [List.mem_singleton.mp hd]
    decide
  · intro d hd _ _ _ e he _
    rw [List.mem_singleton.mp hd, List.mem_singleton.mp he]

theorem old_log_is_deleted : ∃ cfg, Runs hygiene.step (hygiene.StepsMeet Orderly.step)
    (hygiene.initial (.initial oldLog none 0)) (cleaning 30 12) cfg ∧
    returned cfg = some (.ok { dailyLogsDeleted := 1 }) ∧ cfg.shared.db.documents = [] ∧
    Hygienic oldLog.documents cfg := by
  have hcomputed : ((cleaning 30 12).foldlM
      (fun cfg l => if Machine.stepsMeet orderlyStep cfg l then hygiene.step cfg l else none)
      (hygiene.initial (.initial oldLog none 0))).map
        (fun cfg => (returned cfg, cfg.shared.db.documents)) = some (some (.ok { dailyLogsDeleted := 1 }), []) := by
    decide
  obtain ⟨cfg, hls, hobserved⟩ := Option.map_eq_some_iff.mp hcomputed
  obtain ⟨hreturned, hdocuments⟩ := Prod.mk.inj hobserved
  have run := Runs.of_checked (C := hygiene.StepsMeet Orderly.step) (Machine.stepsMeet_sound orderlyStep_sound) hls
  exact ⟨cfg, run, hreturned, hdocuments, hygiene_deletes_what_it_may oldLog_orderly run⟩

/-- With the largest retention there is, the date arithmetic panics. -/
theorem largest_retention_panics : ∃ cfg, Runs hygiene.step (fun _ _ => True)
    (hygiene.initial (.initial (Db.empty false) none 0)) (cleaning 4294967295 6) cfg ∧
    returned cfg = some (.error .outOfRange) ∧ ¬ Hygienic [] cfg := by
  have hcomputed : ((cleaning 4294967295 6).foldlM hygiene.step
      (hygiene.initial (.initial (Db.empty false) none 0))).map returned = some (some (.error .outOfRange)) := by
    decide
  obtain ⟨cfg, hls, hreturned⟩ := Option.map_eq_some_iff.mp hcomputed
  refine ⟨cfg, Runs.of_foldlM hls, hreturned, fun hhygienic => ?_⟩
  obtain ⟨c, hc⟩ := returned_of hreturned
  obtain ⟨report, hreport, -⟩ := hhygienic.reports 0 c _ hc
  cases hreport

end Freeclawdia.Memory
