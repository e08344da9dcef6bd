import Freeclawdia.Correctness.UndoRedo

/-!
# `Correctness.Compaction` — compaction is all or nothing, and turns are numbered by position

A compaction that fails leaves the thread as it was; one that succeeds leaves the most recent turns, as many as its
strategy keeps. Whatever edits the list of turns keeps them numbered from 0, and so a checkpoint knows how many
turns it stands for: its own number is one more, since it is counted from 1 for display.
-/

namespace Freeclawdia.Compaction

open Rust UndoRedo

variable {W : Type} {env : Env W}

/-! ## One compaction -/

/-- How many of the most recent turns a strategy keeps. -/
def kept (env : Env W) : CompactionStrategy → Nat
  | .summarize keepRecent => keepRecent
  | .truncate keepRecent => keepRecent
  | .moveToWorkspace => if env.hasWorkspace then 10 else 5

/-- A turn but for its number. -/
def unnumbered (t : Turn) : Turn := { t with turnNumber := 0 }

/-- The turns are the most recent `keep` of the others, in order and with their content. -/
def MostRecent (keep : Nat) (turns turns' : List Turn) : Prop :=
  turns'.map unnumbered = (turns.drop (turns.length - keep)).map unnumbered

/-- What is asked of a compaction. -/
def AllOrNothing (env : Env W) (thread : Thread) (strategy : CompactionStrategy) (r : Except Error CompactionResult)
    (thread' : Thread) : Prop :=
  match r with
  | .error _ => thread'.turns = thread.turns
  | .ok _ => MostRecent (kept env strategy) thread.turns thread'.turns

theorem unnumbered_renumber (turns : List Turn) : (Thread.renumber turns).map unnumbered = turns.map unnumbered := by
  apply List.ext_getElem?
  intro i
  simp only [Thread.renumber, List.getElem?_map, List.getElem?_mapIdx]
  cases turns[i]? with
  | none => rfl
  | some t => rfl

variable (thread : Thread)

theorem mostRecent_truncateTurns (keep : Nat) :
    MostRecent keep thread.turns (thread.truncateTurns keep).turns := by
  unfold MostRecent Thread.truncateTurns
  split
  next => exact unnumbered_renumber _
  next hfew =>
    have hnone : thread.turns.length - keep = 0 := by omega
    rw [hnone, List.drop_zero]

variable {turns : List Turn}

/-- With no more turns than are kept, all are. -/
theorem mostRecent_self {keep : Nat} (h : turns.length ≤ keep) : MostRecent keep turns turns := by
  have hnone : turns.length - keep = 0 := by omega
  rw [MostRecent, hnone, List.drop_zero]

theorem compactWithSummary_allOrNothing (keepRecent : Nat) (tr : Trace W) :
    AllOrNothing env thread (.summarize keepRecent) (compactWithSummary env thread keepRecent tr).1
      (compactWithSummary env thread keepRecent tr).2.1 := by
  unfold compactWithSummary
  split
  next hfew => exact mostRecent_self hfew
  next =>
    split
    next e tr' hsummary => exact rfl
    next summary tr' hsummary =>
      -- The summary may or may not be written; the turns are cut in both cases.
      exact mostRecent_truncateTurns thread keepRecent

theorem compactToWorkspace_allOrNothing (tr : Trace W) :
    MostRecent (kept env .moveToWorkspace) thread.turns (compactToWorkspace env thread tr).2.1.turns := by
  show MostRecent (if env.hasWorkspace then 10 else 5) _ _
  unfold compactToWorkspace
  split
  next =>
    split
    next hfew => exact mostRecent_self hfew
    next => exact mostRecent_truncateTurns thread 10
  next => exact mostRecent_truncateTurns thread 5

/-- **A compaction is all or nothing.** -/
theorem compactThread_allOrNothing (strategy : CompactionStrategy) (tr : Trace W) :
    AllOrNothing env thread strategy (compactThread env thread strategy tr).1
      (compactThread env thread strategy tr).2.1 := by
  cases strategy with
  | summarize keepRecent => exact compactWithSummary_allOrNothing thread keepRecent tr
  | truncate keepRecent => exact mostRecent_truncateTurns thread keepRecent
  | moveToWorkspace => exact compactToWorkspace_allOrNothing thread tr

/-! ## Numbering -/

/-- The turns are numbered by position. -/
def Numbered (turns : List Turn) : Prop := ∀ (i : Nat) (t : Turn), turns[i]? = some t → t.turnNumber = i

theorem numbered_append (h : Numbered turns) (input : String) : Numbered (turns ++ [Turn.new turns.length input]) := by
  intro i t ht
  rcases Nat.lt_trichotomy i turns.length with hlt | rfl | hgt
  · rw [List.getElem?_append_left hlt] at ht
    exact h i t ht
  · rw [List.getElem?_concat_length] at ht
    cases ht
    rfl
  · rw [List.getElem?_eq_none (by simp; omega)] at ht
    cases ht

theorem numbered_renumber (turns : List Turn) : Numbered (Thread.renumber turns) := by
  intro i t ht
  rw [Thread.renumber, List.getElem?_mapIdx] at ht
  obtain ⟨t', -, rfl⟩ := Option.map_eq_some_iff.mp ht
  rfl

variable {thread : Thread}

/-- A change of the last turn that leaves its number alone. -/
theorem numbered_modifyLastTurn (h : Numbered thread.turns) {f : Turn → Turn} (hf : ∀ t, (f t).turnNumber = t.turnNumber) :
    Numbered (thread.modifyLastTurn f).turns := by
  intro i t ht
  rw [Thread.modifyLastTurn, List.getElem?_modify] at ht
  obtain ⟨t', ht', heq⟩ := Option.map_eq_some_iff.mp ht
  rw [← heq]
  split
  next => rw [hf, h i t' ht']
  next => exact h i t' ht'

/-- Rebuilt turns are numbered from where the numbering starts. -/
theorem restoreTurns_numbers (n : Nat) (messages : List ChatMessage) (i : Nat) (t : Turn)
    (h : (Thread.restoreTurns n messages)[i]? = some t) : t.turnNumber = n + i := by
  induction n, messages using Thread.restoreTurns.induct generalizing i with
  | case1 n => cases h
  | case2 n m hrole =>
    rw [Thread.restoreTurns, if_pos hrole] at h
    cases i with
    | zero =>
      cases h
      rfl
    | succ i => cases h
  | case3 n m hrole =>
    rw [Thread.restoreTurns, if_neg hrole] at h
    cases h
  | case4 n m next rest hrole hnext ih =>
    rw [Thread.restoreTurns, if_pos hrole, if_pos hnext] at h
    cases i with
    | zero =>
      cases h
      rfl
    | succ i =>
      rw [List.getElem?_cons_succ] at h
      rw [ih i h]
      omega
  | case5 n m next rest hrole hnext ih =>
    rw [Thread.restoreTurns, if_pos hrole, if_neg hnext] at h
    cases i with
    | zero =>
      cases h
      rfl
    | succ i =>
      rw [List.getElem?_cons_succ] at h
      rw [ih i h]
      omega
  | case6 n m next rest hrole ih =>
    rw [Thread.restoreTurns, if_neg hrole] at h
    exact ih i h

theorem numbered_restoreTurns (messages : List ChatMessage) : Numbered (Thread.restoreTurns 0 messages) := by
  intro i t ht
  rw [restoreTurns_numbers 0 messages i t ht, Nat.zero_add]

theorem numbered_truncateTurns (h : Numbered thread.turns) (keep : Nat) :
    Numbered (thread.truncateTurns keep).turns := by
  unfold Thread.truncateTurns
  split
  next => exact numbered_renumber _
  next => exact h

theorem numbered_compactThread (h : Numbered thread.turns) (strategy : CompactionStrategy) (tr : Trace W) :
    Numbered (compactThread env thread strategy tr).2.1.turns := by
  cases strategy with
  | summarize keepRecent =>
    show Numbered (compactWithSummary env thread keepRecent tr).2.1.turns
    unfold compactWithSummary
    split
    next => exact h
    next =>
      split
      next => exact h
      next => exact numbered_truncateTurns h keepRecent
  | truncate keepRecent => exact numbered_truncateTurns h keepRecent
  | moveToWorkspace =>
    show Numbered (compactToWorkspace env thread tr).2.1.turns
    unfold compactToWorkspace
    split
    next =>
      split
      next => exact h
      next => exact numbered_truncateTurns h 10
    next => exact numbered_truncateTurns h 5

/-! ## Runs -/

/-- What edits the turns of a thread, and what takes and restores checkpoints of it. -/
inductive ThreadOp
  | startTurn (userInput : String)
  | completeTurn (response : String)
  | failTurn (error : String)
  | truncateTurns (keep : Nat)
  | restoreFromMessages (messages : List ChatMessage)
  | compact (strategy : CompactionStrategy)
  | checkpoint (newId : Uuid) (description : String)
  | undo (newId : Uuid)
  | redo (newId : Uuid)

/-- One operation on a thread with its undo manager. -/
def ThreadOp.apply (env : Env W) (s : Pair × Trace W) : ThreadOp → Pair × Trace W
  | startTurn userInput => ({ s.1 with thread := s.1.thread.startTurn userInput }, s.2)
  | completeTurn response => ({ s.1 with thread := s.1.thread.completeTurn response }, s.2)
  | failTurn error => ({ s.1 with thread := s.1.thread.failTurn error }, s.2)
  | truncateTurns keep => ({ s.1 with thread := s.1.thread.truncateTurns keep }, s.2)
  | restoreFromMessages messages => ({ s.1 with thread := s.1.thread.restoreFromMessages messages }, s.2)
  | compact strategy =>
    ({ s.1 with thread := (compactThread env s.1.thread strategy s.2).2.1 },
      (compactThread env s.1.thread strategy s.2).2.2)
  | checkpoint newId description => (Op.apply s.1 (.checkpoint newId description), s.2)
  | undo newId => (s.1.undo newId, s.2)
  | redo newId => (s.1.redo newId, s.2)

/-- A fresh thread, after some operations. -/
def after (env : Env W) (tid : Uuid) (tr : Trace W) (ops : List ThreadOp) : Pair × Trace W :=
  ops.foldl (ThreadOp.apply env) (⟨Thread.withId tid, UndoManager.new⟩, tr)

/-- What a run keeps: turns are numbered, and checkpoints stand for turns. -/
structure Kept (p : Pair) : Prop where
  numbered : Numbered p.thread.turns
  inv : Inv defaultMaxCheckpoints p

variable {p : Pair}

/-- A thread that moves on by itself. -/
theorem Kept.turn (h : Kept p) (hnumbered : Numbered thread.turns) :
    Kept { p with thread } := ⟨hnumbered, inv_apply h.inv (.turn thread)⟩

theorem numbered_moved (h : Numbered p.thread.turns) : (r : Option Checkpoint × UndoManager) →
    Numbered (p.moved r).thread.turns
  | (some _, _) => numbered_restoreTurns _
  | (none, _) => h

/-- **One operation.** -/
theorem kept_apply {s : Pair × Trace W} (h : Kept s.1) (op : ThreadOp) : Kept (op.apply env s).1 := by
  cases op with
  | startTurn userInput => exact h.turn (numbered_append h.numbered userInput)
  | completeTurn response => exact h.turn (numbered_modifyLastTurn h.numbered fun _ => rfl)
  | failTurn error => exact h.turn (numbered_modifyLastTurn h.numbered fun _ => rfl)
  | truncateTurns keep => exact h.turn (numbered_truncateTurns h.numbered keep)
  | restoreFromMessages messages => exact h.turn (numbered_restoreTurns messages)
  | compact strategy => exact h.turn (numbered_compactThread h.numbered strategy s.2)
  | checkpoint newId description => exact ⟨h.numbered, inv_apply h.inv (.checkpoint newId description)⟩
  | undo newId => exact ⟨numbered_moved h.numbered _, inv_undo h.inv newId⟩
  | redo newId => exact ⟨numbered_moved h.numbered _, inv_redo h.inv newId⟩

/-- **Every run.** -/
theorem kept_after (tid : Uuid) (tr : Trace W) (ops : List ThreadOp) : Kept (after env tid tr ops).1 := by
  have hstart : Kept ⟨Thread.withId tid, UndoManager.new⟩ := by
    refine ⟨fun i t ht => ?_, rfl, Nat.zero_le _, fun c hc => ?_, fun c hc => ?_⟩
    · cases ht
    · cases hc
    · cases hc
  suffices hall : ∀ s : Pair × Trace W, Kept s.1 → Kept (ops.foldl (ThreadOp.apply env) s).1 from hall _ hstart
  induction ops with
  | nil => exact fun s hs => hs
  | cons op ops ih => exact fun s hs => ih _ (kept_apply hs op)

/-- The number of turns a checkpoint stands for. -/
def turnsBefore (c : Checkpoint) : Nat := (Thread.restoreTurns 0 c.messages).length

theorem turnsBefore_checkpointed {c : Checkpoint} (h : Checkpointed c) : c.turnNumber = turnsBefore c + 1 := by
  obtain ⟨ts, hmessages, hnumber⟩ := h
  rw [turnsBefore, hmessages, (restoreTurns_messages ts 0).2, hnumber]

/-- **Compaction is all or nothing, turns are numbered by position, and a checkpoint's number is one more than the
    number of turns before it.** -/
theorem compaction_and_numbering (env : Env W) :
    (∀ thread strategy tr, AllOrNothing env thread strategy (compactThread env thread strategy tr).1
      (compactThread env thread strategy tr).2.1) ∧
    ∀ tid tr ops, Numbered (after env tid tr ops).1.thread.turns ∧
      ∀ c ∈ (after env tid tr ops).1.mgr.undoStack ++ (after env tid tr ops).1.mgr.redoStack,
        c.turnNumber = turnsBefore c + 1 := by
  refine ⟨compactThread_allOrNothing, fun tid tr ops => ?_⟩
  have hkept : Kept (after env tid tr ops).1 := kept_after tid tr ops
  refine ⟨hkept.numbered, fun c hc => turnsBefore_checkpointed ?_⟩
  rcases List.mem_append.mp hc with hc | hc
  · exact hkept.inv.undos c hc
  · exact hkept.inv.redos c hc

/-- The checkpoint taken before the first turn has number 1. -/
theorem first_checkpoint_is_one : ∃ c ∈ (after (Env.idle Unit) 7 { world := () }
    [.checkpoint 8 "Before turn 1"]).1.mgr.undoStack, turnsBefore c = 0 ∧ c.turnNumber = 1 :=
  ⟨_, List.mem_singleton.mpr rfl, rfl, rfl⟩

end Freeclawdia.Compaction
