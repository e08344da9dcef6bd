import Freeclawdia.Agent.ThreadOps
import Freeclawdia.Lib.Log

/-!
# `Correctness.UndoRedo` — undo and redo are exact

A thread and its undo manager form a history (`Lib.Log`): the undo stack's contents are the past, the
thread's turn number and messages the present, the redo stack's contents the future. Two facts make the
implementation exact although it keeps messages and rebuilds turns from them:

* every checkpoint was taken from some list of turns, so rebuilding it loses no message and restores its
  turn number (`Checkpointed`);
* the two stacks together never exceed the limit, so a redo trims nothing (`Inv.fits`).

Both are kept by every operation of a run (`inv_of_reachable`), and under them `process_undo` and
`process_redo` *are* the abstract undo and redo.
-/

namespace Freeclawdia.UndoRedo

open Rust

/-! ## Runs -/

/-- A thread with its undo manager. -/
structure Pair where
  thread : Thread
  mgr : UndoManager

/-- What happens to a thread and its undo manager. -/
inductive Op
  /-- The thread moves on by itself: turns start, end or are compacted. -/
  | turn (thread : Thread)
  | checkpoint (newId : Uuid) (description : String)
  | undo (newId : Uuid)
  | redo (newId : Uuid)
  | restore (checkpointId : Uuid)
  | clear

/-- The pair after an operation of the undo manager: a checkpoint it gives is restored. -/
def Pair.moved (p : Pair) : Option Checkpoint × UndoManager → Pair
  | (some c, mgr) => ⟨p.thread.restoreFromMessages c.messages, mgr⟩
  | (none, mgr) => ⟨p.thread, mgr⟩

/-- The effect of `process_undo` on the pair. -/
def Pair.undo (newId : Uuid) (p : Pair) : Pair := p.moved (p.mgr.undo newId p.thread.turnNumber p.thread.messages)

/-- The effect of `process_redo` on the pair. -/
def Pair.redo (newId : Uuid) (p : Pair) : Pair := p.moved (p.mgr.redo newId p.thread.turnNumber p.thread.messages)

/-- The effect of `process_resume` on the pair. -/
def Pair.restore (checkpointId : Uuid) (p : Pair) : Pair := p.moved (p.mgr.restore checkpointId)

/-- One operation of a run. -/
def Op.apply (p : Pair) : Op → Pair
  | turn thread => { p with thread }
  | checkpoint newId d => { p with mgr := p.mgr.checkpoint newId p.thread.turnNumber p.thread.messages d }
  | undo newId => p.undo newId
  | redo newId => p.redo newId
  | restore cid => p.restore cid
  | clear => ⟨{ p.thread with turns := [], state := .idle }, p.mgr.clear⟩

/-- The pairs a run reaches from a fresh undo manager with limit `max`. -/
def Reachable (max : Nat) (p : Pair) : Prop :=
  ∃ (thread : Thread) (ops : List Op),
    p = ops.foldl Op.apply ⟨thread, UndoManager.new.withMaxCheckpoints max⟩

/-! ## The invariant -/

/-- The checkpoint stands for a list of turns: their messages, and the number of the turn after them. -/
def Checkpointed (c : Checkpoint) : Prop :=
  ∃ ts : List Turn, c.messages = turnsMessages ts ∧ c.turnNumber = ts.length + 1

/-- What holds of a thread and its undo manager throughout a run. -/
structure Inv (max : Nat) (p : Pair) : Prop where
  limit : p.mgr.maxCheckpoints = max
  fits : p.mgr.undoCount + p.mgr.redoCount ≤ max
  undos : ∀ c ∈ p.mgr.undoStack, Checkpointed c
  redos : ∀ c ∈ p.mgr.redoStack, Checkpointed c

/-- A checkpoint of a thread's own turn number and messages stands for its turns. -/
theorem checkpointed_of_thread (t : Thread) (id : Uuid) (d : String) :
    Checkpointed { id, turnNumber := t.turnNumber, messages := t.messages, description := d } :=
  ⟨t.turns, rfl, rfl⟩

variable {c : Checkpoint}

/-- Restoring a checkpoint brings its messages and its turn number back. -/
theorem restore_checkpointed (t : Thread) (hc : Checkpointed c) :
    (t.restoreFromMessages c.messages).messages = c.messages
      ∧ (t.restoreFromMessages c.messages).turnNumber = c.turnNumber := by
  obtain ⟨ts, hm, hn⟩ := hc
  obtain ⟨hmsgs, hlen⟩ := restoreTurns_messages ts 0
  rw [hm, hn]
  refine ⟨hmsgs, ?_⟩
  show (Thread.restoreTurns 0 (turnsMessages ts)).length + 1 = ts.length + 1
  rw [hlen]

variable {init : List Checkpoint}

/-- What an undo does when there is something to undo. -/
theorem undo_append (p : Pair) (newId : Uuid) (h : p.mgr.undoStack = init ++ [c]) : p.undo newId =
      ⟨p.thread.restoreFromMessages c.messages, { p.mgr with
          undoStack := init
          redoStack := p.mgr.redoStack ++ [{
            id := newId
            turnNumber := p.thread.turnNumber
            messages := p.thread.messages
            description := s!"Turn {p.thread.turnNumber}" }] }⟩ := by
  simp [Pair.undo, Pair.moved, UndoManager.undo, h]

/-- With nothing to undo, nothing happens. -/
theorem undo_empty (p : Pair) (newId : Uuid) (h : p.mgr.undoStack = []) : p.undo newId = p := by
  simp [Pair.undo, Pair.moved, UndoManager.undo, h]

/-- What a redo does when there is something to redo and room for one more undo. -/
theorem redo_append (p : Pair) (newId : Uuid) (h : p.mgr.redoStack = init ++ [c])
    (hfit : p.mgr.undoCount + p.mgr.redoCount ≤ p.mgr.maxCheckpoints) : p.redo newId =
      ⟨p.thread.restoreFromMessages c.messages, { p.mgr with
          undoStack := p.mgr.undoStack ++ [{
            id := newId
            turnNumber := p.thread.turnNumber
            messages := p.thread.messages
            description := s!"Turn {p.thread.turnNumber}" }]
          redoStack := init }⟩ := by
  have hroom : p.mgr.undoCount + 1 ≤ p.mgr.maxCheckpoints := by
    simp only [UndoManager.redoCount, h, List.length_append, List.length_singleton] at hfit
    omega
  have hpush := UndoManager.pushUndo_undoStack p.mgr hroom (c := {
    id := newId
    turnNumber := p.thread.turnNumber
    messages := p.thread.messages
    description := s!"Turn {p.thread.turnNumber}" })
  simpa [Pair.redo, Pair.moved, UndoManager.redo, h] using hpush

/-- With nothing to redo, nothing happens. -/
theorem redo_empty (p : Pair) (newId : Uuid) (h : p.mgr.redoStack = []) : p.redo newId = p := by
  simp [Pair.redo, Pair.moved, UndoManager.redo, h]

variable {max : Nat} {p : Pair}

theorem inv_undo (hp : Inv max p) (newId : Uuid) : Inv max (p.undo newId) := by
  rcases List.eq_nil_or_concat p.mgr.undoStack with h | ⟨init, c, h⟩
  · rw [undo_empty p newId h]
    exact hp
  · have hcount := UndoManager.undo_counts p.mgr newId p.thread.turnNumber p.thread.messages
    rw [List.concat_eq_append] at h
    rw [undo_append p newId h]
    refine ⟨hp.limit, ?_, ?_, ?_⟩
    · have hfits := hp.fits
      simp only [UndoManager.undoCount, UndoManager.redoCount, h, List.length_append,
        List.length_singleton] at hfits ⊢
      omega
    · intro d hd
      exact hp.undos d (by rw [h]; exact List.mem_append_left _ hd)
    · intro d hd
      rcases List.mem_append.mp hd with hd | hd
      · exact hp.redos d hd
      · rw [List.mem_singleton.mp hd]
        exact checkpointed_of_thread p.thread _ _

theorem inv_redo (hp : Inv max p) (newId : Uuid) : Inv max (p.redo newId) := by
  rcases List.eq_nil_or_concat p.mgr.redoStack with h | ⟨init, c, h⟩
  · rw [redo_empty p newId h]
    exact hp
  · rw [List.concat_eq_append] at h
    have hfit : p.mgr.undoCount + p.mgr.redoCount ≤ p.mgr.maxCheckpoints := by rw [hp.limit]; exact hp.fits
    rw [redo_append p newId h hfit]
    refine ⟨hp.limit, ?_, ?_, ?_⟩
    · have hfits := hp.fits
      simp only [UndoManager.undoCount, UndoManager.redoCount, h, List.length_append,
        List.length_singleton] at hfits ⊢
      omega
    · intro d hd
      rcases List.mem_append.mp hd with hd | hd
      · exact hp.undos d hd
      · rw [List.mem_singleton.mp hd]
        exact checkpointed_of_thread p.thread _ _
    · intro d hd
      exact hp.redos d (by rw [h]; exact List.mem_append_left _ hd)

theorem inv_checkpoint (hp : Inv max p) (newId : Uuid) (d : String) : Inv max (Op.apply p (.checkpoint newId d)) := by
  refine ⟨hp.limit, ?_, ?_, ?_⟩
  · rw [← hp.limit]
    exact UndoManager.checkpoint_counts p.mgr newId p.thread.turnNumber p.thread.messages d
  · intro c hc
    -- Trimming drops from the front: what is left was on the stack or is the new checkpoint.
    have hmem : c ∈ p.mgr.undoStack ++ [{
        id := newId
        turnNumber := p.thread.turnNumber
        messages := p.thread.messages
        description := d }] := List.mem_of_mem_drop hc
    rcases List.mem_append.mp hmem with hc | hc
    · exact hp.undos c hc
    · rw [List.mem_singleton.mp hc]
      exact checkpointed_of_thread p.thread _ _
  · intro c hc
    exact absurd hc List.not_mem_nil

theorem inv_restore (hp : Inv max p) (cid : Uuid) : Inv max (p.restore cid) := by
  unfold Pair.restore UndoManager.restore
  cases hf : p.mgr.undoStack.findIdx? (fun c => c.id = cid) with
  | none => exact hp
  | some pos =>
    have hlt : pos < p.mgr.undoStack.length := by
      obtain ⟨h, _⟩ := List.findIdx?_eq_some_iff_getElem.mp hf
      exact h
    simp only [List.getElem?_eq_getElem hlt]
    refine ⟨hp.limit, ?_, ?_, ?_⟩
    · have hfits := hp.fits
      simp only [Pair.moved, UndoManager.undoCount, UndoManager.redoCount, List.length_take,
        List.length_nil] at hfits ⊢
      omega
    · intro c hc
      exact hp.undos c (List.mem_of_mem_take hc)
    · intro c hc
      exact absurd hc List.not_mem_nil

/-- Every operation keeps the invariant. -/
theorem inv_apply (hp : Inv max p) (op : Op) : Inv max (op.apply p) := by
  cases op with
  | turn thread => exact ⟨hp.limit, hp.fits, hp.undos, hp.redos⟩
  | checkpoint newId d => exact inv_checkpoint hp newId d
  | undo newId => exact inv_undo hp newId
  | redo newId => exact inv_redo hp newId
  | restore cid => exact inv_restore hp cid
  | clear =>
    refine ⟨hp.limit, Nat.zero_le _, ?_, ?_⟩
    · intro c hc
      exact absurd hc List.not_mem_nil
    · intro c hc
      exact absurd hc List.not_mem_nil

/-- **The invariant holds in every reachable state.** -/
theorem inv_of_reachable (hp : Reachable max p) : Inv max p := by
  obtain ⟨thread, ops, rfl⟩ := hp
  have hinit : Inv max ⟨thread, UndoManager.new.withMaxCheckpoints max⟩ := by
    refine ⟨rfl, Nat.zero_le _, ?_, ?_⟩
    · intro c hc
      exact absurd hc List.not_mem_nil
    · intro c hc
      exact absurd hc List.not_mem_nil
  generalize (⟨thread, UndoManager.new.withMaxCheckpoints max⟩ : Pair) = p at hinit ⊢
  induction ops generalizing p with
  | nil => exact hinit
  | cons op ops ih => exact ih (op.apply p) (inv_apply hinit op)

/-! ## Refinement of the abstract history -/

/-- What a checkpoint holds, its identifier and description aside. -/
def content (c : Checkpoint) : Nat × List ChatMessage := (c.turnNumber, c.messages)

/-- The history a thread and its undo manager stand for. -/
def Pair.abs (p : Pair) : History (Nat × List ChatMessage) where
  past := (p.mgr.undoStack.map content).reverse
  present := (p.thread.turnNumber, p.thread.messages)
  future := (p.mgr.redoStack.map content).reverse

/-- A restored checkpoint is the present of the history. -/
theorem present_restore (t : Thread) (hc : Checkpointed c) :
    ((t.restoreFromMessages c.messages).turnNumber, (t.restoreFromMessages c.messages).messages) = content c := by
  obtain ⟨hm, hn⟩ := restore_checkpointed t hc
  rw [hm, hn]
  rfl

/-- **`process_undo` is the abstract undo.** -/
theorem abs_undo (hp : Inv max p) (newId : Uuid) : (p.undo newId).abs = p.abs.undo := by
  rcases List.eq_nil_or_concat p.mgr.undoStack with h | ⟨init, c, h⟩
  · rw [undo_empty p newId h]
    simp [Pair.abs, History.undo, h]
  · rw [List.concat_eq_append] at h
    have hc : Checkpointed c := hp.undos c (by rw [h]; simp)
    have hpresent := present_restore p.thread hc
    rw [undo_append p newId h]
    simp [Pair.abs, History.undo, h, hpresent, content]

/-- **`process_redo` is the abstract redo.** -/
theorem abs_redo (hp : Inv max p) (newId : Uuid) : (p.redo newId).abs = p.abs.redo := by
  rcases List.eq_nil_or_concat p.mgr.redoStack with h | ⟨init, c, h⟩
  · rw [redo_empty p newId h]
    simp [Pair.abs, History.redo, h]
  · rw [List.concat_eq_append] at h
    have hc : Checkpointed c := hp.redos c (by rw [h]; simp)
    have hpresent := present_restore p.thread hc
    have hfit : p.mgr.undoCount + p.mgr.redoCount ≤ p.mgr.maxCheckpoints := by rw [hp.limit]; exact hp.fits
    rw [redo_append p newId h hfit]
    simp [Pair.abs, History.redo, h, hpresent, content]

/-! ## The handlers on the agent's state -/

section Handlers

variable {W : Type} (env : Env W) (user : String) (tid : Uuid)

/-- The thread and the undo manager a handler works on. -/
def pairOf (st : AgentState W) : Option Pair :=
  (st.thread user tid).map fun t => ⟨t, (st.manager.getUndoManager tid).1⟩

/-- Creating a missing undo manager does not change what a later lookup gives. -/
theorem getUndoManager_idem (m : SessionManager) :
    ((m.getUndoManager tid).2.getUndoManager tid).1 = (m.getUndoManager tid).1 := by
  show ((Map.insertIfAbsent tid UndoManager.new m.undoManagers).lookup tid).getD UndoManager.new
    = (m.undoManagers.lookup tid).getD UndoManager.new
  rw [Map.lookup_insertIfAbsent_self]
  rfl

variable {st : AgentState W}

/-- Storing an undo manager, seen on the pair. -/
theorem pairOf_setUndo {t : Thread} (ht : st.thread user tid = some t) (mgr : UndoManager) :
    pairOf user tid (st.setUndo tid mgr) = some ⟨t, mgr⟩ := by
  have hmgr : ((st.setUndo tid mgr).manager.getUndoManager tid).1 = mgr := by
    show ((st.manager.undoManagers.insert tid mgr).lookup tid).getD UndoManager.new = mgr
    rw [AList.lookup_insert]
    rfl
  unfold pairOf
  rw [AgentState.setUndo_thread, ht, hmgr]
  rfl

variable {p : Pair}

/-- Changing the thread, seen on the pair. -/
theorem pairOf_modifyThread (h : pairOf user tid st = some p) (f : Thread → Thread) :
    pairOf user tid (st.modifyThread user tid f) = some { p with thread := f p.thread } := by
  obtain ⟨t, ht, rfl⟩ := Option.map_eq_some_iff.mp h
  unfold pairOf
  rw [AgentState.thread_modifyThread_self, ht]
  show some (Pair.mk (f t) _) = _
  unfold SessionManager.getUndoManager
  rw [AgentState.undoManagers_modifyThread]

/-- Creating a missing undo manager, seen on the pair. -/
theorem pairOf_undoManager (st : AgentState W) : pairOf user tid (st.undoManager tid).2 = pairOf user tid st := by
  unfold pairOf
  rw [AgentState.undoManager_thread]
  show (st.thread user tid).map (fun t => Pair.mk t ((st.manager.getUndoManager tid).2.getUndoManager tid).1)
    = _
  rw [getUndoManager_idem]

/-- The handlers do to the stored thread and undo manager what the undo manager's operation says. -/
theorem pairOf_moveInHistory {possible : UndoManager → Bool}
    {move : UndoManager → Uuid → Nat → List ChatMessage → Option Checkpoint × UndoManager}
    (hstuck : ∀ mgr newId n msgs, possible mgr = false → move mgr newId n msgs = (none, mgr))
    (nothing failed : String) (moved : Checkpoint → UndoManager → String) (h : pairOf user tid st = some p) :
    pairOf user tid (moveInHistory env possible move nothing failed moved user tid st).2 =
      some (p.moved (move p.mgr (st.trace.draw env).1 p.thread.turnNumber p.thread.messages)) := by
  obtain ⟨t, ht, rfl⟩ := Option.map_eq_some_iff.mp h
  unfold moveInHistory
  simp only [AgentState.undoManager]
  rcases Bool.eq_false_or_eq_true (possible (st.manager.getUndoManager tid).1) with hcan | hcan
  · have ht₁ : ({ st with manager := (st.manager.getUndoManager tid).2 } : AgentState W).thread user tid
        = some t := ht
    have ht₂ : (AgentState.mk (st.manager.getUndoManager tid).2 st.store
        (st.trace.draw env).2).thread user tid = some t := ht
    simp only [hcan, Bool.not_true, Bool.false_eq_true, if_false, ht₁, AgentState.draw]
    rcases move (st.manager.getUndoManager tid).1 (st.trace.draw env).1 t.turnNumber t.messages with ⟨_ | c, mgr⟩
    · exact pairOf_setUndo user tid ht₂ mgr
    · exact pairOf_modifyThread user tid (pairOf_setUndo user tid ht₂ mgr) _
  · -- Nowhere to go: the handler stops before it looks for the thread.
    simp only [hcan, hstuck _ _ _ _ hcan, Bool.not_false, if_true]
    exact (pairOf_undoManager user tid st).trans h

/-- `process_undo` does to the stored thread and undo manager what `Pair.undo` says. -/
theorem pairOf_processUndo (h : pairOf user tid st = some p) :
    pairOf user tid (processUndo env user tid st).2 = some (p.undo (st.trace.draw env).1) :=
  pairOf_moveInHistory env user tid (fun mgr _ _ _ hcan => by
    have hempty : mgr.undoStack = [] := by simpa [UndoManager.canUndo] using hcan
    simp [UndoManager.undo, hempty]) _ _ _ h

/-- `process_redo` does to the stored thread and undo manager what `Pair.redo` says. -/
theorem pairOf_processRedo (h : pairOf user tid st = some p) :
    pairOf user tid (processRedo env user tid st).2 = some (p.redo (st.trace.draw env).1) :=
  pairOf_moveInHistory env user tid (fun mgr _ _ _ hcan => by
    have hempty : mgr.redoStack = [] := by simpa [UndoManager.canRedo] using hcan
    simp [UndoManager.redo, hempty]) _ _ _ h

/-- Run `process_undo` `k` times. -/
def undoTimes (k : Nat) (st : AgentState W) : AgentState W :=
  (fun st => (processUndo env user tid st).2)^[k] st

/-- Run `process_redo` `k` times. -/
def redoTimes (k : Nat) (st : AgentState W) : AgentState W :=
  (fun st => (processRedo env user tid st).2)^[k] st

variable {max : Nat}

/-- `k` calls of a handler that is an abstract move are `k` abstract moves, and keep the invariant. -/
theorem pairOf_iterate {handler : AgentState W → AgentState W} {step : Uuid → Pair → Pair}
    {move : History (Nat × List ChatMessage) → History (Nat × List ChatMessage)}
    (hstep : ∀ {st p}, pairOf user tid st = some p → ∃ newId, pairOf user tid (handler st) = some (step newId p))
    (hinv : ∀ {p} newId, Inv max p → Inv max (step newId p))
    (habs : ∀ {p} newId, Inv max p → (step newId p).abs = move p.abs)
    (k : Nat) (h : pairOf user tid st = some p) (hp : Inv max p) :
    ∃ q, pairOf user tid (handler^[k] st) = some q ∧ Inv max q ∧ q.abs = move^[k] p.abs := by
  induction k generalizing st p with
  | zero => exact ⟨p, h, hp, rfl⟩
  | succ k ih =>
    obtain ⟨newId, hnext⟩ := hstep h
    obtain ⟨q, hq, hqinv, hqabs⟩ := ih hnext (hinv newId hp)
    refine ⟨q, hq, hqinv, ?_⟩
    rw [hqabs, habs newId hp, Function.iterate_succ_apply]

end Handlers

/-! ## Exactness -/

/-- Rebuilding a thread from its own messages keeps them. -/
theorem restoreFromMessages_messages (t : Thread) : (t.restoreFromMessages t.messages).messages = t.messages :=
  (restoreTurns_messages t.turns 0).1

/-- **Undo and redo are exact over whole runs.** In every state a run reaches, the two stacks fit the limit
    together and neither undo nor redo changes their joint size; `k` undos followed by `k` redos, run by the
    handlers, give back the thread's messages and the undo stack's contents; and rebuilding a thread from
    its own messages keeps them. -/
theorem undo_redo_exact {W : Type} (env : Env W) (max : Nat) (p : Pair) (hp : Reachable max p) :
    p.mgr.undoCount + p.mgr.redoCount ≤ max
      ∧ (∀ newId n msgs,
          (p.mgr.undo newId n msgs).2.undoCount + (p.mgr.undo newId n msgs).2.redoCount
            = p.mgr.undoCount + p.mgr.redoCount)
      ∧ (∀ newId n msgs,
          (p.mgr.redo newId n msgs).2.undoCount + (p.mgr.redo newId n msgs).2.redoCount
            = p.mgr.undoCount + p.mgr.redoCount)
      ∧ (∀ (user : String) (tid : Uuid) (st : AgentState W) (k : Nat),
          pairOf user tid st = some p → k ≤ p.mgr.undoCount →
          ∃ q, pairOf user tid (redoTimes env user tid k (undoTimes env user tid k st)) = some q
            ∧ q.thread.messages = p.thread.messages
            ∧ q.mgr.undoStack.map content = p.mgr.undoStack.map content)
      ∧ ∀ t : Thread, (t.restoreFromMessages t.messages).messages = t.messages := by
  have hinv : Inv max p := inv_of_reachable hp
  refine ⟨hinv.fits, ?_, ?_, ?_, restoreFromMessages_messages⟩
  · intro newId n msgs
    exact UndoManager.undo_counts p.mgr newId n msgs
  · intro newId n msgs
    exact UndoManager.redo_counts p.mgr newId n msgs (by rw [hinv.limit]; exact hinv.fits)
  · intro user tid st k hst hk
    obtain ⟨r, hr, hrinv, hrabs⟩ := pairOf_iterate user tid (fun h => ⟨_, pairOf_processUndo env user tid h⟩)
      (fun newId hp => inv_undo hp newId) (fun newId hp => abs_undo hp newId) k hst hinv
    obtain ⟨q, hq, _, hqabs⟩ := pairOf_iterate user tid (fun h => ⟨_, pairOf_processRedo env user tid h⟩)
      (fun newId hp => inv_redo hp newId) (fun newId hp => abs_redo hp newId) k hr hrinv
    have habs : q.abs = p.abs := by
      rw [hqabs, hrabs]
      apply History.redo_undo_iterate
      show k ≤ ((p.mgr.undoStack.map content).reverse).length
      rw [List.length_reverse, List.length_map]
      exact hk
    refine ⟨q, hq, ?_, ?_⟩
    · exact congrArg (fun h => h.present.2) habs
    · exact List.reverse_injective (congrArg History.past habs)

/-- A run with one answered turn after a checkpoint: one undo and one redo give the turn back. -/
def answeredRun : List Op :=
  [.checkpoint 1 "Before turn 1",
    .turn (((Thread.withId 7).startTurn "hello").completeTurn "hi there")]

def answeredPair : Pair :=
  answeredRun.foldl Op.apply ⟨Thread.withId 7, UndoManager.new.withMaxCheckpoints 20⟩

/-- The agent's state around that pair. -/
def answeredState : AgentState Unit where
  manager := {
    sessions := (∅ : Map String Session).insert "ann"
      { Session.new 3 "ann" 0 with threads := (∅ : Map Uuid Thread).insert 7 answeredPair.thread }
    undoManagers := (∅ : Map Uuid UndoManager).insert 7 answeredPair.mgr }
  trace := ⟨(), 0, []⟩

theorem undo_redo_exact_answered :
    ∃ q, pairOf "ann" 7 (redoTimes (Env.idle Unit) "ann" 7 1 (undoTimes (Env.idle Unit) "ann" 7 1 answeredState))
        = some q
      ∧ q.thread.messages = answeredPair.thread.messages
      ∧ q.mgr.undoStack.map content = answeredPair.mgr.undoStack.map content :=
  (undo_redo_exact (Env.idle Unit) 20 answeredPair ⟨Thread.withId 7, answeredRun, rfl⟩).2.2.2.1
    "ann" 7 answeredState 1 rfl (by decide)

end Freeclawdia.UndoRedo
