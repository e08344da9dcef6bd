import Freeclawdia.Agent.Session

/-!
# `Agent.Undo` — checkpoints and the undo manager

The undo manager of `src/agent/undo.rs`. Both stacks are lists with the most recent checkpoint **last**:
`push_back`/`push` append, `pop_back`/`pop` remove the last element, and trimming drops from the front.
-/

namespace Freeclawdia

open Rust

/-- Maximum number of checkpoints to keep by default. -/
def defaultMaxCheckpoints : Nat := 20

/-- A snapshot of conversation state at a point in time. -/
structure Checkpoint where
  id : Uuid
  turnNumber : Nat
  messages : List ChatMessage
  description : String

/-- Manager for undo/redo functionality. -/
structure UndoManager where
  undoStack : List Checkpoint := []
  redoStack : List Checkpoint := []
  maxCheckpoints : Nat := defaultMaxCheckpoints

namespace UndoManager

/-- `UndoManager::new`. -/
def new : UndoManager := {}

variable (m : UndoManager)

/-- `UndoManager::with_max_checkpoints`. -/
def withMaxCheckpoints (max : Nat) : UndoManager := { m with maxCheckpoints := max }

/-- Push onto the undo stack, trimming the oldest entries if over the limit. -/
def pushUndo (checkpoint : Checkpoint) : UndoManager :=
  let stack := m.undoStack ++ [checkpoint]
  { m with undoStack := stack.drop (stack.length - m.maxCheckpoints) }

/-- Create a checkpoint; the redo stack is cleared (a new branch of history). -/
def checkpoint (newId : Uuid) (turnNumber : Nat) (messages : List ChatMessage)
    (description : String) : UndoManager :=
  { m with redoStack := [] }.pushUndo { id := newId, turnNumber, messages, description }

/-- Undo: save the current state to the redo stack and pop the most recent checkpoint. -/
def undo (newId : Uuid) (currentTurn : Nat) (currentMessages : List ChatMessage) :
    Option Checkpoint × UndoManager :=
  match m.undoStack.getLast? with
  | none => (none, m)
  | some c =>
    (some c,
      { m with
        undoStack := m.undoStack.dropLast
        redoStack := m.redoStack ++ [{
          id := newId
          turnNumber := currentTurn
          messages := currentMessages
          description := s!"Turn {currentTurn}" }] })

/-- Redo: save the current state to the undo stack and pop the most recent redo entry. -/
def redo (newId : Uuid) (currentTurn : Nat) (currentMessages : List ChatMessage) :
    Option Checkpoint × UndoManager :=
  match m.redoStack.getLast? with
  | none => (none, m)
  | some c =>
    (some c,
      { m.pushUndo {
          id := newId
          turnNumber := currentTurn
          messages := currentMessages
          description := s!"Turn {currentTurn}" } with
        redoStack := m.redoStack.dropLast })

def canUndo : Bool := !m.undoStack.isEmpty

def canRedo : Bool := !m.redoStack.isEmpty

def undoCount : Nat := m.undoStack.length

def redoCount : Nat := m.redoStack.length

/-- Clear all checkpoints. -/
def clear : UndoManager := { m with undoStack := [], redoStack := [] }

/-- Restore to a specific checkpoint by ID, invalidating it, every later one and the redo stack. -/
def restore (checkpointId : Uuid) : Option Checkpoint × UndoManager :=
  match m.undoStack.findIdx? (fun c => c.id = checkpointId) with
  | none => (none, m)
  | some pos =>
    (m.undoStack[pos]?, { m with redoStack := [], undoStack := m.undoStack.take pos })

/-! ## What the operations do to the two stacks -/

variable (m : UndoManager) {c : Checkpoint} {init : List Checkpoint}

theorem pushUndo_undoCount_le (c : Checkpoint) : (m.pushUndo c).undoCount ≤ m.maxCheckpoints := by
  simp only [pushUndo, undoCount, List.length_drop, List.length_append, List.length_singleton]
  omega

/-- Below the limit nothing is trimmed. -/
theorem pushUndo_undoStack (h : m.undoCount + 1 ≤ m.maxCheckpoints) :
    (m.pushUndo c).undoStack = m.undoStack ++ [c] := by
  have hz : (m.undoStack ++ [c]).length - m.maxCheckpoints = 0 := by
    simp only [undoCount] at h
    simp only [List.length_append, List.length_singleton]
    omega
  simp only [pushUndo, hz, List.drop_zero]

@[simp] theorem pushUndo_redoStack (c : Checkpoint) : (m.pushUndo c).redoStack = m.redoStack := rfl

@[simp] theorem pushUndo_maxCheckpoints (c : Checkpoint) : (m.pushUndo c).maxCheckpoints = m.maxCheckpoints := rfl

/-- A checkpoint leaves at most `maxCheckpoints` entries and no redo. -/
theorem checkpoint_counts (newId : Uuid) (n : Nat) (msgs : List ChatMessage) (d : String) :
    (m.checkpoint newId n msgs d).undoCount + (m.checkpoint newId n msgs d).redoCount ≤ m.maxCheckpoints := by
  have hle := pushUndo_undoCount_le { m with redoStack := [] }
    { id := newId, turnNumber := n, messages := msgs, description := d }
  simpa [checkpoint, redoCount] using hle

/-- Undo moves one entry from the undo count to the redo count. -/
theorem undo_counts (newId : Uuid) (n : Nat) (msgs : List ChatMessage) :
    (m.undo newId n msgs).2.undoCount + (m.undo newId n msgs).2.redoCount = m.undoCount + m.redoCount := by
  unfold undo
  cases h : m.undoStack.getLast? with
  | none => rfl
  | some c =>
    have hne : m.undoStack ≠ [] := by intro he; rw [he] at h; cases h
    have hpos : 0 < m.undoStack.length := List.length_pos_iff.mpr hne
    simp only [undoCount, redoCount, List.length_dropLast, List.length_append, List.length_singleton]
    omega

/-- Redo moves one entry back, provided the two stacks fit the limit together: nothing is trimmed. -/
theorem redo_counts (newId : Uuid) (n : Nat) (msgs : List ChatMessage)
    (hfit : m.undoCount + m.redoCount ≤ m.maxCheckpoints) :
    (m.redo newId n msgs).2.undoCount + (m.redo newId n msgs).2.redoCount = m.undoCount + m.redoCount := by
  unfold redo
  cases h : m.redoStack.getLast? with
  | none => rfl
  | some c =>
    have hne : m.redoStack ≠ [] := by intro he; rw [he] at h; cases h
    have hpos : 0 < m.redoStack.length := List.length_pos_iff.mpr hne
    have hroom : m.undoCount + 1 ≤ m.maxCheckpoints := by simp only [redoCount] at hfit; omega
    simp only [undoCount, redoCount, pushUndo_undoStack m hroom, List.length_dropLast,
      List.length_append, List.length_singleton]
    omega

end UndoManager
end Freeclawdia
