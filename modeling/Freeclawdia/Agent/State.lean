import Freeclawdia.Agent.Dispatcher
import Freeclawdia.Agent.SessionManager

/-!
# `Agent.State` — stored conversations and the agent's state

The conversation store as the agent uses it (`src/history/store.rs`, `src/db/libsql/conversations.rs`): rows
of conversations, each with the user who created it, and rows of messages. **Ownership is recorded and
never consulted**: `ensure_conversation` leaves an existing row's user alone and
`list_conversation_messages` selects by conversation only.

`AgentState` is everything the agent keeps: the session manager, the store and the trace of its
surroundings.
-/

namespace Freeclawdia

open Rust

/-- A row of `conversation_messages`. -/
structure StoredMessage where
  role : String
  content : String

/-- The conversation tables. -/
structure ConversationStore where
  owners : Map Uuid String := ∅
  messages : Map Uuid (List StoredMessage) := ∅

namespace ConversationStore

variable (db : ConversationStore)

/-- `ensure_conversation`: create the row unless it exists. -/
def ensureConversation (id : Uuid) (user : String) : ConversationStore :=
  { db with owners := Map.insertIfAbsent id user db.owners }

/-- `list_conversation_messages`. -/
def listMessages (id : Uuid) : List StoredMessage :=
  (db.messages.lookup id).getD []

/-- `add_conversation_message`. -/
def addMessage (id : Uuid) (role content : String) : ConversationStore :=
  { db with messages := db.messages.insert id (db.listMessages id ++ [⟨role, content⟩]) }

end ConversationStore

/-- The agent's state. -/
structure AgentState (W : Type) where
  manager : SessionManager := {}
  store : ConversationStore := {}
  trace : Trace W

namespace AgentState

variable {W : Type}

/-- An agent that has just been started. -/
def start (store : ConversationStore) (w : W) : AgentState W := { store, trace := { world := w } }

variable (st : AgentState W)

/-- A thread of the user's session. -/
def thread (user : String) (tid : Uuid) : Option Thread :=
  (st.manager.session user).bind fun s => s.threads.lookup tid

/-- Change a thread of the user's session, if it is there. -/
def modifyThread (user : String) (tid : Uuid) (f : Thread → Thread) : AgentState W :=
  { st with manager := st.manager.modifySession user (Session.modifyThread · tid f) }

def emit (e : Event) : AgentState W := { st with trace := st.trace.emit e }

/-- `Uuid::new_v4`. -/
def draw (env : Env W) (st : AgentState W) : Uuid × AgentState W :=
  ((st.trace.draw env).1, { st with trace := (st.trace.draw env).2 })

/-- Run the hooks of an event's point. -/
def runHooks (env : Env W) (event : HookEvent) (st : AgentState W) :
    Except HookError HookOutcome × AgentState W :=
  match st.trace.runHooks env event with
  | (result, tr) => (result, { st with trace := tr })

/-- One call to the store: whether it went through. -/
def callStore (env : Env W) (st : AgentState W) : Bool × AgentState W :=
  match env.storeCall st.trace.world with
  | (ok, w) => (ok, { st with trace := { st.trace with world := w } })

/-- Store an undo manager. -/
def setUndo (tid : Uuid) (mgr : UndoManager) : AgentState W :=
  { st with manager := { st.manager with undoManagers := st.manager.undoManagers.insert tid mgr } }

/-- `get_undo_manager`, with the state in which a missing one has been created. -/
def undoManager (tid : Uuid) : UndoManager × AgentState W :=
  ((st.manager.getUndoManager tid).1, { st with manager := (st.manager.getUndoManager tid).2 })

/-! ## What the state operations leave alone -/

section Frames

variable (st : AgentState W) (user : String) (tid : Uuid)

@[simp] theorem setUndo_thread (tid' : Uuid) (mgr : UndoManager) :
    (st.setUndo tid' mgr).thread user tid = st.thread user tid := rfl
@[simp] theorem undoManager_thread (tid' : Uuid) : (st.undoManager tid').2.thread user tid = st.thread user tid := rfl

theorem thread_modifyThread_self (f : Thread → Thread) :
    (st.modifyThread user tid f).thread user tid = (st.thread user tid).map f := by
  simp only [thread, modifyThread, SessionManager.session_modifySession_self]
  cases st.manager.session user with
  | none => rfl
  | some s => exact Session.lookup_modifyThread_self s tid f

theorem thread_modifyThread_ne {user' : String} {tid' : Uuid} (f : Thread → Thread)
    (h : ¬ (user' = user ∧ tid' = tid)) : (st.modifyThread user tid f).thread user' tid' = st.thread user' tid' := by
  by_cases hu : user' = user
  · subst hu
    have ht : tid' ≠ tid := fun ht => h ⟨rfl, ht⟩
    simp only [thread, modifyThread, SessionManager.session_modifySession_self]
    cases st.manager.session user' with
    | none => rfl
    | some s => exact Session.lookup_modifyThread_ne s f ht
  · simp only [thread, modifyThread]
    rw [SessionManager.session_modifySession_ne st.manager user _ hu]

theorem undoManagers_modifyThread (f : Thread → Thread) :
    (st.modifyThread user tid f).manager.undoManagers = st.manager.undoManagers :=
  SessionManager.undoManagers_modifySession st.manager user _

end Frames
end AgentState
end Freeclawdia
