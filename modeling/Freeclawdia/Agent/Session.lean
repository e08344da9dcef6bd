import Freeclawdia.Lib.Map
import Freeclawdia.Llm.Provider
import Freeclawdia.Rust.Uuid

/-!
# `Agent.Session` — sessions, threads and turns

The conversation state of `src/agent/session.rs`: a session owns threads, a thread owns turns, a turn is a
user input with the tool calls it caused and, once answered, a response. Times other than the session's
`lastActiveAt` are written and never read by the modelled code and are left out, as is the metadata.

`Thread.messages` flattens a thread to the message list the LLM sees; `Thread.restoreFromMessages` rebuilds
turns from such a list. The rebuild loses tool calls and errors, but not messages
(`restoreTurns_messages`).
-/

namespace Freeclawdia

open Rust

/-- Seconds and nanoseconds are both expressed in nanoseconds since the epoch. -/
abbrev Time := Int

/-! ## Turns -/

/-- State of a turn. -/
inductive TurnState
  | processing
  | completed
  | failed
  | interrupted
deriving DecidableEq

/-- Record of a tool call made during a turn. -/
structure TurnToolCall where
  name : String
  parameters : Json
  result : Option Json := none
  error : Option String := none

/-- A request/response pair of a thread. -/
structure Turn where
  turnNumber : Nat
  userInput : String
  response : Option String := none
  toolCalls : List TurnToolCall := []
  state : TurnState := .processing
  error : Option String := none

namespace Turn

/-- A fresh turn, not yet answered. -/
def new (turnNumber : Nat) (userInput : String) : Turn := { turnNumber, userInput }

variable (t : Turn)

def complete (response : String) : Turn :=
  { t with response := some response, state := .completed }

def fail (error : String) : Turn := { t with error := some error, state := .failed }

def interrupt : Turn := { t with state := .interrupted }

/-- Apply `f` to the last recorded tool call, if there is one. -/
def modifyLastCall (f : TurnToolCall → TurnToolCall) (t : Turn) : Turn :=
  { t with toolCalls := t.toolCalls.modify (t.toolCalls.length - 1) f }

/-- Record a tool call, with no outcome yet. -/
def recordToolCall (name : String) (params : Json) : Turn :=
  { t with toolCalls := t.toolCalls ++ [{ name, parameters := params }] }

/-- Record a result **on the last entry**. -/
def recordToolResult (result : Json) : Turn :=
  t.modifyLastCall fun c => { c with result := some result }

/-- Record an error **on the last entry**. -/
def recordToolError (error : String) : Turn :=
  t.modifyLastCall fun c => { c with error := some error }

/-- The messages of one turn: the input and, when answered, the response. -/
def messages : List ChatMessage :=
  ChatMessage.user t.userInput :: (t.response.map ChatMessage.assistant).toList

end Turn

/-! ## Threads -/

/-- State of a thread. -/
inductive ThreadState
  | idle
  | processing
  | awaitingApproval
  | completed
  | interrupted
deriving DecidableEq

/-- Pending auth token request: the next user message goes to the credential store. -/
structure PendingAuth where
  extensionName : String

/-- Pending tool approval request stored on a thread. -/
structure PendingApproval where
  requestId : Uuid
  toolName : String
  /-- Original parameters, used for execution. -/
  parameters : Json
  /-- Redacted parameters, used for display. -/
  displayParameters : Json
  description : String
  toolCallId : String
  /-- Context at the time of the request, to resume from. -/
  contextMessages : List ChatMessage
  /-- Calls of the same assistant message not yet executed. -/
  deferredToolCalls : List ToolCall

/-- A conversation thread within a session. -/
structure Thread where
  id : Uuid
  state : ThreadState := .idle
  turns : List Turn := []
  pendingApproval : Option PendingApproval := none
  pendingAuth : Option PendingAuth := none

namespace Thread

/-- A fresh thread; `Thread::new` draws the identifier, `Thread::with_id` is given it. -/
def withId (id : Uuid) : Thread := { id }

variable (t : Thread)

/-- The current turn number, 1-indexed for display. -/
def turnNumber : Nat := t.turns.length + 1

/-- Apply `f` to the last turn, if there is one. -/
def modifyLastTurn (f : Turn → Turn) (t : Thread) : Thread :=
  { t with turns := t.turns.modify (t.turns.length - 1) f }

def startTurn (userInput : String) : Thread :=
  { t with turns := t.turns ++ [Turn.new t.turns.length userInput], state := .processing }

def completeTurn (response : String) : Thread :=
  { t.modifyLastTurn (Turn.complete · response) with state := .idle }

def failTurn (error : String) : Thread :=
  { t.modifyLastTurn (Turn.fail · error) with state := .idle }

def awaitApproval (pending : PendingApproval) : Thread :=
  { t with state := .awaitingApproval, pendingApproval := some pending }

/-- Take the pending approval, clearing it from the thread; the state is not touched. -/
def takePendingApproval : Option PendingApproval × Thread :=
  (t.pendingApproval, { t with pendingApproval := none })

def clearPendingApproval : Thread := { t with pendingApproval := none, state := .idle }

def enterAuthMode (extensionName : String) : Thread :=
  { t with pendingAuth := some { extensionName } }

/-- Interrupt the current turn; a pending approval stays where it is. -/
def interrupt : Thread :=
  { t.modifyLastTurn Turn.interrupt with state := .interrupted }

/-- All messages for context building. -/
def messages : List ChatMessage := t.turns.flatMap Turn.messages

/-- Number the turns of a list from 0. -/
def renumber (turns : List Turn) : List Turn := turns.mapIdx fun i turn => { turn with turnNumber := i }

/-- Keep the `keep` most recent turns and renumber them. -/
def truncateTurns (keep : Nat) : Thread :=
  if t.turns.length > keep then
    { t with turns := renumber (t.turns.drop (t.turns.length - keep)) }
  else t

/-- The turns a message list stands for: each user message opens one, an assistant message directly after
    it answers it, everything else is skipped. -/
def restoreTurns : Nat → List ChatMessage → List Turn
  | _, [] => []
  | n, [m] => if m.role = .user then [Turn.new n m.content] else []
  | n, m :: next :: rest =>
    if m.role = .user then
      if next.role = .assistant then
        (Turn.new n m.content).complete next.content :: restoreTurns (n + 1) rest
      else Turn.new n m.content :: restoreTurns (n + 1) (next :: rest)
    else restoreTurns n (next :: rest)

/-- Replace the turns by those of a checkpoint's messages. The pending approval is left as it is. -/
def restoreFromMessages (messages : List ChatMessage) : Thread :=
  { t with turns := restoreTurns 0 messages, state := .idle }

end Thread

/-! ## Sessions -/

/-- A session: the threads of one user, and the tools the user approved for good. -/
structure Session where
  id : Uuid
  userId : String
  activeThread : Option Uuid := none
  threads : Map Uuid Thread := ∅
  lastActiveAt : Time
  autoApprovedTools : List String := []

namespace Session

def new (id : Uuid) (userId : String) (now : Time) : Session := { id, userId, lastActiveAt := now }

def autoApproveTool (s : Session) (toolName : String) : Session :=
  { s with autoApprovedTools := s.autoApprovedTools.insert toolName }

/-- Create a thread with a freshly drawn identifier and make it the active one. -/
def createThread (s : Session) (newId : Uuid) (now : Time) : Session :=
  { s with
    activeThread := some newId
    lastActiveAt := now
    threads := Map.insertIfAbsent newId (Thread.withId newId) s.threads }

/-- Switch to a different thread; `false` when there is none with that identifier. -/
def switchThread (s : Session) (threadId : Uuid) (now : Time) : Bool × Session :=
  if (s.threads.lookup threadId).isSome then
    (true, { s with activeThread := some threadId, lastActiveAt := now })
  else (false, s)

/-- `if let Some(thread) = threads.get_mut(&id)`: apply `f` to a thread that is there. -/
def modifyThread (s : Session) (threadId : Uuid) (f : Thread → Thread) : Session :=
  match s.threads.lookup threadId with
  | some thread => { s with threads := s.threads.insert threadId (f thread) }
  | none => s

end Session

/-! ## Field and lookup lemmas -/

section Fields

variable (t : Thread) (s : Session)

@[simp] theorem Thread.modifyLastTurn_turns (f : Turn → Turn) :
    (t.modifyLastTurn f).turns = t.turns.modify (t.turns.length - 1) f := rfl

theorem Session.lookup_modifyThread_self (tid : Uuid) (f : Thread → Thread) :
    (s.modifyThread tid f).threads.lookup tid = (s.threads.lookup tid).map f := by
  unfold Session.modifyThread
  cases h : s.threads.lookup tid with
  | none => simp [h]
  | some th => simp

theorem Session.lookup_modifyThread_ne {tid tid' : Uuid} (f : Thread → Thread) (h : tid' ≠ tid) :
    (s.modifyThread tid f).threads.lookup tid' = s.threads.lookup tid' := by
  unfold Session.modifyThread
  cases s.threads.lookup tid with
  | none => rfl
  | some th => exact AList.lookup_insert_ne h

@[simp] theorem Session.modifyThread_autoApprovedTools (tid : Uuid) (f : Thread → Thread) :
    (s.modifyThread tid f).autoApprovedTools = s.autoApprovedTools := by
  unfold Session.modifyThread; split <;> rfl

@[simp] theorem Session.modifyThread_lastActiveAt (tid : Uuid) (f : Thread → Thread) :
    (s.modifyThread tid f).lastActiveAt = s.lastActiveAt := by
  unfold Session.modifyThread; split <;> rfl

end Fields

/-! ## Rebuilding turns keeps the messages -/

/-- The messages of a list of turns. -/
def turnsMessages (turns : List Turn) : List ChatMessage := turns.flatMap Turn.messages

theorem turnsMessages_cons (t : Turn) (ts : List Turn) : turnsMessages (t :: ts) = t.messages ++ turnsMessages ts := rfl

/-- A list of turn messages is empty or starts with a user message, so it never answers the turn before. -/
theorem turnsMessages_head (ts : List Turn) :
    turnsMessages ts = [] ∨ ∃ m rest, turnsMessages ts = m :: rest ∧ m.role = .user := by
  cases ts with
  | nil => exact Or.inl rfl
  | cons t ts => exact Or.inr ⟨_, _, rfl, rfl⟩

/-- Rebuilding one unanswered turn in front of other turns' messages. -/
theorem restoreTurns_unanswered (n : Nat) (input : String) (ts : List Turn) :
    Thread.restoreTurns n (ChatMessage.user input :: turnsMessages ts)
      = Turn.new n input :: Thread.restoreTurns (n + 1) (turnsMessages ts) := by
  rcases turnsMessages_head ts with h | ⟨m, rest, h, hm⟩
  · rw [h]; rfl
  · rw [h]
    simp [Thread.restoreTurns, ChatMessage.user, hm]

/-- **Rebuilding loses no message.** The turns rebuilt from a list of turns' messages have these messages,
    and there are as many of them. -/
theorem restoreTurns_messages (ts : List Turn) (n : Nat) :
    turnsMessages (Thread.restoreTurns n (turnsMessages ts)) = turnsMessages ts
      ∧ (Thread.restoreTurns n (turnsMessages ts)).length = ts.length := by
  induction ts generalizing n with
  | nil => exact ⟨rfl, rfl⟩
  | cons t ts ih =>
    obtain ⟨ihm, ihl⟩ := ih (n + 1)
    cases hr : t.response with
    | none =>
      have hm : turnsMessages (t :: ts) = ChatMessage.user t.userInput :: turnsMessages ts := by
        simp [turnsMessages_cons, Turn.messages, hr]
      rw [hm, restoreTurns_unanswered, turnsMessages_cons, ihm]
      exact ⟨rfl, by rw [List.length_cons, ihl, List.length_cons]⟩
    | some r =>
      have hm : turnsMessages (t :: ts)
          = ChatMessage.user t.userInput :: ChatMessage.assistant r :: turnsMessages ts := by
        simp [turnsMessages_cons, Turn.messages, hr]
      have hrestore : Thread.restoreTurns n (turnsMessages (t :: ts))
          = (Turn.new n t.userInput).complete r
            :: Thread.restoreTurns (n + 1) (turnsMessages ts) := by
        rw [hm]; simp [Thread.restoreTurns, ChatMessage.user, ChatMessage.assistant]
      rw [hrestore, turnsMessages_cons, ihm, hm]
      exact ⟨rfl, by rw [List.length_cons, ihl, List.length_cons]⟩

end Freeclawdia
