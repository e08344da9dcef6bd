import Freeclawdia.Agent.SessionManager
import Freeclawdia.Lib.Interleave

/-!
# `Agent.SessionResolution` — concurrent calls of the session manager

`get_or_create_session` and `resolve_thread` (`src/agent/session_manager.rs`) as programs whose operations are the
sections under one lock. In `Agent.SessionManager` a call runs to completion; here other calls come in between any two
of its sections. Sessions are shared objects, so a call that has got hold of one keeps it.

A session that is created has its re-check in the section that inserts it, and so has the adoption of a thread. The
section that stores the mapping of a new thread has none.
-/

namespace Freeclawdia.Resolution

open Rust

/-- What the calls share. A reference to a session is its position among the session objects. -/
structure Shared where
  objects : List Session := []
  sessions : Map String Nat := ∅
  threadMap : Map ThreadKey Uuid := ∅
  undoManagers : Map Uuid UndoManager := ∅
  /-- Bookkeeping: the calls that found no usable mapping. -/
  missed : List Nat := []
  refs : ∀ user session, sessions.lookup user = some session → session < objects.length

/-- `sess.threads.contains_key(&tid)`. -/
def Shared.holds (s : Shared) (session : Nat) (tid : Uuid) : Bool :=
  (s.objects[session]?.bind fun sess => sess.threads.lookup tid).isSome

/-- The thread a key is mapped to, as long as the user's session holds it. -/
def Shared.usable (s : Shared) (key : ThreadKey) : Option Uuid :=
  (s.threadMap.lookup key).filter fun tid => (s.sessions.lookup key.userId).any fun session => s.holds session tid

/-- The sections. -/
inductive Op
  | findSession (user : String)
  | insertSession (user : String)
  | findMapping (key : ThreadKey) (session : Nat)
  | mappedElsewhere (tid : Uuid)
  | holdsThread (session : Nat) (tid : Uuid)
  | adoptMapping (key : ThreadKey) (tid : Uuid)
  | createThread (session : Nat)
  | insertMapping (key : ThreadKey) (tid : Uuid)
  | ensureUndoManager (tid : Uuid)
  | insertUndoManager (tid : Uuid)

abbrev Ans : Op → Type
  | .findSession _ => Option Nat
  | .insertSession _ => Nat
  | .findMapping _ _ => Option Uuid
  | .mappedElsewhere _ => Bool
  | .holdsThread _ _ => Bool
  | .adoptMapping _ _ => Bool
  | .createThread _ => Uuid
  | .insertMapping _ _ => Unit
  | .ensureUndoManager _ => Unit
  | .insertUndoManager _ => Unit

/-- What is drawn: the identifiers of a new session and a new thread, and the time. -/
structure Input where
  sessionId : Uuid
  threadId : Uuid
  now : Time

theorem refs_insert {objects : List Session} {sessions : Map String Nat}
    (h : ∀ user session, sessions.lookup user = some session → session < objects.length) (user : String)
    (sess : Session) (user' : String) (session : Nat)
    (hlookup : (sessions.insert user objects.length).lookup user' = some session) :
    session < (objects ++ [sess]).length := by
  rw [List.length_append, List.length_singleton]
  rw [Map.lookup_insert_ite] at hlookup
  split at hlookup
  next =>
    cases hlookup
    exact Nat.lt_succ_self _
  next => exact Nat.lt_succ_of_lt (h user' session hlookup)

/-- Insert a new session object unless the user has one. -/
def Shared.insertSession (s : Shared) (user : String) (i : Input) : Nat × Shared :=
  match s.sessions.lookup user with
  | some session => (session, s)
  | none =>
    (s.objects.length,
      { s with
        objects := s.objects ++ [Session.new i.sessionId user i.now]
        sessions := s.sessions.insert user s.objects.length
        refs := refs_insert s.refs user _ })

/-- Create a thread in a session object and make it the active one. -/
def Shared.createThread (s : Shared) (session : Nat) (i : Input) : Shared :=
  { s with
    objects := s.objects.modify session fun sess => sess.createThread i.threadId i.now
    refs := by
      intro user session' h
      rw [List.length_modify]
      exact s.refs user session' h }

/-- What a section answers and leaves behind. -/
def perform (t : Nat) : (o : Op) → Input → Shared → Ans o × Shared
  | .findSession user, _, s => (s.sessions.lookup user, s)
  | .insertSession user, i, s => s.insertSession user i
  | .findMapping key session, _, s =>
    match (s.threadMap.lookup key).filter fun tid => s.holds session tid with
    | some tid => (some tid, s)
    | none => (none, { s with missed := t :: s.missed })
  | .mappedElsewhere tid, _, s => (s.threadMap.hasValue tid, s)
  | .holdsThread session tid, _, s => (s.holds session tid, s)
  | .adoptMapping key tid, _, s =>
    if s.threadMap.hasValue tid then (false, s) else (true, { s with threadMap := s.threadMap.insert key tid })
  | .createThread session, i, s => (i.threadId, s.createThread session i)
  | .insertMapping key tid, _, s => ((), { s with threadMap := s.threadMap.insert key tid })
  | .ensureUndoManager tid, _, s =>
    ((), { s with undoManagers := Map.insertIfAbsent tid UndoManager.new s.undoManagers })
  | .insertUndoManager tid, _, s => ((), { s with undoManagers := s.undoManagers.insert tid UndoManager.new })

/-- `get_or_create_session`. -/
def getOrCreateSession (user : String) : Prog Op Ans Nat := do
  match ← perf (Op.findSession user) with
  | some session => pure session
  | none => perf (Op.insertSession user)

/-- Adopt a thread that is named by its own identifier, if no key maps to it and the session holds it. -/
def adoptThread (key : ThreadKey) (session : Nat) (extUuid : Uuid) : Prog Op Ans Bool := do
  if ← perf (Op.mappedElsewhere extUuid) then pure false
  else if ← perf (Op.holdsThread session extUuid) then
    if ← perf (Op.adoptMapping key extUuid) then
      perf (Op.ensureUndoManager extUuid)
      pure true
    else pure false
  else pure false

/-- Create a thread, then store the mapping of the key. -/
def createMapped (key : ThreadKey) (session : Nat) : Prog Op Ans Uuid := do
  let threadId ← perf (Op.createThread session)
  perf (Op.insertMapping key threadId)
  perf (Op.insertUndoManager threadId)
  pure threadId

/-- `resolve_thread`. -/
def resolveThread (user channel : String) (externalThreadId : Option String) : Prog Op Ans (Nat × Uuid) := do
  let session ← getOrCreateSession user
  let key : ThreadKey := { userId := user, channel, externalThreadId }
  match ← perf (Op.findMapping key session) with
  | some threadId => pure (session, threadId)
  | none =>
    match externalThreadId.bind Uuid.parseStr with
    | some extUuid =>
      if ← adoptThread key session extUuid then pure (session, extUuid)
      else
        let threadId ← createMapped key session
        pure (session, threadId)
    | none =>
      let threadId ← createMapped key session
      pure (session, threadId)

inductive Call
  | getOrCreateSession (user : String)
  | resolveThread (user channel : String) (externalThreadId : Option String)

/-- The user of a call. -/
def Call.user : Call → String
  | .getOrCreateSession user => user
  | .resolveThread user _ _ => user

abbrev Out : Call → Type
  | .getOrCreateSession _ => Nat
  | .resolveThread _ _ _ => Nat × Uuid

/-- The session a call returns. -/
def Out.session : {c : Call} → Out c → Nat
  | .getOrCreateSession _, session => session
  | .resolveThread _ _ _, out => out.1

def body : (c : Call) → Prog Op Ans (Out c)
  | .getOrCreateSession user => getOrCreateSession user
  | .resolveThread user channel externalThreadId => resolveThread user channel externalThreadId

/-- Any number of calls at once. A lock is held for one section, so none has to wait. -/
def machine : Machine where
  Shared := Shared
  Op := Op
  Ans := Ans
  Input := Input
  Call := Call
  Out := Out
  body := body
  perform := fun t o i s => some (perform t o i s)

end Freeclawdia.Resolution
