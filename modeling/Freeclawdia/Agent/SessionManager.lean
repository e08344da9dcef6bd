import Freeclawdia.Agent.Undo

/-!
# `Agent.SessionManager` — sessions, thread keys and undo managers of all users

Three maps (`src/agent/session_manager.rs`): sessions by user, threads by `(user, channel, external id)` and
undo managers by thread. A call runs to completion here, so each lock-protected section of the source is one
`let`; the re-checks after a lock upgrade then see what the first check saw and are not repeated.

Sessions are shared behind an `Arc` in the source. The model keeps the only copy in the `sessions` map:
"the returned session" of a call is the one stored for the user afterwards. Freshly drawn identifiers and
the current time are arguments.
-/

namespace Freeclawdia

open Rust

/-- Key for mapping external thread IDs to internal ones. -/
structure ThreadKey where
  userId : String
  channel : String
  externalThreadId : Option String
deriving DecidableEq

/-- Sessions, threads and undo state for all users. -/
structure SessionManager where
  sessions : Map String Session := ∅
  threadMap : Map ThreadKey Uuid := ∅
  undoManagers : Map Uuid UndoManager := ∅

namespace SessionManager

/-- `SessionManager::new`. -/
def new : SessionManager := {}

variable (m : SessionManager) (user : String)

/-- The session stored for a user. -/
def session : Option Session := m.sessions.lookup user

/-- Does the user's session hold the thread? -/
def holdsThread (tid : Uuid) : Bool :=
  ((m.session user).bind fun s => s.threads.lookup tid).isSome

/-- Apply `f` to the user's session, if there is one. -/
def modifySession (f : Session → Session) : SessionManager :=
  match m.session user with
  | some s => { m with sessions := m.sessions.insert user (f s) }
  | none => m

/-- Get or create a session for a user. -/
def getOrCreateSession (newId : Uuid) (now : Time) :
    SessionManager :=
  { m with sessions := Map.insertIfAbsent user (Session.new newId user now) m.sessions }

/-- The branch of `resolve_thread` that adopts a thread named by its own identifier: the external id
    parses, no key maps to the identifier and the session holds the thread. -/
def adoptable (externalThreadId : Option String) : Option Uuid :=
  match externalThreadId.bind Uuid.parseStr with
  | some extUuid =>
    if m.threadMap.hasValue extUuid then none
    else if m.holdsThread user extUuid then some extUuid else none
  | none => none

/-- The mapped thread of a key, if the user's session still holds it. -/
def mapped (key : ThreadKey) : Option Uuid :=
  (m.threadMap.lookup key).filter fun tid => m.holdsThread key.userId tid

/-- Resolve an external thread ID to an internal thread, creating session and thread where missing. -/
def resolveThread (user channel : String) (externalThreadId : Option String)
    (newSessionId newThreadId : Uuid) (now : Time) : Uuid × SessionManager :=
  let m := m.getOrCreateSession user newSessionId now
  let key : ThreadKey := { userId := user, channel, externalThreadId }
  match m.mapped key with
  | some tid => (tid, m)
  | none =>
    match m.adoptable user externalThreadId with
    | some extUuid =>
      (extUuid,
        { m with
          threadMap := m.threadMap.insert key extUuid
          undoManagers := Map.insertIfAbsent extUuid UndoManager.new m.undoManagers })
    | none =>
      let m := m.modifySession user (Session.createThread · newThreadId now)
      (newThreadId,
        { m with
          threadMap := m.threadMap.insert key newThreadId
          undoManagers := m.undoManagers.insert newThreadId UndoManager.new })

/-- Register a hydrated thread under the canonical text of its identifier. -/
def registerThread (user channel : String) (tid : Uuid) (session : Session) :
    SessionManager :=
  let key : ThreadKey := { userId := user, channel, externalThreadId := some (Uuid.toString tid) }
  { threadMap := m.threadMap.insert key tid
    undoManagers := Map.insertIfAbsent tid UndoManager.new m.undoManagers
    sessions := Map.insertIfAbsent user session m.sessions }

/-- `sess.threads.remove(&id)`, clearing the active thread if it was the removed one. -/
def dropThread (tid : Uuid) (s : Session) : Session :=
  { s with
    threads := s.threads.erase tid
    activeThread := if s.activeThread = some tid then none else s.activeThread }

/-- Remove a thread from the session and all associated state. -/
def removeThread (tid : Uuid) (newSessionId : Uuid) (now : Time) :
    SessionManager :=
  let m := (m.getOrCreateSession user newSessionId now).modifySession user (dropThread tid)
  { m with
    threadMap := m.threadMap.retain fun _ v => v != tid
    undoManagers := m.undoManagers.erase tid }

/-- The undo manager of a thread, created if missing. -/
def getUndoManager (tid : Uuid) : UndoManager × SessionManager :=
  ((m.undoManagers.lookup tid).getD UndoManager.new,
    { m with undoManagers := Map.insertIfAbsent tid UndoManager.new m.undoManagers })

/-! ## Lookups after a change to one session -/

section Frames

variable (m : SessionManager) (user : String) (f : Session → Session)

theorem session_modifySession_self : (m.modifySession user f).session user = (m.session user).map f := by
  unfold modifySession
  cases h : m.session user with
  | none => exact h
  | some s => exact AList.lookup_insert m.sessions

theorem session_modifySession_ne {user' : String} (h : user' ≠ user) :
    (m.modifySession user f).session user' = m.session user' := by
  unfold modifySession
  cases m.session user with
  | none => rfl
  | some s => exact AList.lookup_insert_ne h

theorem threadMap_modifySession : (m.modifySession user f).threadMap = m.threadMap := by
  unfold modifySession; split <;> rfl

theorem undoManagers_modifySession : (m.modifySession user f).undoManagers = m.undoManagers := by
  unfold modifySession; split <;> rfl

end Frames

/-! ## Pruning -/

/-- `std::time::Duration`. -/
structure Duration where
  secs : Nat
  nanos : Nat

namespace Duration

/-- The length in nanoseconds. -/
def toNanos (d : Duration) : Int := d.secs * 1000000000 + d.nanos

end Duration

/-- `secs as i64`, a wrapping conversion from `u64`. -/
def asI64 (n : Nat) : Int := (BitVec.ofNat 64 n).toInt

/-- `Utc::now() - TimeDelta::seconds(max_idle.as_secs() as i64)`; `none` is the panic of a time delta out of
    `chrono`'s range of `i64::MAX` milliseconds. An instant before the first one `chrono` represents panics
    too; it is not told apart here, since no session is older than it and none is removed either way. -/
def pruneCutoff (now : Time) (maxIdle : Duration) : Option Time :=
  let secs := asI64 maxIdle.secs
  if secs < -9223372036854775 ∨ 9223372036854775 < secs then none
  else some (now - secs * 1000000000)

/-- The users whose session is stale: lock free (`busy` is a failed `try_lock`) and last active before the
    cutoff. -/
def staleUsers (cutoff : Time) (busy : String → Bool) : List String :=
  (m.sessions.entries.filter fun e => !busy e.1 && decide (e.2.lastActiveAt < cutoff)).map (·.1)

/-- The threads of the stale sessions whose lock is free on the second pass. -/
def staleThreads (stale : List String) (busy : String → Bool) : List Uuid :=
  stale.flatMap fun user =>
    if busy user then [] else ((m.session user).map fun s => s.threads.keys).getD []

/-- Remove sessions that have been idle for longer than `maxIdle`; `none` when computing the cutoff panics.
    The two `busy` predicates are the locks found taken on the two passes over the sessions. -/
def pruneStaleSessions (now : Time) (maxIdle : Duration)
    (busy₁ busy₂ : String → Bool) : Option SessionManager :=
  (pruneCutoff now maxIdle).map fun cutoff =>
    let stale := m.staleUsers cutoff busy₁
    { sessions := Map.eraseAll stale m.sessions
      threadMap := m.threadMap.retain fun key _ => !stale.contains key.userId
      undoManagers := Map.eraseAll (m.staleThreads stale busy₂) m.undoManagers }

end SessionManager
end Freeclawdia
