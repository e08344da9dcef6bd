import Freeclawdia.Lib.Interleave
import Freeclawdia.Rust.Str
import Freeclawdia.Rust.Json

/-!
# `Pairing.Store` — pending pairing requests and the list of allowed senders (`pairing/store.rs`)

Every channel has three JSON files: the pending requests, the allowed senders, the times of failed approvals.
The store keeps nothing in memory, and several processes may use the same directory, so the functions here
are programs over **file operations**, and it is those operations that interleave. Locks are advisory
exclusive locks on an open file: they make another `lock_exclusive` wait and nothing else.

A file's text is modelled by the items it parses to. A text that does not parse, the empty text of a file
just created or truncated among them, reads as no items. Times are seconds since the epoch, which is what
`created_at` parses to.

Some fields are there for the statements only and no operation reads them: `openers`, `incoming` and `seen`
of a file, the arguments `incoming` and `note` of an operation, and the `history` of the disk.
-/

namespace Freeclawdia.Pairing

open Rust

def pairingAlphabet : List Char :=
  ['A', 'B', 'C', 'D', 'E', 'F', 'G', 'H', 'J', 'K', 'L', 'M', 'N', 'P', 'Q', 'R', 'S', 'T', 'U', 'V', 'W',
   'X', 'Y', 'Z', '2', '3', '4', '5', '6', '7', '8', '9']

/-- TTL for pending pairing requests. -/
def pairingPendingTtlSecs : Nat := 15 * 60

def pairingPendingMax : Nat := 3

/-- Max failed approve attempts per channel before the rate limit kicks in. -/
def pairingApproveRateLimit : Nat := 10

/-- Time window for the rate limit. -/
def pairingApproveRateWindowSecs : Nat := 5 * 60

/-- `io::ErrorKind`, as far as the store tells kinds apart. -/
inductive IoError
  | notFound
  | other
deriving DecidableEq, Repr

/-- `PairingStoreError`; the paths always have a parent and the items always serialise, so two of its
    variants never occur. -/
inductive PairingStoreError
  | invalidChannel (name : String)
  | io (e : IoError)
  | approveRateLimited
deriving DecidableEq, Repr

structure UpsertResult where
  code : String
  created : Bool
deriving DecidableEq, Repr

/-- A pending pairing request. -/
structure PairingRequest where
  id : String
  code : String
  createdAt : Nat
  lastSeenAt : Nat
  metadata : Option Json

/-! ## Names of channels and files -/

/-- `.replace("..", "_")`. -/
def replaceDots : List Char → List Char
  | '.' :: '.' :: cs => '_' :: replaceDots cs
  | c :: cs => c :: replaceDots cs
  | [] => []

def safeChar (c : Char) : Char :=
  if c ∈ ['\\', '/', ':', '*', '?', '"', '<', '>', '|'] then '_' else c

-- Irreducible, so that no proof about a program runs the Unicode tables.
@[irreducible] def safeChannelKey (channel : String) : Except PairingStoreError String :=
  let raw := toLowercase (trim channel)
  if raw = "" then .error (.invalidChannel "empty")
  else
    let safe := String.ofList (replaceDots (raw.toList.map safeChar))
    if safe = "" ∨ safe = "_" then .error (.invalidChannel channel) else .ok safe

/-- The three files of a channel. -/
inductive FileName
  | pairing
  | allowFrom
  | attempts
deriving DecidableEq, Repr

/-- What a file is a list of. -/
abbrev FileName.Item : FileName → Type
  | .pairing => PairingRequest
  | .allowFrom => String
  | .attempts => Nat

/-- A file is named by the channel's key and its suffix. -/
structure FileId where
  key : String
  name : FileName
deriving DecidableEq, Repr

def isExpired (req : PairingRequest) (nowSecs : Nat) : Bool :=
  decide (pairingPendingTtlSecs < nowSecs - req.createdAt)

/-! ## Pairing codes -/

/-- The indices drawn for one code. -/
abbrev Draw := Fin 8 → Fin 32

instance neZeroLetters : NeZero 32 := ⟨by decide⟩

def randomCode (draw : Draw) : String :=
  String.ofList (List.ofFn fun n => pairingAlphabet.get ((draw n).cast (by decide)))

/-- `{:04}` of a number below 10000. -/
def fourDigits (n : Nat) : String :=
  String.ofList ([1000, 100, 10, 1].map fun d => Char.ofNat (48 + n / d % 10))

def generateUniqueCode (existing : List String) (draws : Nat → Draw) (suffix : Fin 10000) : String :=
  match ((List.range 500).map fun n => randomCode (draws n)).find? fun code => !existing.contains code with
  | some code => code
  | none => randomCode (draws 500) ++ fourDigits suffix

/-! ## The disk -/

/-- A file: its items (`none` when it does not exist) and who holds the lock on it. -/
structure FileState (α : Type) where
  text : Option (List α)
  holder : Option Nat
  /-- The tasks that have it open, and whether their opening truncated it. -/
  openers : List (Nat × Bool)
  /-- What the task that has emptied it is about to write into it. -/
  incoming : Option (List α)
  /-- What each task read from it last. -/
  seen : Nat → Option (List α)

def FileState.absent {α : Type} : FileState α := ⟨none, none, [], none, fun _ => none⟩

/-- Steps of a call worth remembering: it wrote a new request, it wrote the pending requests back without
    the one it approves, it found that no pending code is the one it was given. -/
inductive Note
  | created (req : PairingRequest)
  | taken (req : PairingRequest)
  | mismatch

structure Event where
  task : Nat
  key : String
  time : Nat
  note : Note

/-- The store's directory. `clock` is the time of the last operation. -/
structure Disk where
  files : (f : FileId) → FileState f.name.Item
  clock : Nat
  history : List Event

/-- An empty directory. -/
def Disk.empty : Disk := ⟨fun _ => .absent, 0, []⟩

/-- What reading a file gives, when it can be read. -/
def Disk.items (s : Disk) (f : FileId) : List f.name.Item := (s.files f).text.getD []

/-- What a file holds, or is about to hold again. -/
def Disk.contents (s : Disk) (f : FileId) : List f.name.Item := (s.files f).incoming.getD (s.items f)

def Disk.tick (s : Disk) (now : Nat) : Disk := { s with clock := now }

def Disk.setFile (s : Disk) (f : FileId) (st : FileState f.name.Item) : Disk :=
  { s with files := Function.update s.files f st }

def Disk.record (s : Disk) (t : Nat) (key : String) : Option Note → Disk
  | none => s
  | some note => { s with history := s.history ++ [⟨t, key, s.clock, note⟩] }

/-- The operations. `fs::write` is `setLenZero` followed by `writeAll`. -/
inductive FileOp
  | createDirAll (f : FileId)
  | openFile (f : FileId) (create truncate : Bool) (incoming : Option (List f.name.Item))
  | lockExclusive (f : FileId)
  | readToString (f : FileId)
  | setLenZero (f : FileId) (incoming : List f.name.Item)
  | seek (f : FileId)
  | writeAll (f : FileId) (items : List f.name.Item) (note : Option Note)
  | syncAll (f : FileId)
  | unlock (f : FileId) (note : Option Note)
  /-- The open file goes out of scope; a lock it still holds is released. -/
  | close (f : FileId)
  | now
  | generateUniqueCode (existing : List String)

def Ans : FileOp → Type
  | .readToString f => Except IoError (List f.name.Item)
  | .close _ => Unit
  | .now => Nat
  | .generateUniqueCode _ => String
  | _ => Except IoError Unit

/-- The time at which an operation happens, whether it fails, and what the random generator gives. -/
structure Input where
  now : Nat
  fails : Bool
  draws : Nat → Draw
  suffix : Fin 10000

/-- An operation that only succeeds or fails. -/
def Input.outcome (i : Input) : Except IoError Unit := if i.fails then .error .other else .ok ()

def performOpen (t : Nat) (f : FileId) (create truncate : Bool) (incoming : Option (List f.name.Item))
    (s : Disk) : Except IoError Unit × Disk :=
  let file := s.files f
  match file.text with
  | none =>
    if create then
      (.ok (), s.setFile f { file with text := some [], openers := (t, truncate) :: file.openers,
                                       incoming := incoming })
    else (.error .notFound, s)
  | some items =>
    (.ok (), s.setFile f { file with text := some (if truncate then [] else items),
                                     openers := (t, truncate) :: file.openers,
                                     incoming := if truncate then incoming else file.incoming })

def performRead (t : Nat) (f : FileId) (s : Disk) : Except IoError (List f.name.Item) × Disk :=
  let file := s.files f
  match file.text with
  | none => (.error .notFound, s)
  | some items => (.ok items, s.setFile f { file with seen := Function.update file.seen t (some items) })

/-- What an operation answers and leaves behind, apart from the passing of time. -/
def performAt (t : Nat) (o : FileOp) (i : Input) (s : Disk) : Option (Ans o × Disk) :=
  match o with
  | .createDirAll _ => some (i.outcome, s)
  | .seek _ => some (i.outcome, s)
  | .syncAll _ => some (i.outcome, s)
  | .openFile f create truncate incoming =>
    if i.fails then some (i.outcome, s) else some (performOpen t f create truncate incoming s)
  | .lockExclusive f =>
    if i.fails then some (i.outcome, s)
    else
      match (s.files f).holder with
      | none => some (i.outcome, s.setFile f { s.files f with holder := some t })
      | some _ => none
  | .readToString f => if i.fails then some (.error .other, s) else some (performRead t f s)
  | .setLenZero f incoming =>
    if i.fails then some (i.outcome, s)
    else some (i.outcome, s.setFile f { s.files f with text := some [], incoming := some incoming })
  | .writeAll f items note =>
    -- What a failed write leaves does not parse.
    if i.fails then some (i.outcome, s.setFile f { s.files f with text := some [], incoming := none })
    else some (i.outcome, (s.setFile f { s.files f with text := some items, incoming := none }).record
      t f.key note)
  | .unlock f note =>
    if i.fails then some (i.outcome, s)
    else some (i.outcome, (s.setFile f { s.files f with holder := none }).record t f.key note)
  | .close f =>
    let file := s.files f
    some ((), s.setFile f { file with
      holder := if file.holder = some t then none else file.holder,
      openers := file.openers.filter fun o => o.1 ≠ t })
  | .now => some (i.now, s)
  | .generateUniqueCode existing => some (Pairing.generateUniqueCode existing i.draws i.suffix, s)

/-- Every operation happens at a time. -/
def perform (t : Nat) (o : FileOp) (i : Input) (s : Disk) : Option (Ans o × Disk) :=
  performAt t o i (s.tick i.now)

/-! ## The store's functions -/

/-- A program that may return early with an error. -/
abbrev StoreM (α : Type) := ExceptT PairingStoreError (Prog FileOp Ans) α

/-- `?` on an operation. -/
def io {α : Type} (p : Prog FileOp Ans (Except IoError α)) : StoreM α :=
  ExceptT.mk (p >>= fun r => .ret (r.mapError .io))

variable (f : FileId)

def createDirAll : StoreM Unit := io (.op (.createDirAll f) .ret)

def openFile (create truncate : Bool) (incoming : Option (List f.name.Item)) : StoreM Unit :=
  io (.op (.openFile f create truncate incoming) .ret)

def lockExclusive : StoreM Unit := io (.op (.lockExclusive f) .ret)

def setLenZero (incoming : List f.name.Item) : StoreM Unit := io (.op (.setLenZero f incoming) .ret)

def seek : StoreM Unit := io (.op (.seek f) .ret)

def writeAll (items : List f.name.Item) (note : Option Note) : StoreM Unit :=
  io (.op (.writeAll f items note) .ret)

def syncAll : StoreM Unit := io (.op (.syncAll f) .ret)

def unlock (note : Option Note) : StoreM Unit := io (.op (.unlock f note) .ret)

/-- `fs::read_to_string`, whose errors the callers look at. -/
def readToString : StoreM (Except IoError (List f.name.Item)) :=
  ExceptT.mk (.op (.readToString f) fun r => .ret (.ok r))

/-- `fs::read_to_string(&path).unwrap_or_default()`, parsed. -/
def readOrEmpty : StoreM (List f.name.Item) :=
  ExceptT.mk (.op (.readToString f) fun r => .ret (.ok (r.toOption.getD [])))

/-- `fs::write` on an existing file. -/
def fsWrite (items : List f.name.Item) : StoreM Unit := do
  setLenZero f items
  writeAll f items none

/-- `now_iso` and `now_secs`. -/
def now : StoreM Nat := ExceptT.mk (.op .now fun n => .ret (.ok n))

def uniqueCode (existing : List String) : StoreM String :=
  ExceptT.mk (.op (.generateUniqueCode existing) fun code => .ret (.ok code))

/-- The scope of an open file: it is closed on every way out. -/
def inScope {α : Type} (body : StoreM α) : StoreM α :=
  ExceptT.mk (body.run >>= fun r => .op (.close f) fun _ => .ret r)

def keyOf (channel : String) : StoreM String := ExceptT.mk (.ret (safeChannelKey channel))

variable (key : String)

abbrev pairingPath : FileId := ⟨key, .pairing⟩

abbrev allowFromPath : FileId := ⟨key, .allowFrom⟩

abbrev approveAttemptsPath : FileId := ⟨key, .attempts⟩

/-- `iter().position(p)`, with what is before, at and after the position. -/
def position {α : Type} (p : α → Bool) : List α → Option (List α × α × List α)
  | [] => none
  | x :: xs => if p x then some ([], x, xs) else (position p xs).map fun r => (x :: r.1, r.2)

def writePairingFileLocked (requests : List PairingRequest) (note : Option Note) :
    StoreM Unit := do
  setLenZero (pairingPath key) requests
  seek (pairingPath key)
  writeAll (pairingPath key) requests note
  syncAll (pairingPath key)

def writePairingFile (channel : String) (requests : List PairingRequest) : StoreM Unit := do
  let key ← keyOf channel
  openFile (pairingPath key) true true (some requests)
  inScope (pairingPath key) do
    lockExclusive (pairingPath key)
    writePairingFileLocked key requests none
    unlock (pairingPath key) none

/-- Drop the expired requests. -/
def unexpired (nowSecs : Nat) (requests : List PairingRequest) : List PairingRequest :=
  requests.filter fun r => !isExpired r nowSecs

/-- Write back what is left after the expired requests are gone. -/
def writeIfShorter (channel : String) (stored requests : List PairingRequest) : StoreM Unit :=
  if requests.length ≠ stored.length then writePairingFile channel requests else pure ()

/-- List pending pairing requests for a channel. -/
def listPending (channel : String) : StoreM (List PairingRequest) := do
  let key ← keyOf channel
  match ← readToString (pairingPath key) with
  | .error .notFound => return []
  | .error e => throw (.io e)
  | .ok stored =>
    let nowSecs ← now
    let requests := unexpired nowSecs stored
    writeIfShorter channel stored requests
    return requests.mergeSort fun a b => decide (a.createdAt ≤ b.createdAt)

/-- The code a request keeps; an empty one is replaced. -/
def keptCode (req : PairingRequest) (existingCodes : List String) : StoreM String :=
  if req.code = "" then uniqueCode existingCodes else pure req.code

/-- `upsert_request` for an id that is pending already. -/
def refreshRequest (nowIso : Nat) (metadata : Option Json) (existingCodes : List String)
    (before : List PairingRequest) (req : PairingRequest) (after : List PairingRequest) :
    StoreM UpsertResult := do
  let code ← keptCode req existingCodes
  let req := { req with lastSeenAt := nowIso, code := code, metadata := metadata.or req.metadata }
  writePairingFileLocked key (before ++ req :: after) none
  unlock (pairingPath key) none
  return ⟨code, false⟩

/-- `upsert_request` for an id that is not pending. -/
def addRequest (key id : String) (nowIso : Nat) (metadata : Option Json) (existingCodes : List String)
    (requests : List PairingRequest) : StoreM UpsertResult := do
  if pairingPendingMax ≤ requests.length then
    unlock (pairingPath key) none
    return ⟨"", false⟩
  else
    let code ← uniqueCode existingCodes
    let req := { id := id, code := code, createdAt := nowIso, lastSeenAt := nowIso, metadata := metadata }
    writePairingFileLocked key (requests ++ [req]) (some (.created req))
    unlock (pairingPath key) none
    return ⟨code, true⟩

/-- Upsert a pairing request. -/
def upsertRequest (channel id : String) (metadata : Option Json) : StoreM UpsertResult := do
  let key ← keyOf channel
  createDirAll (pairingPath key)
  openFile (pairingPath key) true false none
  inScope (pairingPath key) do
    lockExclusive (pairingPath key)
    let stored : List PairingRequest ← readOrEmpty (pairingPath key)
    let nowIso ← now
    let nowSecs ← now
    if trim id = "" then
      unlock (pairingPath key) none
      throw (.invalidChannel "empty id")
    else
      let requests := unexpired nowSecs stored
      let existingCodes := requests.map fun r => toUppercase r.code
      match position (fun r => decide (r.id = trim id)) requests with
      | some (before, req, after) => refreshRequest key nowIso metadata existingCodes before req after
      | none => addRequest key (trim id) nowIso metadata existingCodes requests

/-- The failures that still count at time `now`. -/
def recentFailures (now : Nat) (failedAt : List Nat) : List Nat :=
  failedAt.filter fun t => decide (now - pairingApproveRateWindowSecs ≤ t)

def isApproveRateLimited (channel : String) : StoreM Bool := do
  let key ← keyOf channel
  match ← readToString (approveAttemptsPath key) with
  | .error .notFound => return false
  | .error e => throw (.io e)
  | .ok failedAt =>
    let now ← now
    return decide (pairingApproveRateLimit ≤ (recentFailures now failedAt).length)

def recordFailedApprove (channel : String) : StoreM Unit := do
  let key ← keyOf channel
  createDirAll (approveAttemptsPath key)
  openFile (approveAttemptsPath key) true false none
  inScope (approveAttemptsPath key) do
    lockExclusive (approveAttemptsPath key)
    let failedAt : List Nat ← readOrEmpty (approveAttemptsPath key)
    let now ← now
    fsWrite (approveAttemptsPath key) (recentFailures now (failedAt ++ [now]))
    unlock (approveAttemptsPath key) none

def addAllowFrom (channel entry : String) : StoreM Unit := do
  let entry := trim entry
  if entry = "" then return ()
  else
    let key ← keyOf channel
    createDirAll (allowFromPath key)
    -- The file is truncated here, before it is locked and read.
    openFile (allowFromPath key) true true (some [entry])
    inScope (allowFromPath key) do
      lockExclusive (allowFromPath key)
      let allowFrom : List String ← readOrEmpty (allowFromPath key)
      if allowFrom.any fun e => toLowercase e = toLowercase entry then unlock (allowFromPath key) none
      else
        fsWrite (allowFromPath key) (allowFrom ++ [entry])
        unlock (allowFromPath key) none

/-- `open` with `create(false)` in `approve`, and what it makes of a missing file. -/
def openExisting : StoreM Unit :=
  ExceptT.mk (.op (.openFile f false false none) fun (r : Except IoError Unit) => .ret (r.mapError fun
    | .notFound => .invalidChannel "no pairing file"
    | .other => .io .other))

/-- What `approve` does once it is past the rate limit. -/
def approveCode (channel code : String) : StoreM (Option PairingRequest) := do
  let key ← keyOf channel
  openExisting (pairingPath key)
  inScope (pairingPath key) do
    lockExclusive (pairingPath key)
    let stored : List PairingRequest ← readOrEmpty (pairingPath key)
    let nowSecs ← now
    match position (fun r => decide (toUppercase r.code = code)) (unexpired nowSecs stored) with
    | some (before, entry, after) =>
      writePairingFileLocked key (before ++ after) (some (.taken entry))
      unlock (pairingPath key) none
      addAllowFrom channel entry.id
      return some entry
    | none =>
      unlock (pairingPath key) (some .mismatch)
      recordFailedApprove channel
      return none

/-- `code.trim().to_uppercase()`. -/
@[irreducible] def normalCode (code : String) : String := toUppercase (trim code)

/-- Approve a pairing code and add the sender to allowFrom. -/
def approve (channel code : String) : StoreM (Option PairingRequest) := do
  if normalCode code = "" then return none
  else if ← isApproveRateLimited channel then throw .approveRateLimited
  else approveCode channel (normalCode code)

/-- Read the allowFrom list for a channel. -/
def readAllowFrom (channel : String) : StoreM (List String) := do
  let key ← keyOf channel
  match ← readToString (allowFromPath key) with
  | .error .notFound => return []
  | .error e => throw (.io e)
  | .ok allowFrom => return allowFrom

/-- What `is_sender_allowed` decides from the list. -/
def allows (allow : List String) (id : String) (username : Option String) : Bool :=
  if allow.any fun e => trim e = trim id then true
  else
    match username with
    | none => false
    | some u =>
      let u := toLowercase (trim u)
      let uNorm := (stripPrefix u "@").getD u
      allow.any fun e => toLowercase (trim e) = u || toLowercase (trim e) = "@" ++ uNorm

/-- Check if a sender is allowed (by id or username). -/
def isSenderAllowed (channel id : String) (username : Option String) : StoreM Bool := do
  let allow ← readAllowFrom channel
  return allows allow id username

/-! ## Any number of callers -/

inductive Call
  | listPending (channel : String)
  | upsertRequest (channel id : String) (metadata : Option Json)
  | approve (channel code : String)
  | readAllowFrom (channel : String)
  | isSenderAllowed (channel id : String) (username : Option String)

/-- The channel of a call. -/
def Call.channel : Call → String
  | .listPending channel => channel
  | .upsertRequest channel _ _ => channel
  | .approve channel _ => channel
  | .readAllowFrom channel => channel
  | .isSenderAllowed channel _ _ => channel

def Out : Call → Type
  | .listPending _ => Except PairingStoreError (List PairingRequest)
  | .upsertRequest .. => Except PairingStoreError UpsertResult
  | .approve .. => Except PairingStoreError (Option PairingRequest)
  | .readAllowFrom _ => Except PairingStoreError (List String)
  | .isSenderAllowed .. => Except PairingStoreError Bool

def body : (c : Call) → Prog FileOp Ans (Out c)
  | .listPending channel => listPending channel
  | .upsertRequest channel id metadata => upsertRequest channel id metadata
  | .approve channel code => approve channel code
  | .readAllowFrom channel => readAllowFrom channel
  | .isSenderAllowed channel id username => isSenderAllowed channel id username

/-- The store and its callers. -/
abbrev machine : Machine where
  Shared := Disk
  Op := FileOp
  Ans := Ans
  Input := Input
  Call := Call
  Out := Out
  body := body
  perform := perform

end Freeclawdia.Pairing
