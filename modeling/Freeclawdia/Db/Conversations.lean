import Mathlib.Data.String.Basic
import Freeclawdia.Lib.Log
import Freeclawdia.Lib.Paging
import Freeclawdia.Rust.Uuid

/-!
# `Db.Conversations` — the conversation tables

`conversations` and `conversation_messages` of the libSQL backend (`src/db/libsql/conversations.rs`), with the rows in
the order of their rowids. Identifiers are primary keys, so no two rows share one.

A `created_at` is the text `fmt_ts` writes, with milliseconds, and is compared as text. A cursor goes out as the time of
a message and comes back through `fmt_ts`, which gives the text of that message again. Channels, metadata and the times
of conversations are left out, since nothing here reads them.
-/

namespace Freeclawdia.Conversations

open Rust

/-- A row of `conversations`. -/
structure ConversationRow where
  id : Uuid
  userId : String

/-- A message as it is read. -/
structure ConversationMessage where
  id : Uuid
  role : String
  content : String
  createdAt : String
deriving DecidableEq

/-- A row of `conversation_messages`. -/
structure MessageRow extends ConversationMessage where
  conversationId : Uuid
deriving DecidableEq

structure Tables where
  conversations : List ConversationRow
  messages : List MessageRow
  conversations_apart : conversations.Pairwise fun c c' => c.id ≠ c'.id
  messages_apart : messages.Pairwise fun m m' => m.id ≠ m'.id

/-- Nothing is stored. -/
def Tables.empty : Tables := ⟨[], [], .nil, .nil⟩

inductive DatabaseError
  | pool (reason : String)
  | query (reason : String)

/-- `DatabaseError` as text. -/
def DatabaseError.toString : DatabaseError → String
  | .pool reason => "Connection pool error: " ++ reason
  | .query reason => "Query failed: " ++ reason

namespace Tables

/-! ## Statements -/

/-- Insert a conversation unless its identifier is taken. -/
def insertConversation (t : Tables) (row : ConversationRow) : Except DatabaseError Tables :=
  if h : ∀ c ∈ t.conversations, c.id ≠ row.id then
    .ok { t with conversations := t.conversations ++ [row]
                 conversations_apart := Log.pairwise_concat t.conversations_apart h }
  else .error (.query "UNIQUE constraint failed: conversations.id")

/-- Insert a message unless its identifier is taken. -/
def insertMessage (t : Tables) (row : MessageRow) : Except DatabaseError Tables :=
  if h : ∀ m ∈ t.messages, m.id ≠ row.id then
    .ok { t with messages := t.messages ++ [row]
                 messages_apart := Log.pairwise_concat t.messages_apart h }
  else .error (.query "UNIQUE constraint failed: conversation_messages.id")

/-- `DELETE FROM conversation_messages WHERE id IN (..)`. -/
def deleteMessages (t : Tables) (ids : List Uuid) : Tables :=
  { t with messages := t.messages.filter fun m => m.id ∉ ids
           messages_apart := t.messages_apart.filter _ }

/-- `ORDER BY created_at ASC, rowid ASC`. -/
def byCreatedAt (rows : List MessageRow) : List MessageRow := rows.insertionSort fun m m' => m.createdAt ≤ m'.createdAt

end Tables

/-! ## Functions of the store -/

/-- What one insertion draws. -/
structure Draw where
  id : Uuid
  now : String

variable (t : Tables) (conversationId : Uuid)

/-- `conversation_belongs_to_user`. -/
def conversationBelongsToUser (userId : String) : Bool :=
  t.conversations.any fun c => c.id == conversationId && c.userId == userId

/-- `list_conversation_messages`. -/
def listConversationMessages : List ConversationMessage :=
  (Tables.byCreatedAt (t.messages.filter fun m => m.conversationId = conversationId)).map MessageRow.toConversationMessage

/-- An `i64` sum. -/
def addI64 (a b : Int) : Int := (a + b + 2 ^ 63) % 2 ^ 64 - 2 ^ 63

/-- `usize as i64`, and back. -/
def toI64 (n : Nat) : Int := if n < 2 ^ 63 then n else n - 2 ^ 64

def toUsize (i : Int) : Nat := (i % 2 ^ 64).toNat

/-- The rows `LIMIT` leaves; a negative number is no limit. -/
def limitRows {α : Type} (limit : Int) (rows : List α) : List α := if limit < 0 then rows else rows.take limit.toNat

/-- `list_conversation_messages_paginated`: the newest messages before a time, and whether there are more. -/
def listConversationMessagesPaginated (before : Option String) (limit : Int) :
    List ConversationMessage × Bool :=
  let rows := (listConversationMessages t conversationId).filter fun m =>
    match before with
    | some time => m.createdAt < time
    | none => true
  let all := limitRows (addI64 limit 1) rows.reverse
  ((all.take (toUsize limit)).reverse, decide (limit < all.length))

/-- `ensure_conversation`: a row that is there stays as it is. -/
def ensureConversation (id : Uuid) (userId : String) : Tables :=
  ((t.insertConversation ⟨id, userId⟩).toOption).getD t

/-- `add_conversation_message`, with the identifier and the time that are drawn. -/
def addConversationMessage (role content : String) (id : Uuid) (now : String) :
    Except DatabaseError Tables :=
  t.insertMessage { id, role, content, createdAt := now, conversationId }

variable (messageIds : List Uuid)

/-- `SELECT .. WHERE id IN (..) ORDER BY created_at ASC, rowid ASC`, whoever the messages belong to. -/
def selectByIds : List MessageRow :=
  Tables.byCreatedAt (t.messages.filter fun m => m.id ∈ messageIds)

/-- Copy messages into a conversation, with the draws from number `i` on. -/
def insertCopies (newId : Uuid) (draw : Nat → Draw) : Nat → List MessageRow → Tables → Except DatabaseError Tables
  | _, [], t => .ok t
  | i, m :: rest, t =>
    match addConversationMessage t newId m.role m.content (draw i).id (draw i).now with
    | .ok t => insertCopies newId draw (i + 1) rest t
    | .error e => .error e

/-- `cherry_pick_messages`: copy messages into a new conversation of a user and, for a move, delete them where they
    were. All of it is one transaction, so a failing statement leaves the tables as they were whichever it is. -/
def cherryPickMessages (userId : String) (deleteSource : Bool) (newId : Uuid)
    (draw : Nat → Draw) (fault : Option DatabaseError) : Except DatabaseError ((Uuid × Nat) × Tables) :=
  match fault with
  | some e => .error e
  | none =>
    match t.insertConversation ⟨newId, userId⟩ with
    | .error e => .error e
    | .ok created =>
      match insertCopies newId draw 0 (selectByIds t messageIds) created with
      | .error e => .error e
      | .ok copied =>
        .ok ((newId, (selectByIds t messageIds).length),
          if deleteSource then copied.deleteMessages messageIds else copied)

/-- `delete_messages_by_ids`: the number of messages that were there, and the tables without them. -/
def deleteMessagesByIds (fault : Option DatabaseError) : Except DatabaseError (Nat × Tables) :=
  match fault with
  | some e => .error e
  | none => .ok ((t.messages.filter fun m => m.id ∈ messageIds).length, t.deleteMessages messageIds)

/-! ## Identifiers that are drawn -/

variable {draw : Nat → Draw}

/-- The draws below number `n` give different identifiers. -/
def DrawsApart (draw : Nat → Draw) (n : Nat) : Prop := ∀ i j, i < j → j < n → (draw i).id ≠ (draw j).id

/-- No row has an identifier that is drawn from number `k` on and below number `n`. -/
def FreshFrom (draw : Nat → Draw) (k n : Nat) (t : Tables) : Prop :=
  ∀ j, k ≤ j → j < n → ∀ m ∈ t.messages, m.id ≠ (draw j).id

theorem FreshFrom.mono {k k' n : Nat} {t : Tables} (h : FreshFrom draw k n t) (hk : k ≤ k') : FreshFrom draw k' n t :=
  fun j hj => h j (hk.trans hj)

end Freeclawdia.Conversations
