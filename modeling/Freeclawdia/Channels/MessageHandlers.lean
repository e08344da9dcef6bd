import Freeclawdia.Channels.History
import Freeclawdia.Db.Conversations

/-!
# `Channels.MessageHandlers` — what the web channel makes of the conversation tables

`build_turns_from_db_messages` (`src/channels/web/util.rs`) and the part of `chat_history_handler`
(`src/channels/web/server.rs`) that answers from the tables. The loop over the messages looks ahead for the record of
tool calls and for the answer; it has taken `skip` of the messages to come already. Parsing the record is a parameter.
-/

namespace Freeclawdia.Conversations

open Rust

/-- A turn as it is built from messages. -/
structure DbTurnInfo extends TurnInfo where
  startedAt : String
  completedAt : Option String
  messageIds : List Uuid

/-- A tool call of a record. -/
def recordedCall (c : Json) : ToolCallInfo where
  name := ((c.get "name").bind Json.asStr).getD "unknown"
  hasResult := (c.get "result_preview").isSome
  hasError := (c.get "error").isSome
  resultPreview := (c.get "result_preview").bind Json.asStr
  error := (c.get "error").bind Json.asStr

/-- The tool calls of a record; a malformed one has none. -/
def recordedCalls (fromStr : String → Option Json) (content : String) : List ToolCallInfo :=
  match fromStr content with
  | some (.array calls) => calls.map recordedCall
  | _ => []

/-- The next message, if it has the role. -/
def nextWith (role : String) (rest : List ConversationMessage) : Option ConversationMessage :=
  rest.head?.filter fun m => m.role = role

/-- The record of tool calls and the answer that follow a user message. -/
def turnRecords (rest : List ConversationMessage) : Option ConversationMessage × Option ConversationMessage :=
  match nextWith "tool_calls" rest with
  | some calls => (some calls, nextWith "assistant" (rest.drop 1))
  | none => (none, nextWith "assistant" rest)

/-- The turn of a user message. -/
def turnOf (fromStr : String → Option Json) (number : Nat) (user : ConversationMessage)
    (calls answer : Option ConversationMessage) : DbTurnInfo where
  turnNumber := number
  userInput := user.content
  response := answer.map (·.content)
  -- A turn without an answer counts as failed.
  state := if answer.isSome then "Completed" else "Failed"
  startedAt := user.createdAt
  completedAt := answer.map (·.createdAt)
  toolCalls := (calls.map fun m => recordedCalls fromStr m.content).getD []
  messageIds := user.id :: (calls.toList ++ answer.toList).map (·.id)

/-- The loop: `skip` of the messages to come were taken by the last turn. -/
def buildTurnsFrom (fromStr : String → Option Json) : Nat → Nat → List ConversationMessage → List DbTurnInfo
  | _, _, [] => []
  | number, skip + 1, _ :: rest => buildTurnsFrom fromStr number skip rest
  | number, 0, msg :: rest =>
    if msg.role = "user" then
      match turnRecords rest with
      | (calls, answer) =>
        turnOf fromStr number msg calls answer
          :: buildTurnsFrom fromStr (number + 1) (calls.toList.length + answer.toList.length) rest
    else buildTurnsFrom fromStr number 0 rest

/-- `build_turns_from_db_messages`. -/
def buildTurnsFromDbMessages (fromStr : String → Option Json) (messages : List ConversationMessage) : List DbTurnInfo :=
  buildTurnsFrom fromStr 0 0 messages

/-- What `chat_history_handler` reads from the tables for a thread: without a cursor, an empty answer is the last. -/
def historyPage (t : Tables) (threadId : Uuid) (limit : Nat) (before : Option String) : Page ConversationMessage String :=
  match listConversationMessagesPaginated t threadId before (toI64 limit) with
  | (messages, hasMore) =>
    if before.isNone && messages.isEmpty then ⟨[], false, none⟩
    else ⟨messages, hasMore, messages.head?.map (·.createdAt)⟩

/-- The turns it answers with. -/
def pageTurns (fromStr : String → Option Json) (page : Page ConversationMessage String) : List DbTurnInfo :=
  buildTurnsFromDbMessages fromStr page.items

/-! ## Copying and deleting messages by their identifiers

`chat_cherry_pick_handler` and `chat_delete_messages_handler` (`src/channels/web/server.rs`). A request names messages
and nothing else; neither handler asks whose conversation a message is in, as `chat_history_handler` and
`chat_delete_thread_handler` do. What is drawn and what the database does are arguments. -/

/-- The parts of the gateway's state the handlers use. -/
structure GatewayState where
  userId : String
  store : Option Tables
  sessionManager : Option SessionManager

structure CherryPickRequest where
  messageIds : List Uuid
  action : String := "copy"

structure CherryPickResponse where
  threadId : Uuid
  messageCount : Nat

/-- What a cherry-pick draws: the identifier of the new conversation, the copies' identifiers and times, and the
    identifier and time of a session that is created. -/
structure CherryPickDraws where
  newId : Uuid
  copies : Nat → Draw
  sessionId : Uuid
  now : Time

/-- Put an empty thread into the user's session; nothing fills it from the tables. -/
def insertEmptyThread (sm : SessionManager) (user : String) (tid sessionId : Uuid) (now : Time) : SessionManager :=
  (sm.getOrCreateSession user sessionId now).modifySession user fun sess =>
    { sess with threads := sess.threads.insert tid (Thread.withId tid) }

/-- `chat_cherry_pick_handler`. -/
def chatCherryPickHandler (state : GatewayState) (req : CherryPickRequest) (draws : CherryPickDraws)
    (fault : Option DatabaseError) : Except (StatusCode × String) CherryPickResponse × GatewayState :=
  if req.messageIds.isEmpty then (.error (.badRequest, "message_ids must not be empty"), state)
  else
    match state.store with
    | none => (.error (.serviceUnavailable, "Database not available"), state)
    | some store =>
      match cherryPickMessages store req.messageIds state.userId (req.action == "move") draws.newId draws.copies fault with
      | .error e => (.error (.internalServerError, e.toString), state)
      | .ok ((newId, count), store) =>
        (.ok ⟨newId, count⟩,
          { state with
            store := some store
            sessionManager :=
              state.sessionManager.map fun sm => insertEmptyThread sm state.userId newId draws.sessionId draws.now })

/-- `chat_delete_messages_handler`: the number of messages that were deleted. -/
def chatDeleteMessagesHandler (state : GatewayState) (messageIds : List Uuid) (fault : Option DatabaseError) :
    Except (StatusCode × String) Nat × GatewayState :=
  if messageIds.isEmpty then (.error (.badRequest, "message_ids must not be empty"), state)
  else
    match state.store with
    | none => (.error (.serviceUnavailable, "Database not available"), state)
    | some store =>
      match deleteMessagesByIds store messageIds fault with
      | .error e => (.error (.internalServerError, e.toString), state)
      | .ok (deleted, store) => (.ok deleted, { state with store := some store })

end Freeclawdia.Conversations
