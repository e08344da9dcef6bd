import Freeclawdia.Agent.Commands

/-!
# `Agent.ThreadOps` — operations on threads

User input, undo and redo, interruption, compaction, approval, auth tokens and persistence
(`src/agent/thread_ops.rs`, with the compactor of `src/agent/compaction.rs`). A handler works on the session
of the user whose message is being handled; messages are handled one after another, so a handler runs to
completion.

Two paths execute tool calls. The agentic loop's batches pass the hooks; the calls deferred behind an
approval are replayed by `processApproval` with an approval check of their own and **no hooks**.

Where the source draws an identifier only on some paths, the model draws it on all of them: the supply is
arbitrary, so a skipped identifier cannot be told from one never drawn.
-/

namespace Freeclawdia

open Rust

variable {W : Type}

/-! ## Hydration -/

/-- The chat messages of a stored conversation; other rows are UI metadata. -/
def hydrationMessages (rows : List StoredMessage) : List ChatMessage :=
  rows.filterMap fun m =>
    if m.role = "user" then some (ChatMessage.user m.content)
    else if m.role = "assistant" then some (ChatMessage.assistant m.content)
    else none

/-- The in-memory thread of a stored conversation, with the identifier the frontend sent. -/
def hydratedThread (tid : Uuid) (messages : List ChatMessage) : Thread :=
  if messages.isEmpty then Thread.withId tid else (Thread.withId tid).restoreFromMessages messages

/-- Insert a hydrated thread into the session and make it the active one. -/
def insertHydrated (thread : Thread) (now : Time) (s : Session) : Session :=
  { s with
    threads := s.threads.insert thread.id thread
    activeThread := some thread.id
    lastActiveAt := now }

/-- Insert the thread of a conversation that is not in memory and register it. -/
def SessionManager.hydrateThread (m : SessionManager) (user channel : String) (tid : Uuid)
    (messages : List ChatMessage) (now : Time) : SessionManager :=
  match m.session user with
  | none => m
  | some s =>
    { m with sessions := m.sessions.insert user (insertHydrated (hydratedThread tid messages) now s) }
      |>.registerThread user channel tid (insertHydrated (hydratedThread tid messages) now s)

/-- The stored messages of a conversation; none without a store or when the query fails. -/
def loadHistory (env : Env W) (tid : Uuid) (st : AgentState W) : List StoredMessage × AgentState W :=
  if env.hasStore then
    match st.callStore env with
    | (true, st) => (st.store.listMessages tid, st)
    | (false, st) => ([], st)
  else ([], st)

/-- `get_or_create_session` with a drawn identifier. -/
def ensureSession (env : Env W) (user : String) (now : Time) (st : AgentState W) : AgentState W :=
  { st with
    manager := st.manager.getOrCreateSession user (st.trace.draw env).1 now
    trace := (st.trace.draw env).2 }

/-- Load a conversation that is not in memory and register its thread. -/
def hydrateMissing (env : Env W) (msg : IncomingMessage) (tid : Uuid) (now : Time) (st : AgentState W) :
    AgentState W :=
  match loadHistory env tid st with
  | (rows, st) =>
    { st with
      manager := st.manager.hydrateThread msg.userId msg.channel tid (hydrationMessages rows) now }

/-- `maybe_hydrate_thread`: bring a stored conversation into memory, unless the session has it. Nothing
    compares the conversation's user with the message's. -/
def maybeHydrateThread (env : Env W) (msg : IncomingMessage) (externalThreadId : String) (now : Time)
    (st : AgentState W) : AgentState W :=
  match Uuid.parseStr externalThreadId with
  | none => st
  | some tid =>
    if (ensureSession env msg.userId now st).manager.holdsThread msg.userId tid then
      ensureSession env msg.userId now st
    else hydrateMissing env msg tid now (ensureSession env msg.userId now st)

theorem loadHistory_manager (env : Env W) (tid : Uuid) (st : AgentState W) :
    (loadHistory env tid st).2.manager = st.manager := by
  unfold loadHistory AgentState.callStore
  split
  · rcases env.storeCall st.trace.world with ⟨ok, w⟩
    cases ok <;> rfl
  · rfl

theorem loadHistory_drawn (env : Env W) (tid : Uuid) (st : AgentState W) :
    (loadHistory env tid st).2.trace.drawn = st.trace.drawn := by
  unfold loadHistory AgentState.callStore
  split
  · rcases env.storeCall st.trace.world with ⟨ok, w⟩
    cases ok <;> rfl
  · rfl

/-! ## Persistence -/

/-- Ensure the conversation row, then add one message; a failed call is logged and dropped. -/
def persistMessage (env : Env W) (tid : Uuid) (user role content : String) (st : AgentState W) :
    AgentState W :=
  if env.hasStore then
    match st.callStore env with
    | (false, st) => st
    | (true, st) =>
      match { st with store := st.store.ensureConversation tid user }.callStore env with
      | (false, st) => st
      | (true, st) => { st with store := st.store.addMessage tid role content }
  else st

def persistUserMessage (env : Env W) (tid : Uuid) (user userInput : String) (st : AgentState W) :
    AgentState W :=
  persistMessage env tid user "user" userInput st

def persistAssistantResponse (env : Env W) (tid : Uuid) (user response : String) (st : AgentState W) :
    AgentState W :=
  persistMessage env tid user "assistant" response st

/-- The longest prefix of at most `max` bytes that ends at a character boundary. -/
def takeBytes : Nat → List Char → List Char
  | _, [] => []
  | max, c :: cs => if lenUtf8 c ≤ max then c :: takeBytes (max - lenUtf8 c) cs else []

/-- `truncate_preview`. -/
def truncatePreview (s : String) (maxBytes : Nat) : String :=
  if byteLen s ≤ maxBytes then s else String.ofList (takeBytes maxBytes s.toList) ++ "..."

/-- A recorded tool call as it is stored. -/
def callSummary (env : Env W) (tc : TurnToolCall) : Json :=
  .object (("name", .string tc.name)
    :: (tc.result.map fun result =>
          ("result_preview", Json.string (match result with
            | .string s => truncatePreview s 500
            | other => truncatePreview (env.toText other) 500))).toList
    ++ (tc.error.map fun error => ("error", Json.string (truncatePreview error 200))).toList)

def persistToolCalls (env : Env W) (tid : Uuid) (user : String) (toolCalls : List TurnToolCall)
    (st : AgentState W) : AgentState W :=
  if toolCalls.isEmpty then st
  else persistMessage env tid user "tool_calls" (env.toText (.array (toolCalls.map (callSummary env)))) st

/-! ## Compaction -/

/-- What a compaction reports. -/
structure CompactionResult where
  turnsRemoved : Nat
  summaryWritten : Bool

def summaryPrompt : String :=
  "Summarize the following conversation concisely. Focus on:\n- Key decisions made\n"
    ++ "- Important information exchanged\n- Actions taken\n- Outcomes achieved\n\n"
    ++ "Be brief but capture all important details. Use bullet points."

/-- One message of the conversation to summarize. -/
def describeMessage (m : ChatMessage) : String :=
  match m.role with
  | .user => "User: " ++ m.content
  | .assistant => "Assistant: " ++ m.content
  | .system => "System: " ++ m.content
  | .tool => "Tool " ++ m.name.getD "unknown" ++ ": " ++ m.content

/-- `generate_summary`. -/
def generateSummary (env : Env W) (messages : List ChatMessage) (tr : Trace W) :
    Except LlmError String × Trace W :=
  completeText env
    [ChatMessage.system summaryPrompt,
      ChatMessage.user ("Please summarize this conversation:\n\n"
        ++ join "\n\n" (messages.map describeMessage))] tr

/-- One turn as it is archived. -/
def formatTurn (turn : Turn) : String :=
  "**Turn " ++ toString (turn.turnNumber + 1) ++ "**\nUser: " ++ turn.userInput ++ "\n"
    ++ (turn.response.map fun r => "Agent: " ++ r ++ "\n").getD ""
    ++ (if turn.toolCalls.isEmpty then ""
        else "Tools: " ++ join ", " (turn.toolCalls.map (·.name)) ++ "\n")

/-- Append to the workspace's daily log; a failed write is logged and the compaction goes on. -/
def writeToWorkspace (env : Env W) (content : String) (tr : Trace W) : Bool × Trace W :=
  match env.workspaceAppend content tr.world with
  | (ok, w) => (ok, { tr with world := w })

/-- `compact_with_summary`. -/
def compactWithSummary (env : Env W) (thread : Thread) (keepRecent : Nat) (tr : Trace W) :
    Except Error CompactionResult × Thread × Trace W :=
  if thread.turns.length ≤ keepRecent then (.ok ⟨0, false⟩, thread, tr)
  else
    match generateSummary env (turnsMessages (thread.turns.take (thread.turns.length - keepRecent))) tr with
    | (.error e, tr) => (.error (.llm e), thread, tr)
    | (.ok summary, tr) =>
      match (if env.hasWorkspace then writeToWorkspace env summary tr else (false, tr)) with
      | (written, tr) =>
        (.ok ⟨thread.turns.length - keepRecent, written⟩, thread.truncateTurns keepRecent, tr)

/-- `compact_truncate`. -/
def compactTruncate (thread : Thread) (keepRecent : Nat) : CompactionResult × Thread :=
  (⟨thread.turns.length - (thread.truncateTurns keepRecent).turns.length, false⟩,
    thread.truncateTurns keepRecent)

/-- `compact_to_workspace`. -/
def compactToWorkspace (env : Env W) (thread : Thread) (tr : Trace W) :
    CompactionResult × Thread × Trace W :=
  if env.hasWorkspace then
    if thread.turns.length ≤ 10 then (⟨0, false⟩, thread, tr)
    else
      match writeToWorkspace env
          (join "\n" ((thread.turns.take (thread.turns.length - 10)).map formatTurn)) tr with
      | (written, tr) => (⟨thread.turns.length - 10, written⟩, thread.truncateTurns 10, tr)
  else ((compactTruncate thread 5).1, (compactTruncate thread 5).2, tr)

/-- `ContextCompactor::compact`. -/
def compactThread (env : Env W) (thread : Thread) (strategy : CompactionStrategy) (tr : Trace W) :
    Except Error CompactionResult × Thread × Trace W :=
  match strategy with
  | .summarize keepRecent => compactWithSummary env thread keepRecent tr
  | .truncate keepRecent => (.ok (compactTruncate thread keepRecent).1, (compactTruncate thread keepRecent).2, tr)
  | .moveToWorkspace =>
    match compactToWorkspace env thread tr with
    | (result, thread, tr) => (.ok result, thread, tr)

/-- `process_compact`. -/
def processCompact (env : Env W) (user : String) (tid : Uuid) (st : AgentState W) :
    Except Error SubmissionResult × AgentState W :=
  match st.thread user tid with
  | none => (.error (.job (.notFound tid)), st)
  | some thread =>
    match compactThread env thread
        ((env.suggestCompaction thread.messages).getD (.summarize 5)) st.trace with
    | (.ok result, thread', tr) =>
      (.ok (.okWithMessage ("Compacted: " ++ toString result.turnsRemoved ++ " turns removed, "
        ++ toString (env.countTokens thread.messages) ++ " → "
        ++ toString (env.countTokens thread'.messages) ++ " tokens (was "
        ++ env.usagePercent thread.messages ++ "% full)"
        ++ (if result.summaryWritten then ", summary saved to workspace" else ""))),
        { st with trace := tr }.modifyThread user tid fun _ => thread')
    | (.error e, thread', tr) =>
      (.ok (.error ("Compaction failed: " ++ e.display)),
        { st with trace := tr }.modifyThread user tid fun _ => thread')

/-! ## Undo, redo, interruption -/

/-- What `process_undo` and `process_redo` do, each with its own operation of the undo manager and its own texts. -/
def moveInHistory (env : Env W) (possible : UndoManager → Bool)
    (move : UndoManager → Uuid → Nat → List ChatMessage → Option Checkpoint × UndoManager)
    (nothing failed : String) (moved : Checkpoint → UndoManager → String) (user : String) (tid : Uuid)
    (st : AgentState W) : Except Error SubmissionResult × AgentState W :=
  match st.undoManager tid with
  | (mgr, st₁) =>
    if !possible mgr then (.ok (.okWithMessage nothing), st₁)
    else
      match st₁.thread user tid with
      | none => (.error (.job (.notFound tid)), st₁)
      | some thread =>
        match st₁.draw env with
        | (newId, st₂) =>
          match move mgr newId thread.turnNumber thread.messages with
          | (some checkpoint, mgr') =>
            (.ok (.okWithMessage (moved checkpoint mgr')),
              (st₂.setUndo tid mgr').modifyThread user tid
                (Thread.restoreFromMessages · checkpoint.messages))
          | (none, mgr') => (.ok (.error failed), st₂.setUndo tid mgr')

/-- `process_undo`. -/
def processUndo (env : Env W) : String → Uuid → AgentState W → Except Error SubmissionResult × AgentState W :=
  moveInHistory env UndoManager.canUndo UndoManager.undo "Nothing to undo." "Undo failed." fun checkpoint mgr =>
    "Undone to turn " ++ toString checkpoint.turnNumber ++ ". " ++ toString mgr.undoCount ++ " undo(s) remaining."

/-- `process_redo`. -/
def processRedo (env : Env W) : String → Uuid → AgentState W → Except Error SubmissionResult × AgentState W :=
  moveInHistory env UndoManager.canRedo UndoManager.redo "Nothing to redo." "Redo failed." fun checkpoint _ =>
    "Redone to turn " ++ toString checkpoint.turnNumber ++ "."

variable (user : String)

/-- `process_resume`. -/
def processResume (tid checkpointId : Uuid) (st : AgentState W) :
    Except Error SubmissionResult × AgentState W :=
  match st.undoManager tid with
  | (mgr, st₁) =>
    match mgr.restore checkpointId with
    | (none, _) => (.ok (.error "Checkpoint not found."), st₁)
    | (some checkpoint, mgr') =>
      match st₁.thread user tid with
      | none => (.error (.job (.notFound tid)), st₁.setUndo tid mgr')
      | some _ =>
        (.ok (.okWithMessage ("Resumed from checkpoint: " ++ checkpoint.description)),
          (st₁.setUndo tid mgr').modifyThread user tid
            (Thread.restoreFromMessages · checkpoint.messages))

/-- `process_interrupt`. -/
def processInterrupt (tid : Uuid) (st : AgentState W) :
    Except Error SubmissionResult × AgentState W :=
  match st.thread user tid with
  | none => (.error (.job (.notFound tid)), st)
  | some thread =>
    if thread.state = .processing ∨ thread.state = .awaitingApproval then
      (.ok (.okWithMessage "Interrupted."), st.modifyThread user tid Thread.interrupt)
    else (.ok (.okWithMessage "Nothing to interrupt."), st)

/-- `process_clear`. A pending approval stays on the thread. -/
def processClear (tid : Uuid) (st : AgentState W) :
    Except Error SubmissionResult × AgentState W :=
  match st.thread user tid with
  | none => (.error (.job (.notFound tid)), st)
  | some _ =>
    match (st.modifyThread user tid fun t => { t with turns := [], state := .idle }).undoManager tid with
    | (mgr, st) => (.ok (.okWithMessage "Thread cleared."), st.setUndo tid mgr.clear)

/-- `process_new_thread`. -/
def processNewThread (env : Env W) (user : String) (now : Time) (st : AgentState W) :
    Except Error SubmissionResult × AgentState W :=
  match st.draw env with
  | (newId, st) =>
    (.ok (.okWithMessage ("New thread: " ++ Uuid.toString newId)),
      { st with manager := st.manager.modifySession user (Session.createThread · newId now) })

/-- `process_switch_thread`. -/
def processSwitchThread (target : Uuid) (now : Time) (st : AgentState W) :
    Except Error SubmissionResult × AgentState W :=
  if st.manager.holdsThread user target then
    (.ok (.okWithMessage ("Switched to thread " ++ Uuid.toString target)),
      { st with manager := st.manager.modifySession user fun s => (s.switchThread target now).2 })
  else (.ok (.error "Thread not found."), st)

/-! ## The agentic loop on the agent's state -/

/-- Tools the user's session approves for good. -/
def AgentState.autoApproved (st : AgentState W) (user : String) : List String :=
  ((st.manager.session user).map (·.autoApprovedTools)).getD []

/-- Run the agentic loop on the user's session. -/
def runLoop (env : Env W) (user : String) (tid : Uuid) (context : List ChatMessage) (st : AgentState W) :
    Except Error AgenticLoopResult × AgentState W :=
  match st.manager.session user with
  | none => (.error (.job (.notFound tid)), st)
  | some s =>
    match runAgenticLoop env user tid context s st.trace with
    | (result, s', tr) =>
      (result,
        { st with manager := { st.manager with sessions := st.manager.sessions.insert user s' }
                  trace := tr })

/-- Answer the turn, then persist its tool calls and the response. -/
def completeAnswer (env : Env W) (user : String) (tid : Uuid) (response : String) (st : AgentState W) :
    AgentState W :=
  let st₁ := (st.modifyThread user tid (Thread.completeTurn · response)).emit (.answered user response)
  let toolCalls := (((st₁.thread user tid).bind fun t => t.turns.getLast?).map (·.toolCalls)).getD []
  persistAssistantResponse env tid user response (persistToolCalls env tid user toolCalls st₁)

/-- Store an approval request on the thread and report it. -/
def raiseApproval (tid : Uuid) (pending : PendingApproval) (st : AgentState W) :
    SubmissionResult × AgentState W :=
  (.needApproval pending.requestId pending.toolName pending.description pending.displayParameters,
    (st.modifyThread user tid (Thread.awaitApproval · pending)).emit (.raised pending))

/-! ## User input -/

/-- Why an input is refused before it opens a turn, if it is. -/
def refuseInput (env : Env W) (state : ThreadState) (content : String) : Option String :=
  match state with
  | .processing => some "Turn in progress. Use /interrupt to cancel."
  | .awaitingApproval => some "Waiting for approval. Use /interrupt to cancel."
  | .completed => some "Thread completed. Use /thread new."
  | .idle | .interrupted =>
    match env.validateInput content with
    | e :: es => some ("Input rejected by safety validation: " ++ join "; " (e :: es))
    | [] =>
      if env.policyBlocks content then some "Input rejected by safety policy."
      else env.scanInboundForSecrets content

/-- Compact the thread when the context monitor suggests it; a failure is logged and ignored. -/
def autoCompact (env : Env W) (thread : Thread) (tr : Trace W) : Thread × Trace W :=
  match env.suggestCompaction thread.messages with
  | none => (thread, tr)
  | some strategy =>
    match compactThread env thread strategy tr with
    | (_, thread, tr) => (thread, tr)

/-- Checkpoint the thread before a turn. -/
def checkpointTurn (env : Env W) (tid : Uuid) (thread : Thread) (st : AgentState W) : AgentState W :=
  match st.undoManager tid with
  | (mgr, st) =>
    match st.draw env with
    | (newId, st) =>
      st.setUndo tid (mgr.checkpoint newId thread.turnNumber thread.messages
        ("Before turn " ++ toString thread.turnNumber))

/-- The response after the `TransformResponse` hooks. -/
def transformResponse (env : Env W) (user : String) (tid : Uuid) (response : String) (st : AgentState W) :
    String × AgentState W :=
  match st.runHooks env (.responseTransform user (Uuid.toString tid) response) with
  | (.error (.rejected reason), st) => ("[Response filtered: " ++ reason ++ "]", st)
  | (.error err, st) => ("[Response blocked by hook policy: " ++ err.display ++ "]", st)
  | (.ok (.continue (some newResponse)), st) => (newResponse, st)
  | (.ok _, st) => (response, st)

/-- What becomes of a turn after the loop: completed, failed, or waiting for approval. -/
def finishTurn (env : Env W) (user : String) (tid : Uuid) (result : Except Error AgenticLoopResult)
    (st : AgentState W) : Except Error SubmissionResult × AgentState W :=
  match st.thread user tid with
  | none => (.error (.job (.notFound tid)), st)
  | some thread =>
    if thread.state = .interrupted then (.ok .interrupted, st)
    else
      match result with
      | .ok (.response response) =>
        match transformResponse env user tid response st with
        | (response, st) => (.ok (.response response), completeAnswer env user tid response st)
      | .ok (.needApproval pending) =>
        match raiseApproval user tid pending st with
        | (r, st) => (.ok r, st)
      | .error e =>
        (.ok (.error e.display), st.modifyThread user tid (Thread.failTurn · e.display))

/-- Open a turn on the (possibly compacted) thread and persist its input. -/
def openTurn (env : Env W) (user : String) (tid : Uuid) (content : String) (thread : Thread)
    (st : AgentState W) : AgentState W :=
  let st₁ := checkpointTurn env tid thread (st.modifyThread user tid fun _ => thread)
  persistUserMessage env tid user content
    ((st₁.modifyThread user tid (Thread.startTurn · content)).emit (.asked user content))

/-- `process_user_input`. -/
def processUserInput (env : Env W) (cmds : CommandEnv W) (msg : IncomingMessage) (tid : Uuid)
    (content : String) (st : AgentState W) : Except Error SubmissionResult × AgentState W :=
  match st.thread msg.userId tid with
  | none => (.error (.job (.notFound tid)), st)
  | some thread =>
    match refuseInput env thread.state content with
    | some message => (.ok (.error message), st)
    | none =>
      match Router.routeCommand content with
      | some intent =>
        match handleJobOrCommand cmds intent msg.userId msg.channel st.trace.world with
        | (r, w) => (r, { st with trace := { st.trace with world := w } })
      | none =>
        match autoCompact env thread st.trace with
        | (thread', tr) =>
          match runLoop env msg.userId tid (thread'.startTurn content).messages
              (openTurn env msg.userId tid content thread' { st with trace := tr }) with
          | (result, st') => finishTurn env msg.userId tid result st'

/-! ## Approval -/

/-- `handle_auth_intercept`: enter auth mode, answer the turn with the instructions and persist them. -/
def handleAuthIntercept (env : Env W) (user : String) (tid : Uuid) (extName instructions : String)
    (st : AgentState W) : AgentState W :=
  match st.thread user tid with
  | none => st
  | some _ =>
    persistAssistantResponse env tid user instructions
      ((st.modifyThread user tid fun t =>
        (t.enterAuthMode extName).completeTurn instructions).emit (.answered user instructions))

/-- Walk the deferred calls, stopping at the first that needs approval. Neither the hooks nor the
    `auto_approve_tools` setting is consulted here. -/
def deferredPreflight (env : Env W) (auto : List String) (w : W) :
    Nat → List ToolCall → List ToolCall × Option (Nat × ToolCall × Tool)
  | _, [] => ([], none)
  | idx, tc :: rest =>
    match (env.tool w tc.name).filter fun t => needsApproval t tc auto with
    | some tool => ([], some (idx, tc, tool))
    | none =>
      match deferredPreflight env auto w (idx + 1) rest with
      | (runnable, approval) => (tc :: runnable, approval)

/-- The deferred calls with their results, in order. -/
def deferredResults (runnable : List ToolCall) (results : List (Nat × Except Error String)) :
    List (ToolCall × Except Error String) :=
  runnable.zipIdx.map fun t =>
    (t.1, (slot results t.2).getD
      (.error (.tool (.executionFailed t.1.name "Task failed during execution"))))

/-- What the post-flight of deferred calls works on. -/
structure DeferredPostflight (W : Type) where
  state : AgentState W
  context : List ChatMessage
  deferredAuth : Option String := none

/-- Answer the turn with the instructions of the first call that asks for a token. -/
def interceptFirstAuth (env : Env W) (user : String) (tid : Uuid) (tc : ToolCall)
    (result : Except Error String) (p : DeferredPostflight W) : DeferredPostflight W :=
  match p.deferredAuth, checkAuthRequired env tc.name result with
  | none, some (ext, instructions) =>
    { p with
      state := handleAuthIntercept env user tid ext instructions p.state
      deferredAuth := some instructions }
  | _, _ => p

/-- Process the result of one deferred call. -/
def deferredPostflightCall (env : Env W) (user : String) (tid : Uuid) (p : DeferredPostflight W)
    (r : ToolCall × Except Error String) : DeferredPostflight W :=
  let p' := interceptFirstAuth env user tid r.1 r.2
    { p with state := p.state.modifyThread user tid (Thread.modifyLastTurn (recordResult r.2)) }
  { p' with
    context := p'.context ++ [ChatMessage.toolResult r.1.id r.1.name
      (resultContent env (fun e => "Error: " ++ e) r.1.name r.2)] }

/-- The outcome of the loop that continues a turn after an approval. -/
def finishApproval (env : Env W) (user : String) (tid : Uuid) (result : Except Error AgenticLoopResult)
    (st : AgentState W) : Except Error SubmissionResult × AgentState W :=
  match st.thread user tid with
  | none => (.error (.job (.notFound tid)), st)
  | some _ =>
    match result with
    | .ok (.response response) => (.ok (.response response), completeAnswer env user tid response st)
    | .ok (.needApproval pending) =>
      match raiseApproval user tid pending st with
      | (r, st) => (.ok r, st)
    | .error e => (.ok (.error e.display), st.modifyThread user tid (Thread.failTurn · e.display))

/-- After the deferred calls: return token instructions, ask for the next approval, or continue the loop. -/
def afterDeferred (env : Env W) (user : String) (tid : Uuid) (deferred : List ToolCall)
    (approval : Option (Nat × ToolCall × Tool)) (p : DeferredPostflight W) :
    Except Error SubmissionResult × AgentState W :=
  match p.deferredAuth with
  | some instructions => (.ok (.response instructions), p.state)
  | none =>
    match approval with
    | some (idx, tc, tool) =>
      match p.state.draw env with
      | (newId, st) =>
        match raiseApproval user tid
            (pendingFor newId tc tool p.context (deferred.drop (idx + 1))) st with
        | (r, st) => (.ok r, st)
    | none =>
      match runLoop env user tid p.context p.state with
      | (result, st) => finishApproval env user tid result st

/-- Replay the deferred calls. -/
def replayDeferred (env : Env W) (user : String) (tid : Uuid) (deferred : List ToolCall)
    (context : List ChatMessage) (st : AgentState W) : Except Error SubmissionResult × AgentState W :=
  match deferredPreflight env (st.autoApproved user) st.trace.world 0 deferred with
  | (runnable, approval) =>
    match executeRunnable env (st.autoApproved user) .deferred
        (runnable.zipIdx.map fun t => (t.2, t.1)) st.trace with
    | (results, tr) =>
      afterDeferred env user tid deferred approval
        ((deferredResults runnable results).foldl (deferredPostflightCall env user tid)
          { state := { st with trace := tr }, context })

/-- The call an approval request stands for. -/
def PendingApproval.call (p : PendingApproval) : ToolCall := ⟨p.toolCallId, p.toolName, p.parameters⟩

/-- Approve the tool for good when the user said so. -/
def noteAlways (user toolName : String) (always : Bool) (st : AgentState W) : AgentState W :=
  if always then
    { st with manager := st.manager.modifySession user (Session.autoApproveTool · toolName) }
  else st

/-- The state an approved tool runs in: auto-approval noted, thread processing again. -/
def grantApproval (tid : Uuid) (pending : PendingApproval) (always : Bool)
    (st : AgentState W) : AgentState W :=
  (noteAlways user pending.toolName always st).modifyThread user tid fun t =>
    { t with state := .processing }

/-- Run the approved tool and record its result on the turn. -/
def executeApproved (env : Env W) (user : String) (tid : Uuid) (pending : PendingApproval)
    (st : AgentState W) : Except Error String × AgentState W :=
  match executeChatTool env (st.autoApproved user) (.approved pending.requestId) pending.call st.trace with
  | (result, tr) =>
    (result, { st with trace := tr }.modifyThread user tid (Thread.modifyLastTurn (recordResult result)))

/-- Execute an approved tool and continue the turn. -/
def resumeApproved (env : Env W) (user : String) (tid : Uuid) (pending : PendingApproval) (always : Bool)
    (st : AgentState W) : Except Error SubmissionResult × AgentState W :=
  match executeApproved env user tid pending (grantApproval user tid pending always st) with
  | (result, st₁) =>
    match checkAuthRequired env pending.toolName result with
    | some (ext, instructions) =>
      (.ok (.response instructions), handleAuthIntercept env user tid ext instructions st₁)
    | none =>
      replayDeferred env user tid pending.deferredToolCalls
        (pending.contextMessages ++ [ChatMessage.toolResult pending.toolCallId pending.toolName
          (resultContent env (fun e => "Error: " ++ e) pending.toolName result)]) st₁

def rejectionText (toolName : String) : String :=
  "Tool '" ++ toolName ++ "' was rejected. The agent will not execute this tool.\n\n"
    ++ "You can continue the conversation or try a different approach."

/-- Complete the turn with a rejection message and persist it. -/
def rejectApproval (env : Env W) (user : String) (tid : Uuid) (pending : PendingApproval)
    (st : AgentState W) : Except Error SubmissionResult × AgentState W :=
  (.ok (.response (rejectionText pending.toolName)),
    persistAssistantResponse env tid user (rejectionText pending.toolName)
      ((st.modifyThread user tid fun t =>
        t.clearPendingApproval.completeTurn (rejectionText pending.toolName)).emit
          (.answered user (rejectionText pending.toolName))))

/-- `process_approval`. The pending request is taken off the thread first and put back when the given
    request id is another one. -/
def processApproval (env : Env W) (user : String) (tid : Uuid) (requestId : Option Uuid)
    (approved always : Bool) (st : AgentState W) : Except Error SubmissionResult × AgentState W :=
  match st.thread user tid with
  | none => (.error (.job (.notFound tid)), st)
  | some thread =>
    if thread.state ≠ .awaitingApproval then (.ok (.okWithMessage ""), st)
    else
      match thread.takePendingApproval with
      | (none, _) => (.ok (.okWithMessage ""), st)
      | (some pending, taken) =>
        let st₁ := st.modifyThread user tid fun _ => taken
        if requestId.any (· ≠ pending.requestId) then
          (.ok (.error "Request ID mismatch. Use the correct request ID."),
            st₁.modifyThread user tid (Thread.awaitApproval · pending))
        else if approved then resumeApproved env user tid pending always st₁
        else rejectApproval env user tid pending st₁

/-! ## Auth tokens -/

/-- `process_auth_token`: the message is a token and goes to the extension manager. -/
def processAuthToken (env : Env W) (user : String) (tid : Uuid) (pending : PendingAuth) (content : String)
    (st : AgentState W) : String × AgentState W :=
  let st₁ := st.modifyThread user tid fun t => { t with pendingAuth := none }
  if env.hasExtensionManager then
    match env.auth pending.extensionName (trim content) st₁.trace.world with
    | (.authenticated, w) =>
      match env.activate pending.extensionName w with
      | (.ok tools, w) =>
        (pending.extensionName ++ " authenticated and activated (" ++ toString tools.length
          ++ " tools loaded)." ++ (if tools.isEmpty then "" else "\n\nTools: " ++ join ", " tools),
          { st₁ with trace := { st₁.trace with world := w } })
      | (.error e, w) =>
        (pending.extensionName ++ " authenticated successfully, but activation failed: " ++ e
          ++ ". Try activating manually.", { st₁ with trace := { st₁.trace with world := w } })
    | (.rejected instructions, w) =>
      (instructions.getD "Invalid token. Please try again.",
        { st₁ with trace := { st₁.trace with world := w } }.modifyThread user tid
          (Thread.enterAuthMode · pending.extensionName))
    | (.failed e, w) =>
      ("Authentication failed for " ++ pending.extensionName ++ ": " ++ e,
        { st₁ with trace := { st₁.trace with world := w } })
  else ("Extension manager not available.", st₁)

end Freeclawdia
