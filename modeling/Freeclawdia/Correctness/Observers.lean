import Freeclawdia.Channels.History
import Freeclawdia.Correctness.Requests
import Freeclawdia.Correctness.SecretJobs
import Freeclawdia.Correctness.SecretMessages

/-!
# `Correctness.Observers` — who sees a sensitive value

Two copies of the agent whose surroundings differ in the values of sensitive keys only. Whatever users send, the
replies, the events for the hooks, the records of the turns, what an approval displays and the stored conversations
are the same; and in whatever order workers take their calls, so are the events for the hooks, the saved actions and
the jobs' memories. Two places print parameters that were not redacted, and these decide:

* the chat history prints the parameters kept for a request that waits for approval;
* the `tool_use` event of a job prints the parameters of the selected call.

`observers_agree_iff` says that nothing else does: all observers agree when the kept parameters and the prints of the
calls do, and not otherwise. The values in question are told apart by nothing that judges them; the validator is one
that does, so both pass it or both fail it with the same texts.
-/

namespace Freeclawdia.Secrecy

open Rust Redaction

variable {W : Type}

/-! ## What is seen of the chat -/

/-- Messages handled one after another, with the replies. -/
def converse (env : Env W) (cmds : CommandEnv W) :
    List Incoming → AgentState W → List (Except Error (Option String)) × AgentState W
  | [], st => ([], st)
  | i :: rest, st =>
    let handled := handleMessage env cmds i.msg i.now st
    let later := converse env cmds rest handled.2
    (handled.1 :: later.1, later.2)

/-- What is displayed of a request that waits: its identifier, tool, description and display parameters. -/
def displayed (p : PendingApproval) : Uuid × String × String × Json :=
  (p.requestId, p.toolName, p.description, p.displayParameters)

/-- What observers see of the chat, the history apart. -/
structure ChatView where
  replies : List (Except Error (Option String))
  hooks : List (String × Json × Except HookError HookOutcome)
  turns : String → Uuid → Option (List Turn)
  approvals : String → Uuid → Option (Uuid × String × String × Json)
  store : ConversationStore

def chatView (r : List (Except Error (Option String)) × AgentState W) : ChatView where
  replies := r.1
  hooks := r.2.trace.log.filterMap hookView
  turns := fun user tid => (r.2.thread user tid).map (·.turns)
  approvals := fun user tid => ((r.2.thread user tid).bind (·.pendingApproval)).map displayed
  store := r.2.store

section Chat

variable {sens : String → List String} {mask : String → Json → Json} {R : W → W → Prop} {env : Env W}
  {cmds : CommandEnv W} (hb : Blind env sens mask R) (hcmds : BlindCommands cmds env R) {st st' : AgentState W}

include hb hcmds in
/-- **A conversation shows the same.** -/
theorem converse_same (incoming : List Incoming) (h : SameState mask R st st') :
    SameStep mask R (converse env cmds incoming st) (converse env cmds incoming st') := by
  induction incoming generalizing st st' with
  | nil => exact ⟨rfl, h⟩
  | cons i rest ih =>
    obtain ⟨hreply, h₁⟩ := handleMessage_same hb h hcmds i.msg i.now
    obtain ⟨hreplies, h₂⟩ := ih h₁
    unfold converse
    dsimp only
    rw [hreply, hreplies]
    exact ⟨rfl, h₂⟩

theorem displayed_same {p p' : PendingApproval} (h : showPending mask p = showPending mask p') :
    displayed p = displayed p' := by
  have hdisplayed : displayed (showPending mask p) = displayed (showPending mask p') := by rw [h]
  exact hdisplayed

theorem chatView_same {r r' : List (Except Error (Option String)) × AgentState W} (h : SameStep mask R r r') :
    chatView r = chatView r' := by
  obtain ⟨hreplies, hstate⟩ := h
  have hturns : ∀ user tid, (r.2.thread user tid).map (·.turns) = (r'.2.thread user tid).map (·.turns) := by
    intro user tid
    rcases hstate.thread_cases user tid with ⟨ht, ht'⟩ | ⟨t, t', ht, ht', hshown⟩
    · rw [ht, ht']
    · rw [ht, ht', Option.map_some, Option.map_some, thread_turns hshown]
  have happrovals : ∀ user tid, ((r.2.thread user tid).bind (·.pendingApproval)).map displayed
      = ((r'.2.thread user tid).bind (·.pendingApproval)).map displayed := by
    intro user tid
    rcases hstate.thread_cases user tid with ⟨ht, ht'⟩ | ⟨t, t', ht, ht', hshown⟩
    · rw [ht, ht']
    · have hpending := thread_pending hshown
      rw [ht, ht', Option.bind_some, Option.bind_some]
      rcases option_map_cases hpending with ⟨hp, hp'⟩ | ⟨p, p', hp, hp', hps⟩
      · rw [hp, hp']
      · rw [hp, hp', Option.map_some, Option.map_some, displayed_same hps]
  unfold chatView
  rw [hreplies, hstate.trace.hooks, hstate.store, funext fun user => funext (hturns user),
    funext fun user => funext (happrovals user)]

end Chat

/-! ## The chat history -/

/-- The parameters kept for the request that waits on a thread. -/
def waitingParameters (st : AgentState W) (user : String) (tid : Uuid) : Option Json :=
  ((st.thread user tid).bind (·.pendingApproval)).map (·.parameters)

/-- `serde_json` prints a value, and reads it back from the text. -/
def ReadsBack (env : Env W) (v : Json) : Prop := ∃ text, env.toStringPretty v = .ok text ∧ env.fromStr text = some v

/-- The text in which the history prints the request that waits on a thread. -/
def waitingText (env : Env W) (st : AgentState W) (user : String) (tid : Uuid) : Option String :=
  ((st.thread user tid).bind (·.pendingApproval)).map (printedParameters env)

/-- The text shows the kept parameters, and nothing else of the request. -/
theorem waitingText_eq (env : Env W) (st : AgentState W) (user : String) (tid : Uuid) :
    waitingText env st user tid
      = (waitingParameters st user tid).map fun v => ((env.toStringPretty v).toOption).getD "" := by
  unfold waitingText waitingParameters
  rw [Option.map_map]
  rfl

/-- Values that are read back from one text are one. -/
theorem ReadsBack.eq {env : Env W} {v v' : Json} (h : ReadsBack env v) (h' : ReadsBack env v')
    (hprinted : ((env.toStringPretty v).toOption).getD "" = ((env.toStringPretty v').toOption).getD "") : v = v' := by
  obtain ⟨text, hprint, hread⟩ := h
  obtain ⟨text', hprint', hread'⟩ := h'
  rw [hprint, hprint'] at hprinted
  obtain rfl : text = text' := hprinted
  rw [hread] at hread'
  exact Option.some.inj hread'

section History

variable {mask : String → Json → Json} {R : W → W → Prop} {st st' : AgentState W} (h : SameState mask R st st')
  (env : Env W) (db : HistoryStore)

include h in
theorem activeThread_same (user : String) :
    (st.manager.session user).bind (·.activeThread) = (st'.manager.session user).bind (·.activeThread) := by
  have hsession := h.manager.sessions user
  revert hsession
  generalize st.manager.session user = o
  generalize st'.manager.session user = o'
  rintro (⟨hsame⟩ | _)
  · exact hsame.activeThread
  · rfl

theorem historyThread_named (tid : Uuid) (active : Option Uuid) :
    historyThread (some (Uuid.toString tid)) active = .ok tid := by
  unfold historyThread
  dsimp only
  rw [Uuid.parseStr_toString]

/-- The history of one thread depends on what is printed of the waiting request. -/
theorem threadHistory_same {t t' : Thread} (hshown : showThread mask t = showThread mask t') (tid : Uuid)
    (hprinted : t.pendingApproval.map (printedParameters env) = t'.pendingApproval.map (printedParameters env)) :
    threadHistory env tid t = threadHistory env tid t' := by
  have hpending := thread_pending hshown
  have hinfo : t.pendingApproval.map (pendingApprovalInfo env) = t'.pendingApproval.map (pendingApprovalInfo env) := by
    rcases option_map_cases hpending with ⟨hp, hp'⟩ | ⟨p, p', hp, hp', hps⟩
    · rw [hp, hp']
    · rw [hp, hp'] at hprinted ⊢
      obtain ⟨hid, hname, htext, _⟩ : p.requestId = p'.requestId ∧ p.toolName = p'.toolName
          ∧ p.description = p'.description ∧ p.displayParameters = p'.displayParameters := by
        simpa [displayed] using displayed_same hps
      have hparameters : printedParameters env p = printedParameters env p' := Option.some.inj hprinted
      show some (PendingApprovalInfo.mk _ _ _ _) = some (PendingApprovalInfo.mk _ _ _ _)
      rw [hid, hname, htext, hparameters]
  unfold threadHistory
  rw [thread_turns hshown, hinfo]

include h in
/-- **The history tells exactly what it prints of waiting requests.** -/
theorem chatHistory_same_iff :
    (∀ user threadId, chatHistoryHandler env db user threadId st = chatHistoryHandler env db user threadId st')
      ↔ ∀ user tid, waitingText env st user tid = waitingText env st' user tid := by
  constructor
  · -- the thread is asked for by the text of its identifier
    intro hsame user tid
    have hasked := hsame user (some (Uuid.toString tid))
    unfold chatHistoryHandler at hasked
    rw [historyThread_named, historyThread_named] at hasked
    dsimp only at hasked
    unfold waitingText
    rcases h.thread_cases user tid with ⟨ht, ht'⟩ | ⟨t, t', ht, ht', hshown⟩
    · rw [ht, ht']
    · rw [ht, ht', Option.bind_some, Option.bind_some]
      have hpending := thread_pending hshown
      rcases option_map_cases hpending with ⟨hp, hp'⟩ | ⟨p, p', hp, hp', _⟩
      · rw [hp, hp']
      · rw [ht, ht'] at hasked
        simp only [Option.isSome_some, Bool.not_true, Bool.and_false, Bool.false_eq_true, if_false,
          Option.filter_some, hp, hp', Bool.or_true, if_true] at hasked
        have hinfo : (threadHistory env tid t).pendingApproval = (threadHistory env tid t').pendingApproval := by
          rw [Except.ok.inj hasked]
        have hinfos : some (pendingApprovalInfo env p) = some (pendingApprovalInfo env p') := by
          have hat : t.pendingApproval.map (pendingApprovalInfo env)
              = t'.pendingApproval.map (pendingApprovalInfo env) := hinfo
          rw [hp, hp'] at hat
          exact hat
        rw [hp, hp']
        exact congrArg (Option.map PendingApprovalInfo.parameters) hinfos
  · intro hprinted user threadId
    unfold chatHistoryHandler
    rw [activeThread_same h user]
    cases historyThread threadId ((st'.manager.session user).bind (·.activeThread)) with
    | error e => rfl
    | ok tid =>
      dsimp only
      have hat := hprinted user tid
      unfold waitingText at hat
      rcases h.thread_cases user tid with ⟨ht, ht'⟩ | ⟨t, t', ht, ht', hshown⟩
      · rw [ht, ht']
      · rw [ht, ht', Option.bind_some, Option.bind_some] at hat
        have hwaits : t.pendingApproval.isSome = t'.pendingApproval.isSome := by
          have hsome := congrArg Option.isSome (thread_pending hshown)
          simpa using hsome
        have hhistory := threadHistory_same env hshown tid hat
        rw [ht, ht', Option.filter_some, Option.filter_some, thread_turns hshown, hwaits, Option.isSome_some,
          Option.isSome_some, Bool.not_true, Bool.and_false, if_neg Bool.false_ne_true, if_neg Bool.false_ne_true]
        cases !t'.turns.isEmpty || t'.pendingApproval.isSome with
        | true => exact congrArg Except.ok hhistory
        | false => rfl

end History

/-! ## Everyone -/

/-- What observers see of the workers: job events, saved actions and hook events, and the jobs' memories. -/
def jobView (b : Workbench W) : List JobToolEvent × ContextManager :=
  (b.runtime.log.filterMap observe, b.runtime.contextManager)

/-- The preview of a call in its `tool_use` event. -/
def preview (env : Env W) (t : JobTask) : String := truncateForPreview (env.toText t.selection.parameters) 500

/-- A worker's runtime when nothing was run. -/
def JobRuntime.idle (w : W) (cm : ContextManager) : JobRuntime W := { world := w, contextManager := cm }

/-- The `tool_use` events of one tool agree when the previews do. -/
theorem toolUseData_eq_iff {env : Env W} {t t' : JobTask} (hname : t.selection.toolName = t'.selection.toolName) :
    toolUseData env t.selection = toolUseData env t'.selection ↔ preview env t = preview env t' := by
  unfold toolUseData preview
  rw [hname]
  simp

section Everyone

variable {sens : String → List String} {mask : String → Json → Json} {R : W → W → Prop} {env : Env W}
  {cmds : CommandEnv W}

theorem SameState.start (mask : String → Json → Json) {w w' : W} (hw : R w w') (store : ConversationStore) :
    SameState mask R (AgentState.start store w) (AgentState.start store w') :=
  ⟨⟨fun _ => Option.Rel.none, rfl, rfl⟩, rfl, hw, rfl, rfl⟩

/-- The requests that wait on the threads were kept with the same parameters. -/
def SameWaiting (chat chat' : AgentState W) : Prop :=
  ∀ user tid, waitingParameters chat user tid = waitingParameters chat' user tid

/-- The chat history answers every question of every user the same. -/
def SameHistory (env : Env W) (db : HistoryStore) (chat chat' : AgentState W) : Prop :=
  ∀ user threadId, chatHistoryHandler env db user threadId chat = chatHistoryHandler env db user threadId chat'

/-- **Who tells two secrets apart.** Surroundings that do not tell them apart start in related worlds; the calls of the
    workers have the same masks. Whatever users send and in whatever order the workers take their calls, the replies,
    hooks, turns, approvals and stored conversations are the same, and so are the jobs' memories. The job events are the
    same exactly when the previews of the calls that were answered are. The history is the same when the parameters kept
    for the waiting requests are, and, as far as `serde_json` reads these back from their print, only then. -/
theorem observers_agree_iff (hb : Blind env sens mask R) (hcmds : BlindCommands cmds env R) {w w' : W} (hw : R w w')
    (store : ConversationStore) (incoming : List Incoming) (db : HistoryStore) {tasks tasks' : Nat → JobTask}
    (htasks : ∀ i, showJobTask mask (tasks i) = showJobTask mask (tasks' i)) (cm : ContextManager)
    (schedule : List Nat) :
    let chat := converse env cmds incoming (AgentState.start store w)
    let chat' := converse env cmds incoming (AgentState.start store w')
    let jobs := runSchedule env tasks schedule { runtime := JobRuntime.idle w cm }
    let jobs' := runSchedule env tasks' schedule { runtime := JobRuntime.idle w' cm }
    (chatView chat = chatView chat' ∧ (jobView jobs).2 = (jobView jobs').2)
      ∧ (jobView jobs = jobView jobs' ↔ ∀ i ∈ jobs.answered, preview env (tasks i) = preview env (tasks' i))
      ∧ (SameWaiting chat.2 chat'.2 → SameHistory env db chat.2 chat'.2)
      ∧ ((∀ user tid, ∀ v, waitingParameters chat.2 user tid = some v ∨ waitingParameters chat'.2 user tid = some v →
          ReadsBack env v) →
        SameHistory env db chat.2 chat'.2 → SameWaiting chat.2 chat'.2) := by
  intro chat chat' jobs jobs'
  have hchat : SameStep mask R chat chat' := converse_same hb hcmds incoming (SameState.start mask hw store)
  have hjobs : SameBench sens R tasks jobs jobs' :=
    schedule_same hb htasks schedule ⟨⟨hw, rfl, rfl, rfl, rfl⟩, rfl, rfl, fun _ _ h => nomatch h⟩
  have huses : Uses env tasks jobs := schedule_toolUses env tasks schedule rfl
  have huses' : Uses env tasks' jobs' := schedule_toolUses env tasks' schedule rfl
  have hevents : jobs.runtime.log.filterMap observe = jobs'.runtime.log.filterMap observe
      ↔ ∀ i ∈ jobs.answered, preview env (tasks i) = preview env (tasks' i) := by
    rw [hjobs.runtime.observed_eq_iff, huses, huses', ← hjobs.answered, List.map_inj_left]
    refine forall₂_congr fun i _ => ?_
    exact toolUseData_eq_iff (jobTask_toolName (htasks i))
  have hhistory := chatHistory_same_iff hchat.2 env db
  refine ⟨⟨chatView_same hchat, hjobs.runtime.contextManager⟩, ?_, fun hwaiting => ?_, fun hreads hsame user tid => ?_⟩
  · rw [← hevents]
    exact ⟨fun h => congrArg Prod.fst h, fun h => Prod.ext h hjobs.runtime.contextManager⟩
  · refine hhistory.mpr fun user tid => ?_
    rw [waitingText_eq, waitingText_eq, hwaiting user tid]
  · have htext := hhistory.mp hsame user tid
    rw [waitingText_eq, waitingText_eq] at htext
    rcases option_map_cases htext with ⟨hv, hv'⟩ | ⟨v, v', hv, hv', hprinted⟩
    · rw [hv, hv']
    · rw [hv, hv', (hreads user tid v (Or.inl hv)).eq (hreads user tid v' (Or.inr hv')) hprinted]

end Everyone

/-! ## A secret that is saved -/

/-- A tool that stores a secret, and is approved by the user in the chat. -/
def secretSave : Tool := ⟨"Save a secret", ["value"], fun _ => .unlessAutoApproved, none⟩

def secretArguments (value : String) : Json := .object [("name", .string "token"), ("value", .string value)]

/-- How `serde_json` prints an object of strings, in one line and over several. -/
def stringFields (space : String) (fields : List (String × Json)) : List String :=
  fields.map fun f => "\"" ++ f.1 ++ "\":" ++ space ++ "\"" ++ f.2.asStr.getD "" ++ "\""

def compactText : Json → String
  | .object fields => "\x7b" ++ join "," (stringFields "" fields) ++ "\x7d"
  | _ => "null"

def prettyText : Json → String
  | .object fields => "\x7b\n  " ++ join ",\n  " (stringFields " " fields) ++ "\n\x7d"
  | _ => "null"

/-- The keys of the one tool. -/
def secretKeys (name : String) : List String := if name = "secret_save" then ["value"] else []

/-- A secret that passes the validator. -/
abbrev Secret := {value : String // Validator.validate value = []}

def hunter2 : Secret := ⟨"hunter2", by decide⟩

def swordfish : Secret := ⟨"swordfish", by decide⟩

/-- The model saves the secret, which is its world, when the user asks. -/
def saveEnv : Env Secret :=
  { Env.idle Secret with
    validateToolParams := Validator.details
    tool := fun _ name => if name = "secret_save" then some secretSave else none
    toolDefinitions := fun _ => [⟨"secret_save", "Save a secret", .null⟩]
    complete := fun request secret =>
      (.ok (if (request.messages.getLast?).any (fun m => m.role == .user) then
        ⟨none, [⟨"call_1", "secret_save", secretArguments secret.1⟩]⟩ else ⟨some "Saved.", []⟩), secret)
    toText := compactText
    toStringPretty := fun j => .ok (prettyText j) }

/-- A value that passes the validator is hidden. -/
def hideValid (v : Json) : Json := if Validator.checkStrings v = [] then redacted else v

theorem checkStrings_hideValid (v : Json) : Validator.checkStrings (hideValid v) = Validator.checkStrings v := by
  unfold hideValid
  split
  · next hvalid => rw [hvalid]; decide
  · rfl

/-- Parameters with a valid value hidden. -/
def hideValue : Json → Json
  | .object fields =>
    match (Json.object fields).get "value" with
    | some v => .object (Json.insertField "value" (hideValid v) fields)
    | none => .object fields
  | p => p

/-- What is told of the parameters of a call. -/
def saveMask (name : String) (p : Json) : Json := if name = "secret_save" then hideValue p else p

/-- The two forms of parameters: with the value, or without one and left as they are. -/
theorem hideValue_cases (p : Json) :
    (∃ fields v, p = .object (Json.insertField "value" v fields) ∧ p.get "value" = some v
        ∧ hideValue p = .object (Json.insertField "value" (hideValid v) fields))
      ∨ p.get "value" = none ∧ hideValue p = p := by
  cases p with
  | object fields =>
    cases hv : (Json.object fields).get "value" with
    | none =>
      refine Or.inr ⟨rfl, ?_⟩
      unfold hideValue
      dsimp only
      rw [hv]
    | some v =>
      refine Or.inl ⟨fields, v, by rw [Json.insertField_of_get hv], rfl, ?_⟩
      unfold hideValue
      dsimp only
      rw [hv]
  | null => exact Or.inr ⟨rfl, rfl⟩
  | bool b => exact Or.inr ⟨rfl, rfl⟩
  | number n => exact Or.inr ⟨rfl, rfl⟩
  | string s => exact Or.inr ⟨rfl, rfl⟩
  | array items => exact Or.inr ⟨rfl, rfl⟩

/-- Redaction hides at least as much. -/
theorem redact_hideValue (p : Json) : redactParams (hideValue p) ["value"] = redactParams p ["value"] := by
  rcases hideValue_cases p with ⟨fields, v, rfl, -, hhidden⟩ | ⟨-, hhidden⟩
  · rw [hhidden, redactParams_object, redactParams_object]
    show Json.object (redactKey "value" _) = Json.object (redactKey "value" _)
    rw [redactKey_insertField_self, redactKey_insertField_self]
  · rw [hhidden]

/-- The validator says the same. -/
theorem details_hideValue (p : Json) : Validator.details (hideValue p) = Validator.details p := by
  rcases hideValue_cases p with ⟨fields, v, rfl, -, hhidden⟩ | ⟨-, hhidden⟩
  · have hfields := Validator.checkFields_insertField (checkStrings_hideValid v) "value" fields
    rw [hhidden]
    show (Validator.checkFields _).map _ = (Validator.checkFields _).map _
    rw [hfields]
  · rw [hhidden]

theorem get_hideValue (p : Json) : (hideValue p).get "value" = (p.get "value").map hideValid := by
  rcases hideValue_cases p with ⟨fields, v, -, hv, hhidden⟩ | ⟨hv, hhidden⟩
  · rw [hhidden, hv, Json.get_insertField_self, Option.map_some]
  · rw [hhidden, hv, Option.map_none]

theorem hideValue_insertField (fields : List (String × Json)) (v : Json) :
    hideValue (.object (Json.insertField "value" v fields)) = .object (Json.insertField "value" (hideValid v) fields) := by
  show (match (Json.object (Json.insertField "value" v fields)).get "value" with
    | some v' => Json.object (Json.insertField "value" (hideValid v') (Json.insertField "value" v fields))
    | none => _) = _
  rw [Json.get_insertField_self]
  show Json.object _ = Json.object _
  rw [insertField_insertField_self]

/-- Putting the value back tells no more of it. -/
theorem restore_hideValue {p q : Json} (h : hideValue p = hideValue q) (parsed : Json) :
    hideValue (restoreSensitive p parsed ["value"]) = hideValue (restoreSensitive q parsed ["value"]) := by
  have hget : (p.get "value").map hideValid = (q.get "value").map hideValid := by
    rw [← get_hideValue, ← get_hideValue, h]
  cases parsed with
  | object fields =>
    show hideValue (.object (restoreKey p fields "value")) = hideValue (.object (restoreKey q fields "value"))
    unfold restoreKey
    rcases option_map_cases hget with ⟨hp, hq⟩ | ⟨v, v', hp, hq, hv⟩
    · rw [hp, hq]
    · rw [hp, hq]
      show hideValue (.object (Json.insertField _ v _)) = hideValue (.object (Json.insertField _ v' _))
      rw [hideValue_insertField, hideValue_insertField, hv]
  | null => rfl
  | bool b => rfl
  | number n => rfl
  | string s => rfl
  | array items => rfl

variable (secret : Secret)

/-- A valid secret does not show in its call. -/
theorem saveMask_secretArguments :
    saveMask "secret_save" (secretArguments secret.1) = .object [("name", .string "token"), ("value", redacted)] := by
  have hvalid : hideValid (.string secret.1) = redacted := if_pos secret.2
  have harguments : secretArguments secret.1 = .object (Json.insertField "value" (.string secret.1)
      [("name", .string "token")]) := rfl
  rw [saveMask, if_pos rfl, harguments, hideValue_insertField, hvalid]
  rfl

/-- Masking keeps the roles. -/
theorem lastRole_same {mask : String → Json → Json} {c c' : List ChatMessage}
    (h : showContext mask c = showContext mask c') (p : Role → Bool) :
    (c.getLast?).any (fun m => p m.role) = (c'.getLast?).any (fun m => p m.role) := by
  have hshown : ∀ c : List ChatMessage, (c.getLast?).any (fun m => p m.role)
      = ((showContext mask c).getLast?).any fun m => p m.role := by
    intro c
    unfold showContext
    rw [List.getLast?_map]
    cases c.getLast? with
    | none => rfl
    | some m => rfl
  rw [hshown c, hshown c', h]

/-- Nothing but the value of the secret is told apart from it. -/
theorem saveEnv_blind : Blind saveEnv secretKeys saveMask fun _ _ => True where
  redact := by
    intro name p q h
    unfold saveMask at h
    unfold Alike secretKeys
    split_ifs at h ⊢
    · rw [← redact_hideValue p, h, redact_hideValue]
    · rw [h]
  restore := by
    intro name p q parsed h
    unfold saveMask at h ⊢
    unfold secretKeys
    split_ifs at h ⊢
    · exact restore_hideValue h parsed
    · rw [h]
  tool := fun _ => rfl
  registered := by
    intro w w' _ name
    show sensitiveOf (if name = "secret_save" then some secretSave else none) = secretKeys name
    unfold secretKeys
    split
    · rfl
    · rfl
  approval := by
    intro w w' _ name tool p q htool _
    have hsave : (if name = "secret_save" then some secretSave else none) = some tool := htool
    split at hsave
    · cases hsave
      rfl
    · cases hsave
  validator := rfl
  verdict := by
    intro name p q h
    unfold saveMask at h
    split_ifs at h
    · rw [← details_hideValue p, h, details_hideValue]
    · rw [h]
  execute := fun _ _ _ _ _ => ⟨rfl, trivial⟩
  nextTask := fun _ => rfl
  panics := fun _ _ _ _ => rfl
  hooks := fun _ _ => ⟨rfl, trivial⟩
  toolDefinitions := fun _ => rfl
  costLimit := fun _ => rfl
  complete := by
    intro w w' _ tools c c' hc
    refine ⟨?_, trivial⟩
    show Except.map _ (.ok (if (c.getLast?).any (fun m => m.role == .user) then _ else _))
      = Except.map _ (.ok (if (c'.getLast?).any (fun m => m.role == .user) then _ else _))
    rw [lastRole_same hc fun r => r == .user]
    split
    · have hcall : ∀ secret : Secret, showCall saveMask ⟨"call_1", "secret_save", secretArguments secret.1⟩
          = ⟨"call_1", "secret_save", .object [("name", .string "token"), ("value", redacted)]⟩ := by
        intro secret
        unfold showCall
        dsimp only
        rw [saveMask_secretArguments]
      show Except.ok (LlmResponse.mk none [showCall _ _]) = Except.ok (LlmResponse.mk none [showCall _ _])
      rw [hcall, hcall]
    · rfl
  workspaceAppend := fun _ _ => ⟨rfl, trivial⟩
  storeCall := fun _ => ⟨rfl, trivial⟩

theorem idle_systemCommand (command : String) (args : List String) (channel : String) (w w' : Secret) :
    (handleSystemCommand (CommandEnv.idle Secret) command args channel w).1
      = (handleSystemCommand (CommandEnv.idle Secret) command args channel w').1 := by
  unfold handleSystemCommand
  split_ifs
  all_goals first | rfl | skip
  · cases args with
    | nil => rfl
    | cons first rest =>
      dsimp only
      split_ifs
      all_goals rfl
  · cases args with
    | nil => rfl
    | cons requested rest =>
      show (switchModel _ _ w).1 = (switchModel _ _ w').1
      unfold switchModel
      dsimp only [CommandEnv.idle]
      split_ifs
      all_goals rfl

theorem idle_cancelJob (user jobId : String) (w w' : Secret) :
    (handleCancelJob (CommandEnv.idle Secret) user jobId w).1 =
      (handleCancelJob (CommandEnv.idle Secret) user jobId w').1 := by
  unfold handleCancelJob ownJob
  cases Uuid.parseStr jobId with
  | none => rfl
  | some id => rfl

theorem idle_helpJob (user jobId : String) (w w' : Secret) :
    (handleHelpJob (CommandEnv.idle Secret) user jobId w).1 =
      (handleHelpJob (CommandEnv.idle Secret) user jobId w').1 := by
  unfold handleHelpJob ownJob
  cases Uuid.parseStr jobId with
  | none => rfl
  | some id => rfl

theorem idle_commands : BlindCommands (CommandEnv.idle Secret) saveEnv fun _ _ => True where
  jobOrCommand := by
    intro w w' _ intent user channel
    refine ⟨?_, trivial⟩
    cases intent with
    | createJob title description category => rfl
    | checkJobStatus jobId => rfl
    | cancelJob jobId =>
      show Except.map _ (handleCancelJob _ user jobId w).1 = Except.map _ (handleCancelJob _ user jobId w').1
      rw [idle_cancelJob user jobId w w']
    | listJobs filter => rfl
    | helpJob jobId =>
      show Except.map _ (handleHelpJob _ user jobId w).1 = Except.map _ (handleHelpJob _ user jobId w').1
      rw [idle_helpJob user jobId w w']
    | command command args =>
      have hsame := idle_systemCommand command args channel w w'
      unfold handleJobOrCommand handleCommand
      dsimp only
      generalize handleSystemCommand (CommandEnv.idle Secret) command args channel w = r at hsame ⊢
      generalize handleSystemCommand (CommandEnv.idle Secret) command args channel w' = r' at hsame ⊢
      obtain ⟨result, v⟩ := r
      obtain ⟨result', v'⟩ := r'
      obtain rfl : result = result' := hsame
      cases result with
      | response content => rfl
      | ok message => cases message with
        | none => rfl
        | some text => rfl
      | error message => rfl
      | interrupted => rfl
      | needApproval requestId toolName description parameters => rfl
    | unknown => rfl
  systemCommand := fun _ command args channel => ⟨idle_systemCommand command args channel _ _, trivial⟩
  heartbeat := fun _ => ⟨rfl, trivial⟩
  jobStatus := by
    intro w w' _ user jobId
    cases jobId with
    | none => rfl
    | some jobId => rfl
  jobCancel := by
    intro w w' _ user jobId
    refine ⟨?_, trivial⟩
    have hsame := idle_cancelJob user jobId w w'
    unfold processJobCancel
    generalize handleCancelJob (CommandEnv.idle Secret) user jobId w = r at hsame ⊢
    generalize handleCancelJob (CommandEnv.idle Secret) user jobId w' = r' at hsame ⊢
    obtain ⟨result, v⟩ := r
    obtain ⟨result', v'⟩ := r'
    obtain rfl : result = result' := hsame
    cases result with
    | ok text => rfl
    | error e => rfl
  auth := fun _ _ _ => ⟨rfl, trivial⟩
  activate := fun _ _ => ⟨rfl, trivial⟩

/-- The user asks once. -/
def askToSave : List Incoming := [⟨{ channel := "gateway", userId := "ann", content := "remember my token" }, 0⟩]

/-- A worker of one job saves the secret. -/
def saveTask (_ : Nat) : JobTask where
  deps := ⟨7, some (.autonomous []), fun _ => "None"⟩
  selection := ⟨"secret_save", secretArguments secret.1⟩
  toolCallId := "call_1"
  clock := ⟨Reads.at 0, 0, 0⟩

def oneJob : ContextManager := (ContextManager.createJobForUser { maxJobs := 1 } 7 "ann" "save" "").2

/-- No conversation is stored. -/
def noHistory : HistoryStore := ⟨fun _ _ => false, fun _ => .ok none⟩

theorem saveTask_same (secret secret' : Secret) (i : Nat) :
    showJobTask saveMask (saveTask secret i) = showJobTask saveMask (saveTask secret' i) := by
  unfold showJobTask saveTask
  dsimp only
  rw [saveMask_secretArguments, saveMask_secretArguments]

/-- The chat about one secret, and a job that saves it. -/
def saveChat : List (Except Error (Option String)) × AgentState Secret :=
  converse saveEnv (CommandEnv.idle Secret) askToSave (AgentState.start {} secret)

def saveJobs : Workbench Secret :=
  runSchedule saveEnv (saveTask secret) [0, 0, 0] { runtime := JobRuntime.idle secret oneJob }

/-- **A secret is printed twice**: in the history while the request waits, and in the `tool_use` event of a job. -/
theorem secret_is_printed :
    Blind saveEnv secretKeys saveMask (fun _ _ => True)
      ∧ chatHistoryHandler saveEnv noHistory "ann" none (saveChat hunter2).2
        ≠ chatHistoryHandler saveEnv noHistory "ann" none (saveChat swordfish).2
      ∧ jobView (saveJobs hunter2) ≠ jobView (saveJobs swordfish) := by
  refine ⟨saveEnv_blind, fun h => ?_, fun h => ?_⟩
  · have hprinted := congrArg (fun r => (r.toOption.bind (·.pendingApproval)).map (·.parameters)) h
    revert hprinted
    decide
  · have hinputs := congrArg (fun v => v.1.filterMap fun e =>
      (toolUse e).bind fun data => (data.get "input").bind Json.asStr) h
    revert hinputs
    decide

/-- Apart from these two places the two secrets are not told apart. -/
theorem secrets_look_alike :
    chatView (saveChat hunter2) = chatView (saveChat swordfish)
      ∧ (jobView (saveJobs hunter2)).2 = (jobView (saveJobs swordfish)).2 :=
  (observers_agree_iff saveEnv_blind idle_commands trivial {} askToSave noHistory
    (saveTask_same hunter2 swordfish) oneJob [0, 0, 0]).1

end Freeclawdia.Secrecy
