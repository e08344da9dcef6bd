import Freeclawdia.Agent.Dispatcher

/-!
# `Correctness.Loop` — rules for the agentic loop

Proof rules for the code of `Agent.Dispatcher`, one for each of its parts, so that a property of the loop is
proved by saying what one tool run, one hook run or one exchange with the model does to it:

* `executeChatTool_cases`: a tool run is one logged event, or nothing at all;
* `batch_rule`: a property that follows the calls of a batch through hooks and execution. It is stated over
  the calls still to be run, as a multiset, because spawned tasks finish in any order;
* `postflight_frame`: recording outcomes touches recorded tool calls and auth mode only;
* `agenticLoop_rule`: the induction over iterations, done once.
-/

namespace Freeclawdia

open Rust

variable {W : Type} (env : Env W)

/-! ## One tool run -/

/-- A tool run does nothing, or it runs a registered tool with valid parameters and logs that. -/
theorem executeChatTool_cases (auto : List String) (cause : Cause) (tc : ToolCall) (tr : Trace W) :
    (executeChatTool env auto cause tc tr).2 = tr
      ∨ ∃ tool, env.tool tr.world tc.name = some tool ∧ env.validateToolParams tc.arguments = []
          ∧ (executeChatTool env auto cause tc tr).2 = { tr.emit (.executed tc tool auto cause) with
                world := (env.execute tc.name tc.arguments tr.world).2 } := by
  unfold executeChatTool
  cases htool : env.tool tr.world tc.name with
  | none => exact Or.inl rfl
  | some tool =>
    cases hparams : env.validateToolParams tc.arguments with
    | cons e es => exact Or.inl rfl
    | nil =>
      refine Or.inr ⟨tool, rfl, rfl, ?_⟩
      rcases env.execute tc.name tc.arguments tr.world with ⟨_ | _ | _, w⟩
      · rfl
      · rfl
      · rfl

/-! ## Hooks and execution of a batch -/

/-- The calls of the preflight entries that may run. -/
def runnableCalls : List (ToolCall × PreflightOutcome) → Multiset ToolCall
  | [] => 0
  | (tc, .runnable) :: es => tc ::ₘ runnableCalls es
  | (_, .rejected _) :: es => runnableCalls es

theorem runnableAt_calls (entries : List (ToolCall × PreflightOutcome)) (k : Nat) :
    (((entries.zipIdx k).filterMap runnableAt).map Prod.snd : List ToolCall) = runnableCalls entries := by
  induction entries generalizing k with
  | nil => rfl
  | cons e es ih =>
    rcases e with ⟨tc, _ | _⟩
    · exact ih (k + 1)
    · exact congrArg (tc ::ₘ ·) (ih (k + 1))

/-- Positions apart, the runnable calls. -/
theorem runnableOf_calls (entries : List (ToolCall × PreflightOutcome)) :
    ((runnableOf entries).map Prod.snd : List ToolCall) = runnableCalls entries :=
  runnableAt_calls entries 0

section BatchRule

variable {env} {user : String} {auto : List String} {cause : Cause}
  {J : Option ToolCall → Multiset ToolCall → Trace W → Prop}

/-- Hooks change neither the identifier nor the name of a call. -/
theorem hookToolCall_ok {original tc : ToolCall} {sensitive : List String} {tr : Trace W}
    (h : (hookToolCall env user original sensitive tr).1 = .ok tc) : tc.id = original.id ∧ tc.name = original.name := by
  have h' : applyHookResult env original sensitive
      (tr.runHooks env (toolCallEvent user original sensitive)).1 = .ok tc := h
  generalize (tr.runHooks env (toolCallEvent user original sensitive)).1 = result at h'
  rcases result with e | modified | reason
  · cases e <;> cases h'
  · cases h'
    exact ⟨rfl, rfl⟩
  · cases h'
    exact ⟨rfl, rfl⟩

section PreflightSteps

variable {original : ToolCall} {rest : List ToolCall} {idx : Nat} {tr tr' : Trace W}

/-- Preflight passes over a call the hooks reject. -/
theorem preflight_rejected {msg : String}
    (h : hookToolCall env user original (sensitiveOf (env.tool tr.world original.name)) tr = (.error msg, tr')) :
    preflight env user auto idx (original :: rest) tr
      = (⟨(original, .rejected msg) :: (preflight env user auto (idx + 1) rest tr').1.entries,
          (preflight env user auto (idx + 1) rest tr').1.approval⟩,
        (preflight env user auto (idx + 1) rest tr').2) := by
  rw [preflight, h]

/-- Preflight stops at a call that needs approval. -/
theorem preflight_stopped {tc : ToolCall} {tool : Tool}
    (h : hookToolCall env user original (sensitiveOf (env.tool tr.world original.name)) tr = (.ok tc, tr'))
    (ha : approvalFor env (env.tool tr.world original.name) tc auto = some tool) :
    preflight env user auto idx (original :: rest) tr = (⟨[], some (idx, tc, tool)⟩, tr') := by
  rw [preflight, h]
  dsimp only
  rw [ha]

/-- Preflight lets a call through. -/
theorem preflight_cleared {tc : ToolCall}
    (h : hookToolCall env user original (sensitiveOf (env.tool tr.world original.name)) tr = (.ok tc, tr'))
    (ha : approvalFor env (env.tool tr.world original.name) tc auto = none) :
    preflight env user auto idx (original :: rest) tr
      = (⟨(tc, .runnable) :: (preflight env user auto (idx + 1) rest tr').1.entries,
          (preflight env user auto (idx + 1) rest tr').1.approval⟩,
        (preflight env user auto (idx + 1) rest tr').2) := by
  rw [preflight, h]
  dsimp only
  rw [ha]

/-- How a preflight splits a batch whose first call has position `idx`: it got through all of it, or it
    stopped at the call behind the ones it got through. Identifiers and names are those of the batch. -/
def Preflight.Splits (p : Preflight) (idx : Nat) (calls : List ToolCall) : Prop :=
  (p.approval = none ∧ p.entries.map (fun e => (e.1.id, e.1.name)) = calls.map fun tc => (tc.id, tc.name))
    ∨ ∃ passed original rest tc tool, calls = passed ++ original :: rest
        ∧ p.approval = some (idx + passed.length, tc, tool) ∧ tc.id = original.id ∧ tc.name = original.name
        ∧ p.entries.map (fun e => (e.1.id, e.1.name)) = passed.map fun tc => (tc.id, tc.name)

/-- One more call in front. -/
theorem Preflight.Splits.cons {p : Preflight} {calls : List ToolCall} (h : p.Splits (idx + 1) calls)
    {tc : ToolCall} (outcome : PreflightOutcome) (hid : tc.id = original.id) (hname : tc.name = original.name) :
    Preflight.Splits ⟨(tc, outcome) :: p.entries, p.approval⟩ idx (original :: calls) := by
  rcases h with ⟨hnone, hids⟩ | ⟨passed, o, rest', tc', tool, hcalls, happ, hid', hname', hids⟩
  · refine Or.inl ⟨hnone, ?_⟩
    rw [List.map_cons, List.map_cons, hids, hid, hname]
  · refine Or.inr ⟨original :: passed, o, rest', tc', tool, by rw [hcalls]; rfl, ?_, hid', hname', ?_⟩
    · dsimp only
      rw [happ, List.length_cons, Nat.add_assoc, Nat.add_comm 1]
    · rw [List.map_cons, List.map_cons, hids, hid, hname]

/-- **Preflight splits its batch.** -/
theorem preflight_splits (env : Env W) (user : String) (auto : List String) (calls : List ToolCall) (idx : Nat)
    (tr : Trace W) : (preflight env user auto idx calls tr).1.Splits idx calls := by
  induction calls generalizing idx tr with
  | nil => exact Or.inl ⟨rfl, rfl⟩
  | cons original rest ih =>
    rcases hhook : hookToolCall env user original (sensitiveOf (env.tool tr.world original.name)) tr with
      ⟨msg | tc, tr'⟩
    · rw [preflight_rejected hhook]
      exact (ih (idx + 1) tr').cons (.rejected msg) rfl rfl
    · have hsame : tc.id = original.id ∧ tc.name = original.name := hookToolCall_ok (by rw [hhook])
      cases happ : approvalFor env (env.tool tr.world original.name) tc auto with
      | some tool =>
        rw [preflight_stopped hhook happ]
        exact Or.inr ⟨[], original, rest, tc, tool, rfl, rfl, hsame.1, hsame.2, rfl⟩
      | none =>
        rw [preflight_cleared hhook happ]
        exact (ih (idx + 1) tr').cons .runnable hsame.1 hsame.2

end PreflightSteps

/-- What a property has to survive in a batch's preflight. `J stopped K tr` speaks about the call that waits
    for approval, if any, and the calls `K` cleared to run. -/
structure PreflightRule (env : Env W) (user : String) (auto : List String)
    (J : Option ToolCall → Multiset ToolCall → Trace W → Prop) : Prop where
  rejected : ∀ {K tr original msg}, J none K tr →
    (hookToolCall env user original (sensitiveOf (env.tool tr.world original.name)) tr).1 = .error msg →
    J none K (hookToolCall env user original (sensitiveOf (env.tool tr.world original.name)) tr).2
  cleared : ∀ {K tr original tc}, J none K tr →
    (hookToolCall env user original (sensitiveOf (env.tool tr.world original.name)) tr).1 = .ok tc →
    approvalFor env (env.tool tr.world original.name) tc auto = none →
    J none (tc ::ₘ K) (hookToolCall env user original (sensitiveOf (env.tool tr.world original.name)) tr).2
  stopped : ∀ {K tr original tc tool}, J none K tr →
    (hookToolCall env user original (sensitiveOf (env.tool tr.world original.name)) tr).1 = .ok tc →
    approvalFor env (env.tool tr.world original.name) tc auto = some tool →
    J (some tc) K (hookToolCall env user original (sensitiveOf (env.tool tr.world original.name)) tr).2

/-- **Preflight**: the property ends up speaking about the stopped call and all runnable ones. -/
theorem preflight_rule (R : PreflightRule env user auto J) (calls : List ToolCall) (idx : Nat)
    (K : Multiset ToolCall) (tr : Trace W) (h : J none K tr) :
    J ((preflight env user auto idx calls tr).1.approval.map (·.2.1))
      (K + runnableCalls (preflight env user auto idx calls tr).1.entries)
      (preflight env user auto idx calls tr).2 := by
  induction calls generalizing idx K tr with
  | nil => simpa [preflight, runnableCalls] using h
  | cons original rest ih =>
    rcases hhook : hookToolCall env user original (sensitiveOf (env.tool tr.world original.name)) tr with
      ⟨msg | tc, tr'⟩
    · have hnext := R.rejected h (by rw [hhook])
      rw [hhook] at hnext
      rw [preflight_rejected hhook]
      exact ih (idx + 1) K tr' hnext
    · cases happ : approvalFor env (env.tool tr.world original.name) tc auto with
      | some tool =>
        have hstop := R.stopped h (by rw [hhook]) happ
        rw [hhook] at hstop
        rw [preflight_stopped hhook happ]
        simpa [runnableCalls] using hstop
      | none =>
        have hnext := R.cleared h (by rw [hhook]) happ
        rw [hhook] at hnext
        have hrest := ih (idx + 1) (tc ::ₘ K) tr' hnext
        rw [preflight_cleared hhook happ]
        rw [Multiset.cons_add, ← Multiset.add_cons] at hrest
        exact hrest

/-- **Spawned tasks**: each of them runs, in whatever order. -/
theorem runTasks_rule {J : Multiset ToolCall → Trace W → Prop} (hdrop : ∀ {K tr}, J K tr → J 0 tr)
    (hrun : ∀ {K tc tr}, J (tc ::ₘ K) tr → J K (executeChatTool env auto cause tc tr).2)
    (fuel : Nat) (tasks : List (Nat × ToolCall)) (tr : Trace W) (h : J (tasks.map Prod.snd : List ToolCall) tr) :
    J 0 (runTasks env auto cause fuel tasks tr).2 := by
  induction fuel generalizing tasks tr with
  | zero => exact hdrop h
  | succ fuel ih =>
    unfold runTasks
    cases htask : tasks[env.nextTask tr.world % tasks.length]? with
    | none => exact hdrop h
    | some task =>
      -- Picking a task takes its call out of the multiset.
      obtain ⟨hlt, hget⟩ := List.getElem?_eq_some_iff.mp htask
      have hperm : ((tasks.map Prod.snd : List ToolCall) : Multiset ToolCall)
          = task.2 ::ₘ ((tasks.eraseIdx (env.nextTask tr.world % tasks.length)).map Prod.snd
              : List ToolCall) := by
        rw [Multiset.cons_coe, Multiset.coe_eq_coe, ← hget, ← List.map_cons]
        exact ((List.getElem_cons_eraseIdx_perm hlt).map Prod.snd).symm
      rw [hperm] at h
      exact ih _ _ (hrun h)

theorem executeRunnable_rule (env : Env W) (auto : List String) (cause : Cause) {J : Multiset ToolCall → Trace W → Prop}
    (hdrop : ∀ {K tr}, J K tr → J 0 tr)
    (hrun : ∀ {K tc tr}, J (tc ::ₘ K) tr → J K (executeChatTool env auto cause tc tr).2)
    (runnable : List (Nat × ToolCall)) (tr : Trace W) (h : J (runnable.map Prod.snd : List ToolCall) tr) :
    J 0 (executeRunnable env auto cause runnable tr).2 := by
  unfold executeRunnable
  split
  · exact hdrop h
  · exact hrun h
  · exact runTasks_rule (J := J) hdrop hrun runnable.length runnable tr h

/-- **Hooks, then execution.** -/
theorem batch_rule (cause : Cause) (R : PreflightRule env user auto J) (hdrop : ∀ {o K tr}, J o K tr → J o 0 tr)
    (hrun : ∀ {o K tc tr}, J o (tc ::ₘ K) tr → J o K (executeChatTool env auto cause tc tr).2)
    (calls : List ToolCall) (tr : Trace W) (h : J none 0 tr) :
    J ((preflight env user auto 0 calls tr).1.approval.map (·.2.1)) 0
      (executeRunnable env auto cause (runnableOf (preflight env user auto 0 calls tr).1.entries)
        (preflight env user auto 0 calls tr).2).2 := by
  have hpre := preflight_rule R calls 0 0 tr h
  rw [zero_add, ← runnableOf_calls] at hpre
  exact executeRunnable_rule env auto cause (J := J _) hdrop hrun _ _ hpre

end BatchRule

/-! ## Recording outcomes -/

/-- A turn without its recorded tool calls. -/
def Turn.bare (t : Turn) : Turn := { t with toolCalls := [] }

/-- A thread without recorded tool calls and auth mode, which is all the loop writes to. -/
def Thread.kept (t : Thread) : Thread := { t with turns := t.turns.map Turn.bare, pendingAuth := none }

/-- Two sessions that differ in recorded tool calls and auth modes at most. -/
structure Session.Frame (s s' : Session) : Prop where
  auto : s'.autoApprovedTools = s.autoApprovedTools
  threads : ∀ tid, (s'.threads.lookup tid).map Thread.kept = (s.threads.lookup tid).map Thread.kept

theorem Session.Frame.refl (s : Session) : Session.Frame s s := ⟨rfl, fun _ => rfl⟩

theorem Session.Frame.trans {s s' s'' : Session} (h : Session.Frame s s') (h' : Session.Frame s' s'') :
    Session.Frame s s'' :=
  ⟨h'.auto.trans h.auto, fun tid => (h'.threads tid).trans (h.threads tid)⟩

theorem Session.Frame.modifyThread (s : Session) (tid : Uuid) {f : Thread → Thread}
    (hf : ∀ t, (f t).kept = t.kept) : Session.Frame s (s.modifyThread tid f) := by
  refine ⟨Session.modifyThread_autoApprovedTools s tid f, ?_⟩
  intro tid'
  by_cases h : tid' = tid
  · subst h
    rw [Session.lookup_modifyThread_self]
    cases s.threads.lookup tid' with
    | none => rfl
    | some t => exact congrArg some (hf t)
  · rw [Session.lookup_modifyThread_ne s f h]

theorem Thread.kept_modifyLastTurn (t : Thread) {f : Turn → Turn} (hf : ∀ turn, (f turn).bare = turn.bare) :
    (t.modifyLastTurn f).kept = t.kept := by
  have hmap : (t.turns.modify (t.turns.length - 1) f).map Turn.bare = t.turns.map Turn.bare := by
    apply List.ext_getElem?
    intro i
    rw [List.getElem?_map, List.getElem?_map, List.getElem?_modify]
    cases t.turns[i]? with
    | none => rfl
    | some turn =>
      show some (if t.turns.length - 1 = i then f turn else turn).bare = some turn.bare
      split
      · rw [hf turn]
      · rfl
  unfold Thread.kept
  rw [Thread.modifyLastTurn_turns, hmap]
  rfl

theorem recordResult_bare (result : Except Error String) (turn : Turn) :
    (recordResult result turn).bare = turn.bare := by
  cases result with
  | ok output => rfl
  | error e => rfl

theorem recordCalls_bare (w : W) (calls : List ToolCall) (turn : Turn) :
    (recordCalls env w calls turn).bare = turn.bare := by
  unfold recordCalls
  induction calls generalizing turn with
  | nil => rfl
  | cons tc rest ih => exact ih _

variable (user : String) (tid : Uuid) (calls : List ToolCall)

theorem onLastTurn_frame (s : Session) {f : Turn → Turn} (hf : ∀ turn, (f turn).bare = turn.bare) :
    Session.Frame s (onLastTurn tid f s) :=
  Session.Frame.modifyThread s tid fun t => Thread.kept_modifyLastTurn t hf

theorem noteAuth_frame (tc : ToolCall) (result : Except Error String) (p : Postflight) :
    Session.Frame p.session (noteAuth env tid tc result p).session := by
  unfold noteAuth
  split
  · exact Session.Frame.modifyThread _ tid fun _ => rfl
  · exact Session.Frame.refl _

theorem postflightCall_frame (p : Postflight) (outcome : ToolCall × CallOutcome) :
    Session.Frame p.session (postflightCall env tid p outcome).session := by
  rcases outcome with ⟨tc, msg | result⟩
  · exact onLastTurn_frame tid p.session fun _ => rfl
  · have hrecord := onLastTurn_frame tid p.session (recordResult_bare result)
    exact hrecord.trans (noteAuth_frame env tid tc result
      { p with session := onLastTurn tid (recordResult result) p.session })

/-- **Post-flight writes to recorded tool calls and auth mode only.** -/
theorem postflight_frame (outcomes : List (ToolCall × CallOutcome)) (p : Postflight) :
    Session.Frame p.session (postflight env tid outcomes p).session := by
  unfold postflight
  induction outcomes generalizing p with
  | nil => exact Session.Frame.refl _
  | cons o rest ih => exact (postflightCall_frame env tid p o).trans (ih _)

/-! ## One batch -/

section Batch

variable (user : String) (tid : Uuid) (calls : List ToolCall) (content : Option String)
  (context : List ChatMessage) (s : Session) (tr : Trace W)

/-- Preflight of a batch. -/
def batchPreflight : Preflight × Trace W := preflight env user s.autoApprovedTools 0 calls tr

/-- Execution of what preflight let through. -/
def batchResults : List (Nat × Except Error String) × Trace W :=
  executeRunnable env s.autoApprovedTools .batch (runnableOf (batchPreflight env user calls s tr).1.entries)
    (batchPreflight env user calls s tr).2

/-- What post-flight starts from. -/
def batchStart : Postflight where
  session := onLastTurn tid (recordCalls env tr.world calls) s
  context := context ++ [ChatMessage.assistantWithToolCalls content calls]

/-- What post-flight ends with. -/
def batchPostflight : Postflight :=
  postflight env tid
    (outcomesOf (batchPreflight env user calls s tr).1.entries (batchResults env user calls s tr).1)
    (batchStart env tid calls content context s tr)

theorem runBatch_eq : runBatch env user tid calls content context s tr
      = finishBatch env calls (batchPreflight env user calls s tr).1.approval
          (batchPostflight env user tid calls content context s tr) (batchResults env user calls s tr).2 := rfl

theorem batchPostflight_frame : Session.Frame s (batchPostflight env user tid calls content context s tr).session :=
  (onLastTurn_frame tid s (recordCalls_bare env tr.world calls)).trans
    (postflight_frame env tid _ (batchStart env tid calls content context s tr))

end Batch

/-- **How a batch ends**: with the token instructions of a call, with a request for the stopped call, or with
    a longer context. Only a request draws an identifier. -/
theorem finishBatch_cases (approval : Option (Nat × ToolCall × Tool)) (p : Postflight) (tr : Trace W) :
    (∃ instructions, finishBatch env calls approval p tr = (.finished (.response instructions), p.session, tr))
      ∨ (∃ idx tc tool, approval = some (idx, tc, tool) ∧ finishBatch env calls approval p tr
          = (.finished (.needApproval (pendingFor (tr.draw env).1 tc tool p.context (calls.drop (idx + 1)))),
              p.session, (tr.draw env).2))
      ∨ (approval = none ∧ finishBatch env calls approval p tr = (.continues p.context, p.session, tr)) := by
  unfold finishBatch
  split
  · exact Or.inl ⟨_, rfl⟩
  · rcases approval with _ | ⟨idx, tc, tool⟩
    · exact Or.inr (Or.inr ⟨rfl, rfl⟩)
    · exact Or.inr (Or.inl ⟨idx, tc, tool, rfl, rfl⟩)

section BatchEnds

variable {user : String} {tid : Uuid} {calls : List ToolCall} {content : Option String}
  {context context' : List ChatMessage} {s s' : Session} {tr tr' : Trace W}

/-- A batch after which the loop goes on stopped at no call. -/
theorem runBatch_continues (h : runBatch env user tid calls content context s tr = (.continues context', s', tr')) :
    (batchPreflight env user calls s tr).1.approval = none
      ∧ context' = (batchPostflight env user tid calls content context s tr).context
      ∧ s' = (batchPostflight env user tid calls content context s tr).session
      ∧ tr' = (batchResults env user calls s tr).2 := by
  rw [runBatch_eq] at h
  rcases finishBatch_cases env calls (batchPreflight env user calls s tr).1.approval
      (batchPostflight env user tid calls content context s tr) (batchResults env user calls s tr).2 with
    ⟨_, hf⟩ | ⟨_, _, _, _, hf⟩ | ⟨hnone, hf⟩
  · rw [hf] at h; cases h
  · rw [hf] at h; cases h
  · rw [hf] at h
    cases h
    exact ⟨hnone, rfl, rfl, rfl⟩

/-- A batch that ends the loop answers with token instructions, or asks for approval of the call it stopped
    at. -/
theorem runBatch_finished {r : AgenticLoopResult}
    (h : runBatch env user tid calls content context s tr = (.finished r, s', tr')) :
    s' = (batchPostflight env user tid calls content context s tr).session
      ∧ tr'.log = (batchResults env user calls s tr).2.log ∧ ((∃ instructions, r = .response instructions)
        ∨ ∃ idx tc tool newId, (batchPreflight env user calls s tr).1.approval = some (idx, tc, tool)
          ∧ r = .needApproval (pendingFor newId tc tool
              (batchPostflight env user tid calls content context s tr).context (calls.drop (idx + 1)))) := by
  rw [runBatch_eq] at h
  rcases finishBatch_cases env calls (batchPreflight env user calls s tr).1.approval
      (batchPostflight env user tid calls content context s tr) (batchResults env user calls s tr).2 with
    ⟨instructions, hf⟩ | ⟨idx, tc, tool, happ, hf⟩ | ⟨_, hf⟩
  · rw [hf] at h
    cases h
    exact ⟨rfl, rfl, Or.inl ⟨instructions, rfl⟩⟩
  · rw [hf] at h
    cases h
    exact ⟨rfl, rfl, Or.inr ⟨idx, tc, tool, _, happ, rfl⟩⟩
  · rw [hf] at h; cases h

end BatchEnds

/-! ## The loop -/

section LoopRule

variable {env} {user : String} {tid : Uuid}
  {I : List ChatMessage → Session → Trace W → Prop} {Q : AgenticLoopResult → Session → Trace W → Prop}

/-- The model answered a request with these calls: a request that offers the tools of some moment. -/
def Asked (env : Env W) (calls : List ToolCall) (content : Option String) : Prop :=
  ∃ w₀ messages w response, (env.complete ⟨messages, env.toolDefinitions w₀⟩ w).1 = .ok response
    ∧ readToolAnswer env (env.toolDefinitions w₀) response = .toolCalls calls content

theorem Asked.ne_nil {calls : List ToolCall} {content : Option String} (h : Asked env calls content) : calls ≠ [] := by
  obtain ⟨_, _, _, _, _, hread⟩ := h
  exact readToolAnswer_ne_nil env hread

/-- What an invariant `I` has to survive in an iteration, and how it gives the postcondition `Q`. -/
structure LoopRule (env : Env W) (user : String) (tid : Uuid)
    (I : List ChatMessage → Session → Trace W → Prop) (Q : AgenticLoopResult → Session → Trace W → Prop) :
    Prop where
  warn : ∀ {c s tr}, I c s tr → I (c ++ [ChatMessage.system iterationLimitNudge]) s tr
  ask : ∀ {c s tr} (prompt : String) (tools : List ToolDefinition), I c s tr →
    I c s (tr.complete env ⟨ChatMessage.system prompt :: c, tools⟩).2
  compact : ∀ {c s tr}, I c s tr → I (compactMessagesForRetry c) s tr
  nudge : ∀ {c s tr text}, I c s tr →
    I (c ++ [ChatMessage.assistant text, ChatMessage.user toolIntentNudge]) s tr
  answer : ∀ {c s tr text}, I c s tr → Q (.response text) s tr
  continues : ∀ {c s tr calls content c' s' tr'}, I c s tr → Asked env calls content →
    runBatch env user tid calls content c s tr = (.continues c', s', tr') → I c' s' tr'
  finished : ∀ {c s tr calls content r s' tr'}, I c s tr → Asked env calls content →
    runBatch env user tid calls content c s tr = (.finished r, s', tr') → Q r s' tr'

/-- The invariant after an exchange with the model, whatever it answered. The retry offers the same tools, unless a
    text was forced, and then no calls are read. -/
theorem exchange_rule (R : LoopRule env user tid I Q) (prompts : Prompts) (w₀ : W)
    (force : Bool) {c : List ChatMessage} {s : Session} {tr : Trace W} (h : I c s tr) :
    (∀ r c', (exchange env prompts (env.toolDefinitions w₀) force c tr).1 = .ok (r, c') →
        I c' s (exchange env prompts (env.toolDefinitions w₀) force c tr).2
          ∧ ∀ calls content, r = .toolCalls calls content → Asked env calls content)
      ∧ ∀ e, (exchange env prompts (env.toolDefinitions w₀) force c tr).1 = .error e →
        ∃ c', I c' s (exchange env prompts (env.toolDefinitions w₀) force c tr).2 := by
  unfold exchange
  simp only
  -- The first request; a context-length error is the only answer that leads to a second one.
  obtain ⟨t₁, htr₁, hread₁⟩ := respondWithTools_spec env
    ⟨c, env.toolDefinitions w₀, if force then prompts.withoutTools else prompts.withTools, force⟩ tr
  have h₁ := R.ask (if force then prompts.withoutTools else prompts.withTools) t₁ h
  rw [← htr₁] at h₁
  rcases hr₁ : respondWithTools env
    ⟨c, env.toolDefinitions w₀, if force then prompts.withoutTools else prompts.withTools, force⟩ tr with
    ⟨_ | r₁, tr₁⟩
  · rename_i e
    rw [hr₁] at h₁
    cases e with
    | contextLengthExceeded used limit =>
      dsimp only
      obtain ⟨t₂, htr₂, hread₂⟩ := respondWithTools_spec env
        ⟨compactMessagesForRetry c, if force then [] else env.toolDefinitions w₀,
          if force then prompts.withoutTools else prompts.withTools, force⟩ tr₁
      have h₂ := R.ask (if force then prompts.withoutTools else prompts.withTools) t₂ (R.compact h₁)
      rw [← htr₂] at h₂
      rcases hr₂ : respondWithTools env
        ⟨compactMessagesForRetry c, if force then [] else env.toolDefinitions w₀,
          if force then prompts.withoutTools else prompts.withTools, force⟩ tr₁ with ⟨_ | r₂, tr₂⟩
      · rw [hr₂] at h₂
        exact ⟨fun _ _ he => (by cases he), fun _ _ => ⟨_, h₂⟩⟩
      · rw [hr₂] at h₂
        refine ⟨?_, fun _ he => by cases he⟩
        intro r c' he
        cases he
        refine ⟨h₂, ?_⟩
        rintro calls content rfl
        cases force with
        | true => exact (respondWithTools_forced env hr₂).elim
        | false =>
          obtain ⟨response, hcomplete, hread⟩ := hread₂ calls content (by rw [hr₂])
          exact ⟨w₀, _, _, response, hcomplete, hread⟩
    | invalidResponse provider reason => exact ⟨fun _ _ he => (by cases he), fun _ _ => ⟨_, h₁⟩⟩
    | other d => exact ⟨fun _ _ he => (by cases he), fun _ _ => ⟨_, h₁⟩⟩
  · rw [hr₁] at h₁
    refine ⟨?_, fun _ he => by cases he⟩
    intro r c' he
    cases he
    refine ⟨h₁, ?_⟩
    rintro calls content rfl
    obtain ⟨response, hcomplete, hread⟩ := hread₁ calls content (by rw [hr₁])
    exact ⟨w₀, _, _, response, hcomplete, hread⟩

/-- How a loop ends: with the postcondition of its result, or, failing, where the invariant last held. -/
def LoopEnds (I : List ChatMessage → Session → Trace W → Prop)
    (Q : AgenticLoopResult → Session → Trace W → Prop) :
    Except Error AgenticLoopResult × Session × Trace W → Prop
  | (.ok r, s, tr) => Q r s tr
  | (.error _, s, tr) => ∃ c, I c s tr

theorem nudgedContext_rule (R : LoopRule env user tid I Q) (iteration : Nat) {c : List ChatMessage}
    {s : Session} {tr : Trace W} (h : I c s tr) : I (nudgedContext env iteration c) s tr := by
  unfold nudgedContext
  split
  · exact R.warn h
  · exact h

/-- **The loop rule**, by induction on the iterations left. -/
theorem agenticLoop_rule (R : LoopRule env user tid I Q) (prompts : Prompts) (n nudges : Nat)
    (c : List ChatMessage) (s : Session) (tr : Trace W) (h : I c s tr) :
    LoopEnds I Q (agenticLoop env user tid prompts n nudges c s tr) := by
  induction n generalizing nudges c s tr with
  | zero => exact ⟨c, h⟩
  | succ n ih =>
    unfold agenticLoop
    split
    · exact ⟨c, h⟩
    · split
      · exact ⟨c, h⟩
      · obtain ⟨hok, herr⟩ := exchange_rule R prompts tr.world
          (forceText env (env.maxToolIterations + 1 - n))
          (nudgedContext_rule R (env.maxToolIterations + 1 - n) h)
        simp only
        rcases hx : exchange env prompts (env.toolDefinitions tr.world)
          (forceText env (env.maxToolIterations + 1 - n))
          (nudgedContext env (env.maxToolIterations + 1 - n) c) tr with ⟨e | ⟨text | ⟨calls, content⟩, c'⟩, tr'⟩
        · rw [hx] at herr
          exact herr e rfl
        · rw [hx] at hok
          obtain ⟨h', _⟩ := hok _ _ rfl
          dsimp only
          split
          · exact ih _ _ _ _ (R.nudge h')
          · exact R.answer h'
        · rw [hx] at hok
          obtain ⟨h', hasked⟩ := hok _ _ rfl
          dsimp only
          rcases hb : runBatch env user tid calls content c' s tr' with ⟨c'' | r, s', tr''⟩
          · exact ih _ _ _ _ (R.continues h' (hasked _ _ rfl) hb)
          · exact R.finished h' (hasked _ _ rfl) hb

theorem runAgenticLoop_rule (R : LoopRule env user tid I Q) (messages : List ChatMessage) (s : Session)
    (tr : Trace W) (h : I messages s tr) : LoopEnds I Q (runAgenticLoop env user tid messages s tr) :=
  agenticLoop_rule R _ _ 0 messages s tr h

end LoopRule

variable (content : Option String)

/-- The session a batch leaves is the one post-flight leaves. -/
theorem runBatch_session (c : List ChatMessage) (s : Session) (tr : Trace W) :
    (runBatch env user tid calls content c s tr).2.1 = (batchPostflight env user tid calls content c s tr).session := by
  rw [runBatch_eq]
  rcases finishBatch_cases env calls (batchPreflight env user calls s tr).1.approval
      (batchPostflight env user tid calls content c s tr) (batchResults env user calls s tr).2 with
    ⟨_, h⟩ | ⟨_, _, _, _, h⟩ | ⟨_, h⟩
  · rw [h]
  · rw [h]
  · rw [h]

/-- The log a batch leaves is the one execution leaves. -/
theorem runBatch_results_log (c : List ChatMessage) (s : Session) (tr : Trace W) :
    (runBatch env user tid calls content c s tr).2.2.log = (batchResults env user calls s tr).2.log := by
  rw [runBatch_eq]
  rcases finishBatch_cases env calls (batchPreflight env user calls s tr).1.approval
      (batchPostflight env user tid calls content c s tr) (batchResults env user calls s tr).2 with
    ⟨_, h⟩ | ⟨_, _, _, _, h⟩ | ⟨_, h⟩
  · rw [h]
  · rw [h]
    rfl
  · rw [h]

theorem runBatch_frame (c : List ChatMessage) (s : Session) (tr : Trace W) :
    Session.Frame s (runBatch env user tid calls content c s tr).2.1 := by
  rw [runBatch_session]
  exact batchPostflight_frame env user tid calls content c s tr

/-- **The loop leaves the session alone**, up to recorded tool calls and auth mode. -/
theorem runAgenticLoop_frame (messages : List ChatMessage) (s : Session) (tr : Trace W) :
    Session.Frame s (runAgenticLoop env user tid messages s tr).2.1 := by
  have R : LoopRule env user tid (fun _ s' _ => Session.Frame s s') (fun _ s' _ => Session.Frame s s') :=
    { warn := id
      ask := fun _ _ h => h
      compact := id
      nudge := id
      answer := id
      continues := by
        intro c s₁ tr₁ calls content c' s' tr' h _ hb
        have hframe := runBatch_frame env user tid calls content c s₁ tr₁
        rw [hb] at hframe
        exact h.trans hframe
      finished := by
        intro c s₁ tr₁ calls content r s' tr' h _ hb
        have hframe := runBatch_frame env user tid calls content c s₁ tr₁
        rw [hb] at hframe
        exact h.trans hframe }
  have hend := runAgenticLoop_rule R messages s tr (Session.Frame.refl s)
  rcases hl : runAgenticLoop env user tid messages s tr with ⟨_ | r, s', tr'⟩
  · rw [hl] at hend
    obtain ⟨_, h⟩ := hend
    exact h
  · rw [hl] at hend
    exact hend

end Freeclawdia
