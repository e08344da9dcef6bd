import Freeclawdia.Correctness.Requests
import Freeclawdia.Lib.Runs

/-!
# `Correctness.ApprovalSafety` — no tool runs that the user had to approve and did not

Two facts about every run of messages, with `auto_approve_tools` off.

* A call that needs approval when it runs is the call of the request that stood on the awaiting thread when
  an approving submission arrived (`Authorized`).
* A request is run at most once: identifiers of requests raised are credits, runs of approved calls spend
  them.

The second holds as it is. The first rests on the approval check, which is made when a batch is walked, while
the tool is looked up again when it runs: in between, hooks and the other calls of the batch run and may
change the registry. A `Clearance` is one call of a batch, or one replayed call, with the world of its check
and the world of its run; a message is safe exactly if the registry is not stricter in the second than in the
first, for each of its own clearances (`SteadyStep`). `activated_tool_runs_unapproved` is a batch of two calls
in which the first registers the tool of the second.
-/

namespace Freeclawdia.ApprovalSafety

open Rust

variable {W : Type}

/-! ## Calls that passed a check -/

variable (env : Env W)

/-- The call passes the approval check in a world: no registered tool asks for approval. -/
def Passes (w : W) (tc : ToolCall) (auto : List String) : Prop :=
  (env.tool w tc.name).filter (fun t => needsApproval t tc auto) = none

/-- The event of a run that starts in a world, if the call gets to its tool. -/
def runEvent (auto : List String) (cause : Cause) (tc : ToolCall) (w : W) : Option Event :=
  if env.validateToolParams tc.arguments = [] then
    (env.tool w tc.name).map fun tool => .executed tc tool auto cause
  else none

/-- A call that passed an approval check and was handed to the executor. -/
structure Clearance (W : Type) where
  call : ToolCall
  auto : List String
  cause : Cause
  checked : W
  ran : W

/-- The event of a cleared call's run. -/
def Clearance.event (c : Clearance W) : Option Event := runEvent env c.auto c.cause c.call c.ran

/-- The registry's verdict on the call is no stricter when it runs than it was at the check. A call with
    invalid parameters does not get to its tool. -/
def Clearance.Steady (c : Clearance W) : Prop :=
  env.validateToolParams c.call.arguments = [] → Passes env c.checked c.call c.auto → Passes env c.ran c.call c.auto

section Clearances

variable (env : Env W) (user : String) (tid : Uuid)

/-- The worlds spawned tasks start in. -/
def startWorlds (auto : List String) (cause : Cause) :
    Nat → List (Nat × ToolCall) → Trace W → List ((Nat × ToolCall) × W)
  | 0, _, _ => []
  | fuel + 1, tasks, tr =>
    match tasks[env.nextTask tr.world % tasks.length]? with
    | none => []
    | some task =>
      (task, tr.world) :: startWorlds auto cause fuel
        (tasks.eraseIdx (env.nextTask tr.world % tasks.length)) (executeChatTool env auto cause task.2 tr).2

/-- The clearances of calls handed to the executor, given the worlds their positions were checked in. -/
def cleared (auto : List String) (cause : Cause) (checked : Nat → W) (tasks : List (Nat × ToolCall))
    (tr : Trace W) : List (Clearance W) :=
  (startWorlds env auto cause tasks.length tasks tr).map fun t => ⟨t.1.2, auto, cause, checked t.1.1, t.2⟩

/-- The world in which the call at a position of a batch is checked. -/
def checkWorld : List ToolCall → Trace W → Nat → W
  | original :: rest, tr, k + 1 =>
    checkWorld rest (hookToolCall env user original (sensitiveOf (env.tool tr.world original.name)) tr).2 k
  | _, tr, _ => tr.world

/-- The clearances of a batch. -/
def batchClearances (calls : List ToolCall) (s : Session) (tr : Trace W) : List (Clearance W) :=
  cleared env s.autoApprovedTools .batch (checkWorld env user calls tr)
    (runnableOf (batchPreflight env user calls s tr).1.entries) (batchPreflight env user calls s tr).2

/-- The clearances of a loop, iteration by iteration. -/
def loopClearances (prompts : Prompts) : Nat → Nat → List ChatMessage → Session → Trace W → List (Clearance W)
  | 0, _, _, _, _ => []
  | n + 1, nudges, context, s, tr =>
    if isInterrupted s tid then []
    else
      match env.costLimit tr.world with
      | some _ => []
      | none =>
        let iteration := env.maxToolIterations + 1 - n
        match exchange env prompts (env.toolDefinitions tr.world) (forceText env iteration)
            (nudgedContext env iteration context) tr with
        | (.error _, _) => []
        | (.ok (.text text, context'), tr') =>
          if wantsNudge env (env.toolDefinitions tr.world) (forceText env iteration) nudges text then
            loopClearances prompts n (nudges + 1)
              (context' ++ [ChatMessage.assistant text, ChatMessage.user toolIntentNudge]) s tr'
          else []
        | (.ok (.toolCalls calls content, context'), tr') =>
          batchClearances env user calls s tr' ++
            match runBatch env user tid calls content context' s tr' with
            | (.finished _, _, _) => []
            | (.continues context'', s', tr'') => loopClearances prompts n 0 context'' s' tr''

/-- The clearances of a turn. -/
def turnClearances (context : List ChatMessage) (st : AgentState W) : List (Clearance W) :=
  match st.manager.session user with
  | none => []
  | some s =>
    loopClearances env user tid ⟨env.systemPrompt (env.toolDefinitions st.trace.world), env.systemPrompt []⟩
      (env.maxToolIterations + 1) 0 context s st.trace

/-- The clearances of replayed calls: all of them are checked before the first one runs. -/
def deferredClearances (deferred : List ToolCall) (st : AgentState W) : List (Clearance W) :=
  cleared env (st.autoApproved user) .deferred (fun _ => st.trace.world)
    ((deferredPreflight env (st.autoApproved user) st.trace.world 0 deferred).1.zipIdx.map fun t => (t.2, t.1))
    st.trace

/-- The clearances of a replay and of the loop that may follow it. -/
def replayClearances (deferred : List ToolCall) (context : List ChatMessage) (st : AgentState W) :
    List (Clearance W) :=
  deferredClearances env user deferred st ++
    match (deferredPostflight env user tid st deferred context).deferredAuth,
      (deferredPreflight env (st.autoApproved user) st.trace.world 0 deferred).2 with
    | none, none =>
      turnClearances env user tid (deferredPostflight env user tid st deferred context).context
        (deferredPostflight env user tid st deferred context).state
    | _, _ => []

/-- The clearances after an approved call; that call has its approval. -/
def resumeClearances (pending : PendingApproval) (always : Bool) (st : AgentState W) : List (Clearance W) :=
  match executeApproved env user tid pending (grantApproval user tid pending always st) with
  | (result, st₁) =>
    match checkAuthRequired env pending.toolName result with
    | some _ => []
    | none =>
      replayClearances env user tid pending.deferredToolCalls
        (pending.contextMessages ++ [ChatMessage.toolResult pending.toolCallId pending.toolName
          (resultContent env (fun e => "Error: " ++ e) pending.toolName result)]) st₁

/-- The clearances of a message's work. -/
def workClearances : MessageWork W → List (Clearance W)
  | .nothing => []
  | .turn tid context st => turnClearances env user tid context st
  | .resume tid pending always st => resumeClearances env user tid pending always st

end Clearances

/-- **The condition on a step**: between the approval check of a call and its run, the registry's verdict on
    it does not get stricter, for every call the message's own batches and replays clear. -/
def SteadyStep (st : AgentState W) (i : Incoming) : Prop :=
  ∀ c ∈ workClearances env i.msg.userId (messageWork env i.msg i.now st), c.Steady env

/-! ## What clearances log -/

/-- Events around tool runs. -/
def Talk : Event → Prop
  | .llm _ => True
  | .hooked .. => True
  | _ => False

/-- Events of the loop and of replayed calls. -/
def ToolEvent : Event → Prop
  | .executed _ _ _ cause => cause = .batch ∨ cause = .deferred
  | e => Talk e

/-- The log grew by events of `P` and by the runs of these clearances, every one of them. -/
structure Ran (env : Env W) (P : Event → Prop) (cs : List (Clearance W)) (l l' : List Event) : Prop where
  checked : env.autoApproveTools = false → ∀ c ∈ cs, Passes env c.checked c.call c.auto
  cause : ∀ c ∈ cs, c.cause = .batch ∨ c.cause = .deferred
  log : ∃ ev, l' = l ++ ev ∧ (∀ e ∈ ev, P e ∨ ∃ c ∈ cs, c.event env = some e)
    ∧ ∀ c ∈ cs, ∀ e, c.event env = some e → e ∈ ev

namespace Ran

variable {env : Env W} {P P' : Event → Prop} {cs cs' : List (Clearance W)} {l l' l'' : List Event}

/-- Nothing was cleared. -/
theorem of_grows (h : Log.Grows P l l') : Ran env P [] l l' := by
  obtain ⟨ev, heq, hev⟩ := h
  refine ⟨fun _ c hc => absurd hc List.not_mem_nil, fun c hc => absurd hc List.not_mem_nil, ev, heq, ?_, ?_⟩
  · exact fun e he => Or.inl (hev e he)
  · exact fun c hc => absurd hc List.not_mem_nil

theorem trans (h : Ran env P cs l l') (h' : Ran env P cs' l' l'') : Ran env P (cs ++ cs') l l'' := by
  obtain ⟨ev, rfl, hev, hall⟩ := h.log
  obtain ⟨ev', rfl, hev', hall'⟩ := h'.log
  refine ⟨?_, ?_, ev ++ ev', List.append_assoc l ev ev', ?_, ?_⟩
  · exact fun hauto => List.forall_mem_append.mpr ⟨h.checked hauto, h'.checked hauto⟩
  · exact List.forall_mem_append.mpr ⟨h.cause, h'.cause⟩
  · refine List.forall_mem_append.mpr ⟨fun e he => (hev e he).imp_right ?_, fun e he => (hev' e he).imp_right ?_⟩
    · exact fun ⟨c, hc, hce⟩ => ⟨c, List.mem_append_left _ hc, hce⟩
    · exact fun ⟨c, hc, hce⟩ => ⟨c, List.mem_append_right _ hc, hce⟩
  · refine List.forall_mem_append.mpr ⟨fun c hc e hce => ?_, fun c hc e hce => ?_⟩
    · exact List.mem_append_left _ (hall c hc e hce)
    · exact List.mem_append_right _ (hall' c hc e hce)

/-- Events of `P` before and after. -/
theorem between (h : Log.Grows P l l') (h' : Ran env P cs l' l'') : Ran env P cs l l'' := (of_grows h).trans h'

theorem before (h : Ran env P cs l l') (h' : Log.Grows P l' l'') : Ran env P cs l l'' := by
  rw [← List.append_nil cs]
  exact h.trans (of_grows h')

theorem mono (hP : ∀ e, P e → P' e) (h : Ran env P cs l l') : Ran env P' cs l l' := by
  obtain ⟨ev, heq, hev, hall⟩ := h.log
  exact ⟨h.checked, h.cause, ev, heq, fun e he => (hev e he).imp_left (hP e), hall⟩

/-- Around tool runs, only tool events are logged. -/
theorem grows (h : Ran env Talk cs l l') : Log.Grows ToolEvent l l' := by
  obtain ⟨ev, heq, hev, _⟩ := h.log
  refine ⟨ev, heq, ?_⟩
  intro e he
  rcases hev e he with htalk | ⟨c, hc, hce⟩
  · cases e with
    | executed tc tool auto cause => cases htalk
    | _ => exact htalk
  · have hcause := h.cause c hc
    unfold Clearance.event runEvent at hce
    split at hce
    · obtain ⟨tool, _, rfl⟩ := Option.map_eq_some_iff.mp hce
      exact hcause
    · cases hce

end Ran

section Runs

variable (env : Env W) (auto : List String) (cause : Cause)

theorem executeChatTool_log (tc : ToolCall) (tr : Trace W) : (executeChatTool env auto cause tc tr).2.log
      = tr.log ++ (runEvent env auto cause tc tr.world).toList := by
  unfold executeChatTool runEvent
  cases env.tool tr.world tc.name with
  | none => simp
  | some tool =>
    cases env.validateToolParams tc.arguments with
    | cons e es => simp
    | nil => rcases env.execute tc.name tc.arguments tr.world with ⟨_ | _ | _, w⟩ <;> rfl

/-- **Spawned tasks** log the runs of the worlds they start in. -/
theorem runTasks_log (fuel : Nat) (tasks : List (Nat × ToolCall)) (tr : Trace W) :
    (runTasks env auto cause fuel tasks tr).2.log
      = tr.log ++ (startWorlds env auto cause fuel tasks tr).filterMap
          fun t => runEvent env auto cause t.1.2 t.2 := by
  induction fuel generalizing tasks tr with
  | zero => exact (List.append_nil _).symm
  | succ fuel ih =>
    unfold runTasks startWorlds
    cases tasks[env.nextTask tr.world % tasks.length]? with
    | none => exact (List.append_nil _).symm
    | some task =>
      dsimp only
      rw [ih, executeChatTool_log, List.append_assoc]
      cases hrun : runEvent env auto cause task.2 tr.world with
      | none => simp [hrun]
      | some e => simp [hrun]

theorem executeRunnable_log (tasks : List (Nat × ToolCall)) (tr : Trace W) :
    (executeRunnable env auto cause tasks tr).2.log
      = tr.log ++ (startWorlds env auto cause tasks.length tasks tr).filterMap
          fun t => runEvent env auto cause t.1.2 t.2 := by
  unfold executeRunnable
  split
  · exact (List.append_nil _).symm
  · rename_i t
    have hone : startWorlds env auto cause 1 [t] tr = [(t, tr.world)] := by
      simp [startWorlds, Nat.mod_one]
    dsimp only
    rw [executeChatTool_log, List.length_singleton, hone]
    cases hrun : runEvent env auto cause t.2 tr.world with
    | none => simp [hrun]
    | some e => simp [hrun]
  · exact runTasks_log env auto cause _ _ tr

/-- The tasks that start are tasks that were handed over. -/
theorem startWorlds_mem (fuel : Nat) (tasks : List (Nat × ToolCall)) (tr : Trace W) :
    ∀ t ∈ startWorlds env auto cause fuel tasks tr, t.1 ∈ tasks := by
  induction fuel generalizing tasks tr with
  | zero => exact fun _ h => absurd h List.not_mem_nil
  | succ fuel ih =>
    intro t h
    unfold startWorlds at h
    split at h
    · exact absurd h List.not_mem_nil
    · rename_i task htask
      rcases List.mem_cons.mp h with rfl | h
      · exact List.mem_of_getElem? htask
      · exact List.mem_of_mem_eraseIdx (ih _ _ t h)

variable {env auto cause}

/-- **Executing checked calls.** -/
theorem cleared_ran {checked : Nat → W} {tasks : List (Nat × ToolCall)} (tr : Trace W)
    (hcause : cause = .batch ∨ cause = .deferred)
    (hchecked : env.autoApproveTools = false → ∀ t ∈ tasks, Passes env (checked t.1) t.2 auto) :
    Ran env Talk (cleared env auto cause checked tasks tr) tr.log (executeRunnable env auto cause tasks tr).2.log := by
  unfold cleared
  refine ⟨?_, ?_, _, executeRunnable_log env auto cause tasks tr, ?_, ?_⟩
  · intro hauto c hc
    obtain ⟨t, ht, rfl⟩ := List.mem_map.mp hc
    exact hchecked hauto t.1 (startWorlds_mem env auto cause _ _ tr t ht)
  · intro c hc
    obtain ⟨t, _, rfl⟩ := List.mem_map.mp hc
    exact hcause
  · intro e he
    obtain ⟨t, ht, hte⟩ := List.mem_filterMap.mp he
    exact Or.inr ⟨_, List.mem_map.mpr ⟨t, ht, rfl⟩, hte⟩
  · intro c hc e hce
    obtain ⟨t, ht, rfl⟩ := List.mem_map.mp hc
    exact List.mem_filterMap.mpr ⟨t, ht, hce⟩

variable (user : String)

/-- Walking a batch logs its hooks. -/
theorem preflight_log (calls : List ToolCall) (tr : Trace W) :
    Log.Grows Talk tr.log (preflight env user auto 0 calls tr).2.log := by
  have R : PreflightRule env user auto (fun _ _ tr' => Log.Grows Talk tr.log tr'.log) :=
    { rejected := fun h _ => h.trans (Log.Grows.snoc True.intro _)
      cleared := fun h _ _ => h.trans (Log.Grows.snoc True.intro _)
      stopped := fun h _ _ => h.trans (Log.Grows.snoc True.intro _) }
  exact preflight_rule R calls 0 0 tr (Log.Grows.refl _ _)

/-- A call that may run was checked in the world of its position. -/
theorem runnable_checked (calls : List ToolCall) (idx k₀ : Nat) (tr : Trace W) :
    ∀ t ∈ ((preflight env user auto idx calls tr).1.entries.zipIdx k₀).filterMap runnableAt, k₀ ≤ t.1 ∧
      approvalFor env (env.tool (checkWorld env user calls tr (t.1 - k₀)) t.2.name) t.2 auto = none := by
  induction calls generalizing idx k₀ tr with
  | nil => exact fun _ h => absurd h List.not_mem_nil
  | cons original rest ih =>
    intro t ht
    rcases hhook : hookToolCall env user original (sensitiveOf (env.tool tr.world original.name)) tr with
      ⟨msg | tc, tr'⟩
    · have hrest : ∀ k, k₀ + 1 ≤ k → checkWorld env user (original :: rest) tr (k - k₀)
          = checkWorld env user rest tr' (k - (k₀ + 1)) := by
        intro k hk
        rw [show k - k₀ = k - (k₀ + 1) + 1 by omega, checkWorld, hhook]
      rw [preflight_rejected hhook] at ht
      obtain ⟨hle, happ⟩ := ih (idx + 1) (k₀ + 1) tr' t ht
      exact ⟨by omega, by rw [hrest t.1 hle]; exact happ⟩
    · cases happ : approvalFor env (env.tool tr.world original.name) tc auto with
      | some tool =>
        rw [preflight_stopped hhook happ] at ht
        exact absurd ht List.not_mem_nil
      | none =>
        rw [preflight_cleared hhook happ] at ht
        rcases List.mem_cons.mp ht with rfl | ht
        · have hname : tc.name = original.name := (hookToolCall_ok (by rw [hhook])).2
          refine ⟨le_rfl, ?_⟩
          rw [Nat.sub_self, hname]
          exact happ
        · obtain ⟨hle, hrest⟩ := ih (idx + 1) (k₀ + 1) tr' t ht
          refine ⟨by omega, ?_⟩
          rw [show t.1 - k₀ = t.1 - (k₀ + 1) + 1 by omega, checkWorld, hhook]
          exact hrest

/-- **A batch runs what it clears.** -/
theorem batch_ran (calls : List ToolCall) (s : Session) (tr : Trace W) :
    Ran env Talk (batchClearances env user calls s tr) tr.log (batchResults env user calls s tr).2.log := by
  refine Ran.between (preflight_log user calls tr) (cleared_ran _ (Or.inl rfl) ?_)
  intro hauto t ht
  have hnone := (runnable_checked user calls 0 0 tr t ht).2
  unfold approvalFor at hnone
  rw [hauto] at hnone
  exact hnone

variable (tid : Uuid)

/-- An exchange logs its requests. -/
theorem exchange_log (prompts : Prompts) (tools : List ToolDefinition) (force : Bool) (c : List ChatMessage)
    (tr : Trace W) : Log.Grows Talk tr.log (exchange env prompts tools force c tr).2.log := by
  have hone : ∀ request (tr : Trace W), Log.Grows Talk tr.log (respondWithTools env request tr).2.log := by
    intro request tr
    obtain ⟨tools, heq, _⟩ := respondWithTools_spec env request tr
    rw [heq]
    exact Log.Grows.snoc True.intro _
  unfold exchange
  have hfirst := hone ⟨c, tools, if force then prompts.withoutTools else prompts.withTools, force⟩ tr
  dsimp only
  split
  · rename_i hr
    rw [hr] at hfirst
    exact hfirst
  · rename_i tr₁ hr
    rw [hr] at hfirst
    have hsecond := hfirst.trans (hone ⟨compactMessagesForRetry c, if force then [] else tools,
      if force then prompts.withoutTools else prompts.withTools, force⟩ tr₁)
    split
    · rename_i hr'
      rw [hr'] at hsecond
      exact hsecond
    · rename_i hr'
      rw [hr'] at hsecond
      exact hsecond
  · rename_i hr
    rw [hr] at hfirst
    exact hfirst

/-- **A loop runs what its batches clear**, by induction on the iterations left. -/
theorem agenticLoop_ran (prompts : Prompts) (n nudges : Nat) (c : List ChatMessage) (s : Session) (tr : Trace W) :
    Ran env Talk (loopClearances env user tid prompts n nudges c s tr) tr.log
      (agenticLoop env user tid prompts n nudges c s tr).2.2.log := by
  induction n generalizing nudges c s tr with
  | zero => exact Ran.of_grows (Log.Grows.refl _ _)
  | succ n ih =>
    unfold agenticLoop loopClearances
    split
    · exact Ran.of_grows (Log.Grows.refl _ _)
    · cases env.costLimit tr.world with
      | some limit => exact Ran.of_grows (Log.Grows.refl _ _)
      | none =>
        have hx := @exchange_log W env prompts (env.toolDefinitions tr.world)
          (forceText env (env.maxToolIterations + 1 - n))
          (nudgedContext env (env.maxToolIterations + 1 - n) c) tr
        dsimp only
        rcases hanswer : exchange env prompts (env.toolDefinitions tr.world)
          (forceText env (env.maxToolIterations + 1 - n))
          (nudgedContext env (env.maxToolIterations + 1 - n) c) tr with ⟨e | ⟨text | ⟨calls, content⟩, c'⟩, tr'⟩
        all_goals rw [hanswer] at hx
        · exact Ran.of_grows hx
        · dsimp only
          split
          · exact Ran.between hx (ih _ _ _ _)
          · exact Ran.of_grows hx
        · have hbatch := @batch_ran W env user calls s tr'
          rw [← runBatch_results_log env user tid calls content c' s tr'] at hbatch
          dsimp only
          rcases hb : runBatch env user tid calls content c' s tr' with ⟨c'' | r, s', tr''⟩
          all_goals rw [hb] at hbatch
          · exact Ran.between hx (hbatch.trans (ih _ _ _ _))
          · exact Ran.between hx (hbatch.trans (Ran.of_grows (Log.Grows.refl _ _)))

theorem runLoop_ran (context : List ChatMessage) (st : AgentState W) :
    Ran env Talk (turnClearances env user tid context st) st.trace.log (runLoop env user tid context st).2.trace.log := by
  unfold runLoop turnClearances
  cases st.manager.session user with
  | none => exact Ran.of_grows (Log.Grows.refl _ _)
  | some s => exact agenticLoop_ran user tid _ _ 0 context s st.trace

theorem deferredPreflight_passes (w : W) (deferred : List ToolCall) (idx : Nat) :
    ∀ tc ∈ (deferredPreflight env auto w idx deferred).1, Passes env w tc auto := by
  induction deferred generalizing idx with
  | nil => exact fun _ h => absurd h List.not_mem_nil
  | cons tc rest ih =>
    intro tc' h
    unfold deferredPreflight at h
    split at h
    · exact absurd h List.not_mem_nil
    · rename_i hpass
      rcases List.mem_cons.mp h with rfl | h
      · exact hpass
      · exact ih (idx + 1) tc' h

/-- **A replay runs what it clears.** -/
theorem deferred_ran (deferred : List ToolCall) (st : AgentState W) :
    Ran env Talk (deferredClearances env user deferred st) st.trace.log (deferredTrace env user st deferred).log := by
  refine cleared_ran _ (Or.inr rfl) ?_
  intro _ t ht
  obtain ⟨u, hu, rfl⟩ := List.mem_map.mp ht
  exact deferredPreflight_passes st.trace.world deferred 0 u.1 (List.fst_mem_of_mem_zipIdx hu)

end Runs

/-! ## Whole messages -/

section Messages

variable {env : Env W} {st st' : AgentState W}

/-- Events that run no tool. -/
def Quiet : Event → Prop
  | .executed .. => False
  | _ => True

theorem Quiet.of_talk (e : Event) (h : Talk e) : Quiet e := by
  cases e with
  | executed tc tool auto cause => cases h
  | _ => exact True.intro

theorem Quiet.of_calm (h : Calm st st') : Log.Grows Quiet st.trace.log st'.trace.log := by
  refine h.log.mono ?_
  intro e hb
  cases e with
  | executed tc tool auto cause => cases hb
  | _ => exact True.intro

theorem raiseApproval_quiet (user : String) (tid : Uuid) (pending : PendingApproval) (st : AgentState W) :
    Log.Grows Quiet st.trace.log (raiseApproval user tid pending st).2.trace.log :=
  Log.Grows.snoc (e := .raised pending) True.intro st.trace.log

/-- The loop and the end of its turn. -/
theorem finish_ran (user : String) (tid : Uuid) (context : List ChatMessage)
    (hend : Calm (runLoop env user tid context st).2 st'
      ∨ ∃ pending, (runLoop env user tid context st).1 = .ok (.needApproval pending)
          ∧ st' = (raiseApproval user tid pending (runLoop env user tid context st).2).2) :
    Ran env Quiet (turnClearances env user tid context st) st.trace.log st'.trace.log := by
  have hloop := (@runLoop_ran W env user tid context st).mono Quiet.of_talk
  rcases hend with hcalm | ⟨pending, _, rfl⟩
  · exact hloop.before (Quiet.of_calm hcalm)
  · exact hloop.before (raiseApproval_quiet user tid pending _)

theorem replayDeferred_ran (user : String) (tid : Uuid) (deferred : List ToolCall) (context : List ChatMessage)
    (st : AgentState W) : Ran env Quiet (replayClearances env user tid deferred context st) st.trace.log
      (replayDeferred env user tid deferred context st).2.trace.log := by
  have hpost : Ran env Quiet (deferredClearances env user deferred st) st.trace.log
      (deferredPostflight env user tid st deferred context).state.trace.log :=
    ((@deferred_ran W env user deferred st).mono Quiet.of_talk).before
      (Quiet.of_calm (replayDeferred_cases env user tid st deferred context).1)
  have heq : replayDeferred env user tid deferred context st
      = afterDeferred env user tid deferred
          (deferredPreflight env (st.autoApproved user) st.trace.world 0 deferred).2
          (deferredPostflight env user tid st deferred context) := rfl
  rw [heq]
  unfold afterDeferred replayClearances
  cases (deferredPostflight env user tid st deferred context).deferredAuth with
  | some instructions => exact hpost.trans (Ran.of_grows (Log.Grows.refl _ _))
  | none =>
    cases (deferredPreflight env (st.autoApproved user) st.trace.world 0 deferred).2 with
    | some waiting => exact hpost.trans (Ran.of_grows (raiseApproval_quiet user tid _ _))
    | none => exact hpost.trans (finish_ran user tid _ (finishApproval_cases env user tid _ _))

/-- **Resuming a request** runs its call, under its approval, and what the replay clears. -/
theorem resumeApproved_ran {P : Event → Prop} (user : String) (tid : Uuid) (pending : PendingApproval) (always : Bool)
    (st : AgentState W) (hquiet : ∀ e, Quiet e → P e)
    (happroved : ∀ tool auto, P (.executed pending.call tool auto (.approved pending.requestId))) :
    Ran env P (resumeClearances env user tid pending always st) st.trace.log
      (resumeApproved env user tid pending always st).2.trace.log := by
  have hgrant := (Quiet.of_calm (grantApproval_calm user tid st pending always)).mono hquiet
  have hrun : Log.Grows P (grantApproval user tid pending always st).trace.log
      (executeApproved env user tid pending (grantApproval user tid pending always st)).2.trace.log := by
    refine ⟨_, executeChatTool_log env _ (.approved pending.requestId) pending.call _, ?_⟩
    intro e he
    unfold runEvent at he
    split at he
    · obtain ⟨tool, _, rfl⟩ := Option.map_eq_some_iff.mp (Option.mem_toList.mp he)
      exact happroved tool _
    · cases he
  unfold resumeClearances resumeApproved
  rcases hex : executeApproved env user tid pending (grantApproval user tid pending always st) with ⟨result, st₂⟩
  rw [hex] at hrun
  dsimp only
  cases checkAuthRequired env pending.toolName result with
  | some auth =>
    exact Ran.of_grows ((hgrant.trans hrun).trans
      ((Quiet.of_calm (handleAuthIntercept_calm env tid user st₂ _ _)).mono hquiet))
  | none => exact Ran.between (hgrant.trans hrun) ((replayDeferred_ran user tid _ _ st₂).mono hquiet)

/-- The event, if it runs a call that needs approval, runs the request that stood on the awaiting thread when
    the approving message arrived. -/
def Authorized (env : Env W) (st : AgentState W) (i : Incoming) : Event → Prop
  | .executed tc tool auto cause =>
    needsApproval tool tc auto = true →
      ∃ thread pending always,
        st.thread i.msg.userId (locateThread env i.msg i.now st).1 = some thread
          ∧ thread.state = .awaitingApproval ∧ thread.pendingApproval = some pending
          ∧ (SubmissionParser.parse env.decodeExecApproval i.msg.content).Approves pending.requestId always
          ∧ pending.toolName = tc.name ∧ pending.parameters = tc.arguments
          ∧ cause = .approved pending.requestId
  | _ => True

theorem Authorized.of_quiet (st : AgentState W) (i : Incoming) (e : Event) (h : Quiet e) : Authorized env st i e := by
  cases e with
  | executed tc tool auto cause => cases h
  | _ => exact True.intro

/-- A passing call needs no approval of its tool. -/
theorem needsApproval_of_passes {w : W} {tc : ToolCall} {auto : List String} {tool : Tool}
    (h : Passes env w tc auto) (htool : env.tool w tc.name = some tool) : needsApproval tool tc auto = false := by
  unfold Passes at h
  rw [htool, Option.filter_eq_none_iff] at h
  exact Bool.eq_false_iff.mpr (h tool rfl)

/-- A run of a clearance is authorized exactly if the clearance is steady. -/
theorem Clearance.steady_iff {c : Clearance W} (hcause : c.cause = .batch ∨ c.cause = .deferred)
    (hchecked : Passes env c.checked c.call c.auto) (st : AgentState W) (i : Incoming) :
    c.Steady env ↔ ∀ e, c.event env = some e → Authorized env st i e := by
  unfold Clearance.Steady Clearance.event runEvent
  constructor
  · intro hsteady e he
    split at he
    · rename_i hvalid
      obtain ⟨tool, htool, rfl⟩ := Option.map_eq_some_iff.mp he
      intro hneeds
      rw [needsApproval_of_passes (hsteady hvalid hchecked) htool] at hneeds
      cases hneeds
    · cases he
  · intro hauthorized hvalid _
    unfold Passes
    rw [Option.filter_eq_none_iff]
    intro tool htool hneeds
    rw [if_pos hvalid, htool] at hauthorized
    obtain ⟨_, _, _, _, _, _, _, _, _, happroved⟩ := hauthorized _ rfl hneeds
    rcases hcause with hcause | hcause
    · rw [hcause] at happroved
      cases happroved
    · rw [hcause] at happroved
      cases happroved

/-- Where all else is authorized, a piece of the log is exactly if its clearances are steady. -/
theorem Ran.authorized_iff {cs : List (Clearance W)} {l l' : List Event} {i : Incoming}
    (h : Ran env (Authorized env st i) cs l l') (hauto : env.autoApproveTools = false) :
    (∀ c ∈ cs, c.Steady env) ↔ Log.Grows (Authorized env st i) l l' := by
  obtain ⟨ev, heq, hev, hall⟩ := h.log
  constructor
  · intro hsteady
    refine ⟨ev, heq, ?_⟩
    intro e he
    rcases hev e he with hauthorized | ⟨c, hc, hce⟩
    · exact hauthorized
    · exact (Clearance.steady_iff (h.cause c hc) (h.checked hauto c hc) st i).mp (hsteady c hc) e hce
  · rintro ⟨ev', heq', hauthorized⟩ c hc
    obtain rfl : ev = ev' := List.append_cancel_left (heq.symm.trans heq')
    exact (Clearance.steady_iff (h.cause c hc) (h.checked hauto c hc) st i).mpr
      fun e hce => hauthorized e (hall c hc e hce)

/-- **One message runs only what it may**, exactly if its step is steady. -/
theorem handleMessage_authorized_iff (cmds : CommandEnv W) (hauto : env.autoApproveTools = false)
    (st : AgentState W) (i : Incoming) : SteadyStep env st i ↔
      Log.Grows (Authorized env st i) st.trace.log (handleMessage env cmds i.msg i.now st).2.trace.log := by
  have heffect := handleMessage_effect env cmds i.msg i.now st
  have hcalm : ∀ {st₁ st₂ : AgentState W}, Calm st₁ st₂ →
      Log.Grows (Authorized env st i) st₁.trace.log st₂.trace.log :=
    fun h => (Quiet.of_calm h).mono (Authorized.of_quiet st i)
  unfold SteadyStep
  refine Ran.authorized_iff ?_ hauto
  generalize (handleMessage env cmds i.msg i.now st).2 = st' at heffect ⊢
  generalize messageWork env i.msg i.now st = work at heffect ⊢
  cases heffect with
  | calm h => exact Ran.of_grows (hcalm h)
  | turn context st₁ h hplain hr =>
    rw [hr]
    exact Ran.between (hcalm h)
      ((finish_ran _ _ context (finishTurn_cases env _ _ _ _)).mono (Authorized.of_quiet st i))
  | resumed thread pending always st₁ hthread hstate hpending happroves h htaken hr =>
    rw [inboundHook_of_approves env i.msg st happroves] at hthread hr ⊢
    rw [hr]
    refine Ran.between (hcalm h) (resumeApproved_ran _ _ pending always st₁ (Authorized.of_quiet st i) ?_)
    exact fun _ _ _ => ⟨thread, pending, always, hthread, hstate, hpending, happroves, rfl, rfl, rfl⟩

end Messages

/-! ## Each request at most once -/

section Once

variable {env : Env W} {st st' : AgentState W} {X : Multiset Uuid}

/-- The identifier of a request that is raised. -/
def raisedId : Event → Multiset Uuid
  | .raised pending => {pending.requestId}
  | _ => 0

/-- The identifier of the request whose call runs. -/
def approvedId : Event → Multiset Uuid
  | .executed _ _ _ (.approved requestId) => {requestId}
  | _ => 0

/-- The stored requests have not run yet and, besides, `X` may run. -/
def Unspent (X : Multiset Uuid) (st : AgentState W) : Prop :=
  Held raisedId approvedId (fun p => {p.requestId}) X st

theorem benign_no_ids (e : Event) (h : Benign e) : approvedId e = 0 ∧ raisedId e = 0 := by
  cases e with
  | llm messages => exact ⟨rfl, rfl⟩
  | asked user content => exact ⟨rfl, rfl⟩
  | answered user content => exact ⟨rfl, rfl⟩
  | hooked original sensitive result => cases h
  | executed call tool auto cause => cases h
  | raised pending => cases h

theorem toolEvent_no_ids (e : Event) (h : ToolEvent e) : approvedId e = 0 ∧ raisedId e = 0 := by
  cases e with
  | llm messages => exact ⟨rfl, rfl⟩
  | hooked original sensitive result => exact ⟨rfl, rfl⟩
  | executed call tool auto cause =>
    rcases h with rfl | rfl
    · exact ⟨rfl, rfl⟩
    · exact ⟨rfl, rfl⟩
  | asked user content => cases h
  | answered user content => cases h
  | raised pending => cases h

theorem Unspent.calm (h : Unspent X st) (hc : Calm st st') : Unspent X st' :=
  Held.calm h hc benign_no_ids

theorem Unspent.raise (h : Unspent 0 st) (user : String) (tid : Uuid) (pending : PendingApproval) :
    Unspent 0 (raiseApproval user tid pending st).2 := by
  unfold Unspent at h ⊢
  rw [← add_zero (0 : Multiset Uuid)] at h
  exact Held.raise h rfl (by rw [zero_add]; rfl)

theorem Unspent.finish (h : Unspent 0 st) (user : String) (tid : Uuid) (context : List ChatMessage)
    (hend : Calm (runLoop env user tid context st).2 st'
      ∨ ∃ pending, (runLoop env user tid context st).1 = .ok (.needApproval pending)
          ∧ st' = (raiseApproval user tid pending (runLoop env user tid context st).2).2) : Unspent 0 st' := by
  have hloop : Unspent 0 (runLoop env user tid context st).2 := by
    unfold Unspent Held
    rw [runLoop_openApprovals]
    exact Log.Funded.grows h (runLoop_ran user tid context st).grows toolEvent_no_ids
  rcases hend with hcalm | ⟨pending, _, rfl⟩
  · exact hloop.calm hcalm
  · exact hloop.raise user tid pending

theorem Unspent.replay (h : Unspent 0 st) (user : String) (tid : Uuid) (deferred : List ToolCall)
    (context : List ChatMessage) : Unspent 0 (replayDeferred env user tid deferred context st).2 := by
  obtain ⟨hcalm, hcases⟩ := replayDeferred_cases env user tid st deferred context
  have hrun : Unspent 0 { st with trace := deferredTrace env user st deferred } :=
    Log.Funded.grows h (deferred_ran user deferred st).grows toolEvent_no_ids
  have hpost := hrun.calm hcalm
  rcases hcases with heq | ⟨idx, tc, tool, _, heq⟩ | ⟨_, heq⟩
  · rw [heq]
    exact hpost
  · rw [heq]
    exact (hpost.calm (Calm.draw env _)).raise user tid _
  · rw [heq]
    exact hpost.finish user tid _ (finishApproval_cases env user tid _ _)

/-- **One message** runs the call of a request only after taking the request. -/
theorem handleMessage_unspent (cmds : CommandEnv W) (i : Incoming) (h : Unspent 0 st) :
    Unspent 0 (handleMessage env cmds i.msg i.now st).2 := by
  have heffect := handleMessage_effect env cmds i.msg i.now st
  generalize (handleMessage env cmds i.msg i.now st).2 = st' at heffect ⊢
  generalize messageWork env i.msg i.now st = work at heffect
  cases heffect with
  | calm hcalm => exact h.calm hcalm
  | turn context st₁ hcalm hplain hr =>
    rw [hr]
    exact (h.calm hcalm).finish _ _ context (finishTurn_cases env _ _ _ _)
  | resumed thread pending always st₁ hthread hstate hpending happroves hcalm htaken hr =>
    rw [hr]
    have hpend : st.pendingAt i.msg.userId _ = some pending :=
      Option.bind_eq_some_iff.mpr ⟨thread, hthread, hpending⟩
    have htake : Unspent {pending.requestId} st₁ := by
      have := Held.taken h hcalm benign_no_ids hpend htaken
      rw [zero_add] at this
      exact this
    obtain ⟨st₂, hgrant, st₃, hrecord, hcases⟩ := resumeApproved_cases env i.msg.userId _ st₁ pending always
    have hgranted : Unspent {pending.requestId} st₂ := htake.calm hgrant
    have hrun : Unspent 0 { st₂ with trace := (approvedRun env i.msg.userId st₂ pending).2 } := by
      refine Held.trace ?_
      rw [add_zero]
      unfold approvedRun
      rcases executeChatTool_cases env (st₂.autoApproved i.msg.userId) (.approved pending.requestId)
          pending.call st₂.trace with hsame | ⟨tool, _, _, hran⟩
      · rw [hsame]
        exact Log.Funded.mono hgranted (Multiset.le_add_right _ _)
      · rw [hran]
        exact Log.Funded.pay (e := Event.executed pending.call tool (st₂.autoApproved i.msg.userId)
          (.approved pending.requestId)) hgranted rfl
    have hrecorded := hrun.calm hrecord
    rcases hcases with heq | ⟨content, heq⟩
    · rw [heq]
      exact hrecorded
    · rw [heq]
      exact hrecorded.replay _ _ _ _

end Once

/-- **Approval safety.** With `auto_approve_tools` off, in every state a run of messages reaches, whatever
    message comes next: it runs the calls that need approval only as the request that stands on the awaiting
    thread the approving message is located on, if and only if its step is steady; and at every moment up to
    there, the requests whose calls ran are, one by one, among those that had been raised. -/
theorem approval_safety (env : Env W) (cmds : CommandEnv W) (hauto : env.autoApproveTools = false)
    (store : ConversationStore) (w : W) (ls : List Incoming) (st : AgentState W)
    (hrun : Runs (messageStep env cmds) (fun _ _ => True) (AgentState.start store w) ls st) :
    (∀ i, SteadyStep env st i ↔
        Log.Grows (Authorized env st i) st.trace.log (handleMessage env cmds i.msg i.now st).2.trace.log)
      ∧ ∀ past, past <+: st.trace.log → Log.total approvedId past ≤ Log.total raisedId past := by
  refine ⟨fun i => handleMessage_authorized_iff cmds hauto st i, ?_⟩
  have hunspent : Unspent 0 st := hrun.invariant (P := fun _ st => Unspent 0 st) (Held.start store w) ?_
  · exact hunspent.always
  · intro ls a b i h _ hstep
    rw [messageStep_eq hstep]
    exact handleMessage_unspent cmds i h

/-! ## A tool that comes with its own batch -/

/-- The world: calls to the provider so far, and whether the extension with the `deploy` tool is active. -/
abbrev DeployWorld := Nat × Bool

/-- One answer of the model activates an extension and calls the tool it brings. -/
def deployEnv : Env DeployWorld :=
  { Env.idle DeployWorld with
    complete := fun _ w =>
      (.ok (if w.1 = 0 then ⟨none, [⟨"a", "tool_activate", .null⟩, ⟨"b", "deploy", .null⟩]⟩
        else ⟨some "done", []⟩), (w.1 + 1, w.2))
    tool := fun w name =>
      if name = "tool_activate" then some ⟨"activate an extension", [], fun _ => .never, none⟩
      else if name = "deploy" ∧ w.2 = true then some ⟨"deploy", [], fun _ => .always, none⟩
      else none
    toolDefinitions := fun _ => [⟨"tool_activate", "activate an extension", .null⟩]
    execute := fun name _ w => (.done .null, if name = "tool_activate" then (w.1, true) else w) }

/-- The first message an agent gets. -/
def deployMessage : Incoming := ⟨{ channel := "cli", userId := "ann", content := "ship it" }, 0⟩

/-- Does the event run `deploy` although that needs approval? -/
def runsDeploy : Event → Bool
  | .executed tc tool auto _ => tc.name == "deploy" && needsApproval tool tc auto
  | _ => false

/-- **The tool runs unapproved.** Nothing was ever pending, and the first message runs a call that always
    needs approval. -/
theorem activated_tool_runs_unapproved :
    deployEnv.autoApproveTools = false
      ∧ ¬ Log.Grows (Authorized deployEnv (AgentState.start {} (0, false)) deployMessage) []
          (handleMessage deployEnv (CommandEnv.idle DeployWorld) deployMessage.msg deployMessage.now
            (AgentState.start {} (0, false))).2.trace.log := by
  refine ⟨rfl, ?_⟩
  intro h
  have hany : ((handleMessage deployEnv (CommandEnv.idle DeployWorld) deployMessage.msg deployMessage.now
      (AgentState.start {} (0, false))).2.trace.log.any runsDeploy) = true := by decide
  obtain ⟨e, hmem, hruns⟩ := List.any_eq_true.mp hany
  cases e with
  | executed tc tool auto cause =>
    have hneeds : needsApproval tool tc auto = true := (Bool.and_eq_true_iff.mp hruns).2
    rcases h.mem hmem with hnil | hauthorized
    · exact absurd hnil List.not_mem_nil
    · obtain ⟨thread, _, _, hthread, _⟩ := hauthorized hneeds
      -- A fresh agent has no threads.
      cases hthread
  | llm messages => cases hruns
  | hooked original sensitive result => cases hruns
  | raised pending => cases hruns
  | asked user content => cases hruns
  | answered user content => cases hruns

/-- The same tools with a model that activates the extension first and calls `deploy` when it is there. -/
def stepwiseEnv : Env DeployWorld :=
  { deployEnv with
    complete := fun _ w =>
      (.ok (if w.1 = 0 then ⟨none, [⟨"a", "tool_activate", .null⟩]⟩
        else if w.1 = 1 then ⟨none, [⟨"b", "deploy", .null⟩]⟩ else ⟨some "done", []⟩), (w.1 + 1, w.2)) }

/-- The state after a message to an agent that starts in it. -/
def afterMessage (i : Incoming) (st : AgentState DeployWorld) : AgentState DeployWorld :=
  (handleMessage stepwiseEnv (CommandEnv.idle DeployWorld) i.msg i.now st).2

/-- The user's approval of what waits. -/
def yesMessage : Incoming := ⟨{ channel := "cli", userId := "ann", content := "yes" }, 1⟩

/-- The activated tool waits for its approval and runs with it: both steps are steady, so both are authorized. -/
theorem activation_then_approval :
    ((afterMessage yesMessage (afterMessage deployMessage (AgentState.start {} (0, false)))).trace.log.any runsDeploy)
        = true
      ∧ Log.Grows (Authorized stepwiseEnv (AgentState.start {} (0, false)) deployMessage) []
          (afterMessage deployMessage (AgentState.start {} (0, false))).trace.log
      ∧ Log.Grows (Authorized stepwiseEnv (afterMessage deployMessage (AgentState.start {} (0, false))) yesMessage)
          (afterMessage deployMessage (AgentState.start {} (0, false))).trace.log
          (afterMessage yesMessage (afterMessage deployMessage (AgentState.start {} (0, false)))).trace.log
      ∧ ∀ past, past <+: (afterMessage yesMessage
            (afterMessage deployMessage (AgentState.start {} (0, false)))).trace.log →
          Log.total approvedId past ≤ Log.total raisedId past := by
  have hsafe := fun ls st => approval_safety stepwiseEnv (CommandEnv.idle DeployWorld) rfl {} (0, false) ls st
  refine ⟨by decide, ?_, ?_, ?_⟩
  · refine ((hsafe [] _ (.refl _)).1 deployMessage).mp ?_
    -- The one cleared call activates the extension; it is checked in the world it runs in.
    have hone : workClearances stepwiseEnv "ann" (messageWork stepwiseEnv deployMessage.msg deployMessage.now
        (AgentState.start {} (0, false)))
        = [⟨⟨"a", "tool_activate", .null⟩, [], .batch, (1, false), (1, false)⟩] := rfl
    intro c hc
    obtain rfl := List.mem_singleton.mp (hone ▸ hc)
    exact fun _ h => h
  · refine ((hsafe [deployMessage] _ (.snoc (.refl _) _ True.intro rfl)).1 yesMessage).mp ?_
    have hnone : workClearances stepwiseEnv "ann" (messageWork stepwiseEnv yesMessage.msg yesMessage.now
        (afterMessage deployMessage (AgentState.start {} (0, false)))) = [] := rfl
    intro c hc
    exact absurd (hnone ▸ hc) List.not_mem_nil
  · exact (hsafe [deployMessage, yesMessage] _
      (.snoc (.snoc (.refl _) _ True.intro rfl) _ True.intro rfl)).2

end Freeclawdia.ApprovalSafety
