import Freeclawdia.Correctness.Loop
import Freeclawdia.Safety.Validator

/-!
# `Correctness.Secrecy` — what a batch can tell of sensitive values

Two parameter objects are **alike** when they look the same redacted: they differ in values of sensitive keys only
(`alike_insertField`). Putting the original values back into a hook's answer respects this (`Alike.restore`): the
answer is the same for both, and so are the keys that get a value.
-/

namespace Freeclawdia
namespace Redaction

open Rust

/-! ## Redacting fields -/

/-- What is shown for a sensitive value. -/
def redacted : Json := .string "[REDACTED]"

/-- Redact one key. -/
def redactKey (key : String) (fields : List (String × Json)) : List (String × Json) :=
  if Json.hasKey key fields then Json.insertField key redacted fields else fields

/-- Redact the keys of a list. -/
def redactFields (sensitive : List String) (fields : List (String × Json)) : List (String × Json) :=
  sensitive.foldl (fun fs key => redactKey key fs) fields

theorem redactParams_object (fields : List (String × Json)) (sensitive : List String) :
    redactParams (.object fields) sensitive = .object (redactFields sensitive fields) := rfl

section Fields

variable {key other : String} {fields : List (String × Json)}

theorem hasKey_insertField_self (value : Json) : Json.hasKey key (Json.insertField key value fields) = true := by
  induction fields with
  | nil => simp [Json.insertField, Json.hasKey]
  | cons f fs ih =>
    unfold Json.insertField
    split
    · simp [Json.hasKey]
    · unfold Json.hasKey at ih ⊢
      rw [List.any_cons, ih, Bool.or_true]

theorem insertField_insertField_self (value value' : Json) :
    Json.insertField key value (Json.insertField key value' fields) = Json.insertField key value fields := by
  induction fields with
  | nil => simp [Json.insertField]
  | cons f fs ih =>
    by_cases hf : f.1 = key
    · simp [Json.insertField, hf]
    · simp [Json.insertField, hf, ih]

theorem redactKey_insertField_self (value : Json) :
    redactKey key (Json.insertField key value fields) = Json.insertField key redacted fields := by
  unfold redactKey
  rw [if_pos (hasKey_insertField_self value)]
  exact insertField_insertField_self redacted value

end Fields

/-! ## Alike parameters -/

/-- The parameters look the same redacted. -/
def Alike (sensitive : List String) (p q : Json) : Prop := redactParams p sensitive = redactParams q sensitive

variable {p q : Json} {sensitive : List String}

/-- One key of `restoreSensitive`. -/
def restoreKey (p : Json) (fs : List (String × Json)) (key : String) : List (String × Json) :=
  match p.get key with
  | some value => Json.insertField key value fs
  | none => fs

end Redaction

/-! ## A batch does not tell two secrets apart

Two runs of a batch in which the model asks for the same calls, up to what the surroundings cannot tell. `mask` says
what they can tell of a call's parameters, and `R` relates worlds that they cannot tell apart. `Blind` is the
unwinding condition: on related worlds and parameters of one mask, the tools, the validator, the hooks and the
provider answer alike and leave related worlds. A tool may well store the secret; it may not answer by it.

What the two runs show is then the same: the hooks are given the same events, the turn gets the same records and a
request for approval displays the same. What differs is what a pending request carries for the execution, the context
for the model and what the tools are given. -/

namespace Secrecy

open Rust Redaction

variable {W : Type}

/-! ## What is shown -/

section Shown

variable (mask : String → Json → Json)

/-- A call with its parameters masked. -/
def showCall (tc : ToolCall) : ToolCall := { tc with arguments := mask tc.name tc.arguments }

def showMessage (m : ChatMessage) : ChatMessage := { m with toolCalls := m.toolCalls.map (List.map (showCall mask)) }

def showContext (context : List ChatMessage) : List ChatMessage := context.map (showMessage mask)

def showPending (p : PendingApproval) : PendingApproval :=
  { p with
    parameters := mask p.toolName p.parameters
    contextMessages := showContext mask p.contextMessages
    deferredToolCalls := p.deferredToolCalls.map (showCall mask) }

/-- A thread as the user sees it: a request that waits is masked. -/
def showThread (t : Thread) : Thread := { t with pendingApproval := t.pendingApproval.map (showPending mask) }

def showPreflight (p : Preflight) : Preflight :=
  ⟨p.entries.map fun e => (showCall mask e.1, e.2), p.approval.map fun a => (a.1, showCall mask a.2.1, a.2.2)⟩

def showResult : AgenticLoopResult → AgenticLoopResult
  | .response text => .response text
  | .needApproval pending => .needApproval (showPending mask pending)

def showBatch : BatchResult → BatchResult
  | .continues context => .continues (showContext mask context)
  | .finished result => .finished (showResult mask result)

def showResponse (r : LlmResponse) : LlmResponse := { r with toolCalls := r.toolCalls.map (showCall mask) }

def showRespond : RespondResult → RespondResult
  | .text text => .text text
  | .toolCalls calls content => .toolCalls (calls.map (showCall mask)) content

end Shown

/-- What the hooks were given and answered. -/
def hookView : Event → Option (String × Json × Except HookError HookOutcome)
  | .hooked original sensitive result => some (original.name, redactParams original.arguments sensitive, result)
  | _ => none

/-- Traces that show the same: related worlds, as many identifiers drawn, the same hook runs. -/
structure SameTrace (R : W → W → Prop) (tr tr' : Trace W) : Prop where
  world : R tr.world tr'.world
  drawn : tr.drawn = tr'.drawn
  hooks : tr.log.filterMap hookView = tr'.log.filterMap hookView

section Traces

variable {R : W → W → Prop} {tr tr' : Trace W}

theorem SameTrace.emit (h : SameTrace R tr tr') {e e' : Event} (he : hookView e = hookView e') :
    SameTrace R (tr.emit e) (tr'.emit e') := by
  refine ⟨h.world, h.drawn, ?_⟩
  show (tr.log ++ [e]).filterMap hookView = (tr'.log ++ [e']).filterMap hookView
  rw [List.filterMap_append, List.filterMap_append, h.hooks]
  simp only [List.filterMap_cons, List.filterMap_nil, he]

theorem SameTrace.withWorld (h : SameTrace R tr tr') {w w' : W} (hw : R w w') :
    SameTrace R { tr with world := w } { tr' with world := w' } := ⟨hw, h.drawn, h.hooks⟩

end Traces

/-- Two calls with the same answer and related states. -/
theorem pair_cases {α σ : Type*} {Q : σ → σ → Prop} {x x' : α × σ} (h : x.1 = x'.1 ∧ Q x.2 x'.2) :
    ∃ a s s', x = (a, s) ∧ x' = (a, s') ∧ Q s s' :=
  ⟨x.1, x.2, x'.2, rfl, Prod.ext h.1.symm rfl, h.2⟩

/-- Results that show the same, with traces that do. -/
def ShowRun {α β : Type*} (f : α → β) (R : W → W → Prop) (r r' : α × Trace W) : Prop :=
  f r.1 = f r'.1 ∧ SameTrace R r.2 r'.2

/-- Results that are the same, with states that show the same. -/
def SameRun {α σ : Type*} (Q : σ → σ → Prop) (r r' : α × σ) : Prop := r.1 = r'.1 ∧ Q r.2 r'.2

/-- Fallible results that show the same: the same error, or values that show the same. -/
theorem map_eq_map {ε α β : Type*} {f : α → β} {a a' : Except ε α} (h : a.map f = a'.map f) :
    (∃ e, a = .error e ∧ a' = .error e) ∨ ∃ x x', a = .ok x ∧ a' = .ok x' ∧ f x = f x' := by
  cases a with
  | error e =>
    cases a' with
    | error e' =>
      obtain rfl : e = e' := Except.error.inj h
      exact Or.inl ⟨e, rfl, rfl⟩
    | ok x' => cases h
  | ok x =>
    cases a' with
    | error e' => cases h
    | ok x' => exact Or.inr ⟨x, x', rfl, rfl, Except.ok.inj h⟩

/-- Two options that show the same: nothing, or values that show the same. -/
theorem option_map_cases {α β : Type*} {f : α → β} {o o' : Option α} (h : o.map f = o'.map f) :
    (o = none ∧ o' = none) ∨ ∃ a a', o = some a ∧ o' = some a' ∧ f a = f a' := by
  cases o with
  | none => exact Or.inl ⟨rfl, Option.map_eq_none_iff.mp h.symm⟩
  | some a =>
    obtain ⟨a', ha', hshown⟩ := Option.map_eq_some_iff.mp h.symm
    exact Or.inr ⟨a, a', rfl, ha', hshown.symm⟩

theorem ShowRun.cases {ε α β : Type*} {f : α → β} {R : W → W → Prop} {r r' : Except ε α × Trace W}
    (h : ShowRun (Except.map f) R r r') :
    (∃ e tr tr', r = (.error e, tr) ∧ r' = (.error e, tr') ∧ SameTrace R tr tr')
      ∨ ∃ x x' tr tr', r = (.ok x, tr) ∧ r' = (.ok x', tr') ∧ f x = f x' ∧ SameTrace R tr tr' := by
  obtain ⟨a, tr⟩ := r
  obtain ⟨a', tr'⟩ := r'
  obtain ⟨hshown, hsame⟩ := h
  rcases map_eq_map hshown with ⟨e, rfl, rfl⟩ | ⟨x, x', rfl, rfl, hx⟩
  · exact Or.inl ⟨e, tr, tr', rfl, rfl, hsame⟩
  · exact Or.inr ⟨x, x', tr, tr', rfl, rfl, hx, hsame⟩

/-! ## Surroundings that do not tell -/

/-- **The unwinding condition.** The tools with sensitive keys stay registered with them, and on related worlds the
    surroundings answer by what the mask leaves of the parameters. -/
structure Blind (env : Env W) (sens : String → List String) (mask : String → Json → Json) (R : W → W → Prop) :
    Prop where
  /-- A mask tells at least what redaction leaves, and it is kept when sensitive values are put back. -/
  redact : ∀ {name p q}, mask name p = mask name q → Alike (sens name) p q
  restore : ∀ {name p q} parsed, mask name p = mask name q →
    mask name (restoreSensitive p parsed (sens name)) = mask name (restoreSensitive q parsed (sens name))
  tool : ∀ {w w'}, R w w' → env.tool w = env.tool w'
  registered : ∀ {w w'}, R w w' → ∀ name, sensitiveOf (env.tool w name) = sens name
  approval : ∀ {w w'}, R w w' → ∀ {name tool p q}, env.tool w name = some tool → mask name p = mask name q →
    tool.requiresApproval p = tool.requiresApproval q
  /-- The safety layer's validator judges parameters, and a mask tells what it says of them. -/
  validator : env.validateToolParams = Validator.details
  verdict : ∀ {name p q}, mask name p = mask name q → Validator.details p = Validator.details q
  execute : ∀ {w w'}, R w w' → ∀ {name p q}, mask name p = mask name q →
    (env.execute name p w).1 = (env.execute name q w').1 ∧ R (env.execute name p w).2 (env.execute name q w').2
  nextTask : ∀ {w w'}, R w w' → env.nextTask w = env.nextTask w'
  panics : ∀ {w w'}, R w w' → ∀ {tc tc' : ToolCall}, showCall mask tc = showCall mask tc' →
    env.taskPanics tc w = env.taskPanics tc' w'
  hooks : ∀ {w w'}, R w w' → ∀ event,
    (HookRegistry.run env.fromStr env.toText (env.hooks event.hookPoint w) event w).1
        = (HookRegistry.run env.fromStr env.toText (env.hooks event.hookPoint w') event w').1
      ∧ R (HookRegistry.run env.fromStr env.toText (env.hooks event.hookPoint w) event w).2
        (HookRegistry.run env.fromStr env.toText (env.hooks event.hookPoint w') event w').2
  toolDefinitions : ∀ {w w'}, R w w' → env.toolDefinitions w = env.toolDefinitions w'
  costLimit : ∀ {w w'}, R w w' → env.costLimit w = env.costLimit w'
  complete : ∀ {w w'}, R w w' → ∀ tools {messages messages'}, showContext mask messages = showContext mask messages' →
    (env.complete ⟨messages, tools⟩ w).1.map (showResponse mask)
        = (env.complete ⟨messages', tools⟩ w').1.map (showResponse mask)
      ∧ R (env.complete ⟨messages, tools⟩ w).2 (env.complete ⟨messages', tools⟩ w').2
  workspaceAppend : ∀ {w w'}, R w w' → ∀ content, (env.workspaceAppend content w).1 = (env.workspaceAppend content w').1
    ∧ R (env.workspaceAppend content w).2 (env.workspaceAppend content w').2
  storeCall : ∀ {w w'}, R w w' → (env.storeCall w).1 = (env.storeCall w').1
    ∧ R (env.storeCall w).2 (env.storeCall w').2

theorem Blind.validate {env : Env W} {sens : String → List String} {mask : String → Json → Json} {R : W → W → Prop}
    (hb : Blind env sens mask R) {name : String} {p q : Json} (h : mask name p = mask name q) :
    env.validateToolParams p = env.validateToolParams q := by
  rw [hb.validator]
  exact hb.verdict h

section Calls

variable {sens : String → List String} {mask : String → Json → Json} {R : W → W → Prop} {tc tc' : ToolCall}

theorem call_id (h : showCall mask tc = showCall mask tc') : tc.id = tc'.id := by
  have hid : (showCall mask tc).id = (showCall mask tc').id := by rw [h]
  exact hid

theorem call_name (h : showCall mask tc = showCall mask tc') : tc.name = tc'.name := by
  have hname : (showCall mask tc).name = (showCall mask tc').name := by rw [h]
  exact hname

theorem call_mask (h : showCall mask tc = showCall mask tc') :
    mask tc.name tc.arguments = mask tc.name tc'.arguments := by
  have hargs : mask tc.name tc.arguments = mask tc'.name tc'.arguments := congrArg ToolCall.arguments h
  rw [← call_name h] at hargs
  exact hargs

variable {env : Env W} (hb : Blind env sens mask R) {tr tr' : Trace W}

/-! ## One call -/

include hb in
theorem runHooks_same (event : HookEvent) (htr : SameTrace R tr tr') :
    SameRun (SameTrace R) (tr.runHooks env event) (tr'.runHooks env event) := by
  obtain ⟨hresult, hworld⟩ := hb.hooks htr.world event
  exact ⟨hresult, hworld, htr.drawn, htr.hooks⟩

include hb in
/-- **The hooks see the same event and leave the same to be seen.** -/
theorem hookToolCall_same (user : String) (h : showCall mask tc = showCall mask tc') (htr : SameTrace R tr tr') :
    ShowRun (Except.map (showCall mask)) R (hookToolCall env user tc (sens tc.name) tr)
      (hookToolCall env user tc' (sens tc'.name) tr') := by
  have halike : redactParams tc.arguments (sens tc.name) = redactParams tc'.arguments (sens tc.name) :=
    hb.redact (call_mask h)
  have hevent : toolCallEvent user tc (sens tc.name) = toolCallEvent user tc' (sens tc'.name) := by
    unfold toolCallEvent
    rw [← call_name h, halike]
  have hrun := runHooks_same hb (toolCallEvent user tc (sens tc.name)) htr
  unfold hookToolCall
  rw [← hevent]
  revert hrun
  rcases tr.runHooks env (toolCallEvent user tc (sens tc.name)) with ⟨result, tr₁⟩
  rcases tr'.runHooks env (toolCallEvent user tc (sens tc.name)) with ⟨result', tr₁'⟩
  rintro ⟨hresult, hsame⟩
  obtain rfl : result = result' := hresult
  refine ⟨?_, hsame.emit ?_⟩
  · -- the same answer, put over parameters of one mask
    rcases result with e | modified | reason
    · cases e with
      | rejected reason => rfl
      | executionFailed reason => rfl
      | timeout t => rfl
    · have hargs : mask tc.name (hookedArguments env tc.arguments (sens tc.name) modified)
          = mask tc.name (hookedArguments env tc'.arguments (sens tc'.name) modified) := by
        rw [← call_name h]
        unfold hookedArguments
        cases modified with
        | none => exact call_mask h
        | some text =>
          dsimp only
          cases env.fromStr text with
          | none => exact call_mask h
          | some parsed => exact hb.restore parsed (call_mask h)
      show Except.ok (showCall mask { tc with arguments := _ }) = Except.ok (showCall mask { tc' with arguments := _ })
      unfold showCall
      dsimp only
      rw [hargs, call_id h, call_name h]
    · exact congrArg Except.ok h
  · show some (tc.name, redactParams tc.arguments (sens tc.name), result)
      = some (tc'.name, redactParams tc'.arguments (sens tc'.name), result)
    rw [← call_name h, halike]

include hb in
theorem approvalFor_same {w w' : W} (hw : R w w') (h : showCall mask tc = showCall mask tc') (auto : List String) :
    approvalFor env (env.tool w tc.name) tc auto = approvalFor env (env.tool w' tc'.name) tc' auto := by
  unfold approvalFor
  rw [← call_name h, ← hb.tool hw]
  cases htool : env.tool w tc.name with
  | none => rfl
  | some tool =>
    have hneeds : needsApproval tool tc auto = needsApproval tool tc' auto := by
      unfold needsApproval
      rw [hb.approval hw htool (call_mask h), call_name h]
    rw [Option.filter_some, Option.filter_some, hneeds]

include hb in
/-- **A run does the same and returns the same.** -/
theorem executeChatTool_same (auto : List String) (cause : Cause) (h : showCall mask tc = showCall mask tc')
    (htr : SameTrace R tr tr') :
    SameRun (SameTrace R) (executeChatTool env auto cause tc tr) (executeChatTool env auto cause tc' tr') := by
  have hrun := hb.execute htr.world (call_mask h)
  unfold executeChatTool
  rw [← call_name h, ← hb.tool htr.world, ← hb.validate (call_mask h)]
  cases env.tool tr.world tc.name with
  | none => exact ⟨rfl, htr⟩
  | some tool =>
    cases env.validateToolParams tc.arguments with
    | cons e es => exact ⟨rfl, htr⟩
    | nil =>
      dsimp only
      have hran : SameTrace R (tr.emit (.executed tc tool auto cause)) (tr'.emit (.executed tc' tool auto cause)) :=
        htr.emit rfl
      revert hrun
      rcases env.execute tc.name tc.arguments tr.world with ⟨run, w⟩
      rcases env.execute tc.name tc'.arguments tr'.world with ⟨run', w'⟩
      rintro ⟨hrun, hworld⟩
      obtain rfl : run = run' := hrun
      cases run with
      | done output => exact ⟨rfl, hran.withWorld hworld⟩
      | failed reason => exact ⟨rfl, hran.withWorld hworld⟩
      | timedOut t => exact ⟨rfl, hran.withWorld hworld⟩

end Calls

/-! ## A batch -/

section Batch

variable {sens : String → List String} {mask : String → Json → Json} {R : W → W → Prop} {env : Env W}
  (hb : Blind env sens mask R)

variable {calls calls' : List ToolCall} {tr tr' : Trace W}

include hb in
/-- **Preflight lets the same calls through and stops at the same one**, whose tool is the one registered for it. -/
theorem preflight_same (user : String) (auto : List String)
    (h : calls.map (showCall mask) = calls'.map (showCall mask)) (idx : Nat)
    (htr : SameTrace R tr tr') : showPreflight mask (preflight env user auto idx calls tr).1
        = showPreflight mask (preflight env user auto idx calls' tr').1
      ∧ SameTrace R (preflight env user auto idx calls tr).2 (preflight env user auto idx calls' tr').2
      ∧ ∀ a ∈ (preflight env user auto idx calls tr).1.approval, a.2.2.sensitiveParams = sens a.2.1.name := by
  induction calls generalizing calls' idx tr tr' with
  | nil =>
    obtain rfl : calls' = [] := List.map_eq_nil_iff.mp h.symm
    exact ⟨rfl, htr, fun a ha => by cases ha⟩
  | cons original rest ih =>
    -- the hooks see the call alike, so both runs go on alike
    obtain ⟨original', rest', rfl, horiginal, hrest⟩ := List.map_eq_cons_iff.mp h.symm
    have horiginal := horiginal.symm
    have hrest := hrest.symm
    obtain ⟨hcall, htrace⟩ := hookToolCall_same hb user horiginal htr
    have hsens : sensitiveOf (env.tool tr.world original.name) = sens original.name := hb.registered htr.world _
    have hsens' : sensitiveOf (env.tool tr'.world original'.name) = sens original'.name := by
      rw [← hb.tool htr.world]
      exact hb.registered htr.world _
    rw [← hsens, ← hsens'] at hcall htrace
    rcases hhook : hookToolCall env user original (sensitiveOf (env.tool tr.world original.name)) tr with
      ⟨msg | tc, tr₁⟩
    · rcases hhook' : hookToolCall env user original' (sensitiveOf (env.tool tr'.world original'.name)) tr' with
        ⟨msg' | tc', tr₁'⟩
      · rw [hhook, hhook'] at hcall htrace
        obtain rfl : msg = msg' := Except.error.inj hcall
        rw [preflight_rejected hhook, preflight_rejected hhook']
        obtain ⟨hp, htr₂⟩ := ih hrest (idx + 1) htrace
        refine ⟨?_, htr₂⟩
        have hentries := congrArg Preflight.entries hp
        have happroval := congrArg Preflight.approval hp
        show Preflight.mk ((showCall mask original, _) :: _) _ = Preflight.mk ((showCall mask original', _) :: _) _
        rw [horiginal, show List.map _ _ = List.map _ _ from hentries,
          show Option.map _ _ = Option.map _ _ from happroval]
      · rw [hhook, hhook'] at hcall
        cases hcall
    · rcases hhook' : hookToolCall env user original' (sensitiveOf (env.tool tr'.world original'.name)) tr' with
        ⟨msg' | tc', tr₁'⟩
      · rw [hhook, hhook'] at hcall
        cases hcall
      · rw [hhook, hhook'] at hcall htrace
        have htc : showCall mask tc = showCall mask tc' := Except.ok.inj hcall
        have hname : tc.name = original.name := (hookToolCall_ok (by rw [hhook])).2
        have hname' : tc'.name = original'.name := (hookToolCall_ok (by rw [hhook'])).2
        have happrovals := approvalFor_same hb htr.world htc auto
        rw [hname, hname'] at happrovals
        cases happ : approvalFor env (env.tool tr.world original.name) tc auto with
        | some tool =>
          have happ' : approvalFor env (env.tool tr'.world original'.name) tc' auto = some tool := by
            rw [← happrovals, happ]
          rw [preflight_stopped hhook happ, preflight_stopped hhook' happ']
          refine ⟨?_, htrace, ?_⟩
          · show Preflight.mk [] (some (idx, showCall mask tc, tool))
              = Preflight.mk [] (some (idx, showCall mask tc', tool))
            rw [htc]
          · rintro a ⟨⟩
            have htool : env.tool tr.world original.name = some tool := by
              unfold approvalFor at happ
              split at happ
              · cases happ
              · exact Option.filter_eq_some_iff.mp happ |>.1
            rw [htool] at hsens
            rw [hname]
            exact hsens
        | none =>
          have happ' : approvalFor env (env.tool tr'.world original'.name) tc' auto = none := by rw [← happrovals, happ]
          rw [preflight_cleared hhook happ, preflight_cleared hhook' happ']
          obtain ⟨hp, htr₂⟩ := ih hrest (idx + 1) htrace
          refine ⟨?_, htr₂⟩
          have hentries := congrArg Preflight.entries hp
          have happroval := congrArg Preflight.approval hp
          show Preflight.mk ((showCall mask tc, _) :: _) _ = Preflight.mk ((showCall mask tc', _) :: _) _
          rw [htc, show List.map _ _ = List.map _ _ from hentries,
            show Option.map _ _ = Option.map _ _ from happroval]

/-- A call at a position, redacted. -/
def showTask (mask : String → Json → Json) (t : Nat × ToolCall) : Nat × ToolCall := (t.1, showCall mask t.2)

variable {t t' : Nat × ToolCall}

theorem task_pos (h : showTask mask t = showTask mask t') : t.1 = t'.1 := by
  have hpos : (showTask mask t).1 = (showTask mask t').1 := by rw [h]
  exact hpos

theorem task_call (h : showTask mask t = showTask mask t') : showCall mask t.2 = showCall mask t'.2 := by
  have hcall : (showTask mask t).2 = (showTask mask t').2 := by rw [h]
  exact hcall

include hb in
theorem runTasks_same (auto : List String) (cause : Cause) (fuel : Nat) {tasks tasks' : List (Nat × ToolCall)}
    (h : tasks.map (showTask mask) = tasks'.map (showTask mask)) (htr : SameTrace R tr tr') :
    SameRun (SameTrace R) (runTasks env auto cause fuel tasks tr) (runTasks env auto cause fuel tasks' tr') := by
  induction fuel generalizing tasks tasks' tr tr' with
  | zero => exact ⟨rfl, htr⟩
  | succ fuel ih =>
    have hlength : tasks.length = tasks'.length := by rw [← List.length_map (showTask mask), h, List.length_map]
    have hnext : env.nextTask tr.world % tasks.length = env.nextTask tr'.world % tasks'.length := by
      rw [hb.nextTask htr.world, hlength]
    have hpick : (tasks[env.nextTask tr.world % tasks.length]?).map (showTask mask)
        = (tasks'[env.nextTask tr'.world % tasks'.length]?).map (showTask mask) := by
      rw [← List.getElem?_map, h, List.getElem?_map, hnext]
    unfold runTasks
    rcases option_map_cases hpick with ⟨htask, htask'⟩ | ⟨task, task', htask, htask', hshown⟩
    · rw [htask, htask']
      exact ⟨rfl, htr⟩
    · rw [htask, htask']
      have hcall : showCall mask task.2 = showCall mask task'.2 := task_call hshown
      have hpos : task.1 = task'.1 := task_pos hshown
      obtain ⟨hresult, htrace⟩ := executeChatTool_same hb auto cause hcall htr
      dsimp only
      have hrest : (tasks.eraseIdx (env.nextTask tr.world % tasks.length)).map (showTask mask)
          = (tasks'.eraseIdx (env.nextTask tr'.world % tasks'.length)).map (showTask mask) := by
        rw [← List.eraseIdx_map, ← List.eraseIdx_map, h, hnext]
      obtain ⟨hresults, htrace'⟩ := ih hrest htrace
      refine ⟨?_, htrace'⟩
      rw [hresults, hb.panics htrace.world hcall, hresult, hpos]

variable {runnable runnable' : List (Nat × ToolCall)}

theorem fillFailed_same
    (h : runnable.map (showTask mask) = runnable'.map (showTask mask)) (results : List (Nat × Except Error String)) :
    fillFailed runnable results = fillFailed runnable' results := by
  have hshown : ∀ ts : List (Nat × ToolCall), fillFailed ts results = fillFailed (ts.map (showTask mask)) results := by
    intro ts
    unfold fillFailed
    rw [List.map_map]
    rfl
  rw [hshown runnable, hshown runnable', h]

include hb in
/-- **Execution returns the same results.** -/
theorem executeRunnable_same (auto : List String) (cause : Cause)
    (h : runnable.map (showTask mask) = runnable'.map (showTask mask)) (htr : SameTrace R tr tr') :
    SameRun (SameTrace R) (executeRunnable env auto cause runnable tr) (executeRunnable env auto cause runnable' tr') := by
  have hlength : runnable.length = runnable'.length := by rw [← List.length_map (showTask mask), h, List.length_map]
  match runnable, runnable', h, hlength with
  | [], [], _, _ => exact ⟨rfl, htr⟩
  | [t], [t'], h, _ =>
    have hshown : showTask mask t = showTask mask t' := List.head_eq_of_cons_eq h
    have hpos : t.1 = t'.1 := task_pos hshown
    obtain ⟨hresult, htrace⟩ := executeChatTool_same hb auto cause (task_call hshown) htr
    refine ⟨?_, htrace⟩
    show [(t.1, (executeChatTool env auto cause t.2 tr).1)] = [(t'.1, (executeChatTool env auto cause t'.2 tr').1)]
    rw [hpos, hresult]
  | t :: u :: ts, t' :: u' :: ts', h, hlength =>
    obtain ⟨hresults, htrace⟩ := runTasks_same hb auto cause (t :: u :: ts).length h htr
    rw [hlength] at hresults htrace
    refine ⟨?_, ?_⟩
    · show fillFailed (t :: u :: ts) (runTasks env auto cause (t :: u :: ts).length (t :: u :: ts) tr).1
        = fillFailed (t' :: u' :: ts') (runTasks env auto cause (t' :: u' :: ts').length (t' :: u' :: ts') tr').1
      rw [hlength, hresults]
      exact fillFailed_same h _
    · show SameTrace R (runTasks env auto cause (t :: u :: ts).length (t :: u :: ts) tr).2
        (runTasks env auto cause (t' :: u' :: ts').length (t' :: u' :: ts') tr').2
      rw [hlength]
      exact htrace

variable {entries entries' : List (ToolCall × PreflightOutcome)}

theorem runnableOf_same
    (h : entries.map (fun e => (showCall mask e.1, e.2)) = entries'.map fun e => (showCall mask e.1, e.2)) :
    (runnableOf entries).map (showTask mask) = (runnableOf entries').map (showTask mask) := by
  have hshown : ∀ es : List (ToolCall × PreflightOutcome), (runnableOf es).map (showTask mask)
      = runnableOf (es.map fun e => (showCall mask e.1, e.2)) := by
    intro es
    unfold runnableOf
    rw [List.zipIdx_map, List.filterMap_map, List.map_filterMap]
    refine List.filterMap_congr fun e _ => ?_
    rcases e with ⟨⟨tc, _ | _⟩, i⟩
    · rfl
    · rfl
  rw [hshown entries, hshown entries', h]

/-- An outcome with its call redacted. -/
def showOutcome (mask : String → Json → Json) (o : ToolCall × CallOutcome) : ToolCall × CallOutcome :=
  (showCall mask o.1, o.2)

theorem outcomesOf_same
    (h : entries.map (fun e => (showCall mask e.1, e.2)) = entries'.map fun e => (showCall mask e.1, e.2))
    (results : List (Nat × Except Error String)) :
    (outcomesOf entries results).map (showOutcome mask) = (outcomesOf entries' results).map (showOutcome mask) := by
  have hshown : ∀ es : List (ToolCall × PreflightOutcome), (outcomesOf es results).map (showOutcome mask)
      = outcomesOf (es.map fun e => (showCall mask e.1, e.2)) results := by
    intro es
    unfold outcomesOf
    rw [List.zipIdx_map, List.map_map, List.map_map]
    refine List.map_congr_left fun e _ => ?_
    rcases e with ⟨⟨tc, _ | _⟩, i⟩
    · rfl
    · rfl
  rw [hshown entries, hshown entries', h]

/-- Sessions that show the same: their threads agree up to what a waiting request carries. -/
structure SameSession (mask : String → Json → Json) (s s' : Session) : Prop where
  id : s.id = s'.id
  userId : s.userId = s'.userId
  activeThread : s.activeThread = s'.activeThread
  lastActiveAt : s.lastActiveAt = s'.lastActiveAt
  autoApprovedTools : s.autoApprovedTools = s'.autoApprovedTools
  threads : ∀ tid, (s.threads.lookup tid).map (showThread mask) = (s'.threads.lookup tid).map (showThread mask)

/-- A change to a thread that does not look at what a waiting request carries. -/
def Overlooks (mask : String → Json → Json) (f : Thread → Thread) : Prop :=
  ∀ t, showThread mask (f t) = f (showThread mask t)

variable {s s' : Session} {f : Thread → Thread}

theorem SameSession.modifyThread (h : SameSession mask s s') (tid : Uuid) {g : Thread → Thread}
    (hfg : ∀ t t', showThread mask t = showThread mask t' → showThread mask (f t) = showThread mask (g t')) :
    SameSession mask (s.modifyThread tid f) (s'.modifyThread tid g) := by
  have hat := h.threads tid
  unfold Session.modifyThread
  rcases option_map_cases hat with ⟨hs, hs'⟩ | ⟨t, t', hs, hs', ht⟩
  · rw [hs, hs']
    exact h
  · rw [hs, hs']
    refine ⟨h.id, h.userId, h.activeThread, h.lastActiveAt, h.autoApprovedTools, fun tid' => ?_⟩
    show ((s.threads.insert tid (f t)).lookup tid').map _ = ((s'.threads.insert tid (g t')).lookup tid').map _
    rw [Map.lookup_insert_ite, Map.lookup_insert_ite]
    split
    · exact congrArg some (hfg t t' ht)
    · exact h.threads tid'

theorem SameSession.overlook (h : SameSession mask s s') (tid : Uuid) (hf : Overlooks mask f) :
    SameSession mask (s.modifyThread tid f) (s'.modifyThread tid f) := by
  refine h.modifyThread tid fun t t' ht => ?_
  rw [hf t, hf t', ht]

theorem SameSession.onLastTurn (h : SameSession mask s s') (tid : Uuid) (f : Turn → Turn) :
    SameSession mask (onLastTurn tid f s) (onLastTurn tid f s') := by
  refine h.overlook tid fun t => ?_
  rfl

/-- Post-flights that show the same. -/
structure SamePostflight (mask : String → Json → Json) (p p' : Postflight) : Prop where
  session : SameSession mask p.session p'.session
  context : showContext mask p.context = showContext mask p'.context
  deferredAuth : p.deferredAuth = p'.deferredAuth

/-- Recording an outcome reads the name and the identifier of a call only. -/
theorem postflightCall_shown (tid : Uuid) (p : Postflight) (o : ToolCall × CallOutcome) :
    postflightCall env tid p o = postflightCall env tid p (showOutcome mask o) := by
  rcases o with ⟨tc, msg | result⟩
  · rfl
  · rfl

theorem showContext_append {c c' : List ChatMessage} (h : showContext mask c = showContext mask c')
    (ms : List ChatMessage) : showContext mask (c ++ ms) = showContext mask (c' ++ ms) := by
  unfold showContext at h ⊢
  rw [List.map_append, List.map_append, h]

variable {p p' : Postflight} (env) in
theorem noteAuth_same (tid : Uuid) (tc : ToolCall) (result : Except Error String)
    (h : SamePostflight mask p p') :
    SamePostflight mask (noteAuth env tid tc result p) (noteAuth env tid tc result p') := by
  unfold noteAuth
  rw [h.deferredAuth]
  cases p'.deferredAuth with
  | some text => exact h
  | none =>
    cases checkAuthRequired env tc.name result with
    | none => exact h
    | some auth => exact ⟨h.session.overlook tid fun t => rfl, h.context, rfl⟩

theorem postflightCall_same (tid : Uuid) (h : SamePostflight mask p p')
    (o : ToolCall × CallOutcome) : SamePostflight mask (postflightCall env tid p o) (postflightCall env tid p' o) := by
  rcases o with ⟨tc, msg | result⟩
  · exact ⟨h.session.onLastTurn tid _, showContext_append h.context _, h.deferredAuth⟩
  · have hrecorded : SamePostflight mask { p with session := onLastTurn tid (recordResult result) p.session }
        { p' with session := onLastTurn tid (recordResult result) p'.session } :=
      ⟨h.session.onLastTurn tid _, h.context, h.deferredAuth⟩
    have hnoted := noteAuth_same env tid tc result hrecorded
    exact ⟨hnoted.session, showContext_append hnoted.context _, hnoted.deferredAuth⟩

variable (env) in
/-- **Post-flight records the same.** -/
theorem postflight_same (tid : Uuid) {outcomes outcomes' : List (ToolCall × CallOutcome)}
    (ho : outcomes.map (showOutcome mask) = outcomes'.map (showOutcome mask))
    (h : SamePostflight mask p p') :
    SamePostflight mask (postflight env tid outcomes p) (postflight env tid outcomes' p') := by
  have hshown : ∀ (os : List (ToolCall × CallOutcome)) (q : Postflight), postflight env tid os q
      = postflight env tid (os.map (showOutcome mask)) q := by
    intro os q
    unfold postflight
    rw [List.foldl_map]
    congr 1
    funext q o
    exact postflightCall_shown tid q o
  rw [hshown outcomes, hshown outcomes', ← ho]
  generalize outcomes.map (showOutcome mask) = os
  induction os generalizing p p' with
  | nil => exact h
  | cons o os ih => exact ih (postflightCall_same tid h o)

include hb in
/-- What is recorded of the calls on the turn is redacted. -/
theorem recordCalls_same {w w' : W} (hw : R w w')
    (h : calls.map (showCall mask) = calls'.map (showCall mask)) (turn : Turn) :
    recordCalls env w calls turn = recordCalls env w' calls' turn := by
  have hrecorded : ∀ tc : ToolCall, recordedArguments env w tc = redactParams tc.arguments (sens tc.name) := by
    intro tc
    have hsens := hb.registered hw tc.name
    unfold recordedArguments
    cases htool : env.tool w tc.name with
    | none =>
      rw [htool] at hsens
      rw [← show [] = sens tc.name from hsens]
      cases tc.arguments with
      | object fields => rfl
      | null => rfl
      | bool b => rfl
      | number n => rfl
      | string t => rfl
      | array items => rfl
    | some tool =>
      rw [htool] at hsens
      rw [← show tool.sensitiveParams = sens tc.name from hsens]
  have hworld : recordCalls env w' calls' turn = recordCalls env w calls' turn := by
    unfold recordCalls recordedArguments
    rw [hb.tool hw]
  rw [hworld]
  clear hworld
  unfold recordCalls
  induction calls generalizing calls' turn with
  | nil => rw [List.map_eq_nil_iff.mp h.symm]
  | cons tc rest ih =>
    obtain ⟨tc', rest', rfl, htc, hrest⟩ := List.map_eq_cons_iff.mp h.symm
    rw [List.foldl_cons, List.foldl_cons, hrecorded, hrecorded, ← call_name htc.symm,
      show redactParams tc.arguments (sens tc.name) = _ from hb.redact (call_mask htc.symm)]
    exact ih hrest.symm _

include hb in
theorem showPending_same {tc tc' : ToolCall} (h : showCall mask tc = showCall mask tc') {tool : Tool}
    (hsens : tool.sensitiveParams = sens tc.name) {context context' : List ChatMessage}
    (hcontext : showContext mask context = showContext mask context') {deferred deferred' : List ToolCall}
    (hdeferred : deferred.map (showCall mask) = deferred'.map (showCall mask)) (newId : Uuid) :
    showPending mask (pendingFor newId tc tool context deferred)
      = showPending mask (pendingFor newId tc' tool context' deferred') := by
  have halike : redactParams tc.arguments (sens tc.name) = redactParams tc'.arguments (sens tc.name) :=
    hb.redact (call_mask h)
  unfold showPending pendingFor
  dsimp only
  rw [hcontext, hdeferred, hsens, halike, ← call_name h, call_mask h, call_id h]

include hb in
/-- What a batch leaves when the post-flights show the same. -/
theorem finishBatch_same (h : calls.map (showCall mask) = calls'.map (showCall mask))
    {approval approval' : Option (Nat × ToolCall × Tool)}
    (happroval : approval.map (fun a => (a.1, showCall mask a.2.1, a.2.2))
      = approval'.map fun a => (a.1, showCall mask a.2.1, a.2.2))
    (hsens : ∀ a ∈ approval, a.2.2.sensitiveParams = sens a.2.1.name)
    (hp : SamePostflight mask p p') (htr : SameTrace R tr tr') :
    showBatch mask (finishBatch env calls approval p tr).1 = showBatch mask (finishBatch env calls' approval' p' tr').1
      ∧ SameSession mask (finishBatch env calls approval p tr).2.1 (finishBatch env calls' approval' p' tr').2.1
      ∧ SameTrace R (finishBatch env calls approval p tr).2.2 (finishBatch env calls' approval' p' tr').2.2 := by
  unfold finishBatch
  rw [hp.deferredAuth]
  cases p'.deferredAuth with
  | some text => exact ⟨rfl, hp.session, htr⟩
  | none =>
    cases approval with
    | none =>
      rw [Option.map_eq_none_iff.mp happroval.symm]
      exact ⟨congrArg BatchResult.continues hp.context, hp.session, htr⟩
    | some a =>
      obtain ⟨a', rfl, ha'⟩ := Option.map_eq_some_iff.mp happroval.symm
      obtain ⟨idx, tc, tool⟩ := a
      obtain ⟨idx', tc', tool'⟩ := a'
      obtain ⟨rfl, htc, rfl⟩ : idx' = idx ∧ showCall mask tc' = showCall mask tc ∧ tool' = tool := by simpa using ha'
      refine ⟨?_, hp.session, htr.world, ?_, htr.hooks⟩
      · have hdeferred : (calls.drop (idx' + 1)).map (showCall mask)
            = (calls'.drop (idx' + 1)).map (showCall mask) := by
          rw [List.map_drop, h, List.map_drop]
        have hid : (tr.draw env).1 = (tr'.draw env).1 := congrArg env.newV4 htr.drawn
        show BatchResult.finished (.needApproval (showPending mask _))
          = BatchResult.finished (.needApproval (showPending mask _))
        rw [hid, showPending_same hb htc.symm (hsens _ rfl) hp.context hdeferred]
      · show tr.drawn + 1 = tr'.drawn + 1
        rw [htr.drawn]

include hb in
/-- **A batch shows the same.** -/
theorem runBatch_same (user : String) (tid : Uuid)
    (h : calls.map (showCall mask) = calls'.map (showCall mask)) (content : Option String)
    {context context' : List ChatMessage} (hcontext : showContext mask context = showContext mask context')
    {s s' : Session} (hs : SameSession mask s s') (htr : SameTrace R tr tr') :
    showBatch mask (runBatch env user tid calls content context s tr).1
        = showBatch mask (runBatch env user tid calls' content context' s' tr').1
      ∧ SameSession mask (runBatch env user tid calls content context s tr).2.1
        (runBatch env user tid calls' content context' s' tr').2.1
      ∧ SameTrace R (runBatch env user tid calls content context s tr).2.2
        (runBatch env user tid calls' content context' s' tr').2.2 := by
  obtain ⟨hpf, htr₁, hsens⟩ := preflight_same hb user s.autoApprovedTools h 0 htr
  have hentries := congrArg Preflight.entries hpf
  have happroval := congrArg Preflight.approval hpf
  obtain ⟨hresults, htr₂⟩ := executeRunnable_same hb s.autoApprovedTools .batch (runnableOf_same hentries) htr₁
  have hpost : SamePostflight mask
      { session := onLastTurn tid (recordCalls env tr.world calls) s
        context := context ++ [ChatMessage.assistantWithToolCalls content calls] }
      { session := onLastTurn tid (recordCalls env tr'.world calls') s'
        context := context' ++ [ChatMessage.assistantWithToolCalls content calls'] } := by
    refine ⟨?_, ?_, rfl⟩
    · rw [show recordCalls env tr'.world calls' = recordCalls env tr.world calls from
        funext fun turn => (recordCalls_same hb htr.world h turn).symm]
      exact hs.onLastTurn tid _
    · have hmessage : showMessage mask (ChatMessage.assistantWithToolCalls content calls)
          = showMessage mask (ChatMessage.assistantWithToolCalls content calls') := by
        have hnil : calls.isEmpty = calls'.isEmpty := by
          rw [← @List.isEmpty_map _ _ _ (showCall mask), h, List.isEmpty_map]
        unfold showMessage ChatMessage.assistantWithToolCalls
        dsimp only
        rw [hnil]
        split
        · rfl
        · rw [Option.map_some, Option.map_some, h]
      unfold showContext at hcontext ⊢
      rw [List.map_append, List.map_append, hcontext, List.map_singleton, List.map_singleton, hmessage]
  have hfinal := fun results => postflight_same env tid (outcomesOf_same hentries results) hpost
  unfold runBatch
  rw [← hs.autoApprovedTools]
  dsimp only
  rw [hresults]
  exact finishBatch_same hb h happroval hsens (hfinal _) htr₂

end Batch

end Secrecy
end Freeclawdia
