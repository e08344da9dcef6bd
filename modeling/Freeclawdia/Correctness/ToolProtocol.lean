import Freeclawdia.Correctness.Requests
import Freeclawdia.Lib.Runs

/-!
# `Correctness.ToolProtocol` — every tool call is answered, once and in order

Providers reject a message list in which a tool request is not answered by its results. `WellPaired` states
the rule: after an assistant message with tool calls, and before the next user or assistant message, come
results for exactly the calls of the batch, in order; there are no other results.

A context in the middle of a batch is not well paired yet. `Open ids c` says what it lacks: appending results
for `ids` makes it so. Recording a result takes one identifier off (`Open.step`), asking for a batch puts the
batch's identifiers on (`WellPaired.ask`), and an approval request is stored with a context that lacks the
requested call and the deferred ones (`Resumable`).
-/

namespace Freeclawdia.ToolProtocol

open Rust

variable {W : Type}

/-! ## The rule -/

/-- The calls an assistant message asks for. -/
def batchIds (m : ChatMessage) : List String :=
  if m.role = .assistant then (m.toolCalls.getD []).map (·.id) else []

/-- The calls answered before the next user or assistant message. -/
def answeredIds : List ChatMessage → List (Option String)
  | [] => []
  | m :: rest =>
    match m.role with
    | .user | .assistant => []
    | .tool => m.toolCallId :: answeredIds rest
    | .system => answeredIds rest

/-- After every user or assistant message exactly the calls it asks for are answered, in order. -/
def Answered : List ChatMessage → Prop
  | [] => True
  | m :: rest =>
    (m.role = .user ∨ m.role = .assistant → answeredIds rest = (batchIds m).map some) ∧ Answered rest

/-- The rule for a message list: as above, and nothing is answered before the first such message. -/
def WellPaired (c : List ChatMessage) : Prop := answeredIds c = [] ∧ Answered c

/-! ## Messages that change nothing -/

/-- A message that ends an exchange: nothing after it answers what is before it. -/
def Closes (m : ChatMessage) : Prop := m.role = .user ∨ m.role = .assistant

variable {m : ChatMessage}

theorem answeredIds_of_closes (hm : Closes m) (rest : List ChatMessage) : answeredIds (m :: rest) = [] := by
  unfold answeredIds
  rcases hm with hm | hm
  · rw [hm]
  · rw [hm]

theorem answeredIds_append_closes (hm : Closes m) (c rest : List ChatMessage) :
    answeredIds (c ++ m :: rest) = answeredIds c := by
  induction c with
  | nil => exact answeredIds_of_closes hm rest
  | cons x xs ih =>
    rw [List.cons_append]
    unfold answeredIds
    rw [ih]

variable {results : List ChatMessage}

theorem answeredIds_results (hr : ∀ m ∈ results, m.role = .tool) :
    answeredIds results = results.map (·.toolCallId) := by
  induction results with
  | nil => rfl
  | cons x xs ih =>
    have hx : x.role = .tool := hr x List.mem_cons_self
    have hxs := ih fun m hm => hr m (List.mem_cons_of_mem x hm)
    unfold answeredIds
    rw [hx, hxs]
    rfl

theorem answered_results (hr : ∀ m ∈ results, m.role = .tool) : Answered results := by
  induction results with
  | nil => exact True.intro
  | cons x xs ih =>
    have hx : x.role = .tool := hr x List.mem_cons_self
    refine ⟨?_, ih fun m hm => hr m (List.mem_cons_of_mem x hm)⟩
    rintro (h | h)
    · rw [hx] at h; cases h
    · rw [hx] at h; cases h

variable {c : List ChatMessage}

/-- A closing message and its results, behind a list that has all its answers. -/
theorem answered_append {rest : List ChatMessage} (hm : Closes m) (hc : Answered c) (hrest : Answered (m :: rest)) :
    Answered (c ++ m :: rest) := by
  induction c with
  | nil => exact hrest
  | cons x xs ih =>
    refine ⟨?_, ih hc.2⟩
    intro hx
    exact (answeredIds_append_closes hm xs rest).trans (hc.1 hx)

/-- **Asking for a batch and answering all of it.** -/
theorem WellPaired.exchange (h : WellPaired c) (hm : Closes m) (hr : ∀ r ∈ results, r.role = .tool)
    (hids : results.map (·.toolCallId) = (batchIds m).map some) : WellPaired (c ++ m :: results) := by
  refine ⟨?_, ?_⟩
  · rw [answeredIds_append_closes hm]
    exact h.1
  · refine answered_append hm h.2 ⟨fun _ => ?_, answered_results hr⟩
    rw [answeredIds_results hr, hids]

/-- A closing message that asks for nothing. -/
theorem WellPaired.snoc (h : WellPaired c) (hm : Closes m) (hids : batchIds m = []) : WellPaired (c ++ [m]) :=
  h.exchange hm (fun _ hr => absurd hr List.not_mem_nil) (by rw [hids]; rfl)

/-! ## System messages are invisible -/

theorem answeredIds_filter (c : List ChatMessage) :
    answeredIds (c.filter fun m => m.role ≠ .system) = answeredIds c := by
  induction c with
  | nil => rfl
  | cons x xs ih =>
    cases hx : x.role with
    | system => simp [answeredIds, hx, ← ih]
    | user => simp [answeredIds, hx]
    | assistant => simp [answeredIds, hx]
    | tool => simp [answeredIds, hx, ← ih]

theorem answered_filter (h : Answered c) : Answered (c.filter fun m => m.role ≠ .system) := by
  induction c with
  | nil => exact True.intro
  | cons x xs ih =>
    have hxs := ih h.2
    by_cases hx : x.role = .system
    · simpa [hx] using hxs
    · rw [List.filter_cons_of_pos (by simpa using hx)]
      refine ⟨?_, hxs⟩
      intro hclose
      rw [answeredIds_filter]
      exact h.1 hclose

/-- Dropping system messages. -/
theorem WellPaired.dropSystem (h : WellPaired c) : WellPaired (c.filter fun m => m.role ≠ .system) :=
  ⟨(answeredIds_filter c).trans h.1, answered_filter h.2⟩

theorem wellPaired_cons_system (hm : m.role = .system) (h : WellPaired c) : WellPaired (m :: c) := by
  refine ⟨?_, ?_, h.2⟩
  · unfold answeredIds
    rw [hm]
    exact h.1
  · rintro (hc | hc)
    · rw [hm] at hc; cases hc
    · rw [hm] at hc; cases hc

variable {front : List ChatMessage}

/-- System messages in front. -/
theorem WellPaired.prependSystem (hf : ∀ m ∈ front, m.role = .system) (h : WellPaired c) : WellPaired (front ++ c) := by
  induction front with
  | nil => exact h
  | cons x xs ih =>
    exact wellPaired_cons_system (hf x List.mem_cons_self)
      (ih fun m hm => hf m (List.mem_cons_of_mem x hm))

theorem answeredIds_snoc_system (hm : m.role = .system) (c : List ChatMessage) :
    answeredIds (c ++ [m]) = answeredIds c := by
  induction c with
  | nil => simp [answeredIds, hm]
  | cons x xs ih =>
    rw [List.cons_append]
    unfold answeredIds
    rw [ih]

/-- A system message at the end. -/
theorem WellPaired.snocSystem (hm : m.role = .system) (h : WellPaired c) : WellPaired (c ++ [m]) := by
  refine ⟨(answeredIds_snoc_system hm c).trans h.1, ?_⟩
  have hall : ∀ c, Answered c → Answered (c ++ [m]) := by
    intro c hc
    induction c with
    | nil =>
      refine ⟨?_, True.intro⟩
      rintro (h | h)
      · rw [hm] at h; cases h
      · rw [hm] at h; cases h
    | cons x xs ih =>
      refine ⟨?_, ih hc.2⟩
      intro hclose
      exact (answeredIds_snoc_system hm xs).trans (hc.1 hclose)
  exact hall c h.2

/-- Plain messages are well paired: nothing is asked for, nothing is answered. -/
theorem wellPaired_of_plain (h : Plain c) : WellPaired c := by
  induction c with
  | nil => exact ⟨rfl, True.intro⟩
  | cons x xs ih =>
    obtain ⟨hxs, hanswered⟩ := ih fun m hm => h m (List.mem_cons_of_mem x hm)
    obtain ⟨hrole, hcalls⟩ := h x List.mem_cons_self
    refine ⟨?_, ?_, hanswered⟩
    · unfold answeredIds
      cases hx : x.role with
      | system => exact hxs
      | user => rfl
      | assistant => rfl
      | tool => exact absurd hx hrole
    · intro _
      rw [hxs]
      unfold batchIds
      rw [hcalls]
      split
      · rfl
      · rfl

/-! ## Retrying with a shorter list -/

variable {tail : List ChatMessage}

theorem splitLastUser_spec (h : splitLastUser c = some (front, tail)) :
    c = front ++ tail ∧ ∃ m rest, tail = m :: rest ∧ m.role = .user := by
  induction c generalizing front with
  | nil => cases h
  | cons x xs ih =>
    unfold splitLastUser at h
    cases hrec : splitLastUser xs with
    | some r =>
      obtain ⟨front', tail'⟩ := r
      rw [hrec] at h
      cases h
      obtain ⟨hxs, htail⟩ := ih hrec
      exact ⟨congrArg (x :: ·) hxs, htail⟩
    | none =>
      rw [hrec] at h
      dsimp only at h
      split at h
      · rename_i hx
        cases h
        exact ⟨rfl, x, xs, rfl, hx⟩
      · cases h

theorem Answered.suffix (h : Answered (front ++ tail)) : Answered tail := by
  induction front with
  | nil => exact h
  | cons x xs ih => exact ih h.2

/-- **Compaction for a retry keeps the pairing**: what is kept besides system messages starts at a user
    message, or is everything. -/
theorem WellPaired.compacted (h : WellPaired c) : WellPaired (compactMessagesForRetry c) := by
  unfold compactMessagesForRetry
  cases hsplit : splitLastUser c with
  | none =>
    refine WellPaired.prependSystem ?_ h.dropSystem
    intro m hm
    simpa using (List.mem_filter.mp hm).2
  | some r =>
    obtain ⟨front, tail⟩ := r
    obtain ⟨rfl, m, rest, rfl, hm⟩ := splitLastUser_spec hsplit
    have htail : WellPaired (m :: rest) := ⟨answeredIds_of_closes (Or.inl hm) rest, h.2.suffix⟩
    refine WellPaired.prependSystem ?_ htail
    intro x hx
    rcases List.mem_append.mp hx with hx | hx
    · simpa using (List.mem_filter.mp hx).2
    · split at hx
      · exact absurd hx List.not_mem_nil
      · rw [List.mem_singleton.mp hx]
        rfl

/-! ## Contexts in the middle of a batch -/

/-- The context lacks results for exactly these calls. -/
def Open (ids : List String) (c : List ChatMessage) : Prop :=
  ∀ results : List ChatMessage, (∀ m ∈ results, m.role = .tool) →
    results.map (·.toolCallId) = ids.map some → WellPaired (c ++ results)

/-- Nothing lacking. -/
theorem Open.close (h : Open [] c) : WellPaired c := by
  have hnil := h [] (fun _ hm => absurd hm List.not_mem_nil) rfl
  rw [List.append_nil] at hnil
  exact hnil

/-- The first results come in. -/
theorem Open.step {ids ids' : List String} {rs : List ChatMessage} (h : Open (ids ++ ids') c)
    (hr : ∀ m ∈ rs, m.role = .tool) (hids : rs.map (·.toolCallId) = ids.map some) : Open ids' (c ++ rs) := by
  intro results hresults hids'
  rw [List.append_assoc]
  refine h (rs ++ results) ?_ ?_
  · intro m hm
    rcases List.mem_append.mp hm with hm | hm
    · exact hr m hm
    · exact hresults m hm
  · rw [List.map_append, List.map_append, hids, hids']

/-- Asking for a batch. -/
theorem WellPaired.ask (h : WellPaired c) (content : Option String) (calls : List ToolCall) :
    Open (calls.map (·.id)) (c ++ [ChatMessage.assistantWithToolCalls content calls]) := by
  have hbatch : batchIds (ChatMessage.assistantWithToolCalls content calls) = calls.map (·.id) := by
    cases calls with
    | nil => rfl
    | cons tc rest => rfl
  intro results hresults hids
  rw [List.append_assoc]
  exact h.exchange (Or.inr rfl) hresults (by rw [hbatch]; exact hids)

/-- The context of a request lacks the requested call and the deferred ones. -/
def Resumable (p : PendingApproval) : Prop :=
  Open (p.toolCallId :: p.deferredToolCalls.map (·.id)) p.contextMessages

/-! ## Batches -/

section Batch

variable (env : Env W)

/-- The message of an outcome. -/
theorem postflightCall_context (tid : Uuid) (p : Postflight) (o : ToolCall × CallOutcome) :
    ∃ text, (postflightCall env tid p o).context = p.context ++ [ChatMessage.toolResult o.1.id o.1.name text] := by
  rcases o with ⟨tc, msg | result⟩
  · exact ⟨msg, rfl⟩
  · refine ⟨resultContent env (fun e => "Tool '" ++ tc.name ++ "' failed: " ++ e) tc.name result, ?_⟩
    have hnote : ∀ p' : Postflight, (noteAuth env tid tc result p').context = p'.context := by
      intro p'
      unfold noteAuth
      split
      · rfl
      · rfl
    exact congrArg (· ++ _) (hnote _)

/-- **Post-flight answers the calls of the outcomes, in order.** -/
theorem postflight_open (tid : Uuid) (outcomes : List (ToolCall × CallOutcome)) (p : Postflight)
    {ids : List String} (h : Open (outcomes.map (·.1.id) ++ ids) p.context) :
    Open ids (postflight env tid outcomes p).context := by
  unfold postflight
  induction outcomes generalizing p with
  | nil => exact h
  | cons o rest ih =>
    obtain ⟨text, hcontext⟩ := postflightCall_context env tid p o
    refine ih _ ?_
    rw [hcontext]
    have hfirst : Open ([o.1.id] ++ (rest.map (·.1.id) ++ ids)) p.context := h
    refine hfirst.step ?_ rfl
    intro m hm
    rw [List.mem_singleton.mp hm]
    rfl

theorem outcomesOf_ids (entries : List (ToolCall × PreflightOutcome)) (results : List (Nat × Except Error String)) :
    (outcomesOf entries results).map (·.1.id) = entries.map (·.1.id) := by
  have hall : ∀ k, ((entries.zipIdx k).map (outcomeAt results)).map (·.1.id) = entries.map (·.1.id) := by
    induction entries with
    | nil => exact fun _ => rfl
    | cons e es ih =>
      intro k
      rcases e with ⟨tc, _ | _⟩
      · exact congrArg (tc.id :: ·) (ih (k + 1))
      · exact congrArg (tc.id :: ·) (ih (k + 1))
  exact hall 0

/-- **A batch answers what it got through**, and its context lacks what it did not. -/
theorem batch_open (user : String) (tid : Uuid) (calls : List ToolCall) (content : Option String)
    (context : List ChatMessage) (s : Session) (tr : Trace W) (h : WellPaired context) :
    ((batchPreflight env user calls s tr).1.approval = none →
        WellPaired (batchPostflight env user tid calls content context s tr).context)
      ∧ ∀ idx tc tool newId, (batchPreflight env user calls s tr).1.approval = some (idx, tc, tool) →
        Resumable (pendingFor newId tc tool (batchPostflight env user tid calls content context s tr).context
          (calls.drop (idx + 1))) := by
  have hask : Open (calls.map (·.id)) (batchStart env tid calls content context s tr).context :=
    h.ask content calls
  have hids : ∀ {entries : List (ToolCall × PreflightOutcome)} {passed : List ToolCall},
      entries.map (fun e => (e.1.id, e.1.name)) = passed.map (fun tc => (tc.id, tc.name)) →
      entries.map (·.1.id) = passed.map (·.id) := by
    intro entries passed heq
    have hfst := congrArg (List.map Prod.fst) heq
    rwa [List.map_map, List.map_map] at hfst
  have hpost : ∀ ids, calls.map (·.id)
        = (batchPreflight env user calls s tr).1.entries.map (·.1.id) ++ ids →
      Open ids (batchPostflight env user tid calls content context s tr).context := by
    intro ids hsplit
    refine postflight_open env tid _ _ ?_
    rw [outcomesOf_ids, ← hsplit]
    exact hask
  rcases preflight_splits env user s.autoApprovedTools calls 0 tr with
    ⟨hnone, hentries⟩ | ⟨passed, original, rest, tc, tool, hcalls, happ, hid, _, hentries⟩
  · refine ⟨fun _ => (hpost [] ?_).close, ?_⟩
    · rw [List.append_nil]
      exact (hids hentries).symm
    · intro idx tc tool newId hsome
      have hnone' : (batchPreflight env user calls s tr).1.approval = none := hnone
      rw [hnone'] at hsome
      cases hsome
  · have happ' : (batchPreflight env user calls s tr).1.approval = some (0 + passed.length, tc, tool) := happ
    refine ⟨fun hnone => ?_, ?_⟩
    · rw [happ'] at hnone
      cases hnone
    · intro idx tc' tool' newId hsome
      rw [happ'] at hsome
      cases hsome
      have hdrop : calls.drop (0 + passed.length + 1) = rest := by
        rw [hcalls, Nat.zero_add, ← List.drop_drop, List.drop_left]
        rfl
      rw [hdrop]
      refine hpost (tc.id :: rest.map (·.id)) ?_
      rw [show (batchPreflight env user calls s tr).1.entries.map (·.1.id) = passed.map (·.id) from hids hentries,
        hcalls, List.map_append, List.map_cons, hid]

/-! ## The loop -/

/-- Every list sent to the provider so far was well paired. -/
def LogPaired (log : List Event) : Prop := ∀ messages, .llm messages ∈ log → WellPaired messages

theorem LogPaired.snoc {log : List Event} {e : Event} (h : LogPaired log)
    (he : ∀ messages, e = .llm messages → WellPaired messages) : LogPaired (log ++ [e]) := by
  intro messages hm
  rcases List.mem_append.mp hm with hm | hm
  · exact h messages hm
  · exact he messages (List.mem_singleton.mp hm).symm

variable {tr : Trace W}

/-- Tool runs send nothing to the provider. -/
theorem executeChatTool_logPaired {auto : List String} {cause : Cause} {tc : ToolCall} (h : LogPaired tr.log) :
    LogPaired (executeChatTool env auto cause tc tr).2.log := by
  rcases executeChatTool_cases env auto cause tc tr with hsame | ⟨tool, _, _, hrun⟩
  · rw [hsame]
    exact h
  · rw [hrun]
    exact h.snoc fun _ he => by cases he

theorem batch_logPaired (user : String) (calls : List ToolCall) (s : Session) (h : LogPaired tr.log) :
    LogPaired (batchResults env user calls s tr).2.log := by
  have hhook : ∀ {tr : Trace W} {original : ToolCall} {sensitive : List String}, LogPaired tr.log →
      LogPaired (hookToolCall env user original sensitive tr).2.log :=
    fun h => h.snoc fun _ he => by cases he
  have R : PreflightRule env user s.autoApprovedTools (fun _ _ tr => LogPaired tr.log) :=
    ⟨fun h _ => hhook h, fun h _ _ => hhook h, fun h _ _ => hhook h⟩
  exact batch_rule .batch R id (executeChatTool_logPaired env) calls tr h

/-- What the loop leaves. -/
def LoopPaired : AgenticLoopResult → Session → Trace W → Prop
  | .response _, _, tr => LogPaired tr.log
  | .needApproval pending, _, tr => LogPaired tr.log ∧ Resumable pending

theorem loop_paired (user : String) (tid : Uuid) :
    LoopRule env user tid (fun c _ tr => WellPaired c ∧ LogPaired tr.log) LoopPaired where
  warn := fun h => ⟨h.1.snocSystem rfl, h.2⟩
  ask := by
    intro c s tr prompt tools h
    refine ⟨h.1, h.2.snoc ?_⟩
    intro messages he
    cases he
    exact wellPaired_cons_system rfl h.1
  compact := fun h => ⟨h.1.compacted, h.2⟩
  nudge := by
    intro c s tr text h
    refine ⟨?_, h.2⟩
    have hassistant := h.1.snoc (m := ChatMessage.assistant text) (Or.inr rfl) rfl
    have huser := hassistant.snoc (m := ChatMessage.user toolIntentNudge) (Or.inl rfl) rfl
    rw [List.append_assoc] at huser
    exact huser
  answer := fun h => h.2
  continues := by
    intro c s tr calls content c' s' tr' h _ hb
    obtain ⟨hnone, rfl, _, rfl⟩ := runBatch_continues env hb
    exact ⟨(batch_open env user tid calls content c s tr h.1).1 hnone, batch_logPaired env user calls s h.2⟩
  finished := by
    intro c s tr calls content r s' tr' h _ hb
    have hbatch := batch_logPaired env user calls s h.2
    obtain ⟨_, hlog, hr⟩ := runBatch_finished env hb
    rw [← hlog] at hbatch
    rcases hr with ⟨instructions, rfl⟩ | ⟨idx, tc, tool, newId, happ, rfl⟩
    · exact hbatch
    · exact ⟨hbatch, (batch_open env user tid calls content c s tr h.1).2 idx tc tool newId happ⟩

end Batch

/-! ## Deferred calls -/

section Deferred

variable (env : Env W) (user : String) (tid : Uuid)

theorem deferredPostflightCall_context (p : DeferredPostflight W) (r : ToolCall × Except Error String) :
    ∃ text, (deferredPostflightCall env user tid p r).context
      = p.context ++ [ChatMessage.toolResult r.1.id r.1.name text] := by
  refine ⟨resultContent env (fun e => "Error: " ++ e) r.1.name r.2, ?_⟩
  have hnote : ∀ p' : DeferredPostflight W,
      (interceptFirstAuth env user tid r.1 r.2 p').context = p'.context := by
    intro p'
    unfold interceptFirstAuth
    split
    · rfl
    · rfl
  exact congrArg (· ++ _) (hnote _)

theorem deferredPostflight_open (rs : List (ToolCall × Except Error String)) (p : DeferredPostflight W)
    {ids : List String} (h : Open (rs.map (·.1.id) ++ ids) p.context) :
    Open ids (rs.foldl (deferredPostflightCall env user tid) p).context := by
  induction rs generalizing p with
  | nil => exact h
  | cons r rest ih =>
    obtain ⟨text, hcontext⟩ := deferredPostflightCall_context env user tid p r
    refine ih _ ?_
    rw [hcontext]
    have hfirst : Open ([r.1.id] ++ (rest.map (·.1.id) ++ ids)) p.context := h
    refine hfirst.step ?_ rfl
    intro m hm
    rw [List.mem_singleton.mp hm]
    rfl

theorem deferredResults_ids (runnable : List ToolCall) (results : List (Nat × Except Error String)) :
    (deferredResults runnable results).map (·.1.id) = runnable.map (·.id) := by
  have hall : ∀ k, (((runnable.zipIdx k).map fun t => (t.1, (slot results t.2).getD
      (.error (.tool (.executionFailed t.1.name "Task failed during execution"))))).map (·.1.id))
      = runnable.map (·.id) := by
    induction runnable with
    | nil => exact fun _ => rfl
    | cons tc rest ih => exact fun k => congrArg (tc.id :: ·) (ih (k + 1))
  exact hall 0

theorem deferredTrace_logPaired (deferred : List ToolCall) {st : AgentState W} (h : LogPaired st.trace.log) :
    LogPaired (deferredTrace env user st deferred).log :=
  executeRunnable_rule env (st.autoApproved user) .deferred (J := fun _ tr => LogPaired tr.log) id
    (executeChatTool_logPaired env) _ st.trace h

end Deferred

/-! ## Whole steps -/

section Steps

variable {env : Env W} {user : String} {tid : Uuid} {st st' : AgentState W}

/-- The invariant: stored requests can be resumed, and every list sent so far was well paired. -/
structure Protocol (st : AgentState W) : Prop where
  requests : ∀ user tid p, st.pendingAt user tid = some p → Resumable p
  log : LogPaired st.trace.log

theorem Protocol.calm (h : Protocol st) (hc : Calm st st') : Protocol st' := by
  refine ⟨fun user tid p hp => h.requests user tid p (hc.pending user tid p hp), ?_⟩
  intro messages hm
  rcases hc.log.mem hm with hold | hnew
  · exact h.log messages hold
  · exact wellPaired_of_plain hnew

variable {pending : PendingApproval}

theorem Protocol.raise (h : Protocol st) (hp : Resumable pending) : Protocol (raiseApproval user tid pending st).2 := by
  refine ⟨?_, h.log.snoc fun _ he => by cases he⟩
  intro user' tid' p hp'
  rcases raiseApproval_pendingAt st user tid pending hp' with hold | rfl
  · exact h.requests user' tid' p hold
  · exact hp

variable {context : List ChatMessage}

/-- The loop on a well-paired context. -/
theorem Protocol.loop (h : Protocol st) (hc : WellPaired context) : Protocol (runLoop env user tid context st).2
      ∧ ∀ pending, (runLoop env user tid context st).1 = .ok (.needApproval pending) → Resumable pending := by
  have hrequests : ∀ user' tid' p, (runLoop env user tid context st).2.pendingAt user' tid' = some p →
      Resumable p := by
    intro user' tid' p hp
    rw [runLoop_pendingAt] at hp
    exact h.requests user' tid' p hp
  have hlog : LogPaired (runLoop env user tid context st).2.trace.log
      ∧ ∀ pending, (runLoop env user tid context st).1 = .ok (.needApproval pending) → Resumable pending := by
    unfold runLoop
    cases st.manager.session user with
    | none => exact ⟨h.log, fun _ he => by cases he⟩
    | some s =>
      have hend := runAgenticLoop_rule (loop_paired env user tid) context s st.trace ⟨hc, h.log⟩
      dsimp only
      rcases hl : runAgenticLoop env user tid context s st.trace with ⟨e | ⟨text | pending⟩, s', tr'⟩
      · rw [hl] at hend
        obtain ⟨_, _, h'⟩ := hend
        exact ⟨h', fun _ he => by cases he⟩
      · rw [hl] at hend
        exact ⟨hend, fun _ he => by cases he⟩
      · rw [hl] at hend
        refine ⟨hend.1, ?_⟩
        intro p he
        cases he
        exact hend.2
  exact ⟨⟨hrequests, hlog.1⟩, hlog.2⟩

/-- The loop and the end of its turn. -/
theorem Protocol.finish (h : Protocol st) (hc : WellPaired context)
    (hend : Calm (runLoop env user tid context st).2 st' ∨ ∃ pending, (runLoop env user tid context st).1 =
      .ok (.needApproval pending) ∧ st' = (raiseApproval user tid pending (runLoop env user tid context st).2).2) :
    Protocol st' := by
  have hrun : Protocol (runLoop env user tid context st).2
      ∧ ∀ pending, (runLoop env user tid context st).1 = .ok (.needApproval pending) → Resumable pending :=
    h.loop hc
  obtain ⟨hloop, hrequest⟩ := hrun
  rcases hend with hcalm | ⟨pending, hresult, rfl⟩
  · exact hloop.calm hcalm
  · exact hloop.raise (hrequest pending hresult)

/-- **Replaying deferred calls**: those that run are answered, the rest stays lacking. -/
theorem Protocol.replay (h : Protocol st) {deferred : List ToolCall} (hc : Open (deferred.map (·.id)) context) :
    Protocol (replayDeferred env user tid deferred context st).2 := by
  obtain ⟨hcalm, hcases⟩ := replayDeferred_cases env user tid st deferred context
  have hrun : Protocol { st with trace := deferredTrace env user st deferred } :=
    ⟨h.requests, deferredTrace_logPaired env user deferred h.log⟩
  have hpost := hrun.calm hcalm
  have hopen : ∀ ids, deferred.map (·.id)
        = (deferredPreflight env (st.autoApproved user) st.trace.world 0 deferred).1.map (·.id) ++ ids →
      Open ids (deferredPostflight env user tid st deferred context).context := by
    intro ids hsplit
    refine deferredPostflight_open env user tid _ _ ?_
    rw [deferredResults_ids, ← hsplit]
    exact hc
  rcases deferredPreflight_splits env (st.autoApproved user) st.trace.world deferred 0 with
    hall | ⟨passed, tc, rest, tool, hsplit, hstop⟩
  · rw [hall] at hcases hopen
    have hpaired := (hopen [] (by rw [List.append_nil])).close
    rcases hcases with heq | ⟨_, _, _, hsome, _⟩ | ⟨_, heq⟩
    · rw [heq]
      exact hpost
    · cases hsome
    · rw [heq]
      exact hpost.finish hpaired (finishApproval_cases env user tid _ _)
  · rw [hstop] at hcases hopen
    have hlacking := hopen (tc.id :: rest.map (·.id)) (by rw [hsplit, List.map_append, List.map_cons])
    rcases hcases with heq | ⟨_, _, _, hsome, heq⟩ | ⟨hnone, _⟩
    · rw [heq]
      exact hpost
    · cases hsome
      rw [heq]
      have hdrop : deferred.drop (0 + passed.length + 1) = rest := by
        rw [hsplit, Nat.zero_add, ← List.drop_drop, List.drop_left]
        rfl
      rw [hdrop]
      exact (hpost.calm (Calm.draw env _)).raise hlacking
    · cases hnone

/-- **Resuming a request** answers its call first. -/
theorem Protocol.resume (h : Protocol st) (hp : Resumable pending) (always : Bool) :
    Protocol (resumeApproved env user tid pending always st).2 := by
  obtain ⟨st₁, hgrant, st₂, hrecord, hcases⟩ := resumeApproved_cases env user tid st pending always
  have hgranted := h.calm hgrant
  have hrun : Protocol { st₁ with trace := (approvedRun env user st₁ pending).2 } :=
    ⟨hgranted.requests, executeChatTool_logPaired env hgranted.log⟩
  have hrecorded := hrun.calm hrecord
  rcases hcases with heq | ⟨content, heq⟩
  · rw [heq]
    exact hrecorded
  · rw [heq]
    refine hrecorded.replay ?_
    have hfirst : Open ([pending.toolCallId] ++ pending.deferredToolCalls.map (·.id)) pending.contextMessages := hp
    refine hfirst.step ?_ rfl
    intro m hm
    rw [List.mem_singleton.mp hm]
    rfl

/-- A turn on plain messages. -/
theorem Protocol.turn (h : Protocol st) {initial : List ChatMessage} (hplain : Plain initial) :
    Protocol (runTurn env user tid initial st).2 :=
  h.finish (wellPaired_of_plain hplain) (finishTurn_cases env user tid _ _)

/-- An approval, whoever sends it. -/
theorem Protocol.approval (h : Protocol st) (requestId : Option Uuid) (approved always : Bool) :
    Protocol (processApproval env user tid requestId approved always st).2 := by
  rcases processApproval_cases env tid st user requestId approved always with
    ⟨_, hcalm⟩ | ⟨thread, pending, hthread, _, hpending, _, _, _, hr⟩
  · exact h.calm hcalm
  · rw [hr]
    have hp : st.pendingAt user tid = some pending :=
      Option.bind_eq_some_iff.mpr ⟨thread, hthread, hpending⟩
    exact (h.calm (takePendingApproval_calm tid st user hthread).1).resume (h.requests user tid pending hp) always

/-- A message. -/
theorem Protocol.message (h : Protocol st) (cmds : CommandEnv W) (i : Incoming) :
    Protocol (handleMessage env cmds i.msg i.now st).2 := by
  have heffect := handleMessage_effect env cmds i.msg i.now st
  generalize (handleMessage env cmds i.msg i.now st).2 = st' at heffect ⊢
  generalize messageWork env i.msg i.now st = work at heffect
  cases heffect with
  | calm hcalm => exact h.calm hcalm
  | turn context st₁ hcalm hplain hr =>
    rw [hr]
    exact (h.calm hcalm).turn hplain
  | resumed thread pending always st₁ hthread hstate hpending happroves hcalm htaken hr =>
    rw [hr]
    have hp : st.pendingAt i.msg.userId _ = some pending :=
      Option.bind_eq_some_iff.mpr ⟨thread, hthread, hpending⟩
    exact (h.calm hcalm).resume (h.requests _ _ pending hp) always

end Steps

/-! ## Whole runs -/

/-- What can happen: a message, a turn run on messages given by the caller, an approval. -/
inductive Action where
  | message (i : Incoming)
  | turn (user : String) (tid : Uuid) (initial : List ChatMessage)
  | approval (user : String) (tid : Uuid) (requestId : Option Uuid) (approved always : Bool)

/-- The state after an action. -/
def Action.perform (env : Env W) (cmds : CommandEnv W) (st : AgentState W) : Action → AgentState W
  | .message i => (handleMessage env cmds i.msg i.now st).2
  | .turn user tid initial => (runTurn env user tid initial st).2
  | .approval user tid requestId approved always =>
    (processApproval env user tid requestId approved always st).2

/-- Turns start from messages without tool requests and results. -/
def Action.Plain : Action → Prop
  | .turn _ _ initial => Freeclawdia.Plain initial
  | _ => True

/-- **The tool-call protocol.** From an agent that holds no approval request, in every run of messages, turns
    and approvals, whatever the provider, the tools and the hooks do, every message list passed to the provider
    is well paired. -/
theorem provider_requests_well_paired (env : Env W) (cmds : CommandEnv W) (st₀ st : AgentState W)
    (hlog : st₀.trace.log = []) (hpending : ∀ user tid, st₀.pendingAt user tid = none) (actions : List Action)
    (hrun : Runs (fun st a => some (a.perform env cmds st)) (fun _ a => a.Plain) st₀ actions st)
    (messages : List ChatMessage) (hsent : .llm messages ∈ st.trace.log) : WellPaired messages := by
  have hstart : Protocol st₀ := by
    refine ⟨?_, ?_⟩
    · intro user tid p hp
      rw [hpending] at hp
      cases hp
    · intro messages hm
      rw [hlog] at hm
      cases hm
  have hend : Protocol st := hrun.invariant (P := fun _ st => Protocol st) hstart ?_
  · exact hend.log messages hsent
  · intro actions a b action h hplain hstep
    rw [← Option.some.inj hstep]
    cases action with
    | message i => exact h.message cmds i
    | turn user tid initial => exact h.turn hplain
    | approval user tid requestId approved always => exact h.approval requestId approved always

/-- One batch of four calls: one that runs at once, two that need approval and an unknown tool. -/
def batchEnv : Env Nat :=
  { Env.scripted [⟨none, [⟨"a", "time", .null⟩, ⟨"b", "shell", .null⟩, ⟨"c", "vanish", .null⟩,
      ⟨"d", "shell", .null⟩]⟩] with
    tool := fun _ name =>
      if name = "time" then some ⟨"tell the time", [], fun _ => .never, none⟩
      else if name = "shell" then some ⟨"run a command", [], fun _ => .always, none⟩
      else none
    toolDefinitions := fun _ => [⟨"time", "tell the time", .null⟩, ⟨"shell", "run a command", .null⟩] }

/-- A message of one user. -/
def annSends (content : String) (now : Time) : Action :=
  .message ⟨{ channel := "cli", userId := "ann", content }, now⟩

/-- Is this a request that carries four results? -/
def carriesFour : Event → Bool
  | .llm messages => (messages.filter fun m => m.role = .tool).length == 4
  | _ => false

/-- The batch is split twice by approvals, and the next request carries all its results. -/
theorem provider_requests_well_paired_split :
    ∃ st : AgentState Nat, (st.trace.log.any carriesFour) = true
      ∧ ∀ messages, .llm messages ∈ st.trace.log → WellPaired messages := by
  refine ⟨_, ?_, provider_requests_well_paired batchEnv (CommandEnv.idle Nat) (AgentState.start {} 0) _ rfl
    (fun _ _ => rfl) [annSends "what time is it?" 0, annSends "yes" 1, annSends "yes" 2]
    (.snoc (.snoc (.snoc (.refl _) _ True.intro rfl) _ True.intro rfl) _ True.intro rfl)⟩
  decide

end Freeclawdia.ToolProtocol
