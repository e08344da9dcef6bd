import Freeclawdia.Correctness.Requests

/-!
# `Correctness.Naming` — which tools the chat path can run

Nothing between the model's answer and `Tool::execute` changes the name of a call. So if every call the model asks
for has a name with some property, then so has every call that runs, whichever way it takes: inline, as a spawned
task, approved by the user or deferred behind an approval. `Event.Names` states it of one event, `Named` of what a
handler does to the state, `handleMessage_named` of a whole message.
-/

namespace Freeclawdia

open Rust

variable {W : Type} {P : String → Prop}

/-- The calls a request stands for have names with the property. -/
def PendingApproval.Names (P : String → Prop) (p : PendingApproval) : Prop :=
  P p.toolName ∧ ∀ tc ∈ p.deferredToolCalls, P tc.name

/-- An event that runs or stores only calls whose names have the property. What runs is registered. -/
def Event.Names (env : Env W) (P : String → Prop) : Event → Prop
  | .executed call tool _ _ => P call.name ∧ ∃ w, env.tool w call.name = some tool
  | .raised pending => pending.Names P
  | _ => True

theorem Benign.names {env : Env W} {e : Event} (h : Benign e) : e.Names env P := by
  cases e with
  | llm messages => trivial
  | asked user content => trivial
  | answered user content => trivial
  | hooked original sensitive result => trivial
  | executed call tool auto cause => cases h
  | raised pending => cases h

/-- The model asks for nothing else. -/
def NamesOnly (env : Env W) (P : String → Prop) : Prop :=
  ∀ calls content, Asked env calls content → ∀ tc ∈ calls, P tc.name

/-- The requests stored on threads are for nothing else. -/
def AgentState.StoresNames (st : AgentState W) (P : String → Prop) : Prop :=
  ∀ user tid p, st.pendingAt user tid = some p → p.Names P

/-! ## Batches -/

section Batches

variable (env : Env W)

theorem executeRunnable_names (auto : List String) (cause : Cause) (runnable : List (Nat × ToolCall)) (tr : Trace W)
    (h : ∀ t ∈ runnable, P t.2.name) :
    Log.Grows (Event.Names env P) tr.log (executeRunnable env auto cause runnable tr).2.log := by
  have hend := executeRunnable_rule env auto cause
    (J := fun K tr' => (∀ tc ∈ K, P tc.name) ∧ Log.Grows (Event.Names env P) tr.log tr'.log) ?_ ?_ runnable tr ?_
  · exact hend.2
  · rintro K tr' ⟨_, hlog⟩
    exact ⟨fun tc htc => absurd htc (Multiset.notMem_zero tc), hlog⟩
  · rintro K tc tr' ⟨hK, hlog⟩
    refine ⟨fun tc' htc => hK tc' (Multiset.mem_cons_of_mem htc), ?_⟩
    rcases executeChatTool_cases env auto cause tc tr' with hsame | ⟨tool, htool, _, hrun⟩
    · rw [hsame]
      exact hlog
    · rw [hrun]
      have hname : (Event.executed tc tool auto cause).Names env P :=
        ⟨hK tc (Multiset.mem_cons_self tc K), tr'.world, htool⟩
      exact hlog.trans (Log.Grows.snoc hname _)
  · refine ⟨?_, Log.Grows.refl _ _⟩
    intro tc htc
    obtain ⟨t, ht, rfl⟩ := List.mem_map.mp (Multiset.mem_coe.mp htc)
    exact h t ht

theorem preflight_names (user : String) (auto : List String) (calls : List ToolCall) (tr : Trace W) :
    Log.Grows (Event.Names env P) tr.log (preflight env user auto 0 calls tr).2.log := by
  have hhook : ∀ (original : ToolCall) (sensitive : List String) (tr' : Trace W),
      Log.Grows (Event.Names env P) tr.log tr'.log →
        Log.Grows (Event.Names env P) tr.log (hookToolCall env user original sensitive tr').2.log :=
    fun original sensitive tr' hlog => hlog.trans (Log.Grows.snoc trivial _)
  have R : PreflightRule env user auto (fun _ _ tr' => Log.Grows (Event.Names env P) tr.log tr'.log) :=
    { rejected := fun hlog _ => hhook _ _ _ hlog
      cleared := fun hlog _ _ => hhook _ _ _ hlog
      stopped := fun hlog _ _ => hhook _ _ _ hlog }
  exact preflight_rule R calls 0 0 tr (Log.Grows.refl _ _)

variable {calls : List ToolCall}

/-- What preflight lets through and what it stops at are calls of the batch, up to parameters. -/
theorem preflight_calls (user : String) (auto : List String) (tr : Trace W) (h : ∀ tc ∈ calls, P tc.name) :
    (∀ e ∈ (preflight env user auto 0 calls tr).1.entries, P e.1.name)
      ∧ ∀ idx tc tool, (preflight env user auto 0 calls tr).1.approval = some (idx, tc, tool) → P tc.name := by
  have hentries : ∀ (entries : List (ToolCall × PreflightOutcome)) (passed : List ToolCall),
      entries.map (fun e => (e.1.id, e.1.name)) = passed.map (fun tc => (tc.id, tc.name)) →
        (∀ tc ∈ passed, P tc.name) → ∀ e ∈ entries, P e.1.name := by
    intro entries passed hsame hpassed e he
    have hin : (e.1.id, e.1.name) ∈ passed.map fun tc => (tc.id, tc.name) := by
      rw [← hsame]
      exact List.mem_map_of_mem he
    obtain ⟨tc, htc, heq⟩ := List.mem_map.mp hin
    have hname : tc.name = e.1.name := congrArg Prod.snd heq
    rw [← hname]
    exact hpassed tc htc
  rcases preflight_splits env user auto calls 0 tr with
    ⟨hnone, hsame⟩ | ⟨passed, original, rest, tc', tool', hcalls, happ, _, hname, hsame⟩
  · refine ⟨hentries _ _ hsame h, ?_⟩
    intro idx tc tool hsome
    rw [hnone] at hsome
    cases hsome
  · rw [hcalls] at h
    refine ⟨hentries _ _ hsame fun tc htc => h tc (List.mem_append_left _ htc), ?_⟩
    intro idx tc tool hsome
    rw [happ] at hsome
    cases hsome
    rw [hname]
    exact h original (List.mem_append_right _ List.mem_cons_self)

/-- **A batch runs what it was asked for.** -/
theorem batch_names (user : String) (s : Session) (tr : Trace W) (h : ∀ tc ∈ calls, P tc.name) :
    Log.Grows (Event.Names env P) tr.log (batchResults env user calls s tr).2.log := by
  refine (preflight_names env user s.autoApprovedTools calls tr).trans (executeRunnable_names env _ _ _ _ ?_)
  rintro ⟨i, tc⟩ ht
  obtain ⟨⟨⟨tc', outcome⟩, k⟩, hentry, hat⟩ := List.mem_filterMap.mp ht
  cases outcome with
  | rejected msg => cases hat
  | runnable =>
    cases hat
    exact (preflight_calls env user s.autoApprovedTools tr h).1 _ (List.fst_mem_of_mem_zipIdx hentry)

end Batches

/-! ## The loop -/

section Loop

variable {env : Env W} (user : String) (tid : Uuid)

/-- What the loop leaves: a request is for calls with the property. -/
def LoopNames (env : Env W) (P : String → Prop) (l : List Event) : AgenticLoopResult → Session → Trace W → Prop
  | .response _, _, tr => Log.Grows (Event.Names env P) l tr.log
  | .needApproval pending, _, tr => pending.Names P ∧ Log.Grows (Event.Names env P) l tr.log

theorem loop_names (h : NamesOnly env P) (l : List Event) :
    LoopRule env user tid (fun _ _ tr => Log.Grows (Event.Names env P) l tr.log) (LoopNames env P l) where
  warn := id
  ask := fun _ _ hlog => hlog.trans (Log.Grows.snoc trivial _)
  compact := id
  nudge := id
  answer := id
  continues := by
    intro c s tr calls content c' s' tr' hlog hasked hb
    obtain ⟨_, _, _, rfl⟩ := runBatch_continues env hb
    exact hlog.trans (batch_names env user s tr (h calls content hasked))
  finished := by
    intro c s tr calls content r s' tr' hlog hasked hb
    have hnames := h calls content hasked
    obtain ⟨_, hlog', hr⟩ := runBatch_finished env hb
    have hgrows : Log.Grows (Event.Names env P) l tr'.log := by
      rw [hlog']
      exact hlog.trans (batch_names env user s tr hnames)
    rcases hr with ⟨instructions, rfl⟩ | ⟨idx, tc, tool, newId, happ, rfl⟩
    · exact hgrows
    · refine ⟨⟨(preflight_calls env user s.autoApprovedTools tr hnames).2 idx tc tool happ, ?_⟩, hgrows⟩
      exact fun tc' htc => hnames tc' (List.mem_of_mem_drop htc)

variable (st : AgentState W)

theorem runLoop_names (h : NamesOnly env P) (context : List ChatMessage) :
    (∀ pending, (runLoop env user tid context st).1 = .ok (.needApproval pending) → pending.Names P)
      ∧ Log.Grows (Event.Names env P) st.trace.log (runLoop env user tid context st).2.trace.log := by
  unfold runLoop
  cases st.manager.session user with
  | none => exact ⟨fun _ he => (by cases he), Log.Grows.refl _ _⟩
  | some s =>
    have hend := runAgenticLoop_rule (loop_names user tid h st.trace.log) context s st.trace (Log.Grows.refl _ _)
    dsimp only
    rcases hl : runAgenticLoop env user tid context s st.trace with ⟨e | ⟨text | pending⟩, s', tr'⟩
    · rw [hl] at hend
      obtain ⟨_, h'⟩ := hend
      exact ⟨fun _ he => (by cases he), h'⟩
    · rw [hl] at hend
      exact ⟨fun _ he => (by cases he), hend⟩
    · rw [hl] at hend
      refine ⟨?_, hend.2⟩
      intro p he
      cases he
      exact hend.1

end Loop

/-! ## Messages -/

/-- Only calls whose names have the property were run or stored. -/
structure Named (env : Env W) (P : String → Prop) (st st' : AgentState W) : Prop where
  log : Log.Grows (Event.Names env P) st.trace.log st'.trace.log
  pending : ∀ user tid p, st'.pendingAt user tid = some p → st.pendingAt user tid = some p ∨ p.Names P

section Messages

variable {env : Env W} (user : String) (tid : Uuid) {st st' st'' : AgentState W}

theorem Named.of_calm (h : Calm st st') : Named env P st st' :=
  ⟨h.log.mono fun _ he => he.names, fun user tid p hp => Or.inl (h.pending user tid p hp)⟩

theorem Named.of_trace {tr : Trace W} (h : Log.Grows (Event.Names env P) st.trace.log tr.log) :
    Named env P st { st with trace := tr } :=
  ⟨h, fun _ _ _ hp => Or.inl hp⟩

theorem Named.trans (h : Named env P st st') (h' : Named env P st' st'') : Named env P st st'' := by
  refine ⟨h.log.trans h'.log, ?_⟩
  intro user tid p hp
  rcases h'.pending user tid p hp with hold | hnamed
  · exact h.pending user tid p hold
  · exact Or.inr hnamed

variable {pending : PendingApproval}

theorem Named.raise (h : pending.Names P) : Named env P st (raiseApproval user tid pending st).2 := by
  have hraised : (Event.raised pending).Names env P := h
  refine ⟨Log.Grows.snoc hraised _, ?_⟩
  intro user' tid' p hp
  rcases raiseApproval_pendingAt st user tid pending hp with hold | rfl
  · exact Or.inl hold
  · exact Or.inr h

theorem Named.stores (h : Named env P st st') (hstored : st.StoresNames P) : st'.StoresNames P := by
  intro user tid p hp
  rcases h.pending user tid p hp with hold | hnamed
  · exact hstored user tid p hold
  · exact hnamed

/-- The end of a loop: its request is stored, or something calm happens. -/
theorem finish_named (h : NamesOnly env P) {context : List ChatMessage}
    (hend : Calm (runLoop env user tid context st).2 st''
      ∨ ∃ pending, (runLoop env user tid context st).1 = .ok (.needApproval pending)
          ∧ st'' = (raiseApproval user tid pending (runLoop env user tid context st).2).2) : Named env P st st'' := by
  obtain ⟨hrequest, hlog⟩ := runLoop_names user tid st h context
  have hloop : Named env P st (runLoop env user tid context st).2 := by
    refine ⟨hlog, fun user' tid' p hp => Or.inl ?_⟩
    rw [runLoop_pendingAt] at hp
    exact hp
  rcases hend with hcalm | ⟨pending, hresult, rfl⟩
  · exact hloop.trans (.of_calm hcalm)
  · exact hloop.trans (.raise user tid (hrequest pending hresult))

/-- **A turn runs what the model asked for.** -/
theorem runTurn_named (h : NamesOnly env P) (context : List ChatMessage) :
    Named env P st (runTurn env user tid context st).2 :=
  finish_named user tid h (finishTurn_cases env user tid _ _)

theorem replayDeferred_named (h : NamesOnly env P) {deferred : List ToolCall} (hdef : ∀ tc ∈ deferred, P tc.name)
    (context : List ChatMessage) : Named env P st (replayDeferred env user tid deferred context st).2 := by
  obtain ⟨hcalm, hcases⟩ := replayDeferred_cases env user tid st deferred context
  obtain ⟨hrunnable, hstopped⟩ := deferredPreflight_mem env (st.autoApproved user) st.trace.world deferred 0
  have hran : Log.Grows (Event.Names env P) st.trace.log (deferredTrace env user st deferred).log := by
    refine executeRunnable_names env _ _ _ _ ?_
    intro t ht
    have hin : t.2 ∈ (((deferredPreflight env (st.autoApproved user) st.trace.world 0 deferred).1.zipIdx 0).map
        fun t => (t.2, t.1)).map Prod.snd := List.mem_map_of_mem ht
    rw [positioned_calls] at hin
    exact hdef _ (hrunnable _ hin)
  have hpost : Named env P st (deferredPostflight env user tid st deferred context).state :=
    (Named.of_trace hran).trans (.of_calm hcalm)
  rcases hcases with heq | ⟨idx, tc, tool, happ, heq⟩ | ⟨_, heq⟩
  · rw [heq]
    exact hpost
  · rw [heq]
    refine (hpost.trans (.of_calm (Calm.draw env _))).trans (.raise user tid ⟨hdef _ (hstopped idx tc tool happ), ?_⟩)
    exact fun tc' htc => hdef tc' (List.mem_of_mem_drop htc)
  · rw [heq]
    exact hpost.trans (finish_named user tid h (finishApproval_cases env user tid _ _))

/-- **Resuming a request runs its calls and what the model asks for afterwards.** -/
theorem resumeApproved_named (h : NamesOnly env P) (hpending : pending.Names P) (always : Bool) :
    Named env P st (resumeApproved env user tid pending always st).2 := by
  obtain ⟨st₁, hgrant, st₂, hcalm, hcases⟩ := resumeApproved_cases env user tid st pending always
  have hrun : Log.Grows (Event.Names env P) st₁.trace.log (approvedRun env user st₁ pending).2.log := by
    unfold approvedRun
    rcases executeChatTool_cases env (st₁.autoApproved user) (.approved pending.requestId) pending.call st₁.trace with
      hsame | ⟨tool, htool, _, hrun⟩
    · rw [hsame]
      exact Log.Grows.refl _ _
    · rw [hrun]
      have hname : (Event.executed pending.call tool (st₁.autoApproved user) (.approved pending.requestId)).Names env P :=
        ⟨hpending.1, st₁.trace.world, htool⟩
      exact Log.Grows.snoc hname _
  have hrecorded : Named env P st st₂ := ((Named.of_calm hgrant).trans (.of_trace hrun)).trans (.of_calm hcalm)
  rcases hcases with heq | ⟨content, heq⟩
  · rw [heq]
    exact hrecorded
  · rw [heq]
    exact hrecorded.trans (replayDeferred_named user tid h hpending.2 _)

/-- **An approval runs the calls of the request on the thread, and what the model asks for afterwards.** -/
theorem processApproval_named (h : NamesOnly env P) (hstored : ∀ p, st.pendingAt user tid = some p → p.Names P)
    (requestId : Option Uuid) (approved always : Bool) :
    Named env P st (processApproval env user tid requestId approved always st).2 := by
  rcases processApproval_cases env tid st user requestId approved always with
    ⟨_, hcalm⟩ | ⟨thread, pending, hthread, _, hpending, _, _, _, heq⟩
  · exact .of_calm hcalm
  · rw [heq]
    have hat : st.pendingAt user tid = some pending := Option.bind_eq_some_iff.mpr ⟨thread, hthread, hpending⟩
    exact (Named.of_calm (takePendingApproval_calm tid st user hthread).1).trans
      (resumeApproved_named user tid h (hstored pending hat) always)

/-- **A message runs what the model asks for, and calls it asked for earlier.** -/
theorem handleMessage_named (h : NamesOnly env P) (hstored : st.StoresNames P) (cmds : CommandEnv W)
    (msg : IncomingMessage) (now : Time) : Named env P st (handleMessage env cmds msg now st).2 := by
  have heffect := handleMessage_effect env cmds msg now st
  generalize (handleMessage env cmds msg now st).2 = st' at heffect ⊢
  generalize messageWork env msg now st = work at heffect
  cases heffect with
  | calm hcalm => exact .of_calm hcalm
  | turn context st₁ hcalm _ heq =>
    rw [heq]
    exact (Named.of_calm hcalm).trans (runTurn_named _ _ h context)
  | resumed thread pending always st₁ hthread _ hpending _ hcalm _ heq =>
    rw [heq]
    have hat : pending.Names P := hstored _ _ pending (Option.bind_eq_some_iff.mpr ⟨thread, hthread, hpending⟩)
    exact (Named.of_calm hcalm).trans (resumeApproved_named _ _ h hat always)

end Messages
end Freeclawdia
