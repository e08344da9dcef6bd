import Freeclawdia.Correctness.Requests

/-!
# `Correctness.AuditTrail` — which entry carries which outcome

All calls of a batch are recorded on the turn before any of them runs, and every outcome is then written to
the **last** entry. `withOutcomes` is the trail as it should be: the outcome of call `k` on entry `k`. The two
agree when there is nothing to mix up (`noteAll_eq_iff`): one entry, or no outcome yet.

The outcomes themselves are the calls' own, whatever order the spawned tasks finish in (`executeRunnable_own`,
`batchOutcomes_own`); only the place they are written to is wrong.
-/

namespace Freeclawdia.AuditTrail

open Rust

variable {W : Type}

/-! ## Writing outcomes -/

/-- An entry that carries an outcome. -/
def note : CallOutcome → TurnToolCall → TurnToolCall
  | .rejected msg, c => { c with error := some msg }
  | .ran (.ok output), c => { c with result := some (.string output) }
  | .ran (.error e), c => { c with error := some e.display }

/-- The trail as it should be: each outcome on the entry at its position. -/
def withOutcomes : List TurnToolCall → List CallOutcome → List TurnToolCall
  | e :: es, o :: os => note o e :: withOutcomes es os
  | es, _ => es

/-- What the code does with an outcome. -/
def noteLast (trail : List TurnToolCall) (o : CallOutcome) : List TurnToolCall :=
  trail.modify (trail.length - 1) (note o)

/-- What the code does with a list of outcomes. -/
def noteAll (outcomes : List CallOutcome) (trail : List TurnToolCall) : List TurnToolCall :=
  outcomes.foldl noteLast trail

/-- An entry without an outcome. -/
def Fresh (e : TurnToolCall) : Prop := e.result = none ∧ e.error = none

/-- No outcome goes unnoticed. -/
theorem note_ne_of_fresh (o : CallOutcome) {e : TurnToolCall} (he : Fresh e) : note o e ≠ e := by
  obtain ⟨hresult, herror⟩ := he
  intro h
  rcases o with msg | output | err
  · have := congrArg TurnToolCall.error h
    rw [herror] at this
    cases this
  · have := congrArg TurnToolCall.error h
    rw [herror] at this
    cases this
  · have := congrArg TurnToolCall.result h
    rw [hresult] at this
    cases this

variable {entries : List TurnToolCall}

theorem noteLast_append (before : List TurnToolCall) (h : entries ≠ []) (o : CallOutcome) :
    noteLast (before ++ entries) o = before ++ noteLast entries o := by
  induction before with
  | nil => rfl
  | cons e es ih =>
    have hcons : ∀ {l : List TurnToolCall}, l ≠ [] → noteLast (e :: l) o = e :: noteLast l o := by
      intro l hl
      cases l with
      | nil => exact absurd rfl hl
      | cons x xs => rfl
    rw [List.cons_append, hcons (List.append_ne_nil_of_right_ne_nil es h), ih, List.cons_append]

theorem noteLast_ne_nil (h : entries ≠ []) (o : CallOutcome) : noteLast entries o ≠ [] := by
  intro hnil
  have hlen := congrArg List.length hnil
  unfold noteLast at hlen
  rw [List.length_modify] at hlen
  exact h (List.length_eq_zero_iff.mp hlen)

/-- Earlier entries are out of reach. -/
theorem noteAll_append (outcomes : List CallOutcome) (before : List TurnToolCall) (h : entries ≠ []) :
    noteAll outcomes (before ++ entries) = before ++ noteAll outcomes entries := by
  induction outcomes generalizing entries with
  | nil => rfl
  | cons o os ih =>
    show noteAll os (noteLast (before ++ entries) o) = before ++ noteAll os (noteLast entries o)
    rw [noteLast_append before h, ih (noteLast_ne_nil h o)]

/-- **When the code's trail is the right one.** With two entries or more, the first outcome goes past the first
    entry. -/
theorem noteAll_eq_iff (before : List TurnToolCall) {outcomes : List CallOutcome} (hfresh : ∀ e ∈ entries, Fresh e)
    (hlen : outcomes.length ≤ entries.length) :
    noteAll outcomes (before ++ entries) = before ++ withOutcomes entries outcomes
      ↔ entries.length = 1 ∨ outcomes = [] := by
  cases outcomes with
  | nil =>
    refine ⟨fun _ => Or.inr rfl, fun _ => ?_⟩
    cases entries with
    | nil => rfl
    | cons e es => rfl
  | cons o os =>
    rcases entries with _ | ⟨e, _ | ⟨e', es⟩⟩
    · cases hlen
    · -- One entry, so at most one outcome.
      have hos : os = [] := by
        apply List.length_eq_zero_iff.mp
        simp only [List.length_cons, List.length_nil] at hlen
        omega
      subst hos
      refine ⟨fun _ => Or.inl rfl, fun _ => ?_⟩
      rw [noteAll_append _ before (List.cons_ne_nil e [])]
      rfl
    · have hcode : noteAll (o :: os) (before ++ e :: e' :: es)
          = before ++ e :: noteAll (o :: os) (e' :: es) := by
        have h := noteAll_append (o :: os) (before ++ [e]) (List.cons_ne_nil e' es)
        rwa [List.append_assoc, List.append_assoc] at h
      constructor
      · intro h
        rw [hcode] at h
        have hhead := (List.cons.inj (List.append_cancel_left h)).1
        exact absurd hhead.symm (note_ne_of_fresh o (hfresh e List.mem_cons_self))
      · rintro (h | h)
        · simp at h
        · cases h

/-! ## Own outcomes -/

section Own

variable (env : Env W) (user : String) (auto : List String) (cause : Cause)

/-- A moment of a run, by what had been logged. -/
def Between (tr now tr' : Trace W) : Prop := tr.log <+: now.log ∧ now.log <+: tr'.log

/-- The result of a task that panics. -/
def taskFailed (toolName : String) : Except Error String :=
  .error (.tool (.executionFailed toolName "Task failed during execution"))

/-- The call ran between the two moments, with this result; a spawned task may panic. -/
def RanTo (tc : ToolCall) (tr tr' : Trace W) (result : Except Error String) : Prop :=
  ∃ now, Between tr now tr'
    ∧ (result = (executeChatTool env auto cause tc now).1
      ∨ (env.taskPanics tc (executeChatTool env auto cause tc now).2.world = true ∧ result = taskFailed tc.name))

variable {env auto cause} {tc : ToolCall} {tr tr' tr₁ : Trace W}

theorem RanTo.widen {tr₂ : Trace W} {result : Except Error String} (h : RanTo env auto cause tc tr₁ tr₂ result)
    (hfrom : tr.log <+: tr₁.log) (hto : tr₂.log <+: tr'.log) : RanTo env auto cause tc tr tr' result := by
  obtain ⟨now, hnow, hresult⟩ := h
  exact ⟨now, ⟨hfrom.trans hnow.1, hnow.2.trans hto⟩, hresult⟩

variable (env auto cause)

theorem executeChatTool_log (tc : ToolCall) (tr : Trace W) :
    tr.log <+: (executeChatTool env auto cause tc tr).2.log := by
  rcases executeChatTool_cases env auto cause tc tr with h | ⟨tool, _, _, h⟩
  · rw [h]
  · rw [h]
    exact List.prefix_append _ _

theorem runTasks_log (fuel : Nat) (tasks : List (Nat × ToolCall)) (tr : Trace W) :
    tr.log <+: (runTasks env auto cause fuel tasks tr).2.log :=
  runTasks_rule (J := fun _ tr' => tr.log <+: tr'.log) id
    (fun h => h.trans (executeChatTool_log env auto cause _ _)) fuel tasks tr (List.prefix_refl _)

/-- Results are slotted at positions of tasks. -/
theorem runTasks_positions (fuel : Nat) (tasks : List (Nat × ToolCall)) (tr : Trace W) {i : Nat}
    (h : i ∉ tasks.map Prod.fst) : slot (runTasks env auto cause fuel tasks tr).1 i = none := by
  induction fuel generalizing tasks tr with
  | zero => rfl
  | succ fuel ih =>
    unfold runTasks
    cases htask : tasks[env.nextTask tr.world % tasks.length]? with
    | none => rfl
    | some task =>
      have hmem : task ∈ tasks := List.mem_of_getElem? htask
      have hne : task.1 ≠ i := by
        rintro rfl
        exact h (List.mem_map_of_mem hmem)
      have hrest := ih (tasks.eraseIdx (env.nextTask tr.world % tasks.length))
        (executeChatTool env auto cause task.2 tr).2
        (fun hi => h (List.map_subset _ (List.eraseIdx_subset) hi))
      dsimp only
      split
      · exact hrest
      · unfold slot at hrest ⊢
        rw [List.find?_cons_of_neg (by simpa using hne)]
        exact hrest

variable {t : Nat × ToolCall}

/-- **Spawned tasks.** Whatever order they run in, the result slotted at a task's position is its own. -/
theorem runTasks_own (fuel : Nat) (tasks : List (Nat × ToolCall)) (tr : Trace W) (hfuel : tasks.length ≤ fuel)
    (hnodup : (tasks.map Prod.fst).Nodup) (ht : t ∈ tasks) :
    RanTo env auto cause t.2 tr (runTasks env auto cause fuel tasks tr).2
      ((slot (runTasks env auto cause fuel tasks tr).1 t.1).getD (taskFailed t.2.name)) := by
  induction fuel generalizing tasks tr with
  | zero =>
    rw [List.length_eq_zero_iff.mp (Nat.le_zero.mp hfuel)] at ht
    cases ht
  | succ fuel ih =>
    have hpos : 0 < tasks.length := List.length_pos_of_mem ht
    have hlt : env.nextTask tr.world % tasks.length < tasks.length := Nat.mod_lt _ hpos
    unfold runTasks
    generalize hi : env.nextTask tr.world % tasks.length = i at hlt ⊢
    have hget : tasks[i]? = some tasks[i] := List.getElem?_eq_getElem hlt
    rw [hget]
    dsimp only
    generalize htask : tasks[i] = task
    have hperm : (task :: tasks.eraseIdx i).Perm tasks := by
      rw [← htask]
      exact List.getElem_cons_eraseIdx_perm hlt
    have hnodup' : ((task :: tasks.eraseIdx i).map Prod.fst).Nodup := (hperm.map Prod.fst).nodup_iff.mpr hnodup
    obtain ⟨hnotin, hnodup''⟩ := List.nodup_cons.mp hnodup'
    have hlater := runTasks_log env auto cause fuel (tasks.eraseIdx i)
      (executeChatTool env auto cause task.2 tr).2
    have hfirst := executeChatTool_log env auto cause task.2 tr
    have habsent := runTasks_positions env auto cause fuel (tasks.eraseIdx i)
      (executeChatTool env auto cause task.2 tr).2 hnotin
    rcases List.mem_cons.mp (hperm.mem_iff.mpr ht) with rfl | hrest
    · -- The task that runs now; no later one has its position.
      refine ⟨tr, ⟨List.prefix_refl _, hfirst.trans hlater⟩, ?_⟩
      cases hpanics : env.taskPanics t.2 (executeChatTool env auto cause t.2 tr).2.world with
      | true =>
        right
        refine ⟨rfl, ?_⟩
        rw [if_pos rfl, habsent]
        rfl
      | false =>
        left
        simp [slot]
    · have hne : task.1 ≠ t.1 := by
        intro h
        rw [h] at hnotin
        exact hnotin (List.mem_map_of_mem hrest)
      have hlen : (tasks.eraseIdx i).length ≤ fuel := by
        rw [List.length_eraseIdx_of_lt hlt]
        omega
      have hown := (ih (tasks.eraseIdx i) (executeChatTool env auto cause task.2 tr).2 hlen hnodup'' hrest).widen
        hfirst (List.prefix_refl _)
      split
      · exact hown
      · have hskip : ∀ r rs, slot ((task.1, r) :: rs) t.1 = slot rs t.1 := by
          intro r rs
          unfold slot
          rw [List.find?_cons_of_neg (by simpa using hne)]
        rw [hskip]
        exact hown

theorem slot_map {g : Nat × ToolCall → Except Error String} {tasks : List (Nat × ToolCall)}
    (hnodup : (tasks.map Prod.fst).Nodup) (ht : t ∈ tasks) : slot (tasks.map fun t => (t.1, g t)) t.1 = some (g t) := by
  induction tasks with
  | nil => cases ht
  | cons x xs ih =>
    obtain ⟨hnotin, hnodup'⟩ := List.nodup_cons.mp hnodup
    rcases List.mem_cons.mp ht with rfl | hrest
    · simp [slot]
    · have hne : x.1 ≠ t.1 := by
        intro h
        rw [h] at hnotin
        exact hnotin (List.mem_map_of_mem hrest)
      unfold slot at ih ⊢
      rw [List.map_cons, List.find?_cons_of_neg (by simpa using hne)]
      exact ih hnodup' hrest

/-- **Execution of a batch**: the result slotted at a call's position is its own. -/
theorem executeRunnable_own {runnable : List (Nat × ToolCall)} (tr : Trace W) (hnodup : (runnable.map Prod.fst).Nodup)
    (ht : t ∈ runnable) : ∃ result, slot (executeRunnable env auto cause runnable tr).1 t.1 = some result
      ∧ RanTo env auto cause t.2 tr (executeRunnable env auto cause runnable tr).2 result := by
  unfold executeRunnable
  split
  · cases ht
  · rename_i x
    rw [List.mem_singleton.mp ht]
    refine ⟨(executeChatTool env auto cause x.2 tr).1, by simp [slot], tr, ⟨List.prefix_refl _, ?_⟩, Or.inl rfl⟩
    exact executeChatTool_log env auto cause x.2 tr
  · exact ⟨_, slot_map hnodup ht, runTasks_own env auto cause runnable.length runnable tr le_rfl hnodup ht⟩

/-- What became of a call of a batch: the hooks rejected it, or they let it through and it ran. -/
inductive OwnOutcome (tc : ToolCall) (tr tr' : Trace W) : CallOutcome → Prop
  | rejected {msg : String} (now : Trace W) (hnow : Between tr now tr')
      (h : (hookToolCall env user tc (sensitiveOf (env.tool now.world tc.name)) now).1 = .error msg) :
      OwnOutcome tc tr tr' (.rejected msg)
  | ran {tc' : ToolCall} {result : Except Error String} (now : Trace W) (hnow : Between tr now tr')
      (h : (hookToolCall env user tc (sensitiveOf (env.tool now.world tc.name)) now).1 = .ok tc')
      (hran : RanTo env auto cause tc' tr tr' result) : OwnOutcome tc tr tr' (.ran result)

theorem executeRunnable_log (runnable : List (Nat × ToolCall)) (tr : Trace W) :
    tr.log <+: (executeRunnable env auto cause runnable tr).2.log :=
  executeRunnable_rule env auto cause (J := fun _ tr' => tr.log <+: tr'.log) id
    (fun h => h.trans (executeChatTool_log env auto cause _ _)) runnable tr (List.prefix_refl _)

theorem hookToolCall_log (tc : ToolCall) (sensitive : List String) (tr : Trace W) :
    tr.log <+: (hookToolCall env user tc sensitive tr).2.log :=
  List.prefix_append _ _

theorem preflight_log (calls : List ToolCall) (idx : Nat) (tr : Trace W) :
    tr.log <+: (preflight env user auto idx calls tr).2.log := by
  have hhook : ∀ {tr' : Trace W} {tc : ToolCall} {sensitive : List String}, tr.log <+: tr'.log →
      tr.log <+: (hookToolCall env user tc sensitive tr').2.log :=
    fun h => h.trans (hookToolCall_log env user _ _ _)
  have R : PreflightRule env user auto (fun _ _ tr' => tr.log <+: tr'.log) :=
    ⟨fun h _ => hhook h, fun h _ _ => hhook h, fun h _ _ => hhook h⟩
  exact preflight_rule R calls idx 0 tr (List.prefix_refl _)

/-- The entry the hooks leave for a call. -/
def HookedTo (tc : ToolCall) (tr tr' : Trace W) (e : ToolCall × PreflightOutcome) : Prop :=
  ∃ now, Between tr now tr'
    ∧ ((∃ msg, (hookToolCall env user tc (sensitiveOf (env.tool now.world tc.name)) now).1 = .error msg
          ∧ e.2 = .rejected msg)
      ∨ ((hookToolCall env user tc (sensitiveOf (env.tool now.world tc.name)) now).1 = .ok e.1
          ∧ e.2 = .runnable))

variable {e : ToolCall × PreflightOutcome}

theorem HookedTo.widen (h : HookedTo env user tc tr₁ tr' e) (hfrom : tr.log <+: tr₁.log) :
    HookedTo env user tc tr tr' e := by
  obtain ⟨now, hnow, hhook⟩ := h
  exact ⟨now, ⟨hfrom.trans hnow.1, hnow.2⟩, hhook⟩

variable {k : Nat}

/-- **Preflight** has an entry for each call it got through, at the call's position. -/
theorem preflight_own (calls : List ToolCall) (idx : Nat) (tr : Trace W)
    (hk : (preflight env user auto idx calls tr).1.entries[k]? = some e) :
    ∃ tc, calls[k]? = some tc ∧ HookedTo env user tc tr (preflight env user auto idx calls tr).2 e := by
  induction calls generalizing idx tr k with
  | nil => cases hk
  | cons original rest ih =>
    have hlog := hookToolCall_log env user original (sensitiveOf (env.tool tr.world original.name)) tr
    rcases hhook : hookToolCall env user original (sensitiveOf (env.tool tr.world original.name)) tr with
      ⟨msg | tc, tr'⟩
    · rw [hhook] at hlog
      rw [preflight_rejected hhook] at hk ⊢
      cases k with
      | zero =>
        cases hk
        refine ⟨original, rfl, tr, ⟨List.prefix_refl _, ?_⟩, Or.inl ⟨msg, by rw [hhook], rfl⟩⟩
        exact hlog.trans (preflight_log env user auto rest (idx + 1) tr')
      | succ k =>
        obtain ⟨tc, htc, hown⟩ := ih (idx + 1) tr' hk
        exact ⟨tc, htc, hown.widen env user hlog⟩
    · rw [hhook] at hlog
      cases happ : approvalFor env (env.tool tr.world original.name) tc auto with
      | some tool =>
        rw [preflight_stopped hhook happ] at hk
        cases hk
      | none =>
        rw [preflight_cleared hhook happ] at hk ⊢
        cases k with
        | zero =>
          cases hk
          refine ⟨original, rfl, tr, ⟨List.prefix_refl _, ?_⟩, Or.inr ⟨by rw [hhook], rfl⟩⟩
          exact hlog.trans (preflight_log env user auto rest (idx + 1) tr')
        | succ k =>
          obtain ⟨tc', htc', hown⟩ := ih (idx + 1) tr' hk
          exact ⟨tc', htc', hown.widen env user hlog⟩

/-- Positions of runnable calls are distinct. -/
theorem runnableOf_nodup (entries : List (ToolCall × PreflightOutcome)) :
    ((runnableOf entries).map Prod.fst).Nodup := by
  have hall : ∀ k, (((entries.zipIdx k).filterMap runnableAt).map Prod.fst).Nodup
      ∧ ∀ i ∈ ((entries.zipIdx k).filterMap runnableAt).map Prod.fst, k ≤ i := by
    induction entries with
    | nil => exact fun k => ⟨List.nodup_nil, fun i hi => (by cases hi)⟩
    | cons e es ih =>
      intro k
      obtain ⟨hnodup, hge⟩ := ih (k + 1)
      rcases e with ⟨tc, msg | _⟩
      · exact ⟨hnodup, fun i hi => Nat.le_of_succ_le (hge i hi)⟩
      · refine ⟨List.nodup_cons.mpr ⟨fun hk => ?_, hnodup⟩, ?_⟩
        · exact absurd (hge k hk) (Nat.not_succ_le_self k)
        · intro i hi
          rcases List.mem_cons.mp hi with rfl | hi
          · exact le_rfl
          · exact Nat.le_of_succ_le (hge i hi)
  exact (hall 0).1

/-- A runnable entry is executed under its position. -/
theorem mem_runnableOf {entries : List (ToolCall × PreflightOutcome)} (h : entries[k]? = some (tc, .runnable)) :
    (k, tc) ∈ runnableOf entries := by
  unfold runnableOf
  refine List.mem_filterMap.mpr ⟨((tc, .runnable), k), ?_, rfl⟩
  rw [List.mem_iff_getElem?]
  refine ⟨k, ?_⟩
  rw [List.getElem?_zipIdx, h]
  simp

end Own

/-! ## The trail of a turn -/

/-- The calls recorded on the current turn of a thread. -/
def threadTrail (t : Thread) : Option (List TurnToolCall) :=
  t.turns.getLast?.map (·.toolCalls)

/-- The calls recorded on the current turn of a session's thread. -/
def sessionTrail (s : Session) (tid : Uuid) : Option (List TurnToolCall) :=
  (s.threads.lookup tid).bind threadTrail

variable {g : List TurnToolCall → List TurnToolCall}

theorem threadTrail_modifyLastTurn (t : Thread) {f : Turn → Turn} (hf : ∀ turn, (f turn).toolCalls = g turn.toolCalls) :
    threadTrail (t.modifyLastTurn f) = (threadTrail t).map g := by
  unfold threadTrail
  rw [Thread.modifyLastTurn_turns, List.getLast?_eq_getElem?, List.getLast?_eq_getElem?, List.length_modify,
    List.getElem?_modify_eq]
  cases t.turns[t.turns.length - 1]? with
  | none => rfl
  | some turn => exact congrArg some (hf turn)

variable {f : Thread → Thread}

theorem sessionTrail_modifyThread (s : Session) (tid : Uuid) (hf : ∀ t, threadTrail (f t) = (threadTrail t).map g) :
    sessionTrail (s.modifyThread tid f) tid = (sessionTrail s tid).map g := by
  unfold sessionTrail
  rw [Session.lookup_modifyThread_self]
  cases s.threads.lookup tid with
  | none => rfl
  | some t => exact hf t

theorem sessionTrail_modifyThread_same (s : Session) (tid : Uuid) (hf : ∀ t, threadTrail (f t) = threadTrail t) :
    sessionTrail (s.modifyThread tid f) tid = sessionTrail s tid := by
  rw [sessionTrail_modifyThread (g := id) s tid fun t => by rw [hf, Option.map_id]; rfl, Option.map_id]
  rfl

/-- Recording an outcome writes to the last entry. -/
theorem recordResult_toolCalls (result : Except Error String) (turn : Turn) :
    (recordResult result turn).toolCalls = noteLast turn.toolCalls (.ran result) := by
  cases result with
  | ok output => rfl
  | error e => rfl

/-! ## The trail of a batch -/

section Batch

variable (env : Env W) (user : String) (tid : Uuid) (calls : List ToolCall) (content : Option String)
  (context : List ChatMessage) (s : Session) (tr : Trace W)

/-- What the calls of a batch came to, as far as preflight got. -/
def batchOutcomes : List CallOutcome :=
  (outcomesOf (batchPreflight env user calls s tr).1.entries (batchResults env user calls s tr).1).map Prod.snd

/-- **The outcomes are the calls' own.** -/
theorem batchOutcomes_own {k : Nat} {o : CallOutcome} (hk : (batchOutcomes env user calls s tr)[k]? = some o) :
    ∃ tc, calls[k]? = some tc
      ∧ OwnOutcome env user s.autoApprovedTools .batch tc tr (batchResults env user calls s tr).2 o := by
  have hentry : (batchPreflight env user calls s tr).1.entries[k]?.map (fun e =>
      (outcomeAt (batchResults env user calls s tr).1 (e, k)).2) = some o := by
    rw [← hk]
    unfold batchOutcomes outcomesOf
    rw [List.getElem?_map, List.getElem?_map, List.getElem?_zipIdx]
    cases (batchPreflight env user calls s tr).1.entries[k]? with
    | none => rfl
    | some e => simp
  obtain ⟨⟨tc', outcome⟩, he, rfl⟩ := Option.map_eq_some_iff.mp hentry
  obtain ⟨tc, htc, now, hnow, hhook⟩ := preflight_own env user s.autoApprovedTools calls 0 tr he
  have hlog : (batchPreflight env user calls s tr).2.log <+: (batchResults env user calls s tr).2.log :=
    executeRunnable_log env s.autoApprovedTools .batch _ _
  have hnow' : Between tr now (batchResults env user calls s tr).2 := ⟨hnow.1, hnow.2.trans hlog⟩
  refine ⟨tc, htc, ?_⟩
  rcases hhook with ⟨msg, hrejected, hout⟩ | ⟨hok, hout⟩
  · dsimp only at hout
    subst hout
    exact .rejected now hnow' hrejected
  · dsimp only at hout
    subst hout
    obtain ⟨result, hslot, hran⟩ := executeRunnable_own env s.autoApprovedTools .batch
      (batchPreflight env user calls s tr).2 (runnableOf_nodup _) (mem_runnableOf he)
    have hresult : slot (batchResults env user calls s tr).1 k = some result := hslot
    have houtcome : (outcomeAt (batchResults env user calls s tr).1 ((tc', .runnable), k)).2 = .ran result := by
      unfold outcomeAt
      dsimp only
      rw [hresult]
      rfl
    rw [houtcome]
    exact .ran now hnow' hok (hran.widen (preflight_log env user s.autoApprovedTools calls 0 tr) (List.prefix_refl _))

theorem postflightCall_trail (p : Postflight) (o : ToolCall × CallOutcome) :
    sessionTrail (postflightCall env tid p o).session tid = (sessionTrail p.session tid).map (noteLast · o.2) := by
  rcases o with ⟨tc, msg | result⟩
  · exact sessionTrail_modifyThread p.session tid fun t => threadTrail_modifyLastTurn t fun _ => rfl
  · have hrecord : sessionTrail (onLastTurn tid (recordResult result) p.session) tid
        = (sessionTrail p.session tid).map (noteLast · (.ran result)) :=
      sessionTrail_modifyThread p.session tid fun t =>
        threadTrail_modifyLastTurn t (recordResult_toolCalls result)
    have hauth : ∀ p' : Postflight,
        sessionTrail (noteAuth env tid tc result p').session tid = sessionTrail p'.session tid := by
      intro p'
      unfold noteAuth
      split
      · exact sessionTrail_modifyThread_same p'.session tid fun _ => rfl
      · rfl
    exact (hauth _).trans hrecord

theorem postflight_trail (outcomes : List (ToolCall × CallOutcome)) (p : Postflight) :
    sessionTrail (postflight env tid outcomes p).session tid
      = (sessionTrail p.session tid).map (noteAll (outcomes.map Prod.snd)) := by
  unfold postflight
  induction outcomes generalizing p with
  | nil =>
    show sessionTrail p.session tid = (sessionTrail p.session tid).map id
    rw [Option.map_id]
    rfl
  | cons o rest ih =>
    rw [List.foldl_cons, ih, postflightCall_trail, Option.map_map]
    rfl

/-- The entry recorded for a call. -/
def recorded (tc : ToolCall) : TurnToolCall :=
  { name := tc.name, parameters := recordedArguments env tr.world tc }

theorem recordCalls_toolCalls (turn : Turn) :
    (recordCalls env tr.world calls turn).toolCalls = turn.toolCalls ++ calls.map (recorded env tr) := by
  unfold recordCalls
  induction calls generalizing turn with
  | nil => exact (List.append_nil _).symm
  | cons tc rest ih =>
    rw [List.foldl_cons, ih]
    exact List.append_assoc _ _ _

/-- **What a batch leaves on the turn.** -/
theorem runBatch_trail : sessionTrail (runBatch env user tid calls content context s tr).2.1 tid
      = (sessionTrail s tid).map fun trail =>
          noteAll (batchOutcomes env user calls s tr) (trail ++ calls.map (recorded env tr)) := by
  have hstart : sessionTrail (batchStart env tid calls content context s tr).session tid
      = (sessionTrail s tid).map (· ++ calls.map (recorded env tr)) :=
    sessionTrail_modifyThread s tid fun t =>
      threadTrail_modifyLastTurn t (recordCalls_toolCalls env calls tr)
  rw [runBatch_session]
  unfold batchPostflight
  rw [postflight_trail, hstart, Option.map_map]
  rfl

end Batch

/-! ## The trail after an approval -/

section Approval

variable (env : Env W) (user : String) (tid : Uuid) (st : AgentState W)

/-- The calls recorded on the current turn of a user's thread. -/
def trailAt : Option (List TurnToolCall) := (st.thread user tid).bind threadTrail

variable {f : Thread → Thread}

theorem trailAt_modifyThread {g : List TurnToolCall → List TurnToolCall}
    (hf : ∀ t, threadTrail (f t) = (threadTrail t).map g) :
    trailAt user tid (st.modifyThread user tid f) = (trailAt user tid st).map g := by
  unfold trailAt
  rw [AgentState.thread_modifyThread_self]
  cases st.thread user tid with
  | none => rfl
  | some t => exact hf t

theorem trailAt_modifyThread_same (hf : ∀ t, threadTrail (f t) = threadTrail t) :
    trailAt user tid (st.modifyThread user tid f) = trailAt user tid st := by
  rw [trailAt_modifyThread (g := id) user tid st fun t => by rw [hf, Option.map_id]; rfl, Option.map_id]
  rfl

/-- Answering or failing a turn leaves its calls alone. -/
theorem threadTrail_modifyLastTurn_same (t : Thread) {f : Turn → Turn}
    (hf : ∀ turn, (f turn).toolCalls = turn.toolCalls) : threadTrail (t.modifyLastTurn f) = threadTrail t := by
  rw [threadTrail_modifyLastTurn (g := id) t hf, Option.map_id]
  rfl

theorem completeAnswer_trail (response : String) :
    trailAt user tid (completeAnswer env user tid response st) = trailAt user tid st := by
  rw [← trailAt_modifyThread_same (f := (Thread.completeTurn · response)) user tid st fun t =>
    threadTrail_modifyLastTurn_same t fun _ => rfl]
  unfold trailAt
  rw [completeAnswer_thread]

theorem handleAuthIntercept_trail (ext instructions : String) :
    trailAt user tid (handleAuthIntercept env user tid ext instructions st) = trailAt user tid st := by
  rw [← trailAt_modifyThread_same (f := fun t => (t.enterAuthMode ext).completeTurn instructions) user tid st
    fun t => threadTrail_modifyLastTurn_same (t.enterAuthMode ext) fun _ => rfl]
  unfold trailAt
  rw [handleAuthIntercept_thread]

/-- What happens after post-flight only appends: to the trail and to the log. -/
structure Onward (st st' : AgentState W) : Prop where
  trail : ∀ trail, trailAt user tid st = some trail → ∃ trail', trailAt user tid st' = some trail' ∧ trail <+: trail'
  log : st.trace.log <+: st'.trace.log

variable {user tid} {st} {st' : AgentState W}

theorem Onward.of_calm (hc : Calm st st') (ht : trailAt user tid st' = trailAt user tid st) : Onward user tid st st' :=
  ⟨fun trail h => ⟨trail, ht.trans h, List.prefix_refl _⟩, hc.log.isPrefix⟩

theorem Onward.trans {st'' : AgentState W} (h : Onward user tid st st') (h' : Onward user tid st' st'') :
    Onward user tid st st'' := by
  refine ⟨?_, h.log.trans h'.log⟩
  intro trail ht
  obtain ⟨trail', ht', hpre⟩ := h.trail trail ht
  obtain ⟨trail'', ht'', hpre'⟩ := h'.trail trail' ht'
  exact ⟨trail'', ht'', hpre.trans hpre'⟩

variable (user tid) (st)

variable (deferred : List ToolCall) (pending : PendingApproval) (context : List ChatMessage) (always : Bool)

theorem raiseApproval_onward : Onward user tid st (raiseApproval user tid pending st).2 := by
  refine ⟨fun trail h => ⟨trail, ?_, List.prefix_refl _⟩, List.prefix_append _ _⟩
  exact (trailAt_modifyThread_same (f := (Thread.awaitApproval · pending)) user tid st fun _ => rfl).trans h

/-- The trail of `s'` starts with that of `s`. -/
def Extends (s s' : Session) : Prop :=
  ∀ trail, sessionTrail s tid = some trail → ∃ trail', sessionTrail s' tid = some trail' ∧ trail <+: trail'

theorem runBatch_extends {calls : List ToolCall} (hne : calls ≠ []) (content : Option String)
    (context : List ChatMessage) {s₀ s : Session} (tr : Trace W) (h : Extends tid s₀ s) :
    Extends tid s₀ (runBatch env user tid calls content context s tr).2.1 := by
  intro trail ht
  obtain ⟨trail', ht', hpre⟩ := h trail ht
  refine ⟨noteAll (batchOutcomes env user calls s tr) (trail' ++ calls.map (recorded env tr)), ?_, ?_⟩
  · rw [runBatch_trail, ht']
    rfl
  · rw [noteAll_append _ trail' (by simpa using hne)]
    exact hpre.trans (List.prefix_append _ _)

theorem runBatch_log (calls : List ToolCall) (content : Option String) (context : List ChatMessage)
    (s : Session) (tr : Trace W) : tr.log <+: (runBatch env user tid calls content context s tr).2.2.log := by
  have hlog : tr.log <+: (batchResults env user calls s tr).2.log :=
    (preflight_log env user s.autoApprovedTools calls 0 tr).trans
      (executeRunnable_log env s.autoApprovedTools .batch _ _)
  rw [runBatch_eq]
  rcases finishBatch_cases env calls (batchPreflight env user calls s tr).1.approval
      (batchPostflight env user tid calls content context s tr) (batchResults env user calls s tr).2 with
    ⟨_, h⟩ | ⟨_, _, _, _, h⟩ | ⟨_, h⟩
  · rw [h]; exact hlog
  · rw [h]; exact hlog
  · rw [h]; exact hlog

/-- Later batches of the loop append to the trail. -/
theorem runAgenticLoop_extends (s : Session) (tr : Trace W) :
    Extends tid s (runAgenticLoop env user tid context s tr).2.1
      ∧ tr.log <+: (runAgenticLoop env user tid context s tr).2.2.log := by
  have R : LoopRule env user tid (fun _ s' tr' => Extends tid s s' ∧ tr.log <+: tr'.log)
      (fun _ s' tr' => Extends tid s s' ∧ tr.log <+: tr'.log) :=
    { warn := id
      ask := fun _ _ h => ⟨h.1, h.2.trans (List.prefix_append _ _)⟩
      compact := id
      nudge := id
      answer := id
      continues := by
        intro c s₁ tr₁ calls content c' s' tr' h hasked hb
        have hlog := runBatch_log env user tid calls content c s₁ tr₁
        have hnext := runBatch_extends env user tid hasked.ne_nil content c tr₁ h.1
        rw [hb] at hlog hnext
        exact ⟨hnext, h.2.trans hlog⟩
      finished := by
        intro c s₁ tr₁ calls content r s' tr' h hasked hb
        have hlog := runBatch_log env user tid calls content c s₁ tr₁
        have hnext := runBatch_extends env user tid hasked.ne_nil content c tr₁ h.1
        rw [hb] at hlog hnext
        exact ⟨hnext, h.2.trans hlog⟩ }
  have hstart : Extends tid s s := fun trail h => ⟨trail, h, List.prefix_refl _⟩
  have hend := runAgenticLoop_rule R context s tr ⟨hstart, List.prefix_refl _⟩
  rcases hl : runAgenticLoop env user tid context s tr with ⟨_ | r, s', tr'⟩
  · rw [hl] at hend
    obtain ⟨_, h⟩ := hend
    exact h
  · rw [hl] at hend
    exact hend

theorem runLoop_onward : Onward user tid st (runLoop env user tid context st).2 := by
  unfold runLoop
  cases hs : st.manager.session user with
  | none => exact Onward.of_calm (Calm.refl st) rfl
  | some s =>
    obtain ⟨hextends, hlog⟩ := runAgenticLoop_extends env user tid context s st.trace
    refine ⟨?_, hlog⟩
    intro trail ht
    have hstart : sessionTrail s tid = some trail := by
      rw [← ht]
      unfold trailAt AgentState.thread
      rw [hs]
      rfl
    obtain ⟨trail', ht', hpre⟩ := hextends trail hstart
    refine ⟨trail', ?_, hpre⟩
    rw [← ht']
    unfold trailAt AgentState.thread SessionManager.session
    dsimp only
    rw [AList.lookup_insert]
    rfl

theorem finishApproval_onward (result : Except Error AgenticLoopResult) :
    Onward user tid st (finishApproval env user tid result st).2 := by
  unfold finishApproval
  split
  · exact Onward.of_calm (Calm.refl st) rfl
  · split
    · exact Onward.of_calm (completeAnswer_calm env tid user st _) (completeAnswer_trail env user tid st _)
    · exact raiseApproval_onward user tid st _
    · refine Onward.of_calm (Calm.modifyThread st user tid fun _ _ _ h => h)
        (trailAt_modifyThread_same user tid st fun t => ?_)
      exact threadTrail_modifyLastTurn_same t fun _ => rfl

/-- **After the deferred calls** only new calls are recorded. -/
theorem afterDeferred_onward (approval : Option (Nat × ToolCall × Tool)) (p : DeferredPostflight W) :
    Onward user tid p.state (afterDeferred env user tid deferred approval p).2 := by
  unfold afterDeferred
  split
  · exact Onward.of_calm (Calm.refl _) rfl
  · rcases approval with _ | ⟨idx, tc, tool⟩
    · exact (runLoop_onward env user tid p.state p.context).trans (finishApproval_onward env user tid _ _)
    · have hdraw : Onward user tid p.state (p.state.draw env).2 :=
        Onward.of_calm (Calm.draw env p.state) rfl
      exact hdraw.trans (raiseApproval_onward user tid _ _)

theorem deferredPostflightCall_trail (p : DeferredPostflight W) (r : ToolCall × Except Error String) :
    trailAt user tid (deferredPostflightCall env user tid p r).state
      = (trailAt user tid p.state).map (noteLast · (.ran r.2)) := by
  have hrecord : trailAt user tid (p.state.modifyThread user tid (Thread.modifyLastTurn (recordResult r.2)))
      = (trailAt user tid p.state).map (noteLast · (.ran r.2)) :=
    trailAt_modifyThread user tid p.state fun t => threadTrail_modifyLastTurn t (recordResult_toolCalls r.2)
  have hauth : ∀ p' : DeferredPostflight W,
      trailAt user tid (interceptFirstAuth env user tid r.1 r.2 p').state = trailAt user tid p'.state := by
    intro p'
    unfold interceptFirstAuth
    split
    · exact handleAuthIntercept_trail env user tid p'.state _ _
    · rfl
  exact (hauth _).trans hrecord

theorem deferredPostflight_trail (rs : List (ToolCall × Except Error String)) (p : DeferredPostflight W) :
    trailAt user tid (rs.foldl (deferredPostflightCall env user tid) p).state
      = (trailAt user tid p.state).map (noteAll (rs.map fun r => .ran r.2)) := by
  induction rs generalizing p with
  | nil =>
    show trailAt user tid p.state = (trailAt user tid p.state).map id
    rw [Option.map_id]
    rfl
  | cons r rest ih =>
    rw [List.foldl_cons, ih, deferredPostflightCall_trail, Option.map_map]
    rfl

/-- What the deferred calls came to, as far as their preflight got. -/
def deferredOutcomes (deferred : List ToolCall) : List CallOutcome :=
  (deferredResults (deferredPreflight env (st.autoApproved user) st.trace.world 0 deferred).1
    (executeRunnable env (st.autoApproved user) .deferred
      ((deferredPreflight env (st.autoApproved user) st.trace.world 0 deferred).1.zipIdx.map fun t => (t.2, t.1))
      st.trace).1).map fun r => .ran r.2

theorem positioned_nodup (calls : List ToolCall) : ((calls.zipIdx.map fun t => (t.2, t.1)).map Prod.fst).Nodup := by
  rw [List.map_map]
  have hrange : calls.zipIdx.map (Prod.fst ∘ fun t : ToolCall × Nat => (t.2, t.1)) = List.range' 0 calls.length :=
    List.zipIdx_map_snd 0 calls
  rw [hrange]
  exact List.nodup_range'

variable {o : CallOutcome} {k : Nat}

/-- **The outcomes of deferred calls are their own.** -/
theorem deferredOutcomes_own (hk : (deferredOutcomes env user st deferred)[k]? = some o) :
    ∃ tc result, deferred[k]? = some tc ∧ o = .ran result
      ∧ RanTo env (st.autoApproved user) .deferred tc st.trace (deferredTrace env user st deferred) result := by
  unfold deferredOutcomes deferredResults at hk
  rw [List.getElem?_map, List.getElem?_map, List.getElem?_zipIdx] at hk
  have hpassed : ∀ {tc : ToolCall},
      (deferredPreflight env (st.autoApproved user) st.trace.world 0 deferred).1[k]? = some tc →
      deferred[k]? = some tc := by
    intro tc htc
    rcases deferredPreflight_splits env (st.autoApproved user) st.trace.world deferred 0 with
      h | ⟨passed, tc', rest, tool, hsplit, h⟩
    · rw [h] at htc
      exact htc
    · rw [h] at htc
      rw [hsplit]
      exact List.getElem?_append_left (List.getElem?_eq_some_iff.mp htc).1 ▸ htc
  cases htc : (deferredPreflight env (st.autoApproved user) st.trace.world 0 deferred).1[k]? with
  | none =>
    rw [htc] at hk
    cases hk
  | some tc =>
    rw [htc] at hk
    have hmem : (k, tc) ∈ (deferredPreflight env (st.autoApproved user) st.trace.world 0 deferred).1.zipIdx.map
        fun t => (t.2, t.1) := by
      refine List.mem_map.mpr ⟨(tc, k), ?_, rfl⟩
      refine List.mem_iff_getElem?.mpr ⟨k, ?_⟩
      rw [List.getElem?_zipIdx, htc]
      simp
    obtain ⟨result, hslot, hran⟩ := executeRunnable_own env (st.autoApproved user) .deferred st.trace
      (positioned_nodup _) hmem
    refine ⟨tc, result, hpassed htc, ?_, hran⟩
    simp only [Option.map_some, Nat.zero_add] at hk
    rw [hslot] at hk
    exact (Option.some.inj hk).symm

theorem deferredOutcomes_length : (deferredOutcomes env user st deferred).length ≤ deferred.length := by
  unfold deferredOutcomes deferredResults
  rw [List.length_map, List.length_map, List.length_zipIdx]
  rcases deferredPreflight_splits env (st.autoApproved user) st.trace.world deferred 0 with
    h | ⟨passed, tc, rest, tool, hsplit, h⟩
  · rw [h]
  · rw [h, hsplit, List.length_append]
    exact Nat.le_add_right _ _

theorem replayDeferred_onward : Onward user tid (deferredPostflight env user tid st deferred context).state
      (replayDeferred env user tid deferred context st).2 :=
  afterDeferred_onward env user tid deferred
    (deferredPreflight env (st.autoApproved user) st.trace.world 0 deferred).2
    (deferredPostflight env user tid st deferred context)

variable {trail : List TurnToolCall}

/-- Replaying the deferred calls writes their outcomes to the last entry; what follows only appends. -/
theorem replayDeferred_trail (ht : trailAt user tid st = some trail) :
    ∃ trail', trailAt user tid (replayDeferred env user tid deferred context st).2 = some trail'
      ∧ noteAll (deferredOutcomes env user st deferred) trail <+: trail' := by
  have hfold := deferredPostflight_trail env user tid
    (deferredResults (deferredPreflight env (st.autoApproved user) st.trace.world 0 deferred).1
      (executeRunnable env (st.autoApproved user) .deferred
        ((deferredPreflight env (st.autoApproved user) st.trace.world 0 deferred).1.zipIdx.map
          fun t => (t.2, t.1)) st.trace).1)
    { state := { st with trace := deferredTrace env user st deferred }, context }
  have hsame : trailAt user tid { st with trace := deferredTrace env user st deferred } = some trail := ht
  rw [hsame] at hfold
  exact (replayDeferred_onward env user tid st deferred context).trail _ hfold

theorem replayDeferred_log :
    (deferredTrace env user st deferred).log <+: (replayDeferred env user tid deferred context st).2.trace.log :=
  (replayDeferred_cases env user tid st deferred context).1.log.isPrefix.trans
    (replayDeferred_onward env user tid st deferred context).log

/-- What the calls of a request came to: its own, then the deferred ones unless a token is asked for. -/
def approvalOutcomes (pending : PendingApproval) (always : Bool) : List CallOutcome :=
  match executeApproved env user tid pending (grantApproval user tid pending always st) with
  | (result, st₁) =>
    .ran result :: match checkAuthRequired env pending.toolName result with
      | some _ => []
      | none => deferredOutcomes env user st₁ pending.deferredToolCalls

theorem approvalOutcomes_length :
    (approvalOutcomes env user tid st pending always).length ≤ pending.deferredToolCalls.length + 1 := by
  unfold approvalOutcomes
  dsimp only
  split
  · exact Nat.succ_le_succ (Nat.zero_le _)
  · exact Nat.succ_le_succ (deferredOutcomes_length env user _ _)

theorem grantApproval_trail : trailAt user tid (grantApproval user tid pending always st) = trailAt user tid st := by
  have hstate : trailAt user tid (grantApproval user tid pending always st)
      = trailAt user tid (noteAlways user pending.toolName always st) :=
    trailAt_modifyThread_same user tid _ fun _ => rfl
  rw [hstate]
  unfold noteAlways
  split
  · unfold trailAt AgentState.thread
    dsimp only
    rw [SessionManager.session_modifySession_self]
    cases st.manager.session user with
    | none => rfl
    | some s => rfl
  · rfl

theorem executeApproved_trail : trailAt user tid (executeApproved env user tid pending st).2
      = (trailAt user tid st).map (noteLast · (.ran (executeApproved env user tid pending st).1)) := by
  let ran : AgentState W := { st with trace := (approvedRun env user st pending).2 }
  have hrecord : trailAt user tid (ran.modifyThread user tid
        (Thread.modifyLastTurn (recordResult (approvedRun env user st pending).1)))
      = (trailAt user tid ran).map (noteLast · (.ran (approvedRun env user st pending).1)) :=
    trailAt_modifyThread user tid ran fun t => threadTrail_modifyLastTurn t (recordResult_toolCalls _)
  exact hrecord

/-- **What an approval leaves on the turn.** -/
theorem resumeApproved_trail (ht : trailAt user tid st = some trail) :
    ∃ trail', trailAt user tid (resumeApproved env user tid pending always st).2 = some trail'
      ∧ noteAll (approvalOutcomes env user tid st pending always) trail <+: trail' := by
  have hexecuted := executeApproved_trail env user tid (grantApproval user tid pending always st) pending
  rw [grantApproval_trail, ht] at hexecuted
  unfold resumeApproved approvalOutcomes
  generalize executeApproved env user tid pending (grantApproval user tid pending always st) = executed
    at hexecuted ⊢
  obtain ⟨result, st₁⟩ := executed
  dsimp only at hexecuted ⊢
  rcases checkAuthRequired env pending.toolName result with _ | ⟨ext, instructions⟩
  · exact replayDeferred_trail env user tid st₁ pending.deferredToolCalls _ hexecuted
  · exact ⟨_, (handleAuthIntercept_trail env user tid st₁ ext instructions).trans hexecuted, List.prefix_refl _⟩

/-- **The outcomes of a request's calls are their own.** -/
theorem approvalOutcomes_own (hk : (approvalOutcomes env user tid st pending always)[k]? = some o) :
    ∃ tc result auto cause, (pending.call :: pending.deferredToolCalls)[k]? = some tc ∧ o = .ran result
      ∧ RanTo env auto cause tc st.trace (resumeApproved env user tid pending always st).2.trace result := by
  have hgrant := (grantApproval_calm user tid st pending always).log.isPrefix
  have hran : RanTo env ((grantApproval user tid pending always st).autoApproved user)
      (.approved pending.requestId) pending.call (grantApproval user tid pending always st).trace
      (executeApproved env user tid pending (grantApproval user tid pending always st)).2.trace
      (executeApproved env user tid pending (grantApproval user tid pending always st)).1 :=
    ⟨_, ⟨List.prefix_refl _, executeChatTool_log env _ _ _ _⟩, Or.inl rfl⟩
  unfold approvalOutcomes at hk
  unfold resumeApproved
  generalize executeApproved env user tid pending (grantApproval user tid pending always st) = executed
    at hk hran ⊢
  obtain ⟨result, st₁⟩ := executed
  dsimp only at hk hran ⊢
  have hbefore : st.trace.log <+: st₁.trace.log := by
    obtain ⟨now, hnow, _⟩ := hran
    exact hgrant.trans (hnow.1.trans hnow.2)
  generalize checkAuthRequired env pending.toolName result = auth at hk ⊢
  rcases auth with _ | ⟨ext, instructions⟩
  · have hdeferred := replayDeferred_log env user tid st₁ pending.deferredToolCalls
      (pending.contextMessages ++ [ChatMessage.toolResult pending.toolCallId pending.toolName
        (resultContent env (fun e => "Error: " ++ e) pending.toolName result)])
    cases k with
    | zero =>
      refine ⟨pending.call, result, _, _, rfl, (Option.some.inj hk).symm, hran.widen hgrant ?_⟩
      exact (executeRunnable_log env (st₁.autoApproved user) .deferred _ _).trans hdeferred
    | succ k =>
      obtain ⟨tc, result', htc, ho, hown⟩ := deferredOutcomes_own env user st₁ pending.deferredToolCalls hk
      exact ⟨tc, result', _, _, htc, ho, hown.widen hbefore hdeferred⟩
  · cases k with
    | zero =>
      refine ⟨pending.call, result, _, _, rfl, (Option.some.inj hk).symm, hran.widen hgrant ?_⟩
      exact (handleAuthIntercept_calm env tid user st₁ ext instructions).log.isPrefix
    | succ k => cases hk

end Approval

/-! ## Audited batches and approvals -/

section Audited

variable (env : Env W) (user : String) (tid : Uuid)

/-- The trail of a batch is right. `before` is what was recorded on the turn before it. -/
structure BatchAudited (calls : List ToolCall) (content : Option String) (context : List ChatMessage)
    (s : Session) (tr : Trace W) (before : List TurnToolCall) : Prop where
  /-- The outcomes are those of the calls up to the one that waits for approval. -/
  reached : (batchOutcomes env user calls s tr).length
    = ((batchPreflight env user calls s tr).1.approval.map (·.1)).getD calls.length
  own : ∀ {k : Nat} {o : CallOutcome}, (batchOutcomes env user calls s tr)[k]? = some o → ∃ tc, calls[k]? = some tc
    ∧ OwnOutcome env user s.autoApprovedTools .batch tc tr (batchResults env user calls s tr).2 o
  trail : sessionTrail (runBatch env user tid calls content context s tr).2.1 tid
    = some (before ++ withOutcomes (calls.map (recorded env tr)) (batchOutcomes env user calls s tr))

/-- The first call of a batch waits for approval: the hooks let it through and its tool needs approval. -/
def FirstWaits (auto : List String) (calls : List ToolCall) (tr : Trace W) : Prop :=
  ∃ first rest tc tool, calls = first :: rest
    ∧ (hookToolCall env user first (sensitiveOf (env.tool tr.world first.name)) tr).1 = .ok tc
    ∧ approvalFor env (env.tool tr.world first.name) tc auto = some tool

theorem batchOutcomes_length (calls : List ToolCall) (s : Session) (tr : Trace W) :
    (batchOutcomes env user calls s tr).length
      = ((batchPreflight env user calls s tr).1.approval.map (·.1)).getD calls.length := by
  have hentries : (batchOutcomes env user calls s tr).length
      = (batchPreflight env user calls s tr).1.entries.length := by
    unfold batchOutcomes outcomesOf
    rw [List.length_map, List.length_map, List.length_zipIdx]
  rw [hentries]
  unfold batchPreflight
  rcases preflight_splits env user s.autoApprovedTools calls 0 tr with
    ⟨hnone, hids⟩ | ⟨passed, original, rest, tc, tool, hcalls, happ, _, _, hids⟩
  · rw [hnone]
    have hlen := congrArg List.length hids
    rwa [List.length_map, List.length_map] at hlen
  · rw [happ]
    have hlen := congrArg List.length hids
    rw [List.length_map, List.length_map] at hlen
    rw [hlen]
    exact (Nat.zero_add _).symm

theorem batchOutcomes_length_le (calls : List ToolCall) (s : Session) (tr : Trace W) :
    (batchOutcomes env user calls s tr).length ≤ calls.length := by
  rw [batchOutcomes_length]
  unfold batchPreflight
  rcases preflight_splits env user s.autoApprovedTools calls 0 tr with
    ⟨hnone, _⟩ | ⟨passed, original, rest, tc, tool, hcalls, happ, _, _, _⟩
  · rw [hnone]
    exact le_rfl
  · rw [happ, hcalls, List.length_append]
    show 0 + passed.length ≤ _
    omega

variable {calls : List ToolCall}

/-- Nothing is written exactly when the first call waits. -/
theorem batchOutcomes_eq_nil_iff (hne : calls ≠ []) (s : Session) (tr : Trace W) :
    batchOutcomes env user calls s tr = [] ↔ FirstWaits env user s.autoApprovedTools calls tr := by
  obtain ⟨first, rest, rfl⟩ := List.exists_cons_of_ne_nil hne
  rw [← List.length_eq_zero_iff]
  have hentries : (batchOutcomes env user (first :: rest) s tr).length
      = (preflight env user s.autoApprovedTools 0 (first :: rest) tr).1.entries.length := by
    unfold batchOutcomes outcomesOf
    rw [List.length_map, List.length_map, List.length_zipIdx]
    rfl
  rw [hentries]
  rcases hhook : hookToolCall env user first (sensitiveOf (env.tool tr.world first.name)) tr with ⟨msg | tc, tr'⟩
  · rw [preflight_rejected hhook]
    refine ⟨fun h => (by cases h), ?_⟩
    rintro ⟨first', rest', tc', tool, heq, hok, _⟩
    cases heq
    rw [hhook] at hok
    cases hok
  · cases happ : approvalFor env (env.tool tr.world first.name) tc s.autoApprovedTools with
    | some tool =>
      rw [preflight_stopped hhook happ]
      exact ⟨fun _ => ⟨first, rest, tc, tool, rfl, by rw [hhook], happ⟩, fun _ => rfl⟩
    | none =>
      rw [preflight_cleared hhook happ]
      refine ⟨fun h => (by cases h), ?_⟩
      rintro ⟨first', rest', tc', tool, heq, hok, happ'⟩
      cases heq
      rw [hhook] at hok
      cases hok
      rw [happ] at happ'
      cases happ'

variable {before : List TurnToolCall}

/-- **Batches**: the trail is right when there is one call, or the first call waits. -/
theorem batchAudited_iff (hne : calls ≠ []) (content : Option String) (context : List ChatMessage) (s : Session)
    (tr : Trace W) (hbefore : sessionTrail s tid = some before) :
    BatchAudited env user tid calls content context s tr before
      ↔ calls.length = 1 ∨ FirstWaits env user s.autoApprovedTools calls tr := by
  have hfresh : ∀ e ∈ calls.map (recorded env tr), Fresh e := by
    intro e he
    obtain ⟨tc, _, rfl⟩ := List.mem_map.mp he
    exact ⟨rfl, rfl⟩
  have hle : (batchOutcomes env user calls s tr).length ≤ (calls.map (recorded env tr)).length := by
    rw [List.length_map]
    exact batchOutcomes_length_le env user calls s tr
  have hiff := noteAll_eq_iff before hfresh hle
  rw [List.length_map, batchOutcomes_eq_nil_iff env user hne] at hiff
  have hactual := runBatch_trail env user tid calls content context s tr
  rw [hbefore] at hactual
  constructor
  · intro h
    refine hiff.mp ?_
    exact Option.some.inj (hactual.symm.trans h.trail)
  · intro h
    refine ⟨batchOutcomes_length env user calls s tr, batchOutcomes_own env user calls s tr, ?_⟩
    exact hactual.trans (congrArg some (hiff.mpr h))

/-- The trail of an approval is right. `entries` are the ones recorded for the request's call and the deferred
    calls, `before` the ones recorded earlier, `st` the state in which the request has been taken off. -/
structure ApprovalAudited (pending : PendingApproval) (always : Bool) (st st' : AgentState W)
    (before entries : List TurnToolCall) : Prop where
  own : ∀ {k : Nat} {o : CallOutcome}, (approvalOutcomes env user tid st pending always)[k]? = some o →
    ∃ tc result auto cause, (pending.call :: pending.deferredToolCalls)[k]? = some tc ∧ o = .ran result
      ∧ RanTo env auto cause tc st.trace st'.trace result
  trail : ∃ trail, trailAt user tid st' = some trail
    ∧ before ++ withOutcomes entries (approvalOutcomes env user tid st pending always) <+: trail

theorem withOutcomes_length (entries : List TurnToolCall) (outcomes : List CallOutcome) :
    (withOutcomes entries outcomes).length = entries.length := by
  induction entries generalizing outcomes with
  | nil => cases outcomes <;> rfl
  | cons e es ih =>
    cases outcomes with
    | nil => rfl
    | cons o os => exact congrArg (· + 1) (ih os)

theorem noteAll_length (outcomes : List CallOutcome) (trail : List TurnToolCall) :
    (noteAll outcomes trail).length = trail.length := by
  induction outcomes generalizing trail with
  | nil => rfl
  | cons o os ih => exact (ih (noteLast trail o)).trans (List.length_modify _ _ _)

/-- **Approvals**: the trail is right when no call was deferred. -/
theorem approvalAudited_iff (pending : PendingApproval) (always : Bool) (st : AgentState W) {entries : List TurnToolCall}
    (hbefore : trailAt user tid st = some (before ++ entries))
    (hlen : entries.length = pending.deferredToolCalls.length + 1) (hfresh : ∀ e ∈ entries, Fresh e) :
    ApprovalAudited env user tid pending always st (resumeApproved env user tid pending always st).2 before entries
      ↔ pending.deferredToolCalls = [] := by
  have hone : entries.length = 1 ↔ pending.deferredToolCalls = [] := by
    rw [hlen, ← List.length_eq_zero_iff]
    omega
  have hsome : approvalOutcomes env user tid st pending always ≠ [] := by
    unfold approvalOutcomes
    exact List.cons_ne_nil _ _
  have hiff := noteAll_eq_iff before hfresh
    (by rw [hlen]; exact approvalOutcomes_length env user tid st pending always)
  rw [hone, or_iff_left hsome] at hiff
  obtain ⟨trail, htrail, hpre⟩ := resumeApproved_trail env user tid st pending always hbefore
  constructor
  · intro h
    obtain ⟨trail', htrail', hpre'⟩ := h.trail
    rw [htrail] at htrail'
    cases htrail'
    refine hiff.mp ?_
    -- Both are the same number of entries at the start of the trail.
    have heq : (noteAll (approvalOutcomes env user tid st pending always) (before ++ entries)).length
        = (before ++ withOutcomes entries (approvalOutcomes env user tid st pending always)).length := by
      rw [noteAll_length, List.length_append, List.length_append, withOutcomes_length]
    exact (List.prefix_of_prefix_length_le hpre hpre' (le_of_eq heq)).eq_of_length heq
  · intro h
    refine ⟨approvalOutcomes_own env user tid st pending always, trail, htrail, ?_⟩
    rw [← hiff.mpr h]
    exact hpre

/-- An approving submission that fits the request resumes it. -/
theorem processApproval_approved (st : AgentState W) {thread : Thread} {pending : PendingApproval}
    {requestId : Option Uuid} (always : Bool) (hthread : st.thread user tid = some thread)
    (hstate : thread.state = .awaitingApproval) (hpending : thread.pendingApproval = some pending)
    (hid : ∀ id, requestId = some id → id = pending.requestId) : processApproval env user tid requestId true always st
      = resumeApproved env user tid pending always
          (st.modifyThread user tid fun _ => thread.takePendingApproval.2) := by
  have htake : thread.takePendingApproval = (some pending, thread.takePendingApproval.2) := by
    rw [← hpending]
    rfl
  have hfits : ¬ (requestId.any (· ≠ pending.requestId) = true) := by
    cases requestId with
    | none => simp
    | some id => simp [hid id rfl]
  unfold processApproval
  rw [hthread]
  dsimp only
  rw [if_neg (not_not.mpr hstate), htake]
  dsimp only
  rw [if_neg hfits, if_pos rfl]

end Audited

/-- **The audit trail.** For every batch of calls on a turn, and for every approval of a request whose call and
    deferred calls have entries without outcomes: afterwards each call that ran or was rejected has its own
    outcome on its own entry, and the others none, exactly when the batch has one call or its first call waits
    for approval, and exactly when the request has no deferred calls. -/
theorem audit_trail_iff (env : Env W) (user : String) (tid : Uuid) :
    (∀ (calls : List ToolCall) (content : Option String) (context : List ChatMessage) (s : Session) (tr : Trace W)
        (before : List TurnToolCall), calls ≠ [] → sessionTrail s tid = some before →
        (BatchAudited env user tid calls content context s tr before
          ↔ calls.length = 1 ∨ FirstWaits env user s.autoApprovedTools calls tr))
      ∧ ∀ (st : AgentState W) (thread : Thread) (pending : PendingApproval) (requestId : Option Uuid)
          (always : Bool) (before entries : List TurnToolCall),
          st.thread user tid = some thread → thread.state = .awaitingApproval →
          thread.pendingApproval = some pending → (∀ id, requestId = some id → id = pending.requestId) →
          threadTrail thread = some (before ++ entries) →
          entries.length = pending.deferredToolCalls.length + 1 → (∀ e ∈ entries, Fresh e) →
          (ApprovalAudited env user tid pending always
              (st.modifyThread user tid fun _ => thread.takePendingApproval.2)
              (processApproval env user tid requestId true always st).2 before entries
            ↔ pending.deferredToolCalls = []) := by
  constructor
  · intro calls content context s tr before hne hbefore
    exact batchAudited_iff env user tid hne content context s tr hbefore
  · intro st thread pending requestId always before entries hthread hstate hpending hid htrail hlen hfresh
    rw [processApproval_approved env user tid st always hthread hstate hpending hid]
    refine approvalAudited_iff env user tid pending always _ ?_ hlen hfresh
    unfold trailAt
    rw [AgentState.thread_modifyThread_self, hthread]
    exact htrail

/-! ## A batch of two -/

/-- One registered tool. -/
def clockEnv : Env Nat :=
  { Env.idle Nat with
    tool := fun _ name => if name = "time" then some ⟨"tell the time", [], fun _ => .never, none⟩ else none }

/-- A thread whose turn has just been opened. -/
def openedThread : Thread := (Thread.withId 1).startTurn "what time is it?"

def openedSession : Session :=
  { Session.new 0 "ann" 0 with threads := (∅ : Map Uuid Thread).insert 1 openedThread }

/-- **The outcomes pile up on the last entry.** The clock's answer is recorded as the result of the unknown
    tool, beside that tool's error, and the clock's own entry stays empty. -/
theorem two_calls_share_an_entry :
    sessionTrail (runBatch clockEnv "ann" 1 [⟨"a", "time", .null⟩, ⟨"b", "mail", .null⟩] none [] openedSession
        { world := 0 }).2.1 1
      = some [{ name := "time", parameters := .null },
          { name := "mail", parameters := .null, result := some (.string "null"),
            error := some "Tool error: Tool mail not found" }]
      ∧ ¬ BatchAudited clockEnv "ann" 1 [⟨"a", "time", .null⟩, ⟨"b", "mail", .null⟩] none [] openedSession
          { world := 0 } [] := by
  have htrail : sessionTrail (runBatch clockEnv "ann" 1 [⟨"a", "time", .null⟩, ⟨"b", "mail", .null⟩] none []
        openedSession { world := 0 }).2.1 1
      = some [{ name := "time", parameters := .null },
          { name := "mail", parameters := .null, result := some (.string "null"),
            error := some "Tool error: Tool mail not found" }] := rfl
  refine ⟨htrail, ?_⟩
  intro h
  have hclaimed := htrail.symm.trans h.trail
  have hhead := congrArg (fun o => (o.bind List.head?).bind TurnToolCall.result) hclaimed
  cases hhead

/-- The thread of an agent that waits for approval of a single call. -/
def waitingThread : Thread :=
  ((openedThread.modifyLastTurn (Turn.recordToolCall · "time" .null)).awaitApproval
    ⟨7, "time", .null, .null, "tell the time", "a", [], []⟩)

def waitingSession : Session := { openedSession with threads := (∅ : Map Uuid Thread).insert 1 waitingThread }

def waitingState : AgentState Nat :=
  { manager := { sessions := (∅ : Map String Session).insert "ann" waitingSession }
    trace := { world := 0 } }

/-- A batch of one call, and the approval of a request without deferred calls. -/
theorem audit_trail_single :
    BatchAudited clockEnv "ann" 1 [⟨"a", "time", .null⟩] none [] openedSession { world := 0 } []
      ∧ ApprovalAudited clockEnv "ann" 1 ⟨7, "time", .null, .null, "tell the time", "a", [], []⟩ false
          (waitingState.modifyThread "ann" 1 fun _ => waitingThread.takePendingApproval.2)
          (processApproval clockEnv "ann" 1 (some 7) true false waitingState).2 []
          [{ name := "time", parameters := .null }] := by
  constructor
  · exact ((audit_trail_iff clockEnv "ann" 1).1 _ _ _ _ _ _ (List.cons_ne_nil _ _) rfl).mpr (Or.inl rfl)
  · refine ((audit_trail_iff clockEnv "ann" 1).2 waitingState waitingThread _ (some 7) false [] _ rfl rfl rfl ?_
      rfl rfl ?_).mpr rfl
    · intro id h
      exact (Option.some.inj h).symm
    · intro e he
      rw [List.mem_singleton.mp he]
      exact ⟨rfl, rfl⟩

end Freeclawdia.AuditTrail
