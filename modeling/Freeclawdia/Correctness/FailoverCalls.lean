import Freeclawdia.Llm.Failover
import Mathlib.Data.List.Nodup

/-!
# `Correctness.FailoverCalls` — which providers a request tries, and which are in cooldown

Requests that do not overlap. A request calls the providers that are not in cooldown, in the order of their indices,
until one of them succeeds or refuses (`Tried`), and a provider is in cooldown only when it failed as often as the
threshold says (`Justified`). The counters behind that are right because of `Sound`: a counter is at most the number
of failures since the last success. It may be less, once it has wrapped.
-/

namespace Freeclawdia.Failover

variable {n : Nat} {T : Type}

/-! ## Answers -/

/-- Is an answer an error after which the next provider is tried? -/
def isFailure : Except LlmError T → Bool
  | .ok _ => false
  | .error err => isRetryable err

/-- Does an answer count for the cooldown? -/
def counts : Except LlmError T → Bool
  | .ok _ => true
  | .error err => isRetryable err

/-- The last `k` of the answers that count are failures. -/
def FailedLast (k : Nat) (answers : List (Except LlmError T)) : Prop :=
  ∃ earlier last, answers.filter counts = earlier ++ last ∧ last.length = k ∧ ∀ answer ∈ last, isFailure answer = true

theorem failedLast_zero (answers : List (Except LlmError T)) : FailedLast 0 answers :=
  ⟨_, [], (List.append_nil _).symm, rfl, by simp⟩

variable {answers : List (Except LlmError T)} {k : Nat}

theorem FailedLast.mono {k' : Nat} (h : FailedLast k answers) (hk : k' ≤ k) :
    FailedLast k' answers := by
  obtain ⟨earlier, last, hfilter, rfl, hlast⟩ := h
  refine ⟨earlier ++ last.take (last.length - k'), last.drop (last.length - k'), ?_, ?_, ?_⟩
  · rw [hfilter, List.append_assoc, List.take_append_drop]
  · rw [List.length_drop]
    omega
  · exact fun answer hmem => hlast answer (List.mem_of_mem_drop hmem)

variable {err : LlmError}

theorem FailedLast.snoc (h : FailedLast k answers) (herr : isRetryable err = true) :
    FailedLast (k + 1) (answers ++ [.error err]) := by
  obtain ⟨earlier, last, hfilter, rfl, hlast⟩ := h
  refine ⟨earlier, last ++ [.error err], ?_, by simp, ?_⟩
  · rw [List.filter_append, hfilter, List.append_assoc]
    congr 2
    exact List.filter_cons_of_pos herr
  · intro answer hmem
    rcases List.mem_append.mp hmem with hmem | hmem
    · exact hlast answer hmem
    · rw [List.mem_singleton.mp hmem]
      exact herr

/-- Errors that are not retryable are ignored. -/
theorem FailedLast.ignore (h : FailedLast k answers) (herr : isRetryable err = false) :
    FailedLast k (answers ++ [.error err]) := by
  obtain ⟨earlier, last, hfilter, hlength, hlast⟩ := h
  refine ⟨earlier, last, ?_, hlength, hlast⟩
  have hnone : ([.error err] : List (Except LlmError T)).filter counts = [] :=
    List.filter_cons_of_neg (by simp [counts, herr])
  rw [List.filter_append, hfilter, hnone, List.append_nil]

/-! ## The log -/

/-- The calls a log tells of. -/
def callsIn (log : List (Event n T)) : List (Fin n × Except LlmError T) :=
  log.filterMap fun
    | .answered i answer => some (i, answer)
    | .activated _ _ => none

/-- The answers of a provider. -/
def answersOf (i : Fin n) (log : List (Event n T)) : List (Except LlmError T) :=
  ((callsIn log).filter fun call => call.1 = i).map Prod.snd

theorem callsIn_append (log log' : List (Event n T)) : callsIn (log ++ log') = callsIn log ++ callsIn log' :=
  List.filterMap_append

theorem answersOf_append (i : Fin n) (log log' : List (Event n T)) :
    answersOf i (log ++ log') = answersOf i log ++ answersOf i log' := by
  unfold answersOf
  rw [callsIn_append, List.filter_append, List.map_append]

@[simp] theorem answersOf_answered (i j : Fin n) (answer : Except LlmError T) :
    answersOf i [.answered j answer] = if j = i then [answer] else [] := by
  by_cases h : j = i
  · simp [answersOf, callsIn, h]
  · simp [answersOf, callsIn, h]

@[simp] theorem answersOf_activated (i j : Fin n) (nanos : Nat) : answersOf i [(.activated j nanos : Event n T)] = [] :=
    rfl

/-! ## The cooldowns -/

/-- A provider was put into cooldown for its failures. -/
def Activated (config : CooldownConfig) (i : Fin n) (nanos : Nat) (log : List (Event n T)) : Prop :=
  ∃ before after, log = before ++ .activated i nanos :: after ∧ FailedLast config.failureThreshold (answersOf i before)

theorem Activated.append {config : CooldownConfig} {i : Fin n} {nanos : Nat} {log : List (Event n T)}
    (h : Activated config i nanos log) (log' : List (Event n T)) : Activated config i nanos (log ++ log') := by
  obtain ⟨before, after, rfl, hfailed⟩ := h
  exact ⟨before, after ++ log', by simp, hfailed⟩

/-- A provider's counter counts failures since its last success, and its cooldown was activated for failures. -/
structure Sound (config : CooldownConfig) (i : Fin n) (c : ProviderCooldown) (log : List (Event n T)) : Prop where
  count : FailedLast c.failureCount (answersOf i log)
  activated : c.cooldownActivatedNanos ≠ 0 → Activated config i c.cooldownActivatedNanos log

theorem sound_new (config : CooldownConfig) (i : Fin n) : Sound config i {} ([] : List (Event n T)) :=
  ⟨failedLast_zero _, fun h => absurd rfl h⟩

variable {config : CooldownConfig} {i : Fin n} {c : ProviderCooldown} {log : List (Event n T)}

/-- What the log says of other providers does not matter. -/
theorem Sound.frame (h : Sound config i c log) {log' : List (Event n T)} (hlog : answersOf i log' = []) :
    Sound config i c (log ++ log') := by
  refine ⟨?_, fun hactivated => (h.activated hactivated).append log'⟩
  rw [answersOf_append, hlog, List.append_nil]
  exact h.count

/-- After a success the cooldown is cleared. -/
theorem sound_reset (log : List (Event n T)) : Sound config i ⟨0, 0⟩ log := ⟨failedLast_zero _, fun h => absurd rfl h⟩

theorem Sound.refuse (h : Sound config i c log) (herr : isRetryable err = false) :
    Sound config i c (log ++ [.answered i (.error err)]) := by
  refine ⟨?_, fun hactivated => (h.activated hactivated).append _⟩
  rw [answersOf_append, answersOf_answered, if_pos rfl]
  exact h.count.ignore herr

/-- A failure is counted. The counter may wrap. -/
theorem Sound.fail (h : Sound config i c log) (herr : isRetryable err = true) :
    Sound config i { c with failureCount := (c.failureCount + 1) % 2 ^ 32 } (log ++ [.answered i (.error err)]) := by
  refine ⟨?_, fun hactivated => (h.activated hactivated).append _⟩
  rw [answersOf_append, answersOf_answered, if_pos rfl]
  exact (h.count.snoc herr).mono (Nat.mod_le _ _)

/-- Cooldown is activated once the threshold is reached. -/
theorem Sound.activate (h : Sound config i c log) (hreached : config.failureThreshold ≤ c.failureCount) (nanos : Nat) :
    Sound config i { c with cooldownActivatedNanos := nanos } (log ++ [.activated i nanos]) := by
  refine ⟨?_, fun _ => ⟨log, [], rfl, h.count.mono hreached⟩⟩
  rw [answersOf_append, answersOf_activated, List.append_nil]
  exact h.count

/-! ## One request -/

/-- Every provider's cooldown state is sound. -/
def SoundAll (config : CooldownConfig) (s : FailoverProvider n T) : Prop := ∀ i, Sound config i (s.cooldowns i) s.log

/-- Is a provider in cooldown? -/
def cooled (config : CooldownConfig) (s : FailoverProvider n T) (now : Nat) (i : Fin n) : Bool :=
  isInCooldown (s.cooldowns i).cooldownActivatedNanos now config.nanos

/-- The providers a request that starts at `now` is for: those not in cooldown, or the first of those cooled longest. -/
inductive Chosen (config : CooldownConfig) (s : FailoverProvider n T) (now : Nat) : List (Fin n) → Prop
  | free : ((List.finRange n).filter fun i => !cooled config s now i) ≠ [] →
      Chosen config s now ((List.finRange n).filter fun i => !cooled config s now i)
  | oldest {i : Fin n} : (∀ j, cooled config s now j = true) →
      (∀ j, (s.cooldowns i).cooldownActivatedNanos ≤ (s.cooldowns j).cooldownActivatedNanos) →
      (∀ j < i, (s.cooldowns i).cooldownActivatedNanos ≠ (s.cooldowns j).cooldownActivatedNanos) → Chosen config s now [i]

/-- The calls of a request for a list of providers, and its result. -/
inductive Tried : List (Fin n) → List (Fin n × Except LlmError T) → Except LlmError (Fin n × T) → Prop
  | success (i : Fin n) (rest : List (Fin n)) (response : T) : Tried (i :: rest) [(i, .ok response)] (.ok (i, response))
  | refused (i : Fin n) (rest : List (Fin n)) {err : LlmError} : isRetryable err = false →
      Tried (i :: rest) [(i, .error err)] (.error err)
  | exhausted (i : Fin n) {err : LlmError} : isRetryable err = true → Tried [i] [(i, .error err)] (.error err)
  | next (i : Fin n) {err : LlmError} {j : Fin n} {rest : List (Fin n)} {calls : List (Fin n × Except LlmError T)}
      {result : Except LlmError (Fin n × T)} : isRetryable err = true → Tried (j :: rest) calls result →
      Tried (i :: j :: rest) ((i, .error err) :: calls) result

/-- What a part of a request that calls the providers of a list leaves behind. -/
def Leaves (config : CooldownConfig) (s : FailoverProvider n T) (providers : List (Fin n))
    (result : Except LlmError (Fin n × T)) (s' : FailoverProvider n T) : Prop :=
  SoundAll config s' ∧ ∃ calls, Tried providers calls result ∧ callsIn s'.log = callsIn s.log ++ calls

variable {s : FailoverProvider n T} {t : Nat}

/-- An entry for one provider, with its new cooldown state. -/
theorem SoundAll.write (h : SoundAll config s) {s' : FailoverProvider n T} {c : ProviderCooldown}
    {events : List (Event n T)}
    (hcooldowns : s'.cooldowns = Function.update s.cooldowns i c) (hlog : s'.log = s.log ++ events)
    (hi : Sound config i c (s.log ++ events)) (hother : ∀ j ≠ i, answersOf j events = []) : SoundAll config s' := by
  intro j
  rw [hcooldowns, hlog]
  by_cases hj : j = i
  · subst hj
    rw [Function.update_self]
    exact hi
  · rw [Function.update_of_ne hj]
    exact (h j).frame (hother j hj)

variable {A : Input T → Prop}

theorem available_spec (now : Nat) (providers : List (Fin n)) :
    Prog.Ensures (act t) A
      (fun free s' => free = providers.filter
        (fun i => !isInCooldown (s.cooldowns i).cooldownActivatedNanos now config.nanos) ∧ s' = s)
      (available now config.nanos providers) s := by
  induction providers with
  | nil => exact Prog.ensures_ret ⟨rfl, rfl⟩
  | cons i rest ih =>
    rw [available]
    refine Prog.ensures_op fun input _ => ih.bind ?_
    rintro others s' ⟨rfl, rfl⟩
    refine Prog.ensures_ret ⟨?_, rfl⟩
    simp only [act, List.filter_cons]
    by_cases hcooled : isInCooldown (s'.cooldowns i).cooldownActivatedNanos now config.nanos = true
    · simp [hcooled]
    · simp [hcooled]

theorem activations_spec (providers : List (Fin n)) :
    Prog.Ensures (act t) A
      (fun keys s' => keys = providers.map (fun i => (i, (s.cooldowns i).cooldownActivatedNanos)) ∧ s' = s)
      (activations providers) s := by
  induction providers with
  | nil => exact Prog.ensures_ret ⟨rfl, rfl⟩
  | cons i rest ih =>
    rw [activations]
    refine Prog.ensures_op fun input _ => ih.bind ?_
    rintro others s' ⟨rfl, rfl⟩
    exact Prog.ensures_ret ⟨rfl, rfl⟩

/-- A retryable failure is recorded, and the cooldown activated once the threshold is reached. -/
theorem failed_spec {α : Type} {Q : α → FailoverProvider n T → Prop} {rest : Task n T α} (h : SoundAll config s)
    (herr : isRetryable err = true)
    (hrest : ∀ s', SoundAll config s' → callsIn s'.log = callsIn s.log ++ [(i, .error err)] →
      Prog.Ensures (act t) A Q rest s') :
    Prog.Ensures (act t) A Q
      (do
        let reached ← recordFailure config.failureThreshold i
        if reached then .op .nowNanos fun nanos => do
          activateCooldown i nanos
          rest
        else rest)
      { s with log := s.log ++ [.answered i (.error err)] } := by
  have hi := (h i).fail herr
  rw [recordFailure]
  refine Prog.ensures_op fun _ _ => ?_
  set counted := ((act t (.fetchAddFailures i) _ _).2 : FailoverProvider n T) with hcounted
  have hs : SoundAll config counted := by
    refine h.write (i := i) rfl rfl hi ?_
    intro j hj
    rw [answersOf_answered, if_neg (Ne.symm hj)]
  simp only [act]
  change Prog.Ensures (act t) A Q (if decide (config.failureThreshold ≤ _) = true then _ else rest) counted
  split_ifs with hreached
  · rw [decide_eq_true_eq] at hreached
    refine Prog.ensures_op fun input _ => ?_
    rw [activateCooldown]
    refine Prog.ensures_op fun _ _ => hrest _ ?_ ?_
    · refine hs.write (i := i) rfl rfl ?_ fun j _ => rfl
      refine Sound.activate (hs i) ?_ _
      rw [hcounted]
      simpa [act, FailoverProvider.onCooldown] using hreached
    · simp [act, hcounted, callsIn, FailoverProvider.onCooldown]
  · apply hrest counted hs
    simp [act, hcounted, callsIn, FailoverProvider.onCooldown]

/-- A request ends at the first provider, or goes on with the rest. -/
theorem tryEach_cons {rest : List (Fin n)} (lastError : Option LlmError) (h : SoundAll config s)
    (hrest : ∀ err s', isRetryable err = true → SoundAll config s' → callsIn s'.log = callsIn s.log ++ [(i,
      .error err)] → Prog.Ensures (act t) A (Leaves config s (i :: rest)) (tryEach config rest (some err)) s') :
    Prog.Ensures (act t) A (Leaves config s (i :: rest)) (tryEach config (i :: rest) lastError) s := by
  rw [tryEach]
  refine Prog.ensures_op fun input _ => ?_
  rcases hanswer : input.answer with err | response
  · simp only [act, hanswer]
    split_ifs with hret
    · rw [Bool.not_eq_true'] at hret
      refine Prog.ensures_ret ⟨?_, _, .refused i rest hret, by simp [callsIn]⟩
      refine h.write (i := i) (Function.update_eq_self i s.cooldowns).symm rfl ((h i).refuse hret) ?_
      intro j hj
      rw [answersOf_answered, if_neg (Ne.symm hj)]
    · rw [Bool.not_eq_true', Bool.not_eq_false] at hret
      exact failed_spec h hret fun s' hs' hcalls => hrest err s' hret hs' hcalls
  · simp only [act, hanswer]
    -- the success is stored, and the cooldown cleared
    refine Prog.ensures_op fun _ _ => ?_
    rw [reset]
    refine Prog.ensures_op fun _ _ => Prog.ensures_op fun _ _ => Prog.ensures_ret ⟨?_, _, .success i rest response, ?_⟩
    · refine @SoundAll.write _ _ _ i _ h _ ⟨0, 0⟩ [.answered i (.ok response), .activated i 0] ?_ ?_ (sound_reset _) ?_
      · simp [act, FailoverProvider.onCooldown]
      · simp [act, FailoverProvider.onCooldown]
      · intro j hj
        have hne : ¬ i = j := Ne.symm hj
        simp [answersOf, callsIn, hne]
    · simp [act, FailoverProvider.onCooldown, callsIn]

/-- The calls of a list of providers that is not empty. -/
theorem tryEach_spec (rest : List (Fin n)) (i : Fin n) (lastError : Option LlmError) (h : SoundAll config s) :
    Prog.Ensures (act t) A (Leaves config s (i :: rest)) (tryEach config (i :: rest) lastError) s := by
  induction rest generalizing i lastError s with
  | nil =>
    refine tryEach_cons lastError h fun err s' hret hs' hcalls => ?_
    rw [tryEach]
    exact Prog.ensures_ret ⟨hs', _, .exhausted i hret, hcalls⟩
  | cons j rest ih =>
    refine tryEach_cons lastError h fun err s' hret hs' hcalls => ?_
    refine (ih j (some err) hs').mono ?_
    rintro result s'' ⟨hs'', calls, htried, hcalls'⟩
    exact ⟨hs'', _, .next i hret htried, by rw [hcalls', hcalls, List.append_assoc, List.singleton_append]⟩

/-- The provider with the least activation time, the first of several. -/
theorem oldest_spec (hn : 0 < n) :
    Prog.Ensures (act t) A
      (fun answer s' => s' = s ∧ ∃ i, answer = some i ∧
        (∀ j, (s.cooldowns i).cooldownActivatedNanos ≤ (s.cooldowns j).cooldownActivatedNanos) ∧
        ∀ j < i, (s.cooldowns i).cooldownActivatedNanos ≠ (s.cooldowns j).cooldownActivatedNanos)
      oldest s := by
  rw [oldest]
  refine (activations_spec (List.finRange n)).bind ?_
  rintro keys s' ⟨rfl, rfl⟩
  refine Prog.ensures_ret ⟨rfl, ?_⟩
  set key : Fin n → Fin n × Nat := fun i => (i, (s'.cooldowns i).cooldownActivatedNanos)
  have hplace : ∀ i : Fin n, @List.idxOf _ instBEqOfDecidableEq (key i) ((List.finRange n).map key) = i := by
    intro i
    have hnodup : ((List.finRange n).map key).Nodup :=
      List.Nodup.map (fun a b hab => congrArg Prod.fst hab) (List.nodup_finRange n)
    have hget := @List.Nodup.idxOf_getElem _ instBEqOfDecidableEq _ _ hnodup i (by simp)
    simpa using hget
  have hmem : ∀ i : Fin n, key i ∈ (List.finRange n).map key := fun i => List.mem_map_of_mem (List.mem_finRange i)
  cases hmin : ((List.finRange n).map key).argmin Prod.snd with
  | none =>
    rw [List.argmin_eq_none] at hmin
    exact absurd (hmem ⟨0, hn⟩) (by simp [hmin])
  | some least =>
    obtain ⟨hleast, hle, hfirst⟩ := List.argmin_eq_some_iff.1 hmin
    obtain ⟨i, -, rfl⟩ := List.mem_map.1 hleast
    refine ⟨i, rfl, fun j => hle _ (hmem j), fun j hji heq => ?_⟩
    have hidx := hfirst _ (hmem j) heq.ge
    rw [hplace, hplace] at hidx
    omega

/-- **One request**: the providers it is for, its calls and its result. -/
theorem tryAvailable_spec (hn : 0 < n) (now : Nat) (h : SoundAll config s) :
    Prog.Ensures (act t) A (fun result s' => ∃ providers, Chosen config s now providers ∧
      Leaves config s providers result s')
      (tryAvailable config now) s := by
  rw [tryAvailable]
  refine (available_spec now (List.finRange n)).bind ?_
  rintro free s' ⟨hfree, rfl⟩
  change free = (List.finRange n).filter (fun i => !cooled config s' now i) at hfree
  cases hcase : free with
  | nil =>
    refine (oldest_spec hn).bind ?_
    rintro answer s'' ⟨rfl, i, rfl, hmin, hfirst⟩
    refine (tryEach_spec [] i none h).mono fun result s' hleaves => ⟨[i], .oldest ?_ hmin hfirst, hleaves⟩
    intro j
    rw [hcase] at hfree
    simpa using List.filter_eq_nil_iff.1 hfree.symm j (List.mem_finRange j)
  | cons i rest =>
    refine (tryEach_spec rest i none h).mono fun result s' hleaves => ⟨i :: rest, ?_, hleaves⟩
    rw [hcase] at hfree
    rw [hfree]
    exact .free (by rw [← hfree]; simp)

/-! ## Requests one after another -/

/-- Reached by requests that do not overlap, of whatever tasks and with whatever answers. -/
inductive Reachable (config : CooldownConfig) : FailoverProvider n T → Prop
  | start {s : FailoverProvider n T} : withCooldown n T = .ok s → Reachable config s
  | complete {s : FailoverProvider n T} (t : Nat) (inputs : Nat → Input T) : Reachable config s →
      Reachable config ((complete config).alone (act t) inputs s).2

theorem reachable_pos (h : Reachable config s) : 0 < n := by
  induction h with
  | start h =>
    by_contra hn
    simp [withCooldown, hn] at h
  | complete _ _ _ ih => exact ih

theorem reachable_sound (h : Reachable config s) : SoundAll config s := by
  induction h with
  | start h =>
    rw [withCooldown] at h
    split at h
    · cases h
      exact fun i => sound_new config i
    · cases h
  | complete t inputs hs ih =>
    refine Prog.Ensures.alone (A := fun _ => True) (Q := fun _ s' => SoundAll config s') ?_ fun _ => trivial
    rw [complete, tryProviders]
    refine Prog.Ensures.bind (Q := fun _ s' => SoundAll config s') ?_ ?_
    · refine Prog.ensures_op fun input _ => (tryAvailable_spec (reachable_pos hs) _ ih).mono ?_
      rintro result s' ⟨-, -, hsound, -⟩
      exact hsound
    · rintro (err | ⟨i, response⟩) s' hs'
      · exact Prog.ensures_ret hs'
      · exact Prog.ensures_op fun _ _ => Prog.ensures_ret hs'

/-- A provider is in cooldown only when it failed as often as the threshold says, and for no longer than configured. -/
def Justified (config : CooldownConfig) (s : FailoverProvider n T) : Prop :=
  ∀ i now, cooled config s now i = true →
    Activated config i (s.cooldowns i).cooldownActivatedNanos s.log ∧
      now < (s.cooldowns i).cooldownActivatedNanos + config.cooldownDuration

theorem SoundAll.justified (h : SoundAll config s) : Justified config s := by
  intro i now hcooled
  simp only [cooled, isInCooldown, Bool.and_eq_true, decide_eq_true_eq] at hcooled
  refine ⟨(h i).activated hcooled.1, ?_⟩
  have hle : config.nanos ≤ config.cooldownDuration := Nat.mod_le _ _
  omega

/-- **Failover**: a request goes through the providers that are not in cooldown, or the one cooled longest, and ends
with the first success, the first refusal or the last failure. A provider is in cooldown only for its failures. -/
theorem failover_correct (h : Reachable config s) (t : Nat) (inputs : Nat → Input T) :
    (∃ providers calls, Chosen config s (inputs 0).nanos providers ∧
      Tried providers calls ((tryProviders config).alone (act t) inputs s).1 ∧
      callsIn ((tryProviders config).alone (act t) inputs s).2.log = callsIn s.log ++ calls) ∧
    Justified config s ∧ Justified config ((tryProviders config).alone (act t) inputs s).2 := by
  have hspec := tryAvailable_spec (t := t) (A := fun _ => True) (reachable_pos h) (inputs 0).nanos (reachable_sound h)
  obtain ⟨providers, hchosen, hsound, calls, htried, hcalls⟩ :=
    @Prog.Ensures.alone _ _ _ _ _ _ _ _ _ _ hspec (fun k => inputs (k + 1)) fun _ => trivial
  exact ⟨⟨providers, calls, hchosen, htried, hcalls⟩, (reachable_sound h).justified, hsound.justified⟩

/-- Two providers that failed once are both in cooldown when one failure is enough, and the next request has one to try. -/
theorem failover_after_failures :
    let config : CooldownConfig := ⟨300, 1⟩
    let start : FailoverProvider 2 Nat := { lastUsed := 0 }
    let failed := ((complete config).alone (act 0) (fun k => ⟨k, .error (.http "")⟩) start).2
    (∀ i, cooled config failed 100 i = true) ∧
      (∃ providers calls, Chosen config failed 100 providers ∧
        Tried providers calls ((tryProviders config).alone (act 0) (fun _ => ⟨100, .ok 7⟩) failed).1 ∧
        callsIn ((tryProviders config).alone (act 0) (fun _ => ⟨100, .ok 7⟩) failed).2.log = callsIn failed.log ++ calls) ∧
      Justified config failed ∧
      Justified config ((tryProviders config).alone (act 0) (fun _ => ⟨100, .ok 7⟩) failed).2 := by
  intro config start failed
  have hreached : Reachable config failed := .complete 0 _ (.start rfl)
  exact ⟨by decide, failover_correct hreached 0 fun _ => ⟨100, .ok 7⟩⟩

end Freeclawdia.Failover
