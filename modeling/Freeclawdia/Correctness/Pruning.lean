import Freeclawdia.Correctness.ManagerRuns
import Freeclawdia.Lib.Runs

/-!
# `Correctness.Pruning` — which sessions pruning removes

Pruning judges idleness by `last_active_at`, and only three things refresh that stamp: creating a thread,
switching to one, and hydrating one. A message that continues a thread the manager already knows leaves it
alone, so a session can be pruned right after a message, in the middle of a turn
(`prune_drops_busy_session`). In addition the cutoff drops the sub-second part of the limit and wraps a
limit of `2^63` seconds or more.

What does hold is a statement about runs: if every handled message refreshes the stamp, the limit is a whole
number of seconds below `2^63`, and every open turn belongs to a user heard of within the limit, then
pruning removes only idle sessions. The clock of a run does not go back.
-/

namespace Freeclawdia.Pruning

open Rust SessionManager

/-! ## Timed runs -/

/-- What a message's submission does to the session besides turns. -/
inductive ThreadCommand
  | none
  | newThread (newThreadId : Uuid)
  | switchThread (target : Uuid)

/-- A step of the manager under a clock. -/
inductive Step
  /-- `handle_message` hydrates and resolves the thread, and runs a thread command if it is one. -/
  | message (user channel : String) (external : Option String) (history : List ChatMessage)
      (sid sid' newTid : Uuid) (command : ThreadCommand) (now : Time)
  /-- A handler changes a session otherwise: turns, approvals, undo. None of this touches the stamp. -/
  | change (user : String) (f : Session → Session) (hf : ∀ s, (f s).lastActiveAt = s.lastActiveAt)
  | remove (user : String) (tid sid : Uuid) (now : Time)
  | prune (now : Time) (maxIdle : Duration) (busy₁ busy₂ : String → Bool)

/-- The manager, the clock, and the messages handled so far. -/
structure Timed where
  manager : SessionManager := .new
  clock : Time
  handled : List (String × Time) := []

/-- The thread `external` asks to hydrate. -/
def hydrationTarget (external : Option String) : Option Uuid := external.bind Uuid.parseStr

/-- Hydration, when the external id is an identifier. -/
def hydrated (m : SessionManager) (user channel : String) (external : Option String)
    (history : List ChatMessage) (sid : Uuid) (now : Time) : SessionManager :=
  match hydrationTarget external with
  | some tid => m.hydrateIfAbsent user channel tid history sid now
  | none => m

/-- A thread command on the user's session. -/
def ThreadCommand.run (m : SessionManager) (user : String) (now : Time) : ThreadCommand → SessionManager
  | .none => m
  | .newThread tid => m.modifySession user (Session.createThread · tid now)
  | .switchThread target => m.modifySession user fun s => (s.switchThread target now).2

/-- The manager after a message. -/
def afterMessage (m : SessionManager) (user channel : String) (external : Option String)
    (history : List ChatMessage) (sid sid' newTid : Uuid) (command : ThreadCommand) (now : Time) :
    SessionManager :=
  command.run ((hydrated m user channel external history sid now).resolveThread user channel external
    sid' newTid now).2 user now

/-- The moment a step happens. -/
def Step.now? : Step → Option Time
  | .message _ _ _ _ _ _ _ _ now => some now
  | .change .. => none
  | .remove _ _ _ now => some now
  | .prune now .. => some now

/-- The manager after a step; `none` when pruning panics. -/
def Step.manager (m : SessionManager) : Step → Option SessionManager
  | .message user channel external history sid sid' newTid command now =>
    some (afterMessage m user channel external history sid sid' newTid command now)
  | .change user f _ => some (m.modifySession user f)
  | .remove user tid sid now => some (m.removeThread user tid sid now)
  | .prune now maxIdle busy₁ busy₂ => m.pruneStaleSessions now maxIdle busy₁ busy₂

/-- The message a step handles. -/
def Step.message? : Step → List (String × Time)
  | .message user _ _ _ _ _ _ _ now => [(user, now)]
  | _ => []

/-- One step. There is none into the past. -/
def Timed.step (st : Timed) (s : Step) : Option Timed :=
  if s.now?.any (· < st.clock) then none
  else
    (s.manager st.manager).map fun m =>
      { manager := m, clock := s.now?.getD st.clock, handled := st.handled ++ s.message? }

/-! ## The condition -/

/-- The message refreshes the stamp: it hydrates a thread, creates one, or switches to one. -/
def Refreshes (m : SessionManager) (user channel : String) (external : Option String)
    (command : ThreadCommand) : Prop :=
  (∃ tid, hydrationTarget external = some tid ∧ ¬ m.Holds user tid)
    ∨ (m.mapped (keyOf user channel external) = none ∧ m.adoptable user external = none)
    ∨ (∃ tid, command = .newThread tid)
    ∨ ∃ target, command = .switchThread target ∧ m.Holds user target

/-- The session has a turn in state `Processing`. -/
def HasOpenTurn (s : Session) : Prop :=
  ∃ tid thread, s.threads.lookup tid = some thread ∧ ∃ turn ∈ thread.turns, turn.state = .processing

/-- The steps of the runs in which pruning does what it is for. -/
def Kept (st : Timed) : Step → Prop
  | .message user channel external _ _ _ _ command _ => Refreshes st.manager user channel external command
  | .prune now maxIdle _ _ =>
    (maxIdle.nanos = 0 ∧ maxIdle.secs < 2 ^ 63)
      ∧ ∀ user s, st.manager.session user = some s → HasOpenTurn s →
        ∃ t, (user, t) ∈ st.handled ∧ now - maxIdle.toNanos ≤ t
  | _ => True

/-! ## What a step does to the stamps -/

/-- Every stamp of `m'` is one of `m` for the same user, or is `now`. -/
def StampsFrom (m m' : SessionManager) (now : Time) : Prop :=
  ∀ user s', m'.session user = some s' →
    (∃ s, m.session user = some s ∧ s'.lastActiveAt = s.lastActiveAt) ∨ s'.lastActiveAt = now

variable {m m' : SessionManager} {now : Time}

theorem StampsFrom.trans {m'' : SessionManager} (h : StampsFrom m m' now) (h' : StampsFrom m' m'' now) :
    StampsFrom m m'' now := by
  intro user s'' hs''
  rcases h' user s'' hs'' with ⟨s', hs', he⟩ | he
  · rcases h user s' hs' with ⟨s, hs, he'⟩ | he'
    · exact Or.inl ⟨s, hs, he.trans he'⟩
    · exact Or.inr (he.trans he')
  · exact Or.inr he

/-- A manager with the same sessions has the same stamps. -/
theorem stampsFrom_of_sessions (now : Time) (h : m'.sessions = m.sessions) : StampsFrom m m' now := by
  intro user s' hs'
  refine Or.inl ⟨s', ?_, rfl⟩
  show m.sessions.lookup user = some s'
  rw [← h]
  exact hs'

theorem stampsFrom_getOrCreateSession (m : SessionManager) (user : String) (sid : Uuid) (now : Time) :
    StampsFrom m (m.getOrCreateSession user sid now) now := by
  intro user' s' hs'
  have hs'' : (Map.insertIfAbsent user (Session.new sid user now) m.sessions).lookup user' = some s' := hs'
  by_cases hu : user' = user
  · subst hu
    rw [Map.lookup_insertIfAbsent_self] at hs''
    cases hs : m.sessions.lookup user' with
    | none =>
      rw [hs] at hs''
      refine Or.inr ?_
      rw [← Option.some.inj hs'']
      rfl
    | some s =>
      rw [hs] at hs''
      exact Or.inl ⟨s, hs, congrArg Session.lastActiveAt (Option.some.inj hs'').symm⟩
  · rw [Map.lookup_insertIfAbsent_ne _ _ hu] at hs''
    exact Or.inl ⟨s', hs'', rfl⟩

/-- A change to a session that keeps its stamp or sets it to `now`. -/
theorem stampsFrom_modifySession (m : SessionManager) (user : String) (f : Session → Session) (now : Time)
    (hf : ∀ s, (f s).lastActiveAt = s.lastActiveAt ∨ (f s).lastActiveAt = now) :
    StampsFrom m (m.modifySession user f) now := by
  intro user' s' hs'
  by_cases hu : user' = user
  · subst hu
    rw [session_modifySession_self] at hs'
    obtain ⟨s, hs, rfl⟩ := Option.map_eq_some_iff.mp hs'
    rcases hf s with h | h
    · exact Or.inl ⟨s, hs, h⟩
    · exact Or.inr h
  · rw [session_modifySession_ne m user f hu] at hs'
    exact Or.inl ⟨s', hs', rfl⟩

theorem stampsFrom_hydrated (m : SessionManager) (user channel : String) (external : Option String)
    (history : List ChatMessage) (sid : Uuid) (now : Time) :
    StampsFrom m (hydrated m user channel external history sid now) now := by
  unfold hydrated
  cases hydrationTarget external with
  | none => exact stampsFrom_of_sessions now rfl
  | some tid =>
    have h0 := stampsFrom_getOrCreateSession m user sid now
    by_cases hheld : m.Holds user tid
    · show StampsFrom m (m.hydrateIfAbsent user channel tid history sid now) now
      rw [hydrateIfAbsent_of_holds m user channel tid history sid now hheld]
      exact h0
    · have hsess := (hydrateIfAbsent_of_not_holds m user channel tid history sid now hheld).1
      exact (h0.trans (stampsFrom_modifySession _ user
        (insertHydrated (hydratedThread tid history) now) now (fun _ => Or.inr rfl))).trans
          (stampsFrom_of_sessions now hsess)

theorem stampsFrom_resolveThread (m : SessionManager) (user channel : String) (external : Option String)
    (sid newTid : Uuid) (now : Time) : StampsFrom m (m.resolveThread user channel external sid newTid now).2 now := by
  have h0 := stampsFrom_getOrCreateSession m user sid now
  rcases resolveThread_cases m user channel external sid newTid now with
    ⟨_, hm⟩ | ⟨_, _, hs, _⟩ | ⟨_, _, _, hs, _⟩
  · rw [hm]
    exact h0
  · exact h0.trans (stampsFrom_of_sessions now hs)
  · exact (h0.trans (stampsFrom_modifySession _ user (Session.createThread · newTid now) now
      (fun _ => Or.inr rfl))).trans (stampsFrom_of_sessions now hs)

theorem stampsFrom_command (m : SessionManager) (user : String) (now : Time) (command : ThreadCommand) :
    StampsFrom m (command.run m user now) now := by
  cases command with
  | none => exact stampsFrom_of_sessions now rfl
  | newThread tid => exact stampsFrom_modifySession m user _ now (fun _ => Or.inr rfl)
  | switchThread target =>
    apply stampsFrom_modifySession m user _ now
    intro s
    show (s.switchThread target now).2.lastActiveAt = _ ∨ (s.switchThread target now).2.lastActiveAt = _
    unfold Session.switchThread
    split
    · exact Or.inr rfl
    · exact Or.inl rfl

/-! ## A refreshing message sets the stamp -/

/-- The user's session was stamped at `now`. -/
def Stamped (m : SessionManager) (user : String) (now : Time) : Prop :=
  ∃ s, m.session user = some s ∧ s.lastActiveAt = now

variable {user : String}

theorem stamped_of_stampsFrom (h : Stamped m user now) (hfrom : StampsFrom m m' now) (hsome : (m'.session user).isSome) :
    Stamped m' user now := by
  obtain ⟨s', hs'⟩ := Option.isSome_iff_exists.mp hsome
  obtain ⟨s, hs, hnow⟩ := h
  refine ⟨s', hs', ?_⟩
  rcases hfrom user s' hs' with ⟨s₁, hs₁, he⟩ | he
  · rw [he, ← Option.some.inj (hs.symm.trans hs₁)]
    exact hnow
  · exact he

theorem stamped_modifySession {f : Session → Session} (hsome : (m.session user).isSome)
    (hf : ∀ s, m.session user = some s → (f s).lastActiveAt = now) : Stamped (m.modifySession user f) user now := by
  obtain ⟨s, hs⟩ := Option.isSome_iff_exists.mp hsome
  exact ⟨f s, by rw [session_modifySession_self, hs]; rfl, hf s hs⟩

variable {tid : Uuid}

theorem session_isSome_of_holds (h : m.Holds user tid) : (m.session user).isSome := by
  obtain ⟨s, _, hs, _⟩ := (holds_iff m user tid).mp h
  rw [hs]
  rfl

/-- A resolution leaves the user with a session. -/
theorem session_resolveThread_isSome (m : SessionManager) (user channel : String) (external : Option String)
    (sid newTid : Uuid) (now : Time) : ((m.resolveThread user channel external sid newTid now).2.session user).isSome :=
  session_isSome_of_holds
    ((holds_resolveThread m user channel external sid newTid now user _).mpr (Or.inr ⟨rfl, rfl⟩))

theorem session_command_isSome (now : Time) (command : ThreadCommand) (h : (m.session user).isSome) :
    ((command.run m user now).session user).isSome := by
  have hmod : ∀ f : Session → Session, ((m.modifySession user f).session user).isSome := by
    intro f
    rw [session_modifySession_self, Option.isSome_map]
    exact h
  cases command with
  | none => exact h
  | newThread tid => exact hmod _
  | switchThread target => exact hmod _

/-- Hydration drops no thread. -/
theorem holds_hydrated (h : m.Holds user tid) (channel : String) (external : Option String) (history : List ChatMessage)
    (sid : Uuid) (now : Time) : (hydrated m user channel external history sid now).Holds user tid := by
  unfold hydrated
  cases hydrationTarget external with
  | none => exact h
  | some t => exact (holds_hydrateIfAbsent m user channel t history sid now user tid).mpr (Or.inl h)

variable {external : Option String} {channel : String}

/-- Creating a thread in a resolution stamps the session. -/
theorem stamped_resolve_create (hmap : m.mapped (keyOf user channel external) = none)
    (had : m.adoptable user external = none) (sid newTid : Uuid) (now : Time) :
    Stamped (m.resolveThread user channel external sid newTid now).2 user now := by
  rcases resolveThread_cases m user channel external sid newTid now with
    ⟨h, _⟩ | ⟨_, h, _⟩ | ⟨_, _, _, hs, _⟩
  · rw [mapped_getOrCreateSession, hmap] at h
    cases h
  · rw [adoptable_getOrCreateSession, had] at h
    cases h
  · have hst : Stamped ((m.getOrCreateSession user sid now).modifySession user
        (Session.createThread · newTid now)) user now :=
      stamped_modifySession (session_getOrCreateSession_isSome m user sid now) (fun _ _ => rfl)
    obtain ⟨s, hs', hnow⟩ := hst
    refine ⟨s, ?_, hnow⟩
    show (m.resolveThread user channel external sid newTid now).2.sessions.lookup user = some s
    rw [hs]
    exact hs'

/-- **A refreshing message stamps the session with its time.** -/
theorem stamped_of_refreshes {command : ThreadCommand} (h : Refreshes m user channel external command)
    (history : List ChatMessage) (sid sid' newTid : Uuid) (now : Time) :
    Stamped (afterMessage m user channel external history sid sid' newTid command now) user now := by
  have hresolved := session_resolveThread_isSome (hydrated m user channel external history sid now) user
    channel external sid' newTid now
  have hcommand := stampsFrom_command ((hydrated m user channel external history sid now).resolveThread
    user channel external sid' newTid now).2 user now command
  have hend := session_command_isSome now command hresolved
  by_cases hhyd : ∃ tid, hydrationTarget external = some tid ∧ ¬ m.Holds user tid
  · -- Hydration stamps; the resolution and the command keep the stamp or renew it.
    obtain ⟨tid, ht, hnot⟩ := hhyd
    have hst : Stamped (hydrated m user channel external history sid now) user now := by
      unfold hydrated
      rw [ht]
      have hst₀ : Stamped ((m.getOrCreateSession user sid now).modifySession user
          (insertHydrated (hydratedThread tid history) now)) user now :=
        stamped_modifySession (session_getOrCreateSession_isSome m user sid now) (fun _ _ => rfl)
      obtain ⟨s, hs, hnow⟩ := hst₀
      refine ⟨s, ?_, hnow⟩
      show (m.hydrateIfAbsent user channel tid history sid now).sessions.lookup user = some s
      rw [(hydrateIfAbsent_of_not_holds m user channel tid history sid now hnot).1]
      exact hs
    have hst' := stamped_of_stampsFrom hst (stampsFrom_resolveThread _ user channel external sid' newTid now)
      hresolved
    exact stamped_of_stampsFrom hst' hcommand hend
  · rcases h with h | ⟨hmap, had⟩ | ⟨tid, rfl⟩ | ⟨target, rfl, hheld⟩
    · exact absurd h hhyd
    · -- Nothing was hydrated, so the resolution finds what the message found, and creates a thread.
      have hsame : hydrated m user channel external history sid now = m
          ∨ hydrated m user channel external history sid now = m.getOrCreateSession user sid now := by
        unfold hydrated
        cases ht : hydrationTarget external with
        | none => exact Or.inl rfl
        | some tid =>
          have hheld : m.Holds user tid := by
            by_contra hnot
            exact hhyd ⟨tid, ht, hnot⟩
          exact Or.inr (hydrateIfAbsent_of_holds m user channel tid history sid now hheld)
      have hmap' : (hydrated m user channel external history sid now).mapped (keyOf user channel external)
          = none := by
        rcases hsame with he | he
        · rw [he]; exact hmap
        · rw [he, mapped_getOrCreateSession]; exact hmap
      have had' : (hydrated m user channel external history sid now).adoptable user external = none := by
        rcases hsame with he | he
        · rw [he]; exact had
        · rw [he, adoptable_getOrCreateSession]; exact had
      exact stamped_of_stampsFrom (stamped_resolve_create hmap' had' sid' newTid now) hcommand hend
    · exact stamped_modifySession hresolved (fun _ _ => rfl)
    · apply stamped_modifySession hresolved
      intro s hs
      have hheld' := (holds_resolveThread _ user channel external sid' newTid now user target).mpr
        (Or.inl (holds_hydrated hheld channel external history sid now))
      obtain ⟨s₁, t, hs₁, ht⟩ := (holds_iff _ _ _).mp hheld'
      rw [← Option.some.inj (hs.symm.trans hs₁)] at ht
      simp [Session.switchThread, ht]

/-! ## The invariant of a run -/

/-- The stamp of a session is not older than any message of its user, and nothing lies in the future. -/
structure Inv (st : Timed) : Prop where
  past : ∀ user t, (user, t) ∈ st.handled → t ≤ st.clock
  stamp : ∀ user t s, (user, t) ∈ st.handled → st.manager.session user = some s → t ≤ s.lastActiveAt

variable {st : Timed}

/-- A step that handles no message and only ever stamps with a time not before the clock. -/
theorem inv_of_stampsFrom (hst : Inv st) (hnow : st.clock ≤ now) (hfrom : StampsFrom st.manager m now) :
    Inv { manager := m, clock := now, handled := st.handled } where
  past := fun user t h => Int.le_trans (hst.past user t h) hnow
  stamp := by
    intro user t s' h hs'
    rcases hfrom user s' hs' with ⟨s, hs, he⟩ | he
    · rw [he]
      exact hst.stamp user t s h hs
    · rw [he]
      exact Int.le_trans (hst.past user t h) hnow

variable {maxIdle : Duration} {busy₁ busy₂ : String → Bool}

theorem stampsFrom_prune (h : m.pruneStaleSessions now maxIdle busy₁ busy₂ = some m') : StampsFrom m m' now := by
  obtain ⟨cutoff, _, hsess, _⟩ := pruneStaleSessions_eq now h
  intro user s' hs'
  rw [hsess] at hs'
  split at hs'
  · cases hs'
  · exact Or.inl ⟨s', hs', rfl⟩

theorem stampsFrom_remove (m : SessionManager) (user : String) (tid sid : Uuid) (now : Time) :
    StampsFrom m (m.removeThread user tid sid now) now :=
  ((stampsFrom_getOrCreateSession m user sid now).trans
    (stampsFrom_modifySession _ user (dropThread tid) now (fun _ => Or.inl rfl))).trans
      (stampsFrom_of_sessions now rfl)

/-- A step allowed by the condition keeps the invariant. -/
theorem inv_step {st' : Timed} {s : Step} (hst : Inv st) (hC : Kept st s) (h : st.step s = some st') : Inv st' := by
  unfold Timed.step at h
  split at h
  · cases h
  · rename_i htime
    obtain ⟨m, hm, rfl⟩ := Option.map_eq_some_iff.mp h
    cases s with
    | message user channel external history sid sid' newTid command now =>
      have hnow : st.clock ≤ now := by simpa [Step.now?] using htime
      have hm' := Option.some.inj hm
      subst hm'
      have hstamp := stamped_of_refreshes hC history sid sid' newTid now
      have hfrom : StampsFrom st.manager
          (afterMessage st.manager user channel external history sid sid' newTid command now) now :=
        ((stampsFrom_hydrated st.manager user channel external history sid now).trans
          (stampsFrom_resolveThread _ user channel external sid' newTid now)).trans
            (stampsFrom_command _ user now command)
      have hold := inv_of_stampsFrom hst hnow hfrom
      refine ⟨?_, ?_⟩
      · intro u t hu
        rcases List.mem_append.mp hu with hu | hu
        · exact hold.past u t hu
        · obtain ⟨rfl, rfl⟩ := Prod.mk.inj (List.mem_singleton.mp hu)
          exact Int.le_refl _
      · intro u t s hu hs
        rcases List.mem_append.mp hu with hu | hu
        · exact hold.stamp u t s hu hs
        · -- The new message: its user's session carries its time.
          obtain ⟨rfl, rfl⟩ := Prod.mk.inj (List.mem_singleton.mp hu)
          obtain ⟨s₁, hs₁, hnow₁⟩ := hstamp
          rw [← Option.some.inj (hs₁.symm.trans hs), hnow₁]
    | change user f hf =>
      have hm' := Option.some.inj hm
      subst hm'
      have hfrom := stampsFrom_modifySession st.manager user f st.clock (fun s => Or.inl (hf s))
      have hinv := inv_of_stampsFrom hst (Int.le_refl _) hfrom
      rw [show st.handled ++ Step.message? (.change user f hf) = st.handled from List.append_nil _]
      exact hinv
    | remove user tid sid now =>
      have hnow : st.clock ≤ now := by simpa [Step.now?] using htime
      have hm' := Option.some.inj hm
      subst hm'
      have hinv := inv_of_stampsFrom hst hnow (stampsFrom_remove st.manager user tid sid now)
      rw [show st.handled ++ Step.message? (.remove user tid sid now) = st.handled from List.append_nil _]
      exact hinv
    | prune now maxIdle busy₁ busy₂ =>
      have hnow : st.clock ≤ now := by simpa [Step.now?] using htime
      have hinv := inv_of_stampsFrom hst hnow (stampsFrom_prune hm)
      rw [show st.handled ++ Step.message? (.prune now maxIdle busy₁ busy₂) = st.handled
        from List.append_nil _]
      exact hinv

/-! ## What pruning removes -/

/-- A limit of whole seconds below `2^63` gives the cutoff it should. -/
theorem pruneCutoff_eq {cutoff : Time} (hn : maxIdle.nanos = 0) (hs : maxIdle.secs < 2 ^ 63)
    (h : pruneCutoff now maxIdle = some cutoff) : cutoff = now - maxIdle.toNanos := by
  have hi : asI64 maxIdle.secs = maxIdle.secs := by
    unfold asI64
    rw [BitVec.toInt_eq_toNat_of_lt]
    · rw [BitVec.toNat_ofNat, Nat.mod_eq_of_lt (by omega)]
    · rw [BitVec.toNat_ofNat, Nat.mod_eq_of_lt (by omega)]
      omega
  unfold pruneCutoff at h
  simp only [hi] at h
  split at h
  · cases h
  · rw [← Option.some.inj h, Duration.toNanos, hn]
    simp

/-- A pruned session was stamped before the cutoff. -/
theorem stale_of_pruned (h : m.pruneStaleSessions now maxIdle busy₁ busy₂ = some m') {s : Session}
    (hs : m.session user = some s) (hgone : m'.session user = none) :
    ∃ cutoff, pruneCutoff now maxIdle = some cutoff ∧ s.lastActiveAt < cutoff := by
  obtain ⟨cutoff, hc, hsess, _⟩ := pruneStaleSessions_eq now h
  refine ⟨cutoff, hc, ?_⟩
  rw [hsess] at hgone
  split at hgone
  · rename_i hstale
    obtain ⟨e, he, heu⟩ := List.mem_map.mp hstale
    obtain ⟨hmem, hlt⟩ := List.mem_filter.mp he
    have hlook : m.session e.1 = some e.2 := AList.mem_lookup_iff.mpr hmem
    rw [heu, hs] at hlook
    rw [Option.some.inj hlook]
    have hboth : busy₁ e.1 = false ∧ e.2.lastActiveAt < cutoff := by simpa using hlt
    exact hboth.2
  · rw [hs] at hgone
    cases hgone

/-- **Pruning removes only idle sessions**, in every run whose messages refresh the stamp and whose prunings
    have a limit of whole seconds below `2^63` and find no open turn of a user not heard of within it: when
    pruning at `now` removes a session, its user sent no message after `now - maxIdle`, and no turn of the
    session is being processed. -/
theorem prune_removes_only_idle (start : Time) (steps : List Step) (st st' : Timed)
    (hrun : Runs Timed.step Kept { clock := start } steps st) (now : Time) (maxIdle : Duration)
    (busy₁ busy₂ : String → Bool) (hC : Kept st (.prune now maxIdle busy₁ busy₂))
    (hstep : st.step (.prune now maxIdle busy₁ busy₂) = some st') (user : String) (s : Session)
    (hs : st.manager.session user = some s) (hgone : st'.manager.session user = none) :
    (∀ t, (user, t) ∈ st.handled → t ≤ now - maxIdle.toNanos) ∧ ¬ HasOpenTurn s := by
  have hinv : Inv st := hrun.invariant (P := fun _ st => Inv st)
    ⟨fun _ _ h => absurd h List.not_mem_nil, fun _ _ _ h => absurd h List.not_mem_nil⟩ inv_step
  obtain ⟨⟨hn, hsecs⟩, hopen⟩ := hC
  unfold Timed.step at hstep
  split at hstep
  · cases hstep
  · obtain ⟨m, hm, rfl⟩ := Option.map_eq_some_iff.mp hstep
    obtain ⟨cutoff, hc, hlt⟩ := stale_of_pruned hm hs hgone
    rw [pruneCutoff_eq hn hsecs hc] at hlt
    have hold : ∀ t, (user, t) ∈ st.handled → t < now - maxIdle.toNanos := by
      intro t ht
      exact Int.lt_of_le_of_lt (hinv.stamp user t s ht hs) hlt
    refine ⟨fun t ht => Int.le_of_lt (hold t ht), ?_⟩
    intro hturn
    obtain ⟨t, ht, hrecent⟩ := hopen user s hs hturn
    exact absurd hrecent (Int.not_le.mpr (hold t ht))

/-! ## Two runs -/

def second : Int := 1000000000

/-- No entry of the manager has a turn in progress without a message of its user since the given moment. -/
def quietSince (st : Timed) (since : Time) : Bool :=
  st.manager.sessions.entries.all fun e =>
    st.handled.any (fun h => h.1 = e.1 ∧ since ≤ h.2) ||
      e.2.threads.entries.all fun f => f.2.turns.all fun turn => turn.state ≠ .processing

/-- The condition of a step, computed, for messages that make a thread. -/
def keptCheck (st : Timed) : Step → Bool
  | .message user channel external _ _ _ _ _ _ =>
    st.manager.mapped (keyOf user channel external) = none ∧ st.manager.adoptable user external = none
  | .prune now maxIdle _ _ =>
    (maxIdle.nanos = 0 ∧ maxIdle.secs < 2 ^ 63) && quietSince st (now - maxIdle.toNanos)
  | _ => true

theorem kept_of_check (st : Timed) (step : Step) (h : keptCheck st step = true) : Kept st step := by
  cases step with
  | message => exact Or.inr (Or.inl (of_decide_eq_true h))
  | change => trivial
  | remove => trivial
  | prune now maxIdle busy₁ busy₂ =>
    obtain ⟨hlimit, hquiet⟩ := (Bool.and_eq_true _ _).mp h
    refine ⟨of_decide_eq_true hlimit, fun user s hs hturn => ?_⟩
    -- the user is one of the entries, and the entry with an open turn has a recent message
    have hentry := List.all_eq_true.mp hquiet ⟨user, s⟩ (AList.mem_lookup_iff.mp hs)
    rcases (Bool.or_eq_true _ _).mp hentry with hheard | hdone
    · obtain ⟨⟨user', t⟩, hmem, ht⟩ := List.any_eq_true.mp hheard
      obtain ⟨rfl, hrecent⟩ := of_decide_eq_true ht
      exact ⟨t, hmem, hrecent⟩
    · obtain ⟨tid, thread, hthread, turn, hmem, hopen⟩ := hturn
      have hturns := List.all_eq_true.mp hdone ⟨tid, thread⟩ (AList.mem_lookup_iff.mp hthread)
      exact absurd hopen (of_decide_eq_true (List.all_eq_true.mp hturns turn hmem))

/-- Ann's message is answered at time 0; 7000 seconds later Bob's is being answered. -/
def quietRun : List Step :=
  [.message "ann" "web" none [] 1 2 3 .none 0,
    .change "ann" (Session.modifyThread · 3 (Thread.startTurn · "hello"))
      (fun s => Session.modifyThread_lastActiveAt s 3 _),
    .change "ann" (Session.modifyThread · 3 (Thread.completeTurn · "hello, Ann"))
      (fun s => Session.modifyThread_lastActiveAt s 3 _),
    .message "bob" "web" none [] 4 5 6 .none (7000 * second),
    .change "bob" (Session.modifyThread · 6 (Thread.startTurn · "please go on"))
      (fun s => Session.modifyThread_lastActiveAt s 6 _)]

/-- The pruning after two hours, with a limit of one. -/
def pruning : Step := .prune (7200 * second) ⟨3600, 0⟩ (fun _ => false) (fun _ => false)

/-- A run whose steps meet the condition. -/
def keptRun (steps : List Step) : Option Timed :=
  steps.foldlM (fun st step => if keptCheck st step then st.step step else none) { clock := 0 }

def quietBefore : Timed := (keptRun quietRun).get (by decide +kernel)

def quietAfter : Timed := (quietBefore.step pruning).get (by decide +kernel)

/-- Ann's session, an answered turn and two hours of silence, is pruned; Bob's, with a turn in progress, is not. -/
theorem prune_removes_only_idle_quiet :
    (quietAfter.manager.session "bob").isSome ∧
    ∃ s, quietBefore.manager.session "ann" = some s ∧ quietAfter.manager.session "ann" = none ∧
      (∀ t, ("ann", t) ∈ quietBefore.handled → t ≤ 7200 * second - 3600 * second) ∧ ¬ HasOpenTurn s := by
  have hrun : Runs Timed.step Kept { clock := 0 } quietRun quietBefore :=
    Runs.of_checked kept_of_check (Option.some_get _).symm
  have hC : Kept quietBefore pruning := kept_of_check _ _ (by decide +kernel)
  obtain ⟨s, hs⟩ := Option.isSome_iff_exists.mp
    (by decide +kernel : (quietBefore.manager.session "ann").isSome = true)
  have hgone : quietAfter.manager.session "ann" = none := Option.isNone_iff_eq_none.mp (by decide +kernel)
  exact ⟨by decide +kernel, s, hs, hgone, prune_removes_only_idle 0 quietRun quietBefore quietAfter hrun
    (7200 * second) ⟨3600, 0⟩ (fun _ => false) (fun _ => false) hC (Option.some_get _).symm "ann" s hs hgone⟩

/-- Ann's first message at time 0 makes her thread; her second, an hour later, continues it and is being
    answered; ten seconds after it a pruning with a limit of half an hour runs. -/
def busyRun : List Step :=
  [.message "ann" "web" none [] 1 2 3 .none 0,
    .message "ann" "web" none [] 4 5 6 .none (3600 * second),
    .change "ann" (Session.modifyThread · 3 (Thread.startTurn · "please go on"))
      (fun s => Session.modifyThread_lastActiveAt s 3 _)]

/-- The state before the pruning and the state after it. -/
def busyBefore : Option Timed := busyRun.foldlM Timed.step { clock := 0 }

def busyAfter : Option Timed :=
  busyBefore.bind (Timed.step · (.prune (3610 * second) ⟨1800, 0⟩ (fun _ => false) (fun _ => false)))

/-- **Pruning drops a session that is being used.** The session had a message ten seconds ago and has a turn
    in progress, and is gone. -/
theorem prune_drops_busy_session :
    (busyBefore.map fun st => st.handled) = some [("ann", 0), ("ann", 3600 * second)]
      ∧ ¬ (3600 * second ≤ 3610 * second - 1800 * second)
      ∧ (busyBefore.bind fun st => (st.manager.session "ann").bind fun s =>
          (s.threads.lookup 3).map fun t => t.turns.map Turn.state) = some [.processing]
      ∧ (busyAfter.map fun st => (st.manager.session "ann").isSome) = some false := by
  decide

end Freeclawdia.Pruning
