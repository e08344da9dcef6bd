import Freeclawdia.Lib.Interleave

/-!
# `Lib.Turns` — calls that take turns

The tasks of `Lib.Interleave` again, for systems without a lock. Every call has a **key**, what it works on;
calls with different keys interleave freely, and a call starts only when no other call with its key is under
way (`TakesTurns`). Then the calls with one key behave as if they ran one after another: `Turns.run` says what
holds when nobody is at work on a key, given the calls with that key and what they returned, in their order.

A proof gives what each call leaves alone for the other keys (`Same`), what holds between calls (`After`), and
walks each call's program once (`Turns.Holds`).
-/

namespace Freeclawdia

/-- Keys of calls, what the calls with another key leave alone, and what holds after a sequence of calls. -/
structure Turns (M : Machine) (K : Type) where
  key : M.Call → K
  Inv : M.Shared → Prop
  Same : K → M.Shared → M.Shared → Prop
  After : K → List (Σ c, M.Out c) → M.Shared → Prop
  same_refl : ∀ k s, Same k s s
  same_trans : ∀ {k s s' s''}, Same k s s' → Same k s' s'' → Same k s s''
  after_stable : ∀ {k past s s'}, After k past s → Same k s s' → Inv s' → After k past s'

namespace Turns

variable {M : Machine} {K : Type} (T : Turns M K) {α β : Type} {k : K} {t : Nat} {s s' : M.Shared}

/-- A call starts only when no other call with its key is under way. -/
def TakesTurns (cfg : M.Config) : M.Label → Prop
  | .start _ c => ∀ t' c' o next, cfg.tasks t' = some ⟨c', .op o next⟩ → T.key c' ≠ T.key c
  | .step _ _ => True

/-- A call with key `k` may move the shared state from `s` to `s'`. -/
def Move (k : K) (s s' : M.Shared) : Prop := T.Inv s' ∧ ∀ k', k' ≠ k → T.Same k' s s'

/-- From `s` on, whatever calls with other keys do meanwhile, the program of task `t` only makes moves a call
    with key `k` may make, and ends in a state in which `Q` holds of its result. -/
def Holds (k : K) (t : Nat) (Q : α → M.Shared → Prop) : Prog M.Op M.Ans α → M.Shared → Prop
  | .ret a, s => Q a s
  | .op o next, s => ∀ s', T.Same k s s' → T.Inv s' → ∀ i a s'', M.perform t o i s' = some (a, s'') →
      T.Move k s' s'' ∧ Holds k t Q (next a) s''

variable {T} {Q : α → M.Shared → Prop}

theorem holds_ret {a : α} (h : Q a s) : T.Holds k t Q (.ret a) s := h

theorem holds_op {o : M.Op} {next : M.Ans o → Prog M.Op M.Ans α}
    (h : ∀ s', T.Same k s s' → T.Inv s' → ∀ i a s'', M.perform t o i s' = some (a, s'') →
      T.Move k s' s'' ∧ T.Holds k t Q (next a) s'') : T.Holds k t Q (.op o next) s := h

/-- **Sequencing.** -/
theorem Holds.bind {Q' : β → M.Shared → Prop} {p : Prog M.Op M.Ans α}
    {f : α → Prog M.Op M.Ans β} (h : T.Holds k t Q p s) (hf : ∀ a s, Q a s → T.Holds k t Q' (f a) s) :
    T.Holds k t Q' (p >>= f) s := by
  induction p generalizing s with
  | ret a => exact hf a s h
  | op o next ih =>
    intro s' hsame hinv i a s'' hperform
    obtain ⟨hmove, hrest⟩ := h s' hsame hinv i a s'' hperform
    exact ⟨hmove, ih a hrest⟩

/-- Sequencing of programs that may stop with an error. -/
theorem Holds.bindE {ε : Type} {Q : Except ε α → M.Shared → Prop} {Q' : Except ε β → M.Shared → Prop}
    {x : ExceptT ε (Prog M.Op M.Ans) α} {f : α → ExceptT ε (Prog M.Op M.Ans) β} (h : T.Holds k t Q x.run s)
    (hok : ∀ a s, Q (.ok a) s → T.Holds k t Q' (f a).run s) (herr : ∀ e s, Q (.error e) s → Q' (.error e) s) :
    T.Holds k t Q' (x >>= f).run s := by
  apply h.bind
  intro r s hQ
  cases r with
  | error e => exact herr e s hQ
  | ok a => exact hok a s hQ

theorem Holds.mono {Q Q' : α → M.Shared → Prop} {p : Prog M.Op M.Ans α} (h : T.Holds k t Q p s)
    (hQ : ∀ a s, Q a s → Q' a s) : T.Holds k t Q' p s := by
  induction p generalizing s with
  | ret a => exact hQ a s h
  | op o next ih =>
    intro s' hsame hinv i a s'' hperform
    obtain ⟨hmove, hrest⟩ := h s' hsame hinv i a s'' hperform
    exact ⟨hmove, ih a hrest⟩

/-! ## All calls together -/

variable (T)

/-- The calls with key `k`, in the order of their starts. -/
def callsWith [DecidableEq K] (k : K) (ls : List M.Label) : List M.Call :=
  ls.filterMap fun
    | .start _ c => if T.key c = k then some c else none
    | .step _ _ => none

/-- Where the calls with key `k` stand: all have returned, or the last one is under way. -/
def Progress [DecidableEq K] (k : K) (ls : List M.Label) (cfg : M.Config) : Prop :=
  ∃ past : List (Σ c, M.Out c), (∀ r ∈ past, T.key r.1 = k ∧ ∃ t, cfg.Returned t r.1 r.2) ∧
    (((∀ t c o next, cfg.tasks t = some ⟨c, .op o next⟩ → T.key c ≠ k) ∧ past.map Sigma.fst = T.callsWith k ls ∧
        T.After k past cfg.shared) ∨
      ∃ t c o next, cfg.tasks t = some ⟨c, .op o next⟩ ∧ T.key c = k ∧
        (∀ t' c' o' next', cfg.tasks t' = some ⟨c', .op o' next'⟩ → T.key c' = k → t' = t) ∧
        past.map Sigma.fst ++ [c] = T.callsWith k ls ∧
        T.Holds k t (fun out s => T.After k (past ++ [⟨c, out⟩]) s) (.op o next) cfg.shared)

variable {T} [DecidableEq K] {ls ls' : List M.Label} {cfg cfg' : M.Config}

/-- A task at work on `k`, with whatever is left of its program. -/
theorem progress_of_holds {c : M.Call} {p : Prog M.Op M.Ans (M.Out c)} {past : List (Σ c, M.Out c)}
    (hpast : ∀ r ∈ past, T.key r.1 = k ∧ ∃ t, cfg.Returned t r.1 r.2) (htask : cfg.tasks t = some ⟨c, p⟩)
    (hkey : T.key c = k) (hothers : ∀ t' c' o' next', cfg.tasks t' = some ⟨c', .op o' next'⟩ → T.key c' = k → t' = t)
    (hcalls : past.map Sigma.fst ++ [c] = T.callsWith k ls)
    (h : T.Holds k t (fun out s => T.After k (past ++ [⟨c, out⟩]) s) p cfg.shared) : T.Progress k ls cfg := by
  cases p with
  | ret out =>
    have hafter : T.After k (past ++ [⟨c, out⟩]) cfg.shared := h
    refine ⟨past ++ [⟨c, out⟩], ?_, .inl ⟨?_, ?_, hafter⟩⟩
    · intro r hr
      rcases List.mem_append.mp hr with hr | hr
      · exact hpast r hr
      · rw [List.mem_singleton.mp hr]
        exact ⟨hkey, t, htask⟩
    · intro t' c' o next htask' hkey'
      rw [hothers t' c' o next htask' hkey', htask] at htask'
      cases htask'
    · rw [List.map_append]
      exact hcalls
  | op o next => exact ⟨past, hpast, .inr ⟨t, c, o, next, htask, hkey, hothers, hcalls, h⟩⟩

/-- What is done with another key leaves the calls with key `k` where they stand. -/
theorem Progress.frame (h : T.Progress k ls cfg)
    (htasks : ∀ t task, T.key task.call = k → (cfg'.tasks t = some task ↔ cfg.tasks t = some task))
    (hcalls : T.callsWith k ls' = T.callsWith k ls) (hsame : T.Same k cfg.shared cfg'.shared)
    (hinv : T.Inv cfg'.shared) : T.Progress k ls' cfg' := by
  obtain ⟨past, hpast, hstate⟩ := h
  refine ⟨past, ?_, ?_⟩
  · intro r hr
    obtain ⟨hkey, t, hreturned⟩ := hpast r hr
    exact ⟨hkey, t, (htasks t _ hkey).mpr hreturned⟩
  · rcases hstate with ⟨hidle, hmap, hafter⟩ | ⟨t, c, o, next, htask, hkey, hothers, hmap, hholds⟩
    · refine .inl ⟨?_, hmap.trans hcalls.symm, T.after_stable hafter hsame hinv⟩
      intro t c o next htask hkey
      exact hidle t c o next ((htasks t _ hkey).mp htask) hkey
    · refine .inr ⟨t, c, o, next, (htasks t _ hkey).mpr htask, hkey, ?_, hmap.trans hcalls.symm, ?_⟩
      · intro t' c' o' next' htask' hkey'
        exact hothers t' c' o' next' ((htasks t' _ hkey').mp htask') hkey'
      · exact fun s' hsame' => hholds s' (T.same_trans hsame hsame')

omit [DecidableEq K] in
theorem tasks_update_iff {task new : M.Task} {old : Option M.Task} (hold : cfg.tasks t = old)
    (hnew : T.key new.call ≠ k) (hgone : ∀ task, old = some task → T.key task.call ≠ k) (t' : Nat)
    (hkey : T.key task.call = k) :
    Function.update cfg.tasks t (some new) t' = some task ↔ cfg.tasks t' = some task := by
  by_cases ht : t' = t
  · subst ht
    rw [Function.update_self, hold]
    constructor
    · intro h
      cases h
      exact absurd hkey hnew
    · intro h
      exact absurd hkey (hgone task h)
  · rw [Function.update_of_ne ht]

omit [DecidableEq K] in
/-- A task that has not returned is none of those that have. -/
theorem past_of_update {past : List (Σ c, M.Out c)} {n : M.Task}
    (hpast : ∀ r ∈ past, T.key r.1 = k ∧ ∃ t, cfg.Returned t r.1 r.2)
    (hnot : ∀ c out, ¬ cfg.Returned t c out) (shared : M.Shared) : ∀ r ∈ past, T.key r.1 = k ∧
      ∃ t', (⟨shared, Function.update cfg.tasks t (some n)⟩ : M.Config).Returned t' r.1 r.2 := by
  intro r hr
  obtain ⟨hkey, t', hreturned⟩ := hpast r hr
  have hne : t' ≠ t := by
    rintro rfl
    exact hnot _ _ hreturned
  refine ⟨hkey, t', ?_⟩
  show Function.update cfg.tasks t (some n) t' = _
  rw [Function.update_of_ne hne]
  exact hreturned

omit [DecidableEq K] in
theorem running_of_update {new : M.Task} {c' : M.Call} {o' : M.Op} {next' : M.Ans o' → Prog M.Op M.Ans (M.Out c')}
    {t' : Nat} (hothers : ∀ t' c' o' next', cfg.tasks t' = some ⟨c', .op o' next'⟩ → T.key c' = k → t' = t)
    (h : Function.update cfg.tasks t (some new) t' = some ⟨c', .op o' next'⟩) (hkey : T.key c' = k) : t' = t := by
  rcases Machine.task_of_update h with ⟨rfl, -⟩ | ⟨-, htask⟩
  · rfl
  · exact hothers t' c' o' next' htask hkey

theorem callsWith_start (c : M.Call) : T.callsWith k (ls ++ [.start t c]) =
    T.callsWith k ls ++ if T.key c = k then [c] else [] := by
  rw [callsWith, List.filterMap_append]
  by_cases hkey : T.key c = k <;> simp [callsWith, hkey]

theorem callsWith_step (i : M.Input) : T.callsWith k (ls ++ [.step t i]) = T.callsWith k ls := by
  simp [callsWith]

variable {s : M.Shared}

/-- **Calls that take turns.** In every run in which calls start only when nobody is at work on their key, the
    calls with a key stand where their programs, walked one after another, say. -/
theorem run (run : Runs M.step T.TakesTurns (M.initial s) ls cfg) (hinit : T.Inv s) (hfirst : ∀ k, T.After k [] s)
    (hbody : ∀ {t s past} (c : M.Call), T.Inv s → T.After (T.key c) past s →
      T.Holds (T.key c) t (fun out s => T.After (T.key c) (past ++ [⟨c, out⟩]) s) (M.body c) s) :
    T.Inv cfg.shared ∧ ∀ k, T.Progress k ls cfg := by
  refine run.invariant (P := fun ls cfg => T.Inv cfg.shared ∧ ∀ k, T.Progress k ls cfg) ?_ ?_
  · refine ⟨hinit, fun k => ⟨[], ?_, .inl ⟨?_, rfl, hfirst k⟩⟩⟩
    · intro r hr
      cases hr
    · intro t c o next htask
      cases htask
  · rintro ls cfg cfg' l ⟨hinv, hprogress⟩ hturns hstep
    rcases Machine.step_cases hstep with ⟨t, c, rfl, hnone, rfl⟩ | ⟨t, i, c, o, next, a, s', rfl, htask, hop, rfl⟩
    · refine ⟨hinv, fun k => ?_⟩
      by_cases hk : T.key c = k
      · -- The call's turn: nobody is at work on its key.
        subst hk
        obtain ⟨past, hpast, ⟨hidle, hmap, hafter⟩ | ⟨t', c', o, next, htask, hkey, -⟩⟩ := hprogress (T.key c)
        · have hpast' := past_of_update (n := ⟨c, M.body c⟩) hpast
            (by intro c out h; rw [Machine.Config.Returned, hnone] at h; cases h) cfg.shared
          refine progress_of_holds hpast' (Function.update_self t _ _) rfl ?_ ?_ (hbody c hinv hafter)
          · intro t' c' o' next' htask' hkey'
            exact running_of_update (fun t' c' o' next' h hkey => absurd hkey (hidle t' c' o' next' h)) htask' hkey'
          · rw [callsWith_start, if_pos rfl, hmap]
        · exact absurd hkey (hturns t' c' o next htask)
      · refine (hprogress k).frame (fun t' task hkey => ?_) ?_ (T.same_refl k _) hinv
        · exact tasks_update_iff hnone hk (by rintro task ⟨⟩) t' hkey
        · rw [callsWith_start, if_neg hk, List.append_nil]
    · -- The task that moves is the one at work on its key.
      obtain ⟨past, hpast, ⟨hidle, -⟩ | ⟨t', c', o', next', htask', hkey', hothers, hmap, hholds⟩⟩ :=
        hprogress (T.key c)
      · exact absurd rfl (hidle t c o next htask)
      obtain rfl := hothers t c o next htask rfl
      rw [htask] at htask'
      cases htask'
      obtain ⟨⟨hinv', hsame⟩, hrest⟩ := hholds cfg.shared (T.same_refl _ _) hinv i a s' hop
      refine ⟨hinv', fun k => ?_⟩
      by_cases hk : T.key c = k
      · subst hk
        have hpast' := past_of_update (n := ⟨c, next a⟩) hpast
          (by intro c out h; rw [Machine.Config.Returned, htask] at h; cases h) s'
        refine progress_of_holds hpast' (Function.update_self t _ _) rfl ?_ ?_ hrest
        · intro t' c' o' next' htask' hkey'
          exact running_of_update hothers htask' hkey'
        · rw [callsWith_step, hmap]
      · refine (hprogress k).frame (fun t' task hkey => ?_) (callsWith_step i) (hsame k (Ne.symm hk)) hinv'
        refine tasks_update_iff htask hk ?_ t' hkey
        rintro task ⟨⟩
        exact hk

/-! ## Computed runs -/

variable (T)

/-- `TakesTurns`, computed for tasks with numbers below `n`. -/
def takesTurns (n : Nat) (cfg : M.Config) : M.Label → Bool
  | .start t c => decide (t < n) && (List.range n).all fun t' =>
    match cfg.tasks t' with
    | some ⟨c', .op _ _⟩ => decide (T.key c' ≠ T.key c)
    | _ => true
  | .step t _ => decide (t < n)

variable {T} {n : Nat}

theorem takesTurns_sound {l : M.Label} (hnone : ∀ t, n ≤ t → cfg.tasks t = none) (h : T.takesTurns n cfg l = true) :
    T.TakesTurns cfg l := by
  cases l with
  | step t i => exact True.intro
  | start t c =>
    intro t' c' o next htask
    have hlt : t' < n := by
      by_contra hge
      rw [hnone t' (by omega)] at htask
      cases htask
    have hall := List.all_eq_true.mp (Bool.and_eq_true_iff.mp h).2 t' (List.mem_range.mpr hlt)
    simpa [htask] using hall

/-- A run of tasks with numbers below `n` that was computed step by step. -/
theorem run_of_checked
    (h : ls.foldlM (fun cfg l => if T.takesTurns n cfg l then M.step cfg l else none) (M.initial s) = some cfg) :
    Runs M.step T.TakesTurns (M.initial s) ls cfg := by
  have hrun := Runs.of_checked (C := fun cfg l => T.takesTurns n cfg l = true) (fun _ _ h => h) h
  suffices hboth : (∀ t, n ≤ t → cfg.tasks t = none) ∧ Runs M.step T.TakesTurns (M.initial s) ls cfg from hboth.2
  clear h
  induction hrun with
  | refl => exact ⟨fun _ _ => rfl, .refl _⟩
  | snoc _ l hcheck hstep ih =>
    obtain ⟨hnone, hrun⟩ := ih
    refine ⟨?_, .snoc hrun l (takesTurns_sound hnone hcheck) hstep⟩
    intro t' ht'
    rcases Machine.step_cases hstep with ⟨t, c, rfl, -, rfl⟩ | ⟨t, i, c, o, next, a, s', rfl, -, -, rfl⟩
    · have hlt : t < n := of_decide_eq_true (Bool.and_eq_true_iff.mp hcheck).1
      have hne : t' ≠ t := by omega
      exact (Function.update_of_ne hne _ _).trans (hnone t' ht')
    · have hlt : t < n := of_decide_eq_true hcheck
      have hne : t' ≠ t := by omega
      exact (Function.update_of_ne hne _ _).trans (hnone t' ht')

end Turns

attribute [irreducible] Turns.Holds

end Freeclawdia
