import Freeclawdia.Lib.Interleave

/-!
# `Lib.Phases` — calls that go through phases, and runs without one of the calls

A call goes through **phases**: its phase says which operations it may come to, which answers it can get and which phase
it is in after an answer. A program that follows the phases is walked once (`Follows.bind`). What a phase means for the
shared state is `In`; one lemma for each operation says that the task that performs it comes to the next phase and that
the other tasks stay in theirs (`Sound`). Then in every state of a run every task is in a phase its program follows
(`Sound.run`), so that at each operation it is known what its task has done before.

`Sound.without` compares a run with the run in which one task does nothing: when the others get the same answers from
two related states, the labels of the others alone are a run, and it ends in a related state.
-/

namespace Freeclawdia

/-- The phases of the calls of a machine, and what holds in them. `Allowed` is what a step may assume of the state it is
    taken in; `Fin` is what holds of a call that returns. -/
structure Phases (M : Machine) where
  Phase : Type
  first : Phase
  Pre : Phase → M.Op → Prop
  Can : Phase → (o : M.Op) → M.Ans o → Prop
  next : Phase → (o : M.Op) → M.Ans o → Phase
  Fin : (c : M.Call) → Phase → M.Out c → Prop
  Inv : M.Shared → Prop
  In : Nat → Phase → M.Shared → Prop
  Allowed : Nat → M.Op → M.Input → M.Shared → Prop

namespace Phases

variable {M : Machine} (P : Phases M) {α β : Type}

/-- From phase `k` on, the program performs what its phase lets it, and ends with `Q` of its phase and result. -/
def Follows (Q : P.Phase → α → Prop) : P.Phase → Prog M.Op M.Ans α → Prop
  | k, .ret a => Q k a
  | k, .op o rest => P.Pre k o ∧ ∀ a, P.Can k o a → Follows Q (P.next k o a) (rest a)

variable {P} {k : P.Phase} {Q : P.Phase → α → Prop}

theorem follows_ret {a : α} (h : Q k a) : P.Follows Q k (.ret a) := h

variable {o : M.Op}

theorem follows_op {rest : M.Ans o → Prog M.Op M.Ans α} (hpre : P.Pre k o)
    (h : ∀ a, P.Can k o a → P.Follows Q (P.next k o a) (rest a)) : P.Follows Q k (.op o rest) :=
  ⟨hpre, h⟩

theorem Follows.mono {Q Q' : P.Phase → α → Prop} {p : Prog M.Op M.Ans α} (h : P.Follows Q k p)
    (hQ : ∀ k a, Q k a → Q' k a) :
    P.Follows Q' k p := by
  induction p generalizing k with
  | ret a => exact hQ k a h
  | op o rest ih => exact ⟨h.1, fun a hcan => ih a (h.2 a hcan)⟩

/-- **Sequencing.** -/
theorem Follows.bind {Q' : P.Phase → β → Prop} {p : Prog M.Op M.Ans α} {f : α → Prog M.Op M.Ans β}
    (h : P.Follows Q k p) (hf : ∀ k a, Q k a → P.Follows Q' k (f a)) : P.Follows Q' k (p >>= f) := by
  induction p generalizing k with
  | ret a => exact hf k a h
  | op o rest ih => exact ⟨h.1, fun a hcan => ih a (h.2 a hcan)⟩

variable (P)

/-- The operations move the task that performs them to its next phase, and leave the others in theirs. -/
structure Sound : Prop where
  own : ∀ {t k o i a s s'}, P.Inv s → P.In t k s → P.Pre k o → P.Allowed t o i s → M.perform t o i s = some (a, s') →
    P.Can k o a ∧ P.Inv s' ∧ P.In t (P.next k o a) s'
  others : ∀ {t u k ku o i a s s'}, u ≠ t → P.Inv s → P.In t k s → P.Pre k o → P.Allowed t o i s →
    M.perform t o i s = some (a, s') → P.In u ku s → P.In u ku s'

/-- Task `t` is in phase `k`, and what is left of its program follows the phases. -/
def At (t : Nat) (k : P.Phase) (cfg : M.Config) : Prop :=
  P.In t k cfg.shared ∧
    match cfg.tasks t with
    | none => k = P.first
    | some task => P.Follows (P.Fin task.call) k task.rest

/-- The invariant holds, and every task is in a phase. -/
structure Good (cfg : M.Config) : Prop where
  inv : P.Inv cfg.shared
  at_ : ∀ t, ∃ k, P.At t k cfg

variable {P} {cfg : M.Config} {t : Nat}

theorem At.follows (h : P.At t k cfg) {task : M.Task} (htask : cfg.tasks t = some task) :
    P.Follows (P.Fin task.call) k task.rest := by
  have hrest := h.2
  rw [htask] at hrest
  exact hrest

theorem At.eq_first (h : P.At t k cfg) (hnone : cfg.tasks t = none) : k = P.first := by
  have hrest := h.2
  rw [hnone] at hrest
  exact hrest

variable {c : M.Call}

theorem At.fin (h : P.At t k cfg) {out : M.Out c} (hret : cfg.Returned t c out) : P.Fin c k out := h.follows hret

variable {rest : M.Ans o → Prog M.Op M.Ans (M.Out c)}

/-- What the next operation of a task is known to be. -/
theorem At.pre (h : P.At t k cfg)
    (htask : cfg.tasks t = some ⟨c, .op o rest⟩) :
    P.Pre k o :=
  (h.follows htask).1

variable {u : Nat}

/-- A task that starts is in the first phase, and the others stay where they are. -/
theorem At.start (h : P.At u k cfg) (hnone : cfg.tasks t = none) (hbody : P.Follows (P.Fin c) P.first (M.body c)) :
    P.At u k ⟨cfg.shared, Function.update cfg.tasks t (some ⟨c, M.body c⟩)⟩ := by
  refine ⟨h.1, ?_⟩
  by_cases hu : u = t
  · subst hu
    rw [h.eq_first hnone]
    simpa [Function.update_self] using hbody
  · simpa [Function.update_of_ne hu] using h.2

/-- One operation: where the task that performs it is, and where the others are. -/
theorem Sound.at_step (hsound : P.Sound) {ku : P.Phase} (hinv : P.Inv cfg.shared) (hat : P.At t k cfg)
    {i : M.Input} {a : M.Ans o} {s' : M.Shared}
    (htask : cfg.tasks t = some ⟨c, .op o rest⟩) (hallowed : P.Allowed t o i cfg.shared)
    (hop : M.perform t o i cfg.shared = some (a, s')) (hu : P.At u ku cfg) :
    (u = t → P.At u (P.next k o a) ⟨s', Function.update cfg.tasks t (some ⟨c, rest a⟩)⟩) ∧
      (u ≠ t → P.At u ku ⟨s', Function.update cfg.tasks t (some ⟨c, rest a⟩)⟩) := by
  have hfollows := hat.follows htask
  refine ⟨?_, fun hne => ?_⟩
  · rintro rfl
    obtain ⟨hcan, -, hin⟩ := hsound.own hinv hat.1 hfollows.1 hallowed hop
    refine ⟨hin, ?_⟩
    simpa [Function.update_self] using hfollows.2 a hcan
  · refine ⟨hsound.others hne hinv hat.1 hfollows.1 hallowed hop hu.1, ?_⟩
    simpa [Function.update_of_ne hne] using hu.2

/-! ## All runs -/

variable {C : M.Config → M.Label → Prop} {s : M.Shared} {ls : List M.Label} {cfg : M.Config}

/-- A step keeps the invariant and the phases. -/
theorem Sound.step (hsound : P.Sound) (hbody : ∀ c, P.Follows (P.Fin c) P.first (M.body c))
    (hallowed : ∀ {cfg : M.Config} {t i c o rest}, C cfg (.step t i) → cfg.tasks t = some ⟨c, .op o rest⟩ →
      P.Allowed t o i cfg.shared)
    {cfg' : M.Config} {l : M.Label} (hgood : P.Good cfg) (hC : C cfg l) (hstep : M.step cfg l = some cfg') :
    P.Good cfg' := by
  rcases Machine.step_cases hstep with ⟨t, c, rfl, hnone, rfl⟩ | ⟨t, i, c, o, rest, a, s', rfl, htask, hop, rfl⟩
  · refine ⟨hgood.inv, fun u => ?_⟩
    obtain ⟨k, hat⟩ := hgood.at_ u
    exact ⟨k, hat.start hnone (hbody c)⟩
  · obtain ⟨k, hat⟩ := hgood.at_ t
    have hmay := hallowed hC htask
    refine ⟨(hsound.own hgood.inv hat.1 (hat.pre htask) hmay hop).2.1, fun u => ?_⟩
    obtain ⟨ku, hu⟩ := hgood.at_ u
    by_cases heq : u = t
    · exact ⟨_, (hsound.at_step hgood.inv hat htask hmay hop hu).1 heq⟩
    · exact ⟨ku, (hsound.at_step hgood.inv hat htask hmay hop hu).2 heq⟩

/-- **Every task is in a phase**, in every state a run comes to. -/
theorem Sound.run (hsound : P.Sound) (run : Runs M.step C (M.initial s) ls cfg) (hinit : P.Inv s)
    (hfirst : ∀ t, P.In t P.first s) (hbody : ∀ c, P.Follows (P.Fin c) P.first (M.body c))
    (hallowed : ∀ {cfg : M.Config} {t i c o rest}, C cfg (.step t i) → cfg.tasks t = some ⟨c, .op o rest⟩ →
      P.Allowed t o i cfg.shared) : P.Good cfg := by
  refine run.invariant (P := fun _ cfg => P.Good cfg) ⟨hinit, fun t => ⟨P.first, hfirst t, rfl⟩⟩ ?_
  exact fun hgood hC hstep => hsound.step hbody hallowed hgood hC hstep

end Phases

/-! ## A run without one of the tasks -/

namespace Machine

variable {M : Machine}

/-- Who takes a step. -/
def Label.task : M.Label → Nat
  | .start t _ => t
  | .step t _ => t

variable (cfg : M.Config)

/-- The configuration in which task `t` has not started, with another shared state. -/
def Config.without (t : Nat) (s : M.Shared) : M.Config := ⟨s, Function.update cfg.tasks t none⟩

/-- The steps of the other tasks. -/
def others (t : Nat) (ls : List M.Label) : List M.Label := ls.filter fun l => l.task ≠ t

variable {t : Nat} {ls : List M.Label} {l : M.Label}

theorem others_own (h : l.task = t) : others t (ls ++ [l]) = others t ls := by
  simp [others, h]

theorem others_other (h : l.task ≠ t) : others t (ls ++ [l]) = others t ls ++ [l] := by
  simp [others, h]

theorem without_update_own (t : Nat) (s s' : M.Shared) (new : M.Task) :
    (⟨s', Function.update cfg.tasks t (some new)⟩ : M.Config).without t s = cfg.without t s := by
  simp [Config.without]

variable {u : Nat}

theorem without_tasks (hne : u ≠ t) (s : M.Shared) :
    (cfg.without t s).tasks u = cfg.tasks u := Function.update_of_ne hne ..

theorem without_update_other (hne : u ≠ t) (s s' : M.Shared) (new : M.Task) :
    (⟨s', Function.update cfg.tasks u (some new)⟩ : M.Config).without t s =
      ⟨s, Function.update (cfg.without t s).tasks u (some new)⟩ := by
  simp [Config.without, Function.update_comm hne]

end Machine

namespace Phases

variable {M : Machine} {P : Phases M} {C : M.Config → M.Label → Prop} {s : M.Shared} {ls : List M.Label} {cfg : M.Config}

/-- **Without task `t`** the other tasks take the same steps, as long as `t` is in no phase in `Exit`. `Rel` relates the
    states with and without it: its own operations keep the relation, and to the operations of the others the two states
    give the same answer. -/
theorem Sound.without (hsound : P.Sound) (run : Runs M.step C (M.initial s) ls cfg) (hinit : P.Inv s)
    (hfirst : ∀ t, P.In t P.first s) (hbody : ∀ c, P.Follows (P.Fin c) P.first (M.body c))
    (hallowed : ∀ {cfg : M.Config} {t i c o rest}, C cfg (.step t i) → cfg.tasks t = some ⟨c, .op o rest⟩ →
      P.Allowed t o i cfg.shared)
    (t : Nat) (Exit : P.Phase → Prop) (Rel : P.Phase → M.Shared → M.Shared → Prop) (hrel : Rel P.first s s)
    (hexit : ∀ {k o a}, Exit k → P.Pre k o → Exit (P.next k o a))
    (hown : ∀ {k o i a s₁ s₁' s₂}, P.Inv s₁ → P.In t k s₁ → P.Pre k o → P.Allowed t o i s₁ →
      M.perform t o i s₁ = some (a, s₁') → Rel k s₁ s₂ → Rel (P.next k o a) s₁' s₂ ∨ Exit (P.next k o a))
    (hothers : ∀ {u k ku o i a s₁ s₁' s₂}, u ≠ t → P.Inv s₁ → P.In t k s₁ → P.In u ku s₁ → P.Pre ku o →
      P.Allowed u o i s₁ → M.perform u o i s₁ = some (a, s₁') → Rel k s₁ s₂ →
      ∃ s₂', M.perform u o i s₂ = some (a, s₂') ∧ Rel k s₁' s₂') :
    ∃ k, P.At t k cfg ∧ (Exit k ∨ ∃ s', Runs M.step (fun _ _ => True) (M.initial s) (Machine.others t ls)
      (cfg.without t s') ∧ Rel k cfg.shared s') := by
  have hgood := hsound.run run hinit hfirst hbody hallowed
  refine (run.invariant (P := fun ls cfg => P.Good cfg ∧ ∃ k, P.At t k cfg ∧ (Exit k ∨
    ∃ s', Runs M.step (fun _ _ => True) (M.initial s) (Machine.others t ls) (cfg.without t s') ∧ Rel k cfg.shared s'))
    ⟨⟨hinit, fun t => ⟨P.first, hfirst t, rfl⟩⟩, P.first, ⟨hfirst t, rfl⟩, .inr ⟨s, ?_, hrel⟩⟩ ?_).2
  · have hsame : (M.initial s).without t s = M.initial s := by
      simp [Machine.Config.without, Machine.initial]
    rw [hsame]
    exact .refl _
  intro ls cfg cfg' l ⟨hgood, k, hat, hcases⟩ hC hstep
  refine ⟨hsound.step hbody hallowed hgood hC hstep, ?_⟩
  rcases Machine.step_cases hstep with ⟨u, c, rfl, hnone, rfl⟩ | ⟨u, i, c, o, rest, a, s', rfl, htask, hop, rfl⟩
  · refine ⟨k, hat.start hnone (hbody c), hcases.imp id fun ⟨s₂, run', hrel⟩ => ⟨s₂, ?_, hrel⟩⟩
    by_cases heq : u = t
    · subst heq
      rw [Machine.others_own (t := u) (l := .start u c) rfl, Machine.without_update_own]
      exact run'
    · rw [Machine.others_other (l := .start u c) heq, Machine.without_update_other cfg heq]
      refine .snoc run' _ True.intro ?_
      have hnone' : (cfg.without t s₂).tasks u = none := by rw [Machine.without_tasks cfg heq, hnone]
      simp only [Machine.step, hnone']
      rfl
  · obtain ⟨ku, hu⟩ := hgood.at_ u
    have hmay := hallowed hC htask
    by_cases heq : u = t
    · -- Its own step is left out.
      subst heq
      refine ⟨P.next k o a, (hsound.at_step hgood.inv hat htask hmay hop hat).1 rfl, ?_⟩
      rcases hcases with hex | ⟨s₂, run', hrel⟩
      · exact .inl (hexit hex (hat.pre htask))
      · refine (hown hgood.inv hat.1 (hat.pre htask) hmay hop hrel).symm.imp id fun hrel' => ⟨s₂, ?_, hrel'⟩
        rw [Machine.others_own (t := u) (l := .step u i) rfl, Machine.without_update_own]
        exact run'
    · refine ⟨k, (hsound.at_step hgood.inv hu htask hmay hop hat).2 (Ne.symm heq), hcases.imp id ?_⟩
      rintro ⟨s₂, run', hrel⟩
      obtain ⟨s₂', hop', hrel'⟩ := hothers heq hgood.inv hat.1 hu.1 (hu.pre htask) hmay hop hrel
      refine ⟨s₂', ?_, hrel'⟩
      rw [Machine.others_other (l := .step u i) heq, Machine.without_update_other cfg heq]
      refine .snoc run' _ True.intro ?_
      have htask' : (cfg.without t s₂).tasks u = some ⟨c, .op o rest⟩ := by rw [Machine.without_tasks cfg heq, htask]
      simp only [Machine.step, htask']
      have hop₂ : M.perform u o i (cfg.without t s₂).shared = some (a, s₂') := hop'
      rw [hop₂]
      rfl

end Phases

-- From here on programs are walked with the rules above.
attribute [irreducible] Phases.Follows

end Freeclawdia
