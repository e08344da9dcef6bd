import Freeclawdia.Lib.Runs
import Mathlib.Logic.Function.Basic

/-!
# `Lib.Interleave` — tasks that share state and interleave between atomic operations

A **program** is a tree of operations: after each one it goes on with the operation's answer. A **machine** says what
an operation does to the shared state (or that it blocks, `none`), which calls there are and what their programs are;
its tasks then take turns, one operation at a time, in any order.

Proofs about all interleavings go through an **outline**: an invariant of the shared state, and for each task what it
may *rely* on, a relation that every step of every other task respects. `Outline.Holds` says that a program, started
in a state, keeps the invariant, respects what the others rely on, and ends with its postcondition; it is proved by
walking the program once (`Holds.bind`), never by comparing two programs. `Outline.run` puts the tasks together.
-/

namespace Freeclawdia

/-- A program over operations `Op`, each of which is answered with an `Ans`. -/
inductive Prog (Op : Type) (Ans : Op → Type) (α : Type) where
  | ret (a : α) : Prog Op Ans α
  | op (o : Op) (next : Ans o → Prog Op Ans α) : Prog Op Ans α

/-- The program of one operation. -/
def perf {Op : Type} {Ans : Op → Type} (o : Op) : Prog Op Ans (Ans o) := .op o .ret

namespace Prog

variable {Op : Type} {Ans : Op → Type} {α β : Type}

/-- Go on with another program. -/
def bind : Prog Op Ans α → (α → Prog Op Ans β) → Prog Op Ans β
  | .ret a, f => f a
  | .op o next, f => .op o fun ans => (next ans).bind f

instance : Monad (Prog Op Ans) where
  pure := .ret
  bind := bind

/-- The same program as part of a system with more operations. -/
def lift {Op' : Type} {Ans' : Op' → Type} (f : Op → Op') (g : ∀ o, Ans' (f o) → Ans o) :
    Prog Op Ans α → Prog Op' Ans' α
  | .ret a => .ret a
  | .op o next => .op (f o) fun ans => (next (g o ans)).lift f g

variable {Op' : Type}

theorem lift_bind {Ans' : Op' → Type} (f : Op → Op') (g : ∀ o, Ans' (f o) → Ans o) (p : Prog Op Ans α)
    (q : α → Prog Op Ans β) : (p >>= q).lift f g = p.lift f g >>= fun a => (q a).lift f g := by
  induction p with
  | ret a => rfl
  | op o next ih => exact congrArg (Prog.op (f o)) (funext fun ans => ih (g o ans))

/-- Every operation the program can come to satisfies `φ`. -/
def Every (φ : Op → Prop) : Prog Op Ans α → Prop
  | .ret _ => True
  | .op o next => φ o ∧ ∀ ans, (next ans).Every φ

variable {φ : Op → Prop}

theorem every_ret {a : α} : (Prog.ret a : Prog Op Ans α).Every φ := True.intro

variable {o : Op} {next : Ans o → Prog Op Ans α}

theorem every_op (h : φ o) (hnext : ∀ ans, (next ans).Every φ) :
    (Prog.op o next).Every φ := ⟨h, hnext⟩

theorem every_call {f : Ans o → α} (h : φ o) :
    (Prog.op o fun ans => .ret (f ans) : Prog Op Ans α).Every φ := every_op h fun _ => every_ret

theorem every_perf (h : φ o) : (perf o : Prog Op Ans (Ans o)).Every φ := every_call h

theorem every_of_forall (h : ∀ o, φ o) (p : Prog Op Ans α) : p.Every φ := by
  induction p with
  | ret a => exact True.intro
  | op o next ih => exact ⟨h o, ih⟩

theorem Every.head (h : (Prog.op o next).Every φ) : φ o := h.1

theorem Every.tail (h : (Prog.op o next).Every φ) (ans : Ans o) :
    (next ans).Every φ := h.2 ans

theorem Every.bind {p : Prog Op Ans α} {f : α → Prog Op Ans β} (h : p.Every φ) (hf : ∀ a, (f a).Every φ) :
    (p >>= f).Every φ := by
  induction p with
  | ret a => exact hf a
  | op o next ih => exact ⟨h.1, fun ans => ih ans (h.2 ans)⟩

theorem every_lift {Ans' : Op' → Type} {f : Op → Op'} {g : ∀ o, Ans' (f o) → Ans o} {φ : Op' → Prop} (h : ∀ o, φ (f o))
    (p : Prog Op Ans α) : (p.lift f g).Every φ := by
  induction p with
  | ret a => exact True.intro
  | op o next ih => exact ⟨h o, fun ans => ih (g o ans)⟩

/-- `Every.bind` for programs that may stop with an error. -/
theorem Every.bindE {ε : Type} {x : ExceptT ε (Prog Op Ans) α} {f : α → ExceptT ε (Prog Op Ans) β} (h : Every φ x.run)
    (hf : ∀ a, Every φ (f a).run) : Every φ (x >>= f).run := by
  apply Every.bind h
  intro r
  cases r with
  | error e => exact True.intro
  | ok a => exact hf a

end Prog

/-- What the tasks of a system share, the operations on it, and the calls a task can be made of. -/
structure Machine where
  Shared : Type
  Op : Type
  Ans : Op → Type
  /-- What the environment contributes to one operation: a clock reading, a failure, a random draw. -/
  Input : Type
  Call : Type
  Out : Call → Type
  body : (c : Call) → Prog Op Ans (Out c)
  /-- What operation `o` of task `t` answers and leaves behind; `none` when it has to wait. -/
  perform : (t : Nat) → (o : Op) → Input → Shared → Option (Ans o × Shared)

namespace Machine

/-- A call and what is left of its program. -/
structure Task (M : Machine) where
  call : M.Call
  rest : Prog M.Op M.Ans (M.Out call)

/-- The shared state and the tasks started so far; a finished task keeps its result. -/
structure Config (M : Machine) where
  shared : M.Shared
  tasks : Nat → Option M.Task

/-- What can happen next: a new task makes a call, or a task performs its next operation. -/
inductive Label (M : Machine) where
  | start (t : Nat) (c : M.Call)
  | step (t : Nat) (i : M.Input)

/-- No task has started. -/
def initial (M : Machine) (s : M.Shared) : M.Config := ⟨s, fun _ => none⟩

/-- One step of the system. -/
def step (M : Machine) (cfg : M.Config) : M.Label → Option M.Config
  | .start t c =>
    match cfg.tasks t with
    | none => some { cfg with tasks := Function.update cfg.tasks t (some ⟨c, M.body c⟩) }
    | some _ => none
  | .step t i =>
    match cfg.tasks t with
    | some ⟨c, .op o next⟩ =>
      (M.perform t o i cfg.shared).map fun r =>
        { shared := r.2, tasks := Function.update cfg.tasks t (some ⟨c, next r.1⟩) }
    | _ => none

variable {M : Machine}

/-- Task `t` has made call `c` and it has returned `out`. -/
def Config.Returned (cfg : M.Config) (t : Nat) (c : M.Call) (out : M.Out c) : Prop :=
  cfg.tasks t = some ⟨c, .ret out⟩

/-- Task `t` has made a call that has not returned yet. -/
def Config.Running (cfg : M.Config) (t : Nat) : Prop :=
  ∃ c o next, cfg.tasks t = some ⟨c, .op o next⟩

/-- **What a step can be**: a start, which only adds a task, or one operation of one task. -/
theorem step_cases {cfg cfg' : M.Config} {l : M.Label} (h : M.step cfg l = some cfg') :
    (∃ t c, l = .start t c ∧ cfg.tasks t = none ∧
      cfg' = ⟨cfg.shared, Function.update cfg.tasks t (some ⟨c, M.body c⟩)⟩) ∨
    (∃ t i c o next a s', l = .step t i ∧ cfg.tasks t = some ⟨c, .op o next⟩ ∧
      M.perform t o i cfg.shared = some (a, s') ∧ cfg' = ⟨s', Function.update cfg.tasks t (some ⟨c, next a⟩)⟩) := by
  cases l with
  | start t c =>
    simp only [step] at h
    split at h
    next hnone =>
      refine .inl ⟨t, c, rfl, hnone, ?_⟩
      simpa using h.symm
    next => cases h
  | step t i =>
    simp only [step] at h
    split at h
    next c o next htask =>
      obtain ⟨r, hr, rfl⟩ := Option.map_eq_some_iff.mp h
      exact .inr ⟨t, i, c, o, next, r.1, r.2, rfl, htask, hr, rfl⟩
    next => cases h

variable {new : M.Task} {t t' : Nat} {tasks : Nat → Option M.Task}

theorem task_of_update {task : M.Task} (h : Function.update tasks t (some new) t' = some task) :
    (t' = t ∧ new = task) ∨ (t' ≠ t ∧ tasks t' = some task) := by
  by_cases ht : t' = t
  · subst ht
    rw [Function.update_self] at h
    exact .inl ⟨rfl, Option.some.inj h⟩
  · rw [Function.update_of_ne ht] at h
    exact .inr ⟨ht, h⟩

theorem none_of_update (h : Function.update tasks t (some new) t' = none) : t' ≠ t ∧ tasks t' = none := by
  by_cases ht : t' = t
  · subst ht
    rw [Function.update_self] at h
    cases h
  · rw [Function.update_of_ne ht] at h
    exact ⟨ht, h⟩

end Machine

/-- An invariant, what each task relies on, and what a returned call promises. `Allowed` is what a step may
    assume of the state it is taken in: the condition a run is subject to. `Pre` is what holds of a task that
    has not started. -/
structure Outline (M : Machine) where
  Inv : M.Shared → Prop
  Rely : Nat → M.Shared → M.Shared → Prop
  Pre : Nat → M.Shared → Prop
  Allowed : Nat → M.Op → M.Input → M.Shared → Prop
  Post : Nat → (c : M.Call) → M.Out c → M.Shared → Prop
  rely_refl : ∀ t s, Rely t s s
  rely_trans : ∀ {t s s' s''}, Rely t s s' → Rely t s' s'' → Rely t s s''
  pre_stable : ∀ {t s s'}, Pre t s → Rely t s s' → Pre t s'
  post_stable : ∀ {t c out s s'}, Post t c out s → Rely t s s' → Inv s' → Post t c out s'

namespace Outline

variable {M : Machine} (P : Outline M) {α β : Type} {t : Nat} {s s' : M.Shared}

/-- Task `t` may move the shared state from `s` to `s'`: the invariant stays, and the other tasks see what
    they rely on. -/
def Move (t : Nat) (s s' : M.Shared) : Prop := P.Inv s' ∧ ∀ t', t' ≠ t → P.Rely t' s s'

/-- From `s` on, whatever the other tasks do meanwhile, the program of task `t` only makes moves it may make,
    and ends in a state in which `Q` holds of its result. -/
def Holds (t : Nat) (Q : α → M.Shared → Prop) : Prog M.Op M.Ans α → M.Shared → Prop
  | .ret a, s => Q a s
  | .op o next, s => ∀ s', P.Rely t s s' → P.Inv s' → ∀ i a s'', M.perform t o i s' = some (a, s'') →
      P.Allowed t o i s' → P.Move t s' s'' ∧ Holds t Q (next a) s''

variable {P} {Q : α → M.Shared → Prop}

theorem holds_ret {a : α} (h : Q a s) : P.Holds t Q (.ret a) s := h

theorem holds_op {o : M.Op} {next : M.Ans o → Prog M.Op M.Ans α}
    (h : ∀ s', P.Rely t s s' → P.Inv s' → ∀ i a s'', M.perform t o i s' = some (a, s'') →
      P.Allowed t o i s' → P.Move t s' s'' ∧ P.Holds t Q (next a) s'') : P.Holds t Q (.op o next) s := h

variable {p : Prog M.Op M.Ans α}

theorem Holds.mono {Q Q' : α → M.Shared → Prop} (h : P.Holds t Q p s)
    (hQ : ∀ a s, Q a s → Q' a s) : P.Holds t Q' p s := by
  induction p generalizing s with
  | ret a => exact hQ a s h
  | op o next ih =>
    intro s' hrely hinv i a s'' hperform hallowed
    obtain ⟨hmove, hrest⟩ := h s' hrely hinv i a s'' hperform hallowed
    exact ⟨hmove, ih a hrest⟩

theorem holds_ite {c : Prop} [Decidable c] {p q : Prog M.Op M.Ans α}
    (hp : c → P.Holds t Q p s) (hq : ¬c → P.Holds t Q q s) : P.Holds t Q (if c then p else q) s := by
  split
  next hc => exact hp hc
  next hc => exact hq hc

/-- **Sequencing.** -/
theorem Holds.bind {Q' : β → M.Shared → Prop}
    {f : α → Prog M.Op M.Ans β} (h : P.Holds t Q p s) (hf : ∀ a s, Q a s → P.Holds t Q' (f a) s) :
    P.Holds t Q' (p >>= f) s := by
  induction p generalizing s with
  | ret a => exact hf a s h
  | op o next ih =>
    intro s' hrely hinv i a s'' hperform hallowed
    obtain ⟨hmove, hrest⟩ := h s' hrely hinv i a s'' hperform hallowed
    exact ⟨hmove, ih a hrest⟩

/-- Sequencing of programs that may stop with an error. -/
theorem Holds.bindE {ε : Type} {Q : Except ε α → M.Shared → Prop} {Q' : Except ε β → M.Shared → Prop}
    {x : ExceptT ε (Prog M.Op M.Ans) α} {f : α → ExceptT ε (Prog M.Op M.Ans) β} (h : P.Holds t Q x.run s)
    (hok : ∀ a s, Q (.ok a) s → P.Holds t Q' (f a).run s) (herr : ∀ e s, Q (.error e) s → Q' (.error e) s) :
    P.Holds t Q' (x >>= f).run s := by
  apply h.bind
  intro r s hQ
  cases r with
  | error e => exact herr e s hQ
  | ok a => exact hok a s hQ

/-- **A stretch of program that does not touch what matters.** `J` is kept by the operations `φ` of the task
    itself and by the other tasks. -/
theorem holds_every {φ : M.Op → Prop} {J : M.Shared → Prop}
    (hstep : ∀ {o i a s s'}, φ o → P.Inv s → J s → M.perform t o i s = some (a, s') → P.Allowed t o i s →
      P.Move t s s' ∧ J s') (hstable : ∀ {s s'}, J s → P.Rely t s s' → P.Inv s' → J s')
    (hp : p.Every φ) (hJ : J s) : P.Holds t (fun _ => J) p s := by
  induction p generalizing s with
  | ret a => exact hJ
  | op o next ih =>
    intro s' hrely hinv i a s'' hperform hallowed
    obtain ⟨hmove, hJ'⟩ := hstep hp.1 hinv (hstable hJ hrely hinv) hperform hallowed
    exact ⟨hmove, ih a (hp.2 a) hJ'⟩

/-- What holds of a program still holds after the others have moved. -/
theorem Holds.rely (h : P.Holds t Q p s)
    (hrely : P.Rely t s s') (hstable : ∀ a, Q a s → Q a s') : P.Holds t Q p s' := by
  cases p with
  | ret a => exact hstable a h
  | op o next => exact fun s'' hrely' => h s'' (P.rely_trans hrely hrely')

variable (P)

/-- The invariant holds, and the rest of every task's program does what it promises. -/
structure Good (cfg : M.Config) : Prop where
  inv : P.Inv cfg.shared
  pre : ∀ t, cfg.tasks t = none → P.Pre t cfg.shared
  tasks : ∀ t task, cfg.tasks t = some task → P.Holds t (P.Post t task.call) task.rest cfg.shared

variable {P} {cfg : M.Config}

theorem Good.post (h : P.Good cfg) {c : M.Call} {out : M.Out c} (hret : cfg.Returned t c out) :
    P.Post t c out cfg.shared := h.tasks t _ hret

/-- **All tasks together.** In every run whose steps meet the condition, from a state with the invariant,
    every state reached has it, and every call that has returned has what it promises. -/
theorem run {C : M.Config → M.Label → Prop} {s : M.Shared} {ls : List M.Label} (run : Runs M.step C (M.initial s) ls cfg)
    (hinit : P.Inv s) (hpre : ∀ t, P.Pre t s)
    (hallowed : ∀ {cfg : M.Config} {t i c o next}, P.Good cfg → C cfg (.step t i) → cfg.tasks t = some ⟨c, .op o next⟩ →
      P.Allowed t o i cfg.shared)
    (hbody : ∀ {t s} (c : M.Call), P.Inv s → P.Pre t s → P.Holds t (P.Post t c) (M.body c) s) : P.Good cfg := by
  refine run.invariant (P := fun _ cfg => P.Good cfg) ⟨hinit, fun t _ => hpre t, by intro _ _ h; cases h⟩ ?_
  intro _ cfg cfg' l hgood hC hstep
  rcases Machine.step_cases hstep with ⟨t, c, rfl, hnone, rfl⟩ | ⟨t, i, c, o, next, a, s', rfl, htask, hop, rfl⟩
  · -- A start changes no shared state.
    refine ⟨hgood.inv, fun t' hnone' => ?_, fun t' task htask => ?_⟩
    · exact hgood.pre t' (Machine.none_of_update hnone').2
    · rcases Machine.task_of_update htask with ⟨rfl, rfl⟩ | ⟨_, htask⟩
      · exact hbody c hgood.inv (hgood.pre _ hnone)
      · exact hgood.tasks t' task htask
  · -- The task that moves goes on; the others see a step they rely on.
    have hmoves := hgood.tasks t _ htask cfg.shared (P.rely_refl t _) hgood.inv i a s' hop
      (hallowed hgood hC htask)
    obtain ⟨⟨hinv', hothers⟩, hrest⟩ := hmoves
    refine ⟨hinv', fun t' hnone' => ?_, fun t' task htask' => ?_⟩
    · obtain ⟨ht, hnone'⟩ := Machine.none_of_update hnone'
      exact P.pre_stable (hgood.pre t' hnone') (hothers t' ht)
    · rcases Machine.task_of_update htask' with ⟨rfl, rfl⟩ | ⟨ht, htask'⟩
      · exact hrest
      · have hrely := hothers t' ht
        exact (hgood.tasks t' task htask').rely hrely fun _ hpost => P.post_stable hpost hrely hinv'

end Outline

-- From here on programs are walked with the rules above, and never by evaluating them.
attribute [irreducible] Prog.Every Outline.Holds

namespace Machine

variable {M : Machine}

/-- Every operation that is left of a task's program satisfies what `φ` says about its call. -/
def Obeys (φ : M.Call → M.Op → Prop) (cfg : M.Config) : Prop :=
  ∀ t task, cfg.tasks t = some task → task.rest.Every (φ task.call)

variable {cfg : M.Config}

theorem Obeys.step {φ : M.Call → M.Op → Prop} {cfg' : M.Config} {l : M.Label} (h : Obeys φ cfg)
    (hbody : ∀ c, (M.body c).Every (φ c)) (hstep : M.step cfg l = some cfg') : Obeys φ cfg' := by
  intro t' task htask
  rcases step_cases hstep with ⟨t, c, -, -, rfl⟩ | ⟨t, i, c, o, next, a, s', -, hmoving, -, rfl⟩
  · rcases task_of_update htask with ⟨-, rfl⟩ | ⟨-, htask⟩
    · exact hbody c
    · exact h t' task htask
  · rcases task_of_update htask with ⟨-, rfl⟩ | ⟨-, htask⟩
    · exact (h t _ hmoving).tail a
    · exact h t' task htask

/-- A task there is has been started. -/
theorem started_of_run {C : M.Config → M.Label → Prop} {s : M.Shared} {ls : List M.Label}
    (run : Runs M.step C (M.initial s) ls cfg) : ∀ t task, cfg.tasks t = some task → .start t task.call ∈ ls := by
  refine run.invariant (P := fun ls cfg => ∀ t task, cfg.tasks t = some task → .start t task.call ∈ ls)
    (by intro _ _ h; cases h) ?_
  intro ls cfg cfg' l hall _ hstep t' task htask
  rcases step_cases hstep with ⟨t, c, rfl, -, rfl⟩ | ⟨t, i, c, o, next, a, s', rfl, hmoving, -, rfl⟩
  · rcases task_of_update htask with ⟨rfl, rfl⟩ | ⟨-, htask⟩
    · exact List.mem_append_right _ (List.mem_singleton.mpr rfl)
    · exact List.mem_append_left _ (hall t' task htask)
  · rcases task_of_update htask with ⟨rfl, rfl⟩ | ⟨-, htask⟩
    · have hstarted := hall t' _ hmoving
      exact List.mem_append_left _ hstarted
    · exact List.mem_append_left _ (hall t' task htask)

/-- The condition that every operation performed meets `A` in the state it is performed in. -/
def StepsMeet (A : Nat → M.Op → M.Input → M.Shared → Prop) (cfg : M.Config) : M.Label → Prop
  | .start _ _ => True
  | .step t i => ∀ c o next, cfg.tasks t = some ⟨c, .op o next⟩ → A t o i cfg.shared

/-- `StepsMeet`, computed. -/
def stepsMeet (check : Nat → M.Op → M.Input → M.Shared → Bool) (cfg : M.Config) (l : M.Label) : Bool :=
  match l with
  | .start _ _ => true
  | .step t i =>
    match cfg.tasks t with
    | some ⟨_, .op o _⟩ => check t o i cfg.shared
    | _ => true

theorem stepsMeet_sound {A : Nat → M.Op → M.Input → M.Shared → Prop}
    {check : Nat → M.Op → M.Input → M.Shared → Bool} (hcheck : ∀ t o i s, check t o i s = true → A t o i s)
    (cfg : M.Config) (l : M.Label) (h : stepsMeet check cfg l = true) : StepsMeet A cfg l := by
  cases l with
  | start t c => exact True.intro
  | step t i =>
    intro c o next htask
    simp only [stepsMeet, htask] at h
    exact hcheck t o i cfg.shared h

end Machine

/-! ## A program run with nobody else about

The programs of `Lib.Interleave`, run from start to end. `Prog.alone` computes the result for given inputs of
the environment; `Prog.Ensures` says what holds at the end whatever the inputs are, and is proved by walking the
program once. -/

namespace Prog

variable {Op : Type} {Ans : Op → Type} {Input S α β : Type}

/-- What the program returns and leaves behind; its `n`-th operation gets the `n`-th input. -/
def alone (perform : (o : Op) → Input → S → Ans o × S) : Prog Op Ans α → (Nat → Input) → S → α × S
  | .ret a, _, s => (a, s)
  | .op o next, inputs, s =>
    (next (perform o (inputs 0) s).1).alone perform (fun n => inputs (n + 1)) (perform o (inputs 0) s).2

/-- Whatever the inputs, as long as each of them meets `A`, the program ends with `Q`. -/
def Ensures (perform : (o : Op) → Input → S → Ans o × S) (A : Input → Prop) (Q : α → S → Prop) :
    Prog Op Ans α → S → Prop
  | .ret a, s => Q a s
  | .op o next, s => ∀ i, A i → Ensures perform A Q (next (perform o i s).1) (perform o i s).2

variable {perform : (o : Op) → Input → S → Ans o × S} {A : Input → Prop} {s : S} {Q : α → S → Prop}

theorem ensures_ret {a : α} (h : Q a s) : Ensures perform A Q (.ret a) s := h

theorem ensures_op {o : Op} {next : Ans o → Prog Op Ans α}
    (h : ∀ i, A i → Ensures perform A Q (next (perform o i s).1) (perform o i s).2) :
    Ensures perform A Q (.op o next) s := h

variable {p : Prog Op Ans α}

theorem Ensures.alone (h : Ensures perform A Q p s)
    {inputs : Nat → Input} (hA : ∀ n, A (inputs n)) : Q (p.alone perform inputs s).1 (p.alone perform inputs s).2 := by
  induction p generalizing s inputs with
  | ret a => exact h
  | op o next ih => exact ih _ (h (inputs 0) (hA 0)) fun n => hA (n + 1)

theorem Ensures.mono {Q Q' : α → S → Prop} (h : Ensures perform A Q p s)
    (hQ : ∀ a s, Q a s → Q' a s) : Ensures perform A Q' p s := by
  induction p generalizing s with
  | ret a => exact hQ a s h
  | op o next ih => exact fun i hi => ih _ (h i hi)

/-- **Sequencing.** -/
theorem Ensures.bind {Q' : β → S → Prop} {f : α → Prog Op Ans β}
    (h : Ensures perform A Q p s) (hf : ∀ a s, Q a s → Ensures perform A Q' (f a) s) :
    Ensures perform A Q' (p >>= f) s := by
  induction p generalizing s with
  | ret a => exact hf a s h
  | op o next ih => exact fun i hi => ih _ (h i hi)

/-- Sequencing of programs that may stop with an error. -/
theorem Ensures.bindE {ε : Type} {Q : Except ε α → S → Prop} {Q' : Except ε β → S → Prop}
    {x : ExceptT ε (Prog Op Ans) α} {f : α → ExceptT ε (Prog Op Ans) β} (h : Ensures perform A Q x.run s)
    (hok : ∀ a s, Q (.ok a) s → Ensures perform A Q' (f a).run s)
    (herr : ∀ e s, Q (.error e) s → Q' (.error e) s) : Ensures perform A Q' (x >>= f).run s := by
  apply h.bind
  intro r s hQ
  cases r with
  | error e => exact herr e s hQ
  | ok a => exact hok a s hQ

/-- **What every operation keeps, the program keeps.** -/
theorem ensures_every {φ : Op → Prop} {J : S → Prop}
    (hstep : ∀ {o i s}, φ o → A i → J s → J (perform o i s).2) (hp : p.Every φ) (hJ : J s) :
    Ensures perform A (fun _ => J) p s := by
  induction p generalizing s with
  | ret a => exact hJ
  | op o next ih => exact fun i hi => ih _ (hp.tail _) (hstep hp.head hi hJ)

end Prog

attribute [irreducible] Prog.Ensures

end Freeclawdia
