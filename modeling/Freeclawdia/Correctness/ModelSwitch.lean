import Freeclawdia.Llm.Chain

/-!
# `Correctness.ModelSwitch` — switching the model, all or nothing

`FailoverProvider::set_model` stops at the first provider that refuses and leaves the ones before it switched. Nothing of
that shows exactly if they had the model already. A chain keeps the model it was switched to, whichever provider answers.
-/

namespace Freeclawdia.ModelSwitch

open Failover (LlmError)

variable {model : String} {ps : List Provider}

/-- An error leaves every active model as it was, and a success has switched them all. -/
def AllOrNothing (model : String) (ps : List Provider) : Prop :=
  (∀ e, (setModel model ps).1 = .error e → (setModel model ps).2.map (·.activeModelName) = ps.map (·.activeModelName)) ∧
    ((setModel model ps).1 = .ok () → ∀ p ∈ (setModel model ps).2, p.activeModelName = model)

/-- What comes before the first provider that refuses has the model already. -/
def Settled (model : String) : List Provider → Prop
  | [] => True
  | p :: ps => p.refusal model = none → (p.activeModelName ≠ model → ∀ q ∈ ps, q.refusal model = none) ∧ Settled model ps

theorem setModel_ok_iff : (setModel model ps).1 = .ok () ↔ ∀ p ∈ ps, p.refusal model = none := by
  induction ps with
  | nil => simp [setModel]
  | cons p ps ih =>
    rw [List.forall_mem_cons, ← ih]
    cases hp : p.refusal model with
    | none => simp [setModel, Provider.setModel, hp]
    | some e => simp [setModel, Provider.setModel, hp]

theorem switched_of_ok (h : ∀ p ∈ ps, p.refusal model = none) :
    ∀ p ∈ (setModel model ps).2, p.activeModelName = model := by
  induction ps with
  | nil => simp [setModel]
  | cons p ps ih =>
    obtain ⟨hp, hps⟩ := List.forall_mem_cons.mp h
    simp only [setModel, Provider.setModel, hp]
    exact List.forall_mem_cons.mpr ⟨rfl, ih hps⟩

/-- **The first refusal** ends the loop: the names are as before exactly if no provider before it was switched. -/
theorem allOrNothing_iff (model : String) (ps : List Provider) : AllOrNothing model ps ↔ Settled model ps := by
  have hok : (setModel model ps).1 = .ok () → ∀ p ∈ (setModel model ps).2, p.activeModelName = model :=
    fun h => switched_of_ok (setModel_ok_iff.mp h)
  rw [AllOrNothing, and_iff_left hok]
  clear hok
  induction ps with
  | nil => simp [setModel, Settled]
  | cons p ps ih =>
    cases hp : p.refusal model with
    | some e => simp [setModel, Provider.setModel, hp, Settled]
    | none =>
      simp only [setModel, Provider.setModel, hp, List.map_cons, List.cons.injEq, Settled, forall_const]
      constructor
      · refine fun h => ⟨fun hne => ?_, ih.mp fun e he => (h e he).2⟩
        -- a switch that was needed does not come before an error
        refine setModel_ok_iff.mp ?_
        cases hrest : (setModel model ps).1 with
        | error e => exact absurd (h e hrest).1.symm hne
        | ok u => rfl
      · rintro ⟨hall, hrest⟩ e he
        refine ⟨?_, ih.mpr hrest e he⟩
        by_contra hne
        rw [setModel_ok_iff.mpr (hall (Ne.symm hne))] at he
        cases he

/-! ## Chains -/

/-- Every provider that a failover may name has the model. -/
def Chain.Has (model : String) : Chain → Prop
  | .nearAi activeModel => activeModel = model
  | .rig modelName => modelName = model
  | .retry inner | .circuitBreaker inner | .cached inner | .recording inner => inner.Has model
  | .smartRouting primary _ => primary.Has model
  | .failover _ primary fallback => primary.Has model ∧ fallback.Has model

variable {c : Chain}

theorem Chain.has_of_ok (h : (c.setModel model).1 = .ok ()) : (c.setModel model).2.Has model := by
  induction c with
  | nearAi activeModel => rfl
  | rig modelName => cases h
  | retry inner ih => exact ih h
  | circuitBreaker inner ih => exact ih h
  | cached inner ih => exact ih h
  | recording inner ih => exact ih h
  | smartRouting primary cheap ih _ => exact ih h
  | failover used primary fallback ih ih' =>
    rcases hp : primary.setModel model with ⟨_ | u, p⟩
    · simp [setModel, hp] at h
    · rw [hp] at ih
      simp only [setModel, hp] at h ⊢
      exact ⟨ih rfl, ih' h⟩

theorem Chain.has_serve (h : c.Has model) (byFallback : Bool) : (c.serve byFallback).Has model := by
  induction c with
  | failover used primary fallback ih ih' => exact ⟨ih h.1, ih' h.2⟩
  | retry inner ih => exact ih h
  | circuitBreaker inner ih => exact ih h
  | cached inner ih => exact ih h
  | recording inner ih => exact ih h
  | smartRouting primary cheap ih _ => exact ih h
  | _ => exact h

theorem Chain.activeModelName_of_has (h : c.Has model) : c.activeModelName = model := by
  induction c with
  | failover used primary fallback ih ih' =>
    cases used with
    | true => exact ih' h.2
    | false => exact ih h.1
  | retry inner ih => exact ih h
  | circuitBreaker inner ih => exact ih h
  | cached inner ih => exact ih h
  | recording inner ih => exact ih h
  | smartRouting primary cheap ih _ => exact ih h
  | _ => exact h

/-- **Switching the model** is all or nothing exactly for a settled list of providers. On a chain, what a successful switch
made active stays active, whoever serves the calls after it. -/
theorem setModel_all_or_nothing (model : String) (ps : List Provider) (c : Chain) (served : List Bool) :
    (AllOrNothing model ps ↔ Settled model ps) ∧
      ((c.setModel model).1 = .ok () →
        (served.foldl (fun c byFallback => c.serve byFallback) (c.setModel model).2).activeModelName = model) := by
  refine ⟨allOrNothing_iff model ps, fun h => Chain.activeModelName_of_has ?_⟩
  have hhas := Chain.has_of_ok h
  generalize (c.setModel model).2 = c' at hhas
  induction served generalizing c' with
  | nil => exact hhas
  | cons byFallback served ih => exact ih _ (Chain.has_serve hhas byFallback)

/-- The first provider switches, the second refuses: an error, and the first one is switched. -/
theorem half_switched :
    ¬AllOrNothing "new" [⟨"a", fun _ => none⟩, ⟨"b", fun _ => some (Chain.switchingNotSupported "b")⟩] := by
  intro h
  have hnames := h.1 _ rfl
  revert hnames
  decide

end Freeclawdia.ModelSwitch
