import Mathlib.Data.List.Induction

/-!
# `Lib.Runs` — runs of a labelled, partial step function

A run takes one labelled step after another and remembers the labels. Each step may be required to satisfy
a condition on the state it starts from, so that "every run whose steps all meet the condition" is a type.
One rule proves everything about runs: what holds at the start and is kept by a step, given the labels so
far, holds at the end.
-/

namespace Freeclawdia

universe u v

/-- `Runs step C s ls s'`: the steps labelled `ls`, oldest first, lead from `s` to `s'`, each taken from a
    state in which `C` allows its label. -/
inductive Runs {S : Type u} {L : Type v} (step : S → L → Option S) (C : S → L → Prop) :
    S → List L → S → Prop
  | refl (s : S) : Runs step C s [] s
  | snoc {s s' s'' : S} {ls : List L} (run : Runs step C s ls s') (l : L) (hC : C s' l)
      (hstep : step s' l = some s'') : Runs step C s (ls ++ [l]) s''

namespace Runs

variable {S : Type u} {L : Type v} {step : S → L → Option S} {C : S → L → Prop} {ls : List L} {s s' : S}

/-- **The invariant rule**, with the labels so far at hand. -/
theorem invariant {P : List L → S → Prop} (run : Runs step C s ls s') (hinit : P [] s)
    (hkeep : ∀ {ls : List L} {a b : S} {l : L}, P ls a → C a l → step a l = some b → P (ls ++ [l]) b) : P ls s' := by
  induction run with
  | refl => exact hinit
  | snoc run l hC hstep ih => exact hkeep ih hC hstep

/-- A run without steps stays where it is. -/
theorem eq_of_nil (run : Runs step C s [] s') : s' = s := by
  refine run.invariant (P := fun ls a => ls = [] → a = s) (fun _ => rfl) ?_ rfl
  intro ls a b l _ _ _ h
  simp at h

/-- A run that was computed step by step, with the condition checked before each step. -/
theorem of_checked {check : S → L → Bool} (hcheck : ∀ s l, check s l = true → C s l)
    (h : ls.foldlM (fun s l => if check s l then step s l else none) s = some s') : Runs step C s ls s' := by
  induction ls using List.reverseRecOn generalizing s' with
  | nil =>
    have heq : s = s' := by simpa using h
    rw [heq]
    exact .refl s'
  | append_singleton ls l ih =>
    rw [List.foldlM_append] at h
    obtain ⟨mid, hmid, hlast⟩ := Option.bind_eq_some_iff.mp h
    have hstep : (if check mid l = true then step mid l else none) = some s' := by simpa using hlast
    split at hstep
    next hl => exact .snoc (ih hmid) l (hcheck mid l hl) hstep
    next => cases hstep

/-- A run that was computed step by step. -/
theorem of_foldlM (h : ls.foldlM step s = some s') : Runs step (fun _ _ => True) s ls s' := by
  induction ls using List.reverseRecOn generalizing s' with
  | nil =>
    have heq : s = s' := by simpa using h
    rw [heq]
    exact .refl s'
  | append_singleton ls l ih =>
    rw [List.foldlM_append] at h
    obtain ⟨mid, hmid, hlast⟩ := Option.bind_eq_some_iff.mp h
    exact .snoc (ih hmid) l True.intro (by simpa using hlast)

/-- A run computes its last state. -/
theorem foldlM (run : Runs step C s ls s') : ls.foldlM step s = some s' := by
  induction run with
  | refl => rfl
  | snoc run l hl hstep ih =>
    rw [List.foldlM_append, ih]
    simpa using hstep

end Runs
end Freeclawdia
