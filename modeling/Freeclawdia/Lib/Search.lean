import Mathlib.Data.List.Basic
import Mathlib.Data.List.Infix

/-!
# `Lib.Search` — splitting a list at an occurrence of a pattern

`splitFirst` cuts a list at the first occurrence of a pattern, `splitLast` at the last occurrence of an element. What
comes out of them is decided by where the pattern can occur, and that by elements the pattern does not have: an
occurrence never reaches across such an element (`infix_append_cons`), and a pattern whose first element does not recur
is found where it was put (`splitFirst_append`).
-/

namespace Freeclawdia.Search

variable {α : Type} [DecidableEq α]

/-- What stands before and after the first occurrence of a pattern. -/
def splitFirst (pat : List α) : List α → Option (List α × List α)
  | [] => if pat.isEmpty then some ([], []) else none
  | x :: xs =>
    if pat.isPrefixOf (x :: xs) then some ([], (x :: xs).drop pat.length)
    else (splitFirst pat xs).map fun r => (x :: r.1, r.2)

/-- What stands before and after the last occurrence of an element. -/
def splitLast (a : α) : List α → Option (List α × List α)
  | [] => none
  | x :: xs =>
    match splitLast a xs with
    | some r => some (x :: r.1, r.2)
    | none => if x = a then some ([], xs) else none

omit [DecidableEq α] in
/-- An occurrence does not reach across an element the pattern does not have. -/
theorem infix_append_cons {p a b : List α} {c : α} (hc : c ∉ p) : p <:+: a ++ c :: b ↔ p <:+: a ∨ p <:+: b := by
  constructor
  · rintro ⟨s, t, h⟩
    rcases List.append_eq_append_iff.mp h with ⟨r, rfl, -⟩ | ⟨r, hsp, hb⟩
    · exact Or.inl ⟨s, r, rfl⟩
    · cases r with
      | nil =>
        left
        rw [List.append_nil] at hsp
        exact ⟨s, [], by rw [hsp, List.append_nil]⟩
      | cons c' r =>
        obtain ⟨rfl, rfl⟩ : c = c' ∧ b = r ++ t := by simpa using hb
        rcases List.append_eq_append_iff.mp hsp with ⟨v, -, hp⟩ | ⟨w, -, hr⟩
        · exact absurd (hp ▸ List.mem_append_right v List.mem_cons_self) hc
        · cases w with
          | nil => exact absurd ((show p = c :: r by simpa using hr.symm) ▸ List.mem_cons_self) hc
          | cons c' w =>
            obtain ⟨-, rfl⟩ : c = c' ∧ r = w ++ p := by simpa using hr
            exact Or.inr ⟨w, t, rfl⟩
  · rintro (h | h)
    · exact h.trans (List.prefix_append _ _).isInfix
    · exact h.trans ((List.suffix_cons c b).isInfix.trans (List.suffix_append _ _).isInfix)

theorem splitFirst_eq_none {pat s : List α} (h : ¬pat <:+: s) : splitFirst pat s = none := by
  induction s with
  | nil =>
    have hne : pat ≠ [] := by
      rintro rfl
      exact h List.nil_infix
    simp [splitFirst, hne]
  | cons x xs ih =>
    have hpre : pat.isPrefixOf (x :: xs) = false := by
      rw [Bool.eq_false_iff]
      intro hp
      exact h (List.isPrefixOf_iff_prefix.mp hp).isInfix
    have hrest : ¬pat <:+: xs := fun hp => h (hp.trans (List.suffix_cons x xs).isInfix)
    simp [splitFirst, hpre, ih hrest]

theorem splitFirst_ne_none {pat s : List α} (h : pat <:+: s) : splitFirst pat s ≠ none := by
  induction s with
  | nil => simp [splitFirst, List.infix_nil.mp h]
  | cons x xs ih =>
    rw [splitFirst]
    split_ifs with hpre
    · exact Option.some_ne_none _
    · rcases List.infix_cons_iff.mp h with hat | hlater
      · exact absurd (List.isPrefixOf_iff_prefix.mpr hat) hpre
      · simpa using ih hlater

omit [DecidableEq α] in
/-- The first occurrence of an element splits a list in one way. -/
theorem append_cons_inj {a : α} {u v x y : List α} (hu : a ∉ u) (hv : a ∉ v) (h : u ++ a :: x = v ++ a :: y) : u = v := by
  induction u generalizing v with
  | nil =>
    cases v with
    | nil => rfl
    | cons b v => exact absurd (List.mem_cons.mpr (.inl (List.cons.inj h).1)) hv
  | cons b u ih =>
    cases v with
    | nil => exact absurd (List.mem_cons.mpr (.inl (List.cons.inj h).1.symm)) hu
    | cons b' v =>
      obtain ⟨rfl, hrest⟩ := List.cons.inj h
      rw [ih (List.not_mem_of_not_mem_cons hu) (List.not_mem_of_not_mem_cons hv) hrest]

/-- What is found is the first occurrence. -/
theorem splitFirst_eq_some {c : α} {p s a b : List α} (h : splitFirst (c :: p) s = some (a, b)) :
    s = a ++ (c :: p) ++ b ∧ ¬(c :: p) <:+: a := by
  induction s generalizing a with
  | nil => simp [splitFirst] at h
  | cons x xs ih =>
    rw [splitFirst] at h
    split_ifs at h with hpre
    · obtain ⟨t, ht⟩ := List.isPrefixOf_iff_prefix.mp hpre
      obtain ⟨rfl, rfl⟩ : [] = a ∧ (x :: xs).drop (c :: p).length = b := by simpa using h
      rw [← ht]
      exact ⟨by simp, fun hin => by simpa using List.infix_nil.mp hin⟩
    · obtain ⟨⟨a', b'⟩, hrest, heq⟩ := Option.map_eq_some_iff.mp h
      obtain ⟨rfl, rfl⟩ : x :: a' = a ∧ b' = b := by simpa using heq
      obtain ⟨hxs, hfirst⟩ := ih hrest
      refine ⟨by rw [hxs]; rfl, ?_⟩
      intro hin
      rcases List.infix_cons_iff.mp hin with hat | hlater
      · refine hpre (List.isPrefixOf_iff_prefix.mpr (hat.trans ?_))
        rw [hxs, List.append_assoc]
        exact List.prefix_append (x :: a') _
      · exact hfirst hlater

/-- A pattern that cannot overlap itself is found where it was put, if it does not occur before. -/
theorem splitFirst_append {c : α} {p a : List α} (hc : c ∉ p) (ha : ¬(c :: p) <:+: a) (b : List α) :
    splitFirst (c :: p) (a ++ (c :: p) ++ b) = some (a, b) := by
  induction a with
  | nil =>
    have hpre : (c :: p).isPrefixOf (c :: (p ++ b)) = true :=
      List.isPrefixOf_iff_prefix.mpr ⟨b, rfl⟩
    show splitFirst (c :: p) (c :: (p ++ b)) = some ([], b)
    rw [splitFirst, if_pos hpre]
    simp
  | cons x xs ih =>
    have hpre : (c :: p).isPrefixOf (x :: (xs ++ (c :: p) ++ b)) = false := by
      rw [Bool.eq_false_iff]
      intro hp
      obtain ⟨t, ht⟩ := List.isPrefixOf_iff_prefix.mp hp
      have heq : (c :: p) ++ t = (x :: xs) ++ (c :: (p ++ b)) := by simpa using ht
      rcases List.append_eq_append_iff.mp heq with ⟨r, hr, -⟩ | ⟨r, hr, hb⟩
      · exact ha ⟨[], r, by simpa using hr.symm⟩
      · -- the occurrence reaches the pattern's own first element
        cases r with
        | nil => exact ha ⟨[], [], by simpa using hr⟩
        | cons c' r =>
          obtain ⟨rfl, -⟩ : c = c' ∧ _ := by simpa using hb
          obtain ⟨-, hp'⟩ : c = x ∧ p = xs ++ c :: r := by simpa using hr
          exact hc (hp' ▸ List.mem_append_right xs List.mem_cons_self)
    have hrest : ¬(c :: p) <:+: xs := fun hp => ha (hp.trans (List.suffix_cons x xs).isInfix)
    show splitFirst (c :: p) (x :: (xs ++ (c :: p) ++ b)) = some (x :: xs, b)
    rw [splitFirst, hpre, ih hrest]
    rfl

theorem splitLast_append (a : α) (before : List α) : splitLast a (before ++ [a]) = some (before, []) := by
  induction before with
  | nil => simp [splitLast]
  | cons x xs ih => simp [splitLast, ih]

end Freeclawdia.Search
