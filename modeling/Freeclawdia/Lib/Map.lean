import Mathlib.Data.List.AList
import Mathlib.Data.List.Induction
import Mathlib.Algebra.BigOperators.Group.Finset.Basic
import Mathlib.Algebra.Order.BigOperators.Group.Finset
import Mathlib.Algebra.Order.Group.Multiset

/-!
# `Lib.Map` — finite maps with the operations of a hash map

A finite map is Mathlib's `AList` with a constant value family; lookup, insertion and erasure are Mathlib's.
This file adds what a program that stores state in hash maps does besides: keep the entries that satisfy a
predicate, change all values, ask whether a value occurs, insert only where the key is absent, erase a list of
keys, and count entries. Each operation has its lookup characterization (for the count: what one insertion does to it), and
nothing else about it is needed.
-/

namespace Freeclawdia

universe u v

/-- A finite map from `K` to `V`. -/
abbrev Map (K : Type u) (V : Type v) := AList fun _ : K => V

namespace Map

variable {K : Type u} {V : Type v} [DecidableEq K]

/-! ## Keeping entries -/

omit [DecidableEq K] in
/-- Keep the entries that satisfy `p`. -/
def retain (p : K → V → Bool) (m : Map K V) : Map K V :=
  ⟨m.entries.filter fun e => p e.1 e.2, m.nodupKeys.sublist List.filter_sublist⟩

@[simp] theorem lookup_retain (p : K → V → Bool) (m : Map K V) (k : K) :
    (retain p m).lookup k = (m.lookup k).filter (p k) := by
  apply Option.ext
  intro v
  rw [← Option.mem_def, AList.mem_lookup_iff]
  simp only [retain, List.mem_filter, ← AList.mem_lookup_iff, Option.mem_def, Option.filter_eq_some_iff]

/-! ## Mapping values -/

omit [DecidableEq K] in
/-- Change every value. -/
def mapValues (f : V → V) (m : Map K V) : Map K V :=
  ⟨m.entries.map fun e => ⟨e.1, f e.2⟩, by
    have hkeys : (m.entries.map fun e => (⟨e.1, f e.2⟩ : Sigma fun _ : K => V)).keys = m.entries.keys := by
      simp [List.keys]
    rw [List.NodupKeys, hkeys]
    exact m.nodupKeys⟩

@[simp] theorem lookup_mapValues (f : V → V) (m : Map K V) (k : K) : (mapValues f m).lookup k = (m.lookup k).map f := by
  apply Option.ext
  intro v
  rw [← Option.mem_def, AList.mem_lookup_iff, Option.map_eq_some_iff]
  simp only [mapValues, List.mem_map]
  constructor
  · rintro ⟨e, he, heq⟩
    cases heq
    exact ⟨e.2, AList.mem_lookup_iff.mpr he, rfl⟩
  · rintro ⟨w, hw, rfl⟩
    exact ⟨⟨k, w⟩, AList.mem_lookup_iff.mp hw, rfl⟩

/-! ## Values -/

omit [DecidableEq K] in
/-- Does some key map to `v`? -/
def hasValue [DecidableEq V] (m : Map K V) (v : V) : Bool := m.entries.any fun e => decide (e.2 = v)

variable {m : Map K V} {v : V}

theorem hasValue_iff [DecidableEq V] : hasValue m v = true ↔ ∃ k, m.lookup k = some v := by
  simp only [hasValue, List.any_eq_true, decide_eq_true_eq]
  constructor
  · rintro ⟨⟨k, w⟩, hmem, hv⟩
    have hw : w = v := hv
    exact ⟨k, hw ▸ AList.mem_lookup_iff.mpr hmem⟩
  · rintro ⟨k, hk⟩
    exact ⟨⟨k, v⟩, AList.mem_lookup_iff.mp hk, rfl⟩

theorem hasValue_eq_false_iff [DecidableEq V] : hasValue m v = false ↔ ∀ k, m.lookup k ≠ some v := by
  rw [← Bool.not_eq_true, hasValue_iff, not_exists]

/-! ## Insertion where absent -/

/-- Insert unless the key is present. -/
def insertIfAbsent (k : K) (v : V) (m : Map K V) : Map K V :=
  if (m.lookup k).isSome then m else m.insert k v

theorem lookup_insertIfAbsent_self (k : K) (v : V) (m : Map K V) :
    (insertIfAbsent k v m).lookup k = some ((m.lookup k).getD v) := by
  unfold insertIfAbsent
  cases h : m.lookup k with
  | none => simp
  | some w => simp [h]

variable {k : K}

theorem lookup_insertIfAbsent_ne {k' : K} (v : V) (m : Map K V) (h : k' ≠ k) :
    (insertIfAbsent k v m).lookup k' = m.lookup k' := by
  unfold insertIfAbsent
  split
  · rfl
  · exact AList.lookup_insert_ne h

/-! ## Erasing a list of keys -/

/-- Erase every key of a list. -/
def eraseAll (ks : List K) (m : Map K V) : Map K V := ks.foldl (fun m k => m.erase k) m

theorem lookup_eraseAll (ks : List K) (m : Map K V) (k : K) :
    (eraseAll ks m).lookup k = if k ∈ ks then none else m.lookup k := by
  induction ks generalizing m with
  | nil => rfl
  | cons x xs ih =>
    have hstep : (eraseAll (x :: xs) m).lookup k = (eraseAll xs (m.erase x)).lookup k := rfl
    rw [hstep, ih]
    by_cases hx : k = x
    · subst hx; simp
    · rw [AList.lookup_erase_ne hx]; simp [hx]

/-! ## Counting entries -/

omit [DecidableEq K] in
/-- How many entries satisfy `p`? -/
def count (p : K → V → Bool) (m : Map K V) : Nat := m.entries.countP fun e => p e.1 e.2

/-! ## Lookups after one update, as conditionals -/

theorem lookup_insert_ite (m : Map K V) (k k' : K) (v : V) :
    (m.insert k v).lookup k' = if k' = k then some v else m.lookup k' := by
  by_cases h : k' = k
  · subst h; rw [if_pos rfl, AList.lookup_insert]
  · rw [if_neg h, AList.lookup_insert_ne h]

theorem lookup_erase_ite (m : Map K V) (k k' : K) : (m.erase k).lookup k' = if k' = k then none else m.lookup k' := by
  by_cases h : k' = k
  · subst h; rw [if_pos rfl, AList.lookup_erase]
  · rw [if_neg h, AList.lookup_erase_ne h]

/-! ## Inserting a list of entries -/

/-- Insert every entry of a list, later ones over earlier ones. -/
def insertAll (es : List (K × V)) (m : Map K V) : Map K V := es.foldl (fun m e => m.insert e.1 e.2) m

variable {es : List (K × V)}

/-- A value found afterwards was inserted, or was there and no entry has its key. -/
theorem lookup_insertAll_cases (h : (insertAll es m).lookup k = some v) :
    (k, v) ∈ es ∨ (m.lookup k = some v ∧ ∀ e ∈ es, e.1 ≠ k) := by
  induction es using List.reverseRecOn with
  | nil => exact Or.inr ⟨h, by simp⟩
  | append_singleton es e ih =>
    have hlast : insertAll (es ++ [e]) m = (insertAll es m).insert e.1 e.2 := by
      unfold insertAll
      rw [List.foldl_append]
      rfl
    rw [hlast, lookup_insert_ite] at h
    split at h
    next hk =>
      cases h
      exact Or.inl (List.mem_append_right _ (List.mem_singleton.mpr (by rw [hk])))
    next hk =>
      rcases ih h with hmem | ⟨hold, hnone⟩
      · exact Or.inl (List.mem_append_left _ hmem)
      · refine Or.inr ⟨hold, ?_⟩
        intro e' he'
        rcases List.mem_append.mp he' with hmem | hmem
        · exact hnone e' hmem
        · rw [List.mem_singleton.mp hmem]
          exact fun heq => hk heq.symm

/-- The key of an inserted entry is found, with the value of such an entry. -/
theorem lookup_insertAll_mem (m : Map K V) {e : K × V} (h : e ∈ es) :
    ∃ v, (insertAll es m).lookup e.1 = some v ∧ (e.1, v) ∈ es := by
  induction es using List.reverseRecOn with
  | nil => cases h
  | append_singleton es last ih =>
    have hlast : insertAll (es ++ [last]) m = (insertAll es m).insert last.1 last.2 := by
      unfold insertAll
      rw [List.foldl_append]
      rfl
    rw [hlast, lookup_insert_ite]
    split
    next hk => exact ⟨last.2, rfl, List.mem_append_right _ (List.mem_singleton.mpr (by rw [hk]))⟩
    next hk =>
      rcases List.mem_append.mp h with hmem | hmem
      · obtain ⟨v, hv, hin⟩ := ih hmem
        exact ⟨v, hv, List.mem_append_left _ hin⟩
      · exact absurd (by rw [List.mem_singleton.mp hmem]) hk

end Map

/-! ## Totals over the values of a finite map

`tally f m` adds up a multiset `f v` over the values of a map. Two facts are enough to follow a total
through a program: it is monotone in what each key contributes (`tally_le`), and changing one key changes it
by that key's contribution (`tally_change`). -/

namespace Map

universe w

variable {K : Type u} {V : Type v} {A : Type w} [DecidableEq K]

/-- What a key contributes. -/
def share (f : V → Multiset A) (m : Map K V) (k : K) : Multiset A := ((m.lookup k).map f).getD 0

/-- The sum of `f` over the values. -/
def tally (f : V → Multiset A) (m : Map K V) : Multiset A := ∑ k ∈ m.keys.toFinset, share f m k

variable {f : V → Multiset A} {m m' : Map K V} {k : K}

theorem share_of_notMem (h : k ∉ m.keys.toFinset) : share f m k = 0 := by
  have hnone : m.lookup k = none := by
    rw [AList.lookup_eq_none]
    intro hk
    exact h (List.mem_toFinset.mpr (AList.mem_keys.mp hk))
  unfold share
  rw [hnone]
  rfl

/-- The sum may be taken over any set of keys that has all of them. -/
theorem tally_eq_sum {S : Finset K} (hS : m.keys.toFinset ⊆ S) : tally f m = ∑ k ∈ S, share f m k :=
  Finset.sum_subset hS fun _ _ hk => share_of_notMem hk

theorem tally_le (h : ∀ k, share f m' k ≤ share f m k) : tally f m' ≤ tally f m := by
  rw [tally_eq_sum (m := m') Finset.subset_union_left,
    tally_eq_sum (m := m) (S := m'.keys.toFinset ∪ m.keys.toFinset) Finset.subset_union_right]
  exact Finset.sum_le_sum fun k _ => h k

/-- **One key changes.** What it contributed before, added to the new total, is what it contributes now,
    added to the old one. -/
theorem tally_change (h : ∀ k', k' ≠ k → share f m' k' = share f m k') :
    tally f m' + share f m k = tally f m + share f m' k := by
  have hk : k ∈ insert k (m'.keys.toFinset ∪ m.keys.toFinset) := Finset.mem_insert_self _ _
  have hrest : ∑ x ∈ (insert k (m'.keys.toFinset ∪ m.keys.toFinset)).erase k, share f m' x
      = ∑ x ∈ (insert k (m'.keys.toFinset ∪ m.keys.toFinset)).erase k, share f m x :=
    Finset.sum_congr rfl fun x hx => h x (Finset.ne_of_mem_erase hx)
  rw [tally_eq_sum (m := m') (S := insert k (m'.keys.toFinset ∪ m.keys.toFinset))
      (Finset.subset_union_left.trans (Finset.subset_insert _ _)),
    tally_eq_sum (m := m) (S := insert k (m'.keys.toFinset ∪ m.keys.toFinset))
      (Finset.subset_union_right.trans (Finset.subset_insert _ _)),
    ← Finset.add_sum_erase _ _ hk, ← Finset.add_sum_erase _ (share f m) hk, hrest]
  rw [add_comm (share f m' k), add_comm (share f m k), add_assoc, add_assoc, add_comm (share f m' k)]

end Map

/-- The element of an option, as a multiset. -/
def single {A : Type*} : Option A → Multiset A
  | some a => {a}
  | none => 0

end Freeclawdia
