import Mathlib.Order.Basic
import Mathlib.Data.List.Basic
import Mathlib.Data.List.Sort

/-!
# `Lib.Paging` — reading a sorted list backwards, page by page

A reader asks for the last `n` items with a key below a cursor, and goes on with the key of the oldest item it got
until there is nothing more. Items are lost exactly where a page starts in the middle of items with one key: such
a place is a multiple of `n` away from the end (`concat_iff`). Where nothing is lost, the pages are the list cut
from its end into pieces of `n` (`Cut`), which is the form in which facts about the pages are proved by induction.
-/

namespace Freeclawdia

universe u v

variable {α : Type u} {κ : Type v}

/-- What is answered to a request: some items, whether there are more, and the cursor for them. -/
structure Page (α : Type u) (κ : Type v) where
  items : List α
  hasMore : Bool
  oldest : Option κ
deriving DecidableEq

namespace Paging

/-- The pages a reader gets, newest first. -/
inductive Followed (fetch : Option κ → Page α κ) : Option κ → List (Page α κ) → Prop
  | last {b : Option κ} (h : (fetch b).hasMore = false) : Followed fetch b [fetch b]
  | more {b : Option κ} {c : κ} {rest : List (Page α κ)} (h : (fetch b).hasMore = true)
      (hc : (fetch b).oldest = some c) (hrest : Followed fetch (some c) rest) : Followed fetch b (fetch b :: rest)

/-- What was read, oldest first. -/
def concat (pages : List (Page α κ)) : List α := pages.reverse.flatMap Page.items

theorem concat_cons (page : Page α κ) (rest : List (Page α κ)) : concat (page :: rest) = concat rest ++ page.items := by
  simp [concat]

theorem concat_singleton (page : Page α κ) : concat [page] = page.items := by
  simp [concat]

/-- A reader that gets to an end gets there in one way. -/
theorem Followed.unique {fetch : Option κ → Page α κ} {b : Option κ} {pages pages' : List (Page α κ)}
    (h : Followed fetch b pages) (h' : Followed fetch b pages') : pages = pages' := by
  induction h generalizing pages' with
  | last hlast =>
    cases h' with
    | last => rfl
    | more hmore => rw [hlast] at hmore; cases hmore
  | more hmore hc _ ih =>
    cases h' with
    | last hlast => rw [hlast] at hmore; cases hmore
    | more _ hc' hrest' =>
      rw [hc] at hc'
      cases hc'
      rw [ih hrest']

/-! ## Pages of a sorted list -/

section Sorted

variable [LinearOrder κ] (key : α → κ) (xs : List α) (n : Nat)

/-- The items below a cursor; all of them without one. -/
def older : Option κ → List α
  | none => xs
  | some c => xs.filter fun x => key x < c

/-- The page of the last `n` items below a cursor. -/
def pageOf (b : Option κ) : Page α κ where
  items := (older key xs b).drop ((older key xs b).length - n)
  hasMore := decide (n < (older key xs b).length)
  oldest := (((older key xs b).drop ((older key xs b).length - n)).head?).map key

/-- The first `i` items, cut from their end into pieces of `n`. -/
inductive Cut : Nat → List (Page α κ) → Prop
  | last {i : Nat} {page : Page α κ} (h : i ≤ n) (hitems : page.items = xs.take i) : Cut i [page]
  | more {i : Nat} {page : Page α κ} {rest : List (Page α κ)} (h : n < i)
      (hitems : page.items = (xs.take i).drop (i - n)) (hrest : Cut (i - n) rest) : Cut i (page :: rest)

/-- Where a page starts, the item before it has another key. -/
def Apart (i : Nat) : Prop :=
  ∀ j x y, j + 1 < i → n ∣ i - (j + 1) → xs[j]? = some x → xs[j + 1]? = some y → key x < key y

variable {key xs n} {pages : List (Page α κ)}

omit [LinearOrder κ] in
theorem Cut.concat {i : Nat} (h : Cut xs n i pages) : concat pages = xs.take i := by
  induction h with
  | last _ hitems => rw [concat_singleton, hitems]
  | @more i page rest hlt hitems _ ih =>
    rw [concat_cons, ih, hitems]
    have htake : xs.take (i - n) = (xs.take i).take (i - n) := by rw [List.take_take, Nat.min_eq_left (Nat.sub_le i n)]
    rw [htake, List.take_append_drop]

theorem take_length_older (b : Option κ) (hsorted : xs.Pairwise fun x y => key x ≤ key y) :
    older key xs b = xs.take (older key xs b).length := by
  cases b with
  | none => exact (List.take_length).symm
  | some c =>
    induction xs with
    | nil => rfl
    | cons x xs ih =>
      obtain ⟨hle, hrest⟩ := List.pairwise_cons.mp hsorted
      by_cases hx : key x < c
      · have hcons : older key (x :: xs) (some c) = x :: older key xs (some c) := by simp [older, hx]
        rw [hcons, List.length_cons, List.take_succ_cons, ← ih hrest]
      · -- From here on no key is below the cursor.
        have hnone : older key (x :: xs) (some c) = [] := by
          rw [older, List.filter_eq_nil_iff]
          intro y hy
          rw [decide_eq_true_iff]
          rcases List.mem_cons.mp hy with rfl | hy
          · exact hx
          · exact fun hlt => hx (lt_of_le_of_lt (hle y hy) hlt)
        rw [hnone, List.length_nil, List.take_zero]

/-- What is below the key of an item comes before the item. -/
theorem older_length_le {m : Nat} {y : α} (hsorted : xs.Pairwise fun x y => key x ≤ key y)
    (hy : xs[m]? = some y) : (older key xs (some (key y))).length ≤ m := by
  by_contra hlt
  have hmem : y ∈ older key xs (some (key y)) := by
    rw [take_length_older (some (key y)) hsorted, List.mem_iff_getElem?]
    exact ⟨m, by rw [List.getElem?_take_of_lt (by omega), hy]⟩
  have hself := (List.mem_filter.mp hmem).2
  rw [decide_eq_true_iff] at hself
  exact lt_irrefl _ hself

/-- All items before it are below its key exactly when the one right before it is. -/
theorem older_length_eq_iff {m : Nat} {x y : α} (hsorted : xs.Pairwise fun x y => key x ≤ key y)
    (hx : xs[m]? = some x) (hy : xs[m + 1]? = some y) :
    (older key xs (some (key y))).length = m + 1 ↔ key x < key y := by
  have htake := take_length_older (some (key y)) hsorted
  constructor
  · intro hlength
    have hmem : x ∈ older key xs (some (key y)) := by
      rw [htake, hlength, List.mem_iff_getElem?]
      exact ⟨m, by rw [List.getElem?_take_of_lt (by omega), hx]⟩
    exact of_decide_eq_true (List.mem_filter.mp hmem).2
  · intro hlt
    apply Nat.le_antisymm (older_length_le hsorted hy)
    by_contra hshort
    -- The item right before is in the list and below the key, so it is among the first ones.
    have hmem : x ∈ (xs.drop m).filter fun z => key z < key y := by
      rw [List.mem_filter, decide_eq_true_iff]
      refine ⟨?_, hlt⟩
      rw [List.mem_iff_getElem?]
      exact ⟨0, by rw [List.getElem?_drop, Nat.add_zero, hx]⟩
    have hsplit : older key xs (some (key y)) = ((xs.take m).filter fun z => key z < key y)
        ++ ((xs.drop m).filter fun z => key z < key y) := by
      rw [← List.filter_append, List.take_append_drop]
      rfl
    have hall : ((xs.take m).filter fun z => key z < key y) = xs.take m := by
      rw [List.filter_eq_self]
      intro z hz
      obtain ⟨k, hk⟩ := List.mem_iff_getElem?.mp hz
      have hkm : k < m := by
        by_contra hkm
        rw [List.getElem?_take_eq_none (by omega)] at hk
        cases hk
      rw [List.getElem?_take_of_lt hkm] at hk
      obtain ⟨hk', hkz⟩ := List.getElem?_eq_some_iff.mp hk
      obtain ⟨hm', hmx⟩ := List.getElem?_eq_some_iff.mp hx
      have hle := List.pairwise_iff_getElem.mp hsorted k m hk' hm' hkm
      rw [hkz, hmx] at hle
      exact decide_eq_true (lt_of_le_of_lt hle hlt)
    have hlength := congrArg List.length hsplit
    rw [hall, List.length_append, List.length_take] at hlength
    have hpos := List.length_pos_of_mem hmem
    have hm : m < xs.length := (List.getElem?_eq_some_iff.mp hx).1
    omega

/-- The oldest item of a page that is not the last. -/
theorem oldest_pageOf {b : Option κ} (hn : 0 < n) (hmore : n < (older key xs b).length)
    (hsorted : xs.Pairwise fun x y => key x ≤ key y) :
    ∃ y, xs[(older key xs b).length - n]? = some y ∧ (pageOf key xs n b).oldest = some (key y) := by
  have htake := take_length_older b hsorted
  have hlt : (older key xs b).length - n < (older key xs b).length := by omega
  obtain ⟨y, hy⟩ : ∃ y, (older key xs b)[(older key xs b).length - n]? = some y :=
    ⟨_, List.getElem?_eq_getElem hlt⟩
  refine ⟨y, ?_, ?_⟩
  · have hsame : (xs.take (older key xs b).length)[(older key xs b).length - n]? = some y := by rw [← htake, hy]
    rwa [List.getElem?_take_of_lt hlt] at hsame
  · simp only [pageOf]
    rw [List.head?_drop, hy]
    rfl

/-- **A reader gets to the end.** -/
theorem followed_exists (hn : 0 < n) (hsorted : xs.Pairwise fun x y => key x ≤ key y) (b : Option κ) :
    ∃ pages, Followed (pageOf key xs n) b pages := by
  suffices hall : ∀ m b, (older key xs b).length ≤ m → ∃ pages, Followed (pageOf key xs n) b pages from
    hall _ b (Nat.le_refl _)
  intro m
  induction m with
  | zero =>
    intro b hb
    exact ⟨_, .last (decide_eq_false (by omega))⟩
  | succ m ih =>
    intro b hb
    by_cases hmore : n < (older key xs b).length
    · obtain ⟨y, hy, holdest⟩ := oldest_pageOf hn hmore hsorted
      have hshort := older_length_le hsorted hy
      obtain ⟨rest, hrest⟩ := ih (some (key y)) (by omega)
      exact ⟨_, .more (decide_eq_true hmore) holdest hrest⟩
    · exact ⟨_, .last (decide_eq_false hmore)⟩

/-- What is read is part of what was asked for. -/
theorem Followed.length_le {b : Option κ} (hn : 0 < n)
    (hsorted : xs.Pairwise fun x y => key x ≤ key y) (h : Followed (pageOf key xs n) b pages) :
    (Paging.concat pages).length ≤ (older key xs b).length := by
  induction h with
  | last _ =>
    rw [concat_singleton]
    exact (List.drop_sublist _ _).length_le
  | @more b c rest hmore hc _ ih =>
    have hlt : n < (older key xs b).length := of_decide_eq_true hmore
    obtain ⟨y, hy, holdest⟩ := oldest_pageOf hn hlt hsorted
    rw [hc] at holdest
    cases holdest
    have hshort := older_length_le hsorted hy
    rw [concat_cons, List.length_append]
    have hitems : (pageOf key xs n b).items.length = n := by
      simp only [pageOf, List.length_drop]
      omega
    omega

/-- **Nothing is lost** exactly when no page starts within items of one key, and then the pages are the list, cut
    from its end. -/
theorem Followed.concat_iff {b : Option κ} (hn : 0 < n)
    (hsorted : xs.Pairwise fun x y => key x ≤ key y) (h : Followed (pageOf key xs n) b pages) :
    (Paging.concat pages = older key xs b ↔ Apart key xs n (older key xs b).length) ∧
    (Paging.concat pages = older key xs b → Cut xs n (older key xs b).length pages) := by
  induction h with
  | @last b hlast =>
    have hfew : (older key xs b).length ≤ n := Nat.le_of_not_lt (of_decide_eq_false hlast)
    have hitems : (pageOf key xs n b).items = older key xs b := by
      have hzero : (older key xs b).length - n = 0 := by omega
      simp only [pageOf, hzero, List.drop_zero]
    rw [concat_singleton, hitems]
    refine ⟨⟨fun _ j x y hj hdvd => ?_, fun _ => rfl⟩, fun _ => ?_⟩
    · have := Nat.le_of_dvd (by omega) hdvd
      omega
    · exact .last hfew (hitems.trans (take_length_older b hsorted))
  | @more b c rest hmore hc hrest ih =>
    have hlt : n < (older key xs b).length := of_decide_eq_true hmore
    obtain ⟨y, hy, holdest⟩ := oldest_pageOf hn hlt hsorted
    rw [hc] at holdest
    cases holdest
    have htake := take_length_older b hsorted
    have hshort := older_length_le hsorted hy
    have hitems : (pageOf key xs n b).items = (xs.take (older key xs b).length).drop ((older key xs b).length - n) := by
      rw [← htake]
      rfl
    obtain ⟨m, hm⟩ : ∃ m, (older key xs b).length - n = m + 1 := ⟨(older key xs b).length - n - 1, by omega⟩
    have hx : ∃ x, xs[m]? = some x := by
      have hbound : m + 1 < xs.length := by
        rw [hm] at hy
        exact (List.getElem?_eq_some_iff.mp hy).1
      exact ⟨_, List.getElem?_eq_getElem (by omega)⟩
    obtain ⟨x, hx⟩ := hx
    rw [hm] at hy hshort
    have hcut := older_length_eq_iff hsorted hx hy
    have hlength := hrest.length_le hn hsorted
    have hpage : (pageOf key xs n b).items.length = n := by
      simp only [pageOf, List.length_drop]
      omega
    have hjoin : older key xs b = xs.take (m + 1) ++ (pageOf key xs n b).items := by
      rw [hitems, hm]
      have htake' : xs.take (m + 1) = (xs.take (older key xs b).length).take (m + 1) := by
        rw [List.take_take, Nat.min_eq_left (by omega)]
      rw [htake', List.take_append_drop, ← htake]
    -- The rest can only be all that is left if the cut is between two keys.
    have hiff : Paging.concat rest ++ (pageOf key xs n b).items = older key xs b ↔
        key x < key y ∧ Paging.concat rest = older key xs (some (key y)) := by
      constructor
      · intro heq
        have hsame : Paging.concat rest = xs.take (m + 1) := by
          rw [hjoin] at heq
          exact List.append_cancel_right heq
        have hfull : (older key xs (some (key y))).length = m + 1 := by
          have hlen := congrArg List.length hsame
          rw [List.length_take] at hlen
          have hbound := (List.getElem?_eq_some_iff.mp hy).1
          omega
        refine ⟨hcut.mp hfull, ?_⟩
        rw [hsame, take_length_older (some (key y)) hsorted, hfull]
      · rintro ⟨hlt', heq⟩
        rw [heq, take_length_older (some (key y)) hsorted, hcut.mpr hlt', ← hjoin]
    rw [concat_cons, hiff]
    refine ⟨⟨?_, ?_⟩, ?_⟩
    · rintro ⟨hlt', heq⟩ j u w hj hdvd hu hw
      rcases Nat.lt_or_ge (j + 1) (m + 1) with hbefore | hafter
      · have hapart := ih.1.mp heq
        rw [hcut.mpr hlt'] at hapart
        have hdvd' : n ∣ (m + 1) - (j + 1) := by
          have hsub : (older key xs b).length - (j + 1) = ((m + 1) - (j + 1)) + n := by omega
          rw [hsub] at hdvd
          exact (Nat.dvd_add_left (Nat.dvd_refl n)).mp hdvd
        exact hapart j u w hbefore hdvd' hu hw
      · have hjm : j = m := by
          have := Nat.le_of_dvd (by omega) hdvd
          omega
        rw [hjm] at hu hw
        rw [hx] at hu
        rw [hy] at hw
        cases hu
        cases hw
        exact hlt'
    · intro hapart
      have hlt' : key x < key y := by
        have hsub : (older key xs b).length - (m + 1) = n := by omega
        exact hapart m x y (by omega) (hsub ▸ Nat.dvd_refl n) hx hy
      refine ⟨hlt', ih.1.mpr ?_⟩
      rw [hcut.mpr hlt']
      intro j u w hj hdvd
      apply hapart j u w (by omega)
      have hsub : (older key xs b).length - (j + 1) = ((m + 1) - (j + 1)) + n := by omega
      rw [hsub]
      exact Nat.dvd_add hdvd (Nat.dvd_refl n)
    · rintro ⟨hlt', heq⟩
      have hrestcut := ih.2 heq
      rw [hcut.mpr hlt', ← hm] at hrestcut
      exact .more hlt hitems hrestcut

end Sorted
end Paging
end Freeclawdia
