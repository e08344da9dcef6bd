import Mathlib.Data.List.DropRight

/-!
# `Lib.Trim` — cutting unwanted items off both ends of a list

`trimBy p` drops the longest run of items satisfying `p` at the front and at the back. A list is trimmed
when its ends, if it has any, do not satisfy `p`; that is all there is to say about it.
-/

namespace Freeclawdia

variable {α : Type*} (p : α → Bool) (l : List α)

/-- Drop what satisfies `p` at both ends. -/
def trimBy : List α := (l.dropWhile p).rdropWhile p

/-- Neither end satisfies `p`. -/
def Trimmed : Prop := (∀ a ∈ l.head?, p a = false) ∧ ∀ a ∈ l.getLast?, p a = false

theorem head?_dropWhile : ∀ a ∈ (l.dropWhile p).head?, p a = false := by
  induction l with
  | nil => simp
  | cons b l ih =>
    cases hb : p b with
    | true => simpa [hb] using ih
    | false => simp [hb]

theorem getLast?_rdropWhile : ∀ a ∈ (l.rdropWhile p).getLast?, p a = false := by
  intro a ha
  rw [List.rdropWhile, List.getLast?_reverse] at ha
  exact head?_dropWhile p l.reverse a ha

theorem head?_rdropWhile : ∀ a ∈ (l.rdropWhile p).head?, a ∈ l.head? := by
  intro a ha
  obtain ⟨rest, hrest⟩ := List.rdropWhile_prefix p (l := l)
  rw [← hrest]
  exact List.mem_head?_append_of_mem_head? ha

theorem trimmed_trimBy : Trimmed p (trimBy p l) :=
  ⟨fun a ha => head?_dropWhile p l a (head?_rdropWhile p _ a ha), getLast?_rdropWhile p _⟩

theorem trimBy_of_trimmed {p : α → Bool} {l : List α} (h : Trimmed p l) : trimBy p l = l := by
  have hfront : l.dropWhile p = l := by
    cases l with
    | nil => rfl
    | cons a l => simp [h.1 a rfl]
  have hback : l.rdropWhile p = l := by
    rw [List.rdropWhile_eq_self_iff]
    intro hne
    rw [h.2 (l.getLast hne) (List.getLast?_eq_some_getLast hne)]
    exact Bool.false_ne_true
  rw [trimBy, hfront, hback]

theorem trimBy_eq_self_iff {p : α → Bool} {l : List α} : trimBy p l = l ↔ Trimmed p l :=
  ⟨fun h => h ▸ trimmed_trimBy p l, trimBy_of_trimmed⟩

theorem trimBy_idem : trimBy p (trimBy p l) = trimBy p l :=
  trimBy_of_trimmed (trimmed_trimBy p l)

theorem trimBy_sublist : (trimBy p l).Sublist l :=
  (List.rdropWhile_prefix p _).sublist.trans (List.dropWhile_sublist p)

theorem trimmed_of_ends {p : α → Bool} {l l' : List α} (hhead : l.head? = l'.head?)
    (hlast : l.getLast? = l'.getLast?) : Trimmed p l ↔ Trimmed p l' := by
  rw [Trimmed, Trimmed, hhead, hlast]

end Freeclawdia
