import Mathlib.Data.List.Infix

/-!
# `Lib.Joint` — blanks between a bar and a name

A text can have blanks between a bar and the name behind it. A word that does not reach over such a joint (`Clear`) is
in the text with the blanks exactly when it is in the text without them (`infix_joint_iff`); and the joints themselves
are at the one place, before it or behind it (`joined_joint_iff`).
-/

namespace Freeclawdia

/-- What a joint is made of. -/
structure Joint (α : Type) where
  bar : α
  isBlank : α → Bool
  names : List (List α)
  /-- What can follow a name. -/
  isEnd : α → Bool
  bar_end : isEnd bar = true
  bar_not_blank : isBlank bar = false
  names_solid : ∀ n ∈ names, n.head?.map isBlank = some false
  names_bar : ∀ n ∈ names, bar ∉ n

namespace Joint

variable {α : Type} (J : Joint α)

/-- Only blanks. -/
def Blanks (v : List α) : Prop := ∀ a ∈ v, J.isBlank a = true

/-- A name ends before this text. -/
def Ends (y : List α) : Prop := ∀ c, y.head? = some c → J.isEnd c = true

/-- The two words differ at some place. -/
def Differ (u n : List α) : Prop := ¬u <+: n ∧ ¬n <+: u

/-- Behind blanks, this is no beginning of a name, and of no name and more. -/
def NoName (u : List α) : Prop := ∀ n ∈ J.names, Differ (u.dropWhile J.isBlank) n

/-- The word reaches over no joint. -/
structure Clear (p : List α) : Prop where
  front : J.NoName p
  behind : ∀ q u, p = q ++ J.bar :: u → u ≠ [] → J.NoName u

variable {J}

/-! ## Blanks -/

theorem dropWhile_blanks {v u : List α} (hv : J.Blanks v) : (v ++ u).dropWhile J.isBlank = u.dropWhile J.isBlank := by
  induction v with
  | nil => rfl
  | cons a v ih =>
    rw [List.cons_append, List.dropWhile_cons_of_pos (hv a List.mem_cons_self)]
    exact ih fun b hb => hv b (List.mem_cons_of_mem a hb)

theorem Blanks.of_part {u v : List α} (hv : J.Blanks v) (h : u <:+: v) : J.Blanks u := fun a ha => hv a (h.subset ha)

theorem not_noName_of_blanks {n v : List α} (hn : n ∈ J.names) (hv : J.Blanks v) : ¬J.NoName v := by
  intro h
  refine (h n hn).1 ?_
  have hnil : v.dropWhile J.isBlank = [] := by
    rw [← List.append_nil v, dropWhile_blanks hv]
    rfl
  rw [hnil]
  exact ⟨n, rfl⟩

theorem solid_cons {n : List α} (hn : n ∈ J.names) : ∃ c cs, n = c :: cs ∧ J.isBlank c = false := by
  have hhead := J.names_solid n hn
  cases n with
  | nil => cases hhead
  | cons c cs => exact ⟨c, cs, rfl, Option.some.inj hhead⟩

theorem suffix_append_cases {l a b : List α} (h : l <:+ a ++ b) : l <:+ b ∨ ∃ q, q <:+ a ∧ l = q ++ b := by
  rcases List.suffix_or_suffix_of_suffix h (List.suffix_append a b) with h' | ⟨q, rfl⟩
  · exact .inl h'
  · exact .inr ⟨q, List.suffix_append_self_iff.mp h, rfl⟩

/-- The beginning of a name and more, behind blanks. -/
theorem not_noName_of_leads {n v p rest : List α} (hn : n ∈ J.names) (hv : J.Blanks v) (hp : p ≠ [])
    (h : p <+: n ++ rest) : ¬J.NoName (v ++ p) := by
  intro hno
  have hdrop : (v ++ p).dropWhile J.isBlank = p := by
    obtain ⟨c, cs, rfl, hc⟩ := solid_cons hn
    cases p with
    | nil => exact absurd rfl hp
    | cons d p =>
      obtain ⟨rfl, -⟩ := List.cons_prefix_cons.mp (List.cons_append ▸ h)
      rw [dropWhile_blanks hv]
      exact List.dropWhile_cons_of_neg (by rw [hc]; exact Bool.false_ne_true)
  have hdiffer := hno n hn
  rw [hdrop] at hdiffer
  rcases List.prefix_or_prefix_of_prefix h (List.prefix_append n rest) with hpre | hpre
  · exact hdiffer.1 hpre
  · exact hdiffer.2 hpre

/-! ## Words -/

/-- **A word that reaches over no joint** is before the blanks or behind them. -/
theorem infix_joint_iff {p n v a rest : List α} (hp : J.Clear p) (hn : n ∈ J.names) (hv : J.Blanks v) :
    p <:+: a ++ J.bar :: (v ++ (n ++ rest)) ↔ p <:+: a ++ [J.bar] ∨ p <:+: n ++ rest := by
  have hsplit : a ++ J.bar :: (v ++ (n ++ rest)) = (a ++ [J.bar] ++ v) ++ (n ++ rest) := by simp
  rw [hsplit]
  constructor
  · intro h
    rcases List.infix_append_iff_ne_nil.mp h with h | h | ⟨p₁, p₂, hne₁, hne₂, rfl, hsuf, hpre⟩
    · rcases List.infix_append_iff_ne_nil.mp h with h | h | ⟨p₁, p₂, hne₁, hne₂, rfl, hsuf, hpre⟩
      · exact .inl h
      · exact absurd hp.front (not_noName_of_blanks hn (hv.of_part h))
      · -- The word ends in the blanks behind the bar.
        obtain ⟨q, rfl, -⟩ := List.suffix_concat_iff.mp hsuf |>.resolve_left hne₁
        refine absurd (hp.behind q p₂ (by simp) hne₂) (not_noName_of_blanks hn (hv.of_part hpre.isInfix))
    · exact .inr h
    · rcases suffix_append_cases hsuf with hsuf | ⟨p₃, hsuf₃, rfl⟩
      · exact absurd hp.front (not_noName_of_leads hn (hv.of_part hsuf.isInfix) hne₂ hpre)
      · rcases List.suffix_concat_iff.mp hsuf₃ with rfl | ⟨q, rfl, -⟩
        · exact absurd hp.front (not_noName_of_leads hn hv hne₂ hpre)
        · refine absurd (hp.behind q (v ++ p₂) (by simp) ?_) (not_noName_of_leads hn hv hne₂ hpre)
          exact fun hnil => hne₂ (List.append_eq_nil_iff.mp hnil).2
  · rintro (h | h)
    · exact (List.infix_append_of_infix_left h).trans (List.prefix_append _ _).isInfix
    · exact h.trans (List.suffix_append _ _).isInfix

section Check

variable [DecidableEq α]

variable (J) in
/-- `NoName`, computed. -/
def noName (u : List α) : Bool :=
  J.names.all fun n => !(u.dropWhile J.isBlank).isPrefixOf n && !n.isPrefixOf (u.dropWhile J.isBlank)

variable (J) in
/-- `Clear`, computed. -/
def clear (p : List α) : Bool :=
  J.noName p && p.tails.all fun
    | [] => true
    | c :: u => decide (c ≠ J.bar) || u.isEmpty || J.noName u

theorem noName_sound {u : List α} (h : J.noName u = true) : J.NoName u := by
  intro n hn
  have hboth := List.all_eq_true.mp h n hn
  rw [Bool.and_eq_true, Bool.not_eq_true', Bool.not_eq_true', Bool.eq_false_iff, Bool.eq_false_iff, ne_eq, ne_eq,
    List.isPrefixOf_iff_prefix, List.isPrefixOf_iff_prefix] at hboth
  exact hboth

theorem clear_sound {p : List α} (h : J.clear p = true) : J.Clear p := by
  obtain ⟨hfront, hbehind⟩ := Bool.and_eq_true_iff.mp h
  refine ⟨noName_sound hfront, ?_⟩
  rintro q u rfl hu
  have htail := List.all_eq_true.mp hbehind (J.bar :: u) ((List.mem_tails _ _).mpr (List.suffix_append q _))
  rcases Bool.or_eq_true_iff.mp htail with htail | htail
  · rcases Bool.or_eq_true_iff.mp htail with htail | htail
    · exact absurd rfl (of_decide_eq_true htail)
    · exact absurd (List.isEmpty_iff.mp htail) hu
  · exact noName_sound htail

end Check

/-- So the blanks do not matter to such a word. -/
theorem infix_blanks_iff {p n v a rest : List α} (hp : J.Clear p) (hn : n ∈ J.names) (hv : J.Blanks v) :
    p <:+: a ++ J.bar :: (v ++ (n ++ rest)) ↔ p <:+: a ++ J.bar :: (n ++ rest) := by
  rw [infix_joint_iff hp hn hv]
  exact (infix_joint_iff (v := []) hp hn fun _ h => absurd h List.not_mem_nil).symm

/-- A word without the bar at the beginning of the text. -/
theorem prefix_bar_iff {p a b : List α} (hp : J.bar ∉ p) : p <+: a ++ J.bar :: b ↔ p <+: a := by
  constructor
  · intro h
    rcases List.prefix_or_prefix_of_prefix h (List.prefix_append a _) with hpre | ⟨q, rfl⟩
    · exact hpre
    · cases q with
      | nil => exact (List.append_nil a).symm ▸ List.prefix_refl a
      | cons c q =>
        obtain ⟨rfl, -⟩ := List.cons_prefix_cons.mp ((List.prefix_append_right_inj a).mp h)
        exact absurd (List.mem_append_right a List.mem_cons_self) hp
  · exact fun h => h.trans (List.prefix_append a _)

/-! ## Joints -/

variable (J) in
/-- A bar, one of the gaps, and a name that ends. -/
def Joined (gaps : List (List α)) (s : List α) : Prop :=
  ∃ x g n y, s = x ++ J.bar :: (g ++ (n ++ y)) ∧ g ∈ gaps ∧ n ∈ J.names ∧ J.Ends y

variable {gaps : List (List α)}

theorem Joined.append_left {s : List α} (h : J.Joined gaps s) (a : List α) : J.Joined gaps (a ++ s) := by
  obtain ⟨x, g, n, y, rfl, hg, hn, hy⟩ := h
  exact ⟨a ++ x, g, n, y, by simp, hg, hn, hy⟩

/-- Blanks in front of a name are a gap of their own. -/
theorem blanks_append_inj {v w m n r t : List α} (hv : J.Blanks v) (hw : J.Blanks w) (hm : m ∈ J.names) (hn : n ∈ J.names)
    (h : v ++ (m ++ r) = w ++ (n ++ t)) : v = w := by
  obtain ⟨c, cs, rfl, hc⟩ := solid_cons hm
  obtain ⟨d, ds, rfl, hd⟩ := solid_cons hn
  induction v generalizing w with
  | nil =>
    cases w with
    | nil => rfl
    | cons b w =>
      obtain rfl := (List.cons.inj h).1
      rw [hw c List.mem_cons_self] at hc
      cases hc
  | cons b v ih =>
    cases w with
    | nil =>
      obtain rfl := (List.cons.inj h).1
      rw [hv b List.mem_cons_self] at hd
      cases hd
    | cons b' w =>
      obtain ⟨rfl, htail⟩ := List.cons.inj h
      rw [ih (fun a ha => hv a (List.mem_cons_of_mem b ha)) (fun a ha => hw a (List.mem_cons_of_mem b ha)) htail]

theorem bar_not_mem {v n : List α} (hv : J.Blanks v) (hn : n ∈ J.names) : J.bar ∉ v ++ n := by
  intro hmem
  rcases List.mem_append.mp hmem with hmem | hmem
  · have hblank := hv J.bar hmem
    rw [J.bar_not_blank] at hblank
    cases hblank
  · exact J.names_bar n hn hmem

/-- Where a bar comes later, a name that begins before it ends before it. -/
theorem Joined.before_bar {z u v : List α} {x g n y : List α} (hgaps : ∀ g ∈ gaps, J.Blanks g) (hg : g ∈ gaps)
    (hn : n ∈ J.names) (hy : J.Ends y) (h : z ++ J.bar :: u = g ++ (n ++ y)) :
    J.Joined gaps (x ++ J.bar :: (z ++ J.bar :: v)) := by
  have hpre : g ++ n <+: z := by
    refine (prefix_bar_iff (b := u) (bar_not_mem (hgaps g hg) hn)).mp ?_
    rw [h, ← List.append_assoc]
    exact List.prefix_append _ _
  obtain ⟨y', rfl⟩ := hpre
  refine ⟨x, g, n, y' ++ J.bar :: v, by simp, hg, hn, ?_⟩
  have hy' : y = y' ++ J.bar :: u := by
    rw [List.append_assoc, List.append_assoc] at h
    exact (List.append_cancel_left (List.append_cancel_left h)).symm
  intro c hc
  cases y' with
  | nil =>
    cases hc
    exact J.bar_end
  | cons d y' => exact hy c (by rw [hy']; exact hc)

/-- **The joints of a text with blanks at a joint**: this one if the blanks are one of the gaps, those before and
    those behind. -/
theorem joined_joint_iff {n v a rest : List α} (hgaps : ∀ g ∈ gaps, J.Blanks g) (hn : n ∈ J.names) (hv : J.Blanks v)
    (hrest : J.Ends rest) : J.Joined gaps (a ++ J.bar :: (v ++ (n ++ rest))) ↔
      v ∈ gaps ∨ J.Joined gaps (a ++ [J.bar]) ∨ J.Joined gaps rest := by
  constructor
  · rintro ⟨x, g, n', y, hsplit, hg, hn', hy⟩
    rcases List.append_eq_append_iff.mp hsplit with ⟨z, rfl, hz⟩ | ⟨z, rfl, hz⟩
    · cases z with
      | nil =>
        have heq : v ++ (n ++ rest) = g ++ (n' ++ y) := (List.cons.inj hz).2
        exact .inl (blanks_append_inj hv (hgaps g hg) hn hn' heq ▸ hg)
      | cons c z =>
        -- The bar comes later.
        have hz' : v ++ (n ++ rest) = z ++ J.bar :: (g ++ (n' ++ y)) := (List.cons.inj hz).2
        have hpre : v ++ n <+: z := by
          refine (prefix_bar_iff (b := g ++ (n' ++ y)) (bar_not_mem hv hn)).mp ?_
          rw [← hz', ← List.append_assoc]
          exact List.prefix_append _ _
        obtain ⟨z', rfl⟩ := hpre
        rw [← List.append_assoc, List.append_assoc (v ++ n)] at hz'
        exact .inr (.inr ⟨z', g, n', y, List.append_cancel_left hz', hg, hn', hy⟩)
    · cases z with
      | nil =>
        have heq : g ++ (n' ++ y) = v ++ (n ++ rest) := (List.cons.inj hz).2
        exact .inl (blanks_append_inj (hgaps g hg) hv hn' hn heq ▸ hg)
      | cons c z =>
        obtain ⟨rfl, hz'⟩ := List.cons.inj hz
        have hbefore : J.Joined gaps (x ++ J.bar :: (z ++ J.bar :: [])) := Joined.before_bar hgaps hg hn' hy hz'.symm
        exact .inr (.inl (by simpa using hbefore))
  · rintro (hg | h | h)
    · exact ⟨a, v, n, rest, rfl, hg, hn, hrest⟩
    · obtain ⟨x, g, n', y, hsplit, hg, hn', hy⟩ := h
      obtain ⟨c, cs, rfl, -⟩ := solid_cons hn'
      rcases List.append_eq_append_iff.mp hsplit with ⟨z, rfl, hz⟩ | ⟨z, rfl, hz⟩
      · have hlen := congrArg List.length hz
        simp at hlen
        omega
      · cases z with
        | nil =>
          have hlen := congrArg List.length hz
          simp at hlen
        | cons b z =>
          obtain ⟨rfl, hz'⟩ := List.cons.inj hz
          have hbefore : J.Joined gaps (x ++ J.bar :: (z ++ J.bar :: (v ++ (n ++ rest)))) :=
            Joined.before_bar hgaps hg hn' hy hz'.symm
          simpa using hbefore
    · have hsplit : a ++ J.bar :: (v ++ (n ++ rest)) = (a ++ J.bar :: (v ++ n)) ++ rest := by simp
      rw [hsplit]
      exact h.append_left _

end Joint
end Freeclawdia
