import Freeclawdia.Rust.Str

/-!
# `Rust.Replace` — what `str::replace` leaves of a text, and what `str::match_indices` finds

A text in which a pattern was replaced is made of pieces of the text and of copies of the target. A word that cannot
overlap the target (`Apart`) is in it only if it was in the text before, and so the pattern itself is gone, if it cannot
overlap the target. Where nothing overlaps a word, the word stays.
-/

namespace Freeclawdia.Rust

section Overlap

variable {α : Type}

/-- In no text do occurrences of the two words share a place. -/
structure Apart (w tag : List α) : Prop where
  inside : ¬ w <:+: tag
  around : ¬ tag <:+: w
  left : ∀ s, s ≠ [] → s <:+ tag → ¬ s <+: w
  right : ∀ s, s ≠ [] → s <+: tag → ¬ s <:+ w

/-- Where a word stands in front of or behind one that it is apart from. -/
theorem Apart.infix_append {w tag x y : List α} (h : Apart w tag) (hw : w <:+: x ++ tag ++ y) : w <:+: x ∨ w <:+: y := by
  obtain ⟨a, b, hab⟩ := hw
  rw [List.append_assoc, List.append_assoc] at hab
  rcases List.append_eq_append_iff.mp hab with ⟨c, rfl, hc⟩ | ⟨c, rfl, hc⟩
  · -- The word starts in the text before.
    rcases List.append_eq_append_iff.mp hc with ⟨d, rfl, -⟩ | ⟨d, rfl, hd⟩
    · exact .inl ⟨a, d, by simp⟩
    · rcases List.append_eq_append_iff.mp hd with ⟨e, rfl, -⟩ | ⟨e, rfl, -⟩
      · exact absurd ⟨c, e, by simp⟩ h.around
      · by_cases hnil : d = []
        · subst hnil
          exact .inl ⟨a, [], by simp⟩
        · exact absurd (List.suffix_append c d) (h.right d hnil (List.prefix_append d e))
  · rcases List.append_eq_append_iff.mp hc with ⟨d, rfl, rfl⟩ | ⟨d, rfl, hd⟩
    · exact .inr ⟨d, b, by simp⟩
    · rcases List.append_eq_append_iff.mp hd with ⟨e, rfl, -⟩ | ⟨e, rfl, rfl⟩
      · exact absurd ⟨c, e, by simp⟩ h.inside
      · by_cases hnil : d = []
        · subst hnil
          exact .inr ⟨[], b, by simp⟩
        · exact absurd (List.prefix_append d e) (h.left d hnil (List.suffix_append c d))

end Overlap

/-! ## One replacement -/

theorem contains_iff {s pat : String} : contains s pat = true ↔ pat.toList <:+: s.toList := by
  unfold contains
  simp only [List.any_eq_true, List.mem_tails, List.isPrefixOf_iff_prefix]
  constructor
  · rintro ⟨t, htail, hlead⟩
    exact hlead.isInfix.trans htail.isInfix
  · rintro ⟨before, after, heq⟩
    exact ⟨pat.toList ++ after, ⟨before, by rw [← heq, List.append_assoc]⟩, List.prefix_append _ _⟩

theorem replaceFrom_skip (pat target : List Char) (skip : Nat) (text : List Char) :
    replaceFrom pat target skip text = replaceFrom pat target 0 (text.drop skip) := by
  induction skip generalizing text with
  | zero => rfl
  | succ skip ih =>
    cases text with
    | nil => simp [replaceFrom]
    | cons c rest => simp only [replaceFrom, List.drop_succ_cons, ih]

/-- The first occurrence of the pattern, if there is one. -/
theorem replaceFrom_cases {pat : List Char} (hpat : pat ≠ []) (target text : List Char) :
    (¬ pat <:+: text ∧ replaceFrom pat target 0 text = text) ∨ ∃ x rest, text = x ++ pat ++ rest ∧ ¬ pat <:+: x ∧
        replaceFrom pat target 0 text = x ++ target ++ replaceFrom pat target 0 rest := by
  induction text with
  | nil => exact .inl ⟨by simpa using hpat, rfl⟩
  | cons c text ih =>
    by_cases hpre : pat <+: c :: text
    · right
      obtain ⟨rest, hrest⟩ := hpre
      refine ⟨[], rest, by simp [hrest], by simpa using hpat, ?_⟩
      have htext : text.drop (pat.length - 1) = rest := by
        obtain ⟨p, pat', rfl⟩ := List.exists_cons_of_ne_nil hpat
        simp only [List.cons_append, List.cons.injEq] at hrest
        rw [← hrest.2]
        simp
      have hmatch : pat.isPrefixOf (c :: text) = true := by
        rw [List.isPrefixOf_iff_prefix]
        exact ⟨rest, hrest⟩
      simp only [replaceFrom, hmatch, if_true, List.nil_append, replaceFrom_skip pat target (pat.length - 1), htext]
    · have hno : pat.isPrefixOf (c :: text) = false := by
        rw [Bool.eq_false_iff, ne_eq, List.isPrefixOf_iff_prefix]
        exact hpre
      have hstep : replaceFrom pat target 0 (c :: text) = c :: replaceFrom pat target 0 text := by
        simp only [replaceFrom, hno, Bool.false_eq_true, if_false]
      rw [hstep]
      rcases ih with ⟨habsent, heq⟩ | ⟨x, rest, htext, habsent, heq⟩
      · refine .inl ⟨?_, by rw [heq]⟩
        rw [List.infix_cons_iff]
        exact fun h => h.elim hpre habsent
      · refine .inr ⟨c :: x, rest, by simp [htext], ?_, by simp [heq]⟩
        rw [List.infix_cons_iff]
        rintro (hx | hx)
        · -- A prefix of what comes before is a prefix of the text.
          have hle : c :: x <+: c :: text := by
            rw [htext]
            simp
          exact hpre (hx.trans hle)
        · exact habsent hx

section Replaced

variable {pat target w : List Char}

/-- A replacement does not make a word that is apart from its target. -/
theorem not_infix_replaceFrom (hpat : pat ≠ []) (hapart : Apart w target) {text : List Char} (h : ¬ w <:+: text) :
    ¬ w <:+: replaceFrom pat target 0 text := by
  rcases replaceFrom_cases hpat target text with ⟨-, heq⟩ | ⟨x, rest, htext, -, heq⟩
  · rwa [heq]
  · rw [heq]
    intro hw
    have hlen : rest.length < text.length := by
      have := List.length_pos_of_ne_nil hpat
      simp only [htext, List.length_append]
      omega
    have hrest : ¬ w <:+: rest := fun hr => h (hr.trans (htext ▸ (List.suffix_append _ _).isInfix))
    rcases hapart.infix_append hw with hx | hr
    · exact h (hx.trans ⟨[], pat ++ rest, by simp [htext]⟩)
    · exact not_infix_replaceFrom hpat hapart hrest hr
termination_by text.length

/-- The pattern is gone, if it is apart from the target. -/
theorem replaced_not_infix (hpat : pat ≠ []) (hapart : Apart pat target) (text : List Char) :
    ¬ pat <:+: replaceFrom pat target 0 text := by
  rcases replaceFrom_cases hpat target text with ⟨habsent, heq⟩ | ⟨x, rest, htext, habsent, heq⟩
  · rwa [heq]
  · rw [heq]
    intro hw
    have hlen : rest.length < text.length := by
      have := List.length_pos_of_ne_nil hpat
      simp only [htext, List.length_append]
      omega
    rcases hapart.infix_append hw with hx | hr
    · exact habsent hx
    · exact replaced_not_infix hpat hapart rest hr
termination_by text.length

/-- A word that no occurrence of the pattern can overlap stays. -/
theorem infix_replaceFrom (hpat : pat ≠ []) (hapart : Apart w pat) {text : List Char} (h : w <:+: text) :
    w <:+: replaceFrom pat target 0 text := by
  rcases replaceFrom_cases hpat target text with ⟨-, heq⟩ | ⟨x, rest, htext, -, heq⟩
  · rwa [heq]
  · rw [heq]
    have hlen : rest.length < text.length := by
      have := List.length_pos_of_ne_nil hpat
      simp only [htext, List.length_append]
      omega
    rcases hapart.infix_append (htext ▸ h) with hx | hr
    · exact hx.trans ⟨[], target ++ replaceFrom pat target 0 rest, by simp⟩
    · exact (infix_replaceFrom hpat hapart hr).trans (List.suffix_append _ _).isInfix
termination_by text.length

end Replaced

/-! ## Replacing one pattern after the other -/

/-- Take patterns out of a text, but for empty ones, and put their targets there. -/
def scrub (steps : List (String × String)) (text : String) : String :=
  steps.foldl (fun text s => if s.1.isEmpty then text else replaceAll text s.1 s.2) text

variable {steps : List (String × String)}

/-- What every replacement keeps, the whole pass keeps. -/
theorem scrub_induction {P : String → Prop}
    (hstep : ∀ s ∈ steps, s.1 ≠ "" → ∀ text, P text → P (replaceAll text s.1 s.2)) {text : String} (h : P text) :
    P (scrub steps text) := by
  induction steps generalizing text with
  | nil => exact h
  | cons s steps ih =>
    apply ih fun s' hs' => hstep s' (List.mem_cons_of_mem _ hs')
    by_cases hempty : s.1 = ""
    · simpa [hempty] using h
    · simpa [hempty] using hstep s List.mem_cons_self hempty text h

theorem scrub_absent {w : String}
    (hapart : ∀ s ∈ steps, s.1 ≠ "" → Apart w.toList s.2.toList) {text : String} (h : ¬ w.toList <:+: text.toList) :
    ¬ w.toList <:+: (scrub steps text).toList := by
  refine scrub_induction (P := fun text => ¬ w.toList <:+: text.toList) (fun s hs hempty text habsent => ?_) h
  rw [replaceAll, String.toList_ofList]
  exact not_infix_replaceFrom (by simpa using hempty) (hapart s hs hempty) habsent

/-- Of patterns that overlap no target, none is left. -/
theorem scrub_clean {w : String} {target : String} (hw : w ≠ "")
    (hmem : (w, target) ∈ steps) (hapart : ∀ s ∈ steps, s.1 ≠ "" → Apart w.toList s.2.toList) (text : String) :
    ¬ w.toList <:+: (scrub steps text).toList := by
  obtain ⟨before, after, rfl⟩ := List.append_of_mem hmem
  have hsplit : scrub (before ++ (w, target) :: after) text = scrub after (replaceAll (scrub before text) w target) := by
    simp [scrub, hw]
  rw [hsplit]
  apply scrub_absent
  · exact fun s hs => hapart s (by simp [hs])
  · rw [replaceAll, String.toList_ofList]
    exact replaced_not_infix (by simpa using hw) (hapart (w, target) (by simp) hw) _

/-- A word that overlaps no pattern stays. -/
theorem scrub_keeps {w : String}
    (hapart : ∀ s ∈ steps, s.1 ≠ "" → Apart w.toList s.1.toList) {text : String} (h : w.toList <:+: text.toList) :
    w.toList <:+: (scrub steps text).toList := by
  refine scrub_induction (P := fun text => w.toList <:+: text.toList) (fun s hs hempty text hin => ?_) h
  rw [replaceAll, String.toList_ofList]
  exact infix_replaceFrom (by simpa using hempty) (hapart s hs hempty) hin

/-! ## `str::match_indices`

The matches do not overlap each other. Where a pattern has no beginning that is also its end (`Borderless`), no two
occurrences do, and so every occurrence is a match (`mem_matchSplits_iff`). -/

/-- `match_indices` of a pattern that is not empty: the texts before and behind every match, from left to right. -/
def matchSplits (pat : List Char) : (skip : Nat) → (before text : List Char) → List (List Char × List Char)
  | _, _, [] => []
  | skip + 1, before, c :: cs => matchSplits pat skip (before ++ [c]) cs
  | 0, before, c :: cs =>
    if pat.isPrefixOf (c :: cs) then
      (before, (c :: cs).drop pat.length) :: matchSplits pat (pat.length - 1) (before ++ [c]) cs
    else matchSplits pat 0 (before ++ [c]) cs

/-- No beginning of the pattern is its end too. -/
def Borderless (pat : List Char) : Prop := pat ≠ [] ∧ ∀ k < pat.length, 0 < k → ¬pat.drop k <+: pat

instance : DecidablePred Borderless := fun pat =>
  inferInstanceAs (Decidable (pat ≠ [] ∧ ∀ k < pat.length, 0 < k → ¬pat.drop k <+: pat))

theorem matchSplits_skip (pat : List Char) (skip : Nat) (before text : List Char) :
    matchSplits pat skip before text = matchSplits pat 0 (before ++ text.take skip) (text.drop skip) := by
  induction skip generalizing before text with
  | zero => simp
  | succ skip ih =>
    cases text with
    | nil => simp [matchSplits]
    | cons c cs =>
      rw [matchSplits, ih]
      simp

/-- Where a pattern stands at the beginning, it stands again only behind. -/
theorem Borderless.behind {pat x y r : List Char} (hpat : Borderless pat) (hx : x ≠ []) (h : x ++ pat ++ y = pat ++ r) :
    ∃ z, x = pat ++ z ∧ r = z ++ pat ++ y := by
  rw [List.append_assoc] at h
  rcases List.append_eq_append_iff.mp h with ⟨z, hz, hr⟩ | ⟨z, rfl, hr⟩
  · -- The second one would begin inside the first.
    rcases Nat.lt_or_ge x.length pat.length with hlt | hge
    · have hpre : pat.drop x.length <+: pat := by
        have hdrop : pat.drop x.length = z := by
          rw [hz]
          simp
        rw [hdrop]
        exact List.prefix_of_prefix_length_le ⟨r, hr.symm⟩ (List.prefix_append pat y) (by rw [hz]; simp)
      exact absurd hpre (hpat.2 x.length hlt (List.length_pos_iff.mpr hx))
    · have hnil : z = [] := by
        have hlen := congrArg List.length hz
        rw [List.length_append] at hlen
        exact List.eq_nil_of_length_eq_zero (by omega)
      subst hnil
      exact ⟨[], by rw [hz, List.append_nil, List.append_nil], hr.symm⟩
  · exact ⟨z, rfl, by rw [hr, List.append_assoc]⟩

/-- **Every occurrence of a borderless pattern is a match.** -/
theorem mem_matchSplits_iff {pat : List Char} (hpat : Borderless pat) {before text x y : List Char} :
    (x, y) ∈ matchSplits pat 0 before text ↔ ∃ x', x = before ++ x' ∧ text = x' ++ pat ++ y := by
  induction hlen : text.length using Nat.strong_induction_on generalizing before text with
  | h n ih =>
    subst hlen
    cases text with
    | nil =>
      refine ⟨fun h => absurd h List.not_mem_nil, ?_⟩
      rintro ⟨x', -, h⟩
      have hnil := List.append_eq_nil_iff.mp (List.append_eq_nil_iff.mp h.symm).1
      exact absurd hnil.2 hpat.1
    | cons c cs =>
      unfold matchSplits
      split
      next hpre =>
        rw [ List.isPrefixOf_iff_prefix] at hpre
        obtain ⟨r, hr⟩ := hpre
        cases pat with
        | nil => exact absurd rfl hpat.1
        | cons d p =>
          obtain ⟨rfl, rfl⟩ := List.cons.inj (show d :: (p ++ r) = c :: cs from hr)
          have hrest : matchSplits (d :: p) ((d :: p).length - 1) (before ++ [d]) (p ++ r) =
              matchSplits (d :: p) 0 (before ++ d :: p) r := by
            rw [matchSplits_skip, List.length_cons, Nat.add_sub_cancel, List.take_left, List.drop_left,
              List.append_assoc]
            rfl
          have hdrop : (d :: (p ++ r)).drop (d :: p).length = r := List.drop_left
          rw [hrest, hdrop, List.mem_cons, ih r.length (by simp only [List.length_cons, List.length_append]; omega) rfl]
          constructor
          · rintro (heq | ⟨z, rfl, rfl⟩)
            · cases heq
              exact ⟨[], (List.append_nil _).symm, rfl⟩
            · exact ⟨d :: p ++ z, by simp, by simp⟩
          · rintro ⟨x', rfl, h⟩
            by_cases hx : x' = []
            · subst hx
              have hy : r = y := List.append_cancel_left (show d :: p ++ r = d :: p ++ y from h)
              exact .inl (by rw [hy, List.append_nil])
            · obtain ⟨z, rfl, rfl⟩ := hpat.behind hx h.symm
              exact .inr ⟨z, by simp, rfl⟩
      next hpre =>
        rw [ List.isPrefixOf_iff_prefix] at hpre
        rw [ih cs.length (Nat.lt_succ_self _) rfl]
        constructor
        · rintro ⟨x', rfl, rfl⟩
          exact ⟨c :: x', by simp, rfl⟩
        · rintro ⟨x', rfl, h⟩
          cases x' with
          | nil => exact absurd ⟨y, h.symm⟩ hpre
          | cons d x' =>
            obtain ⟨rfl, rfl⟩ := List.cons.inj h
            exact ⟨x', by simp, rfl⟩

end Freeclawdia.Rust
