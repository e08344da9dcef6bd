import Freeclawdia.Rust.Str

/-!
# `Lib.Regex` — regular expressions with leftmost-first search

A regular expression over characters, what it matches at a position (`ends`, in order of preference), the language it
denotes (`Denotes`), and the leftmost-first search that lists the matches of a text from left to right without overlap
(`findIter`). `mem_ends_iff` says that the two meanings agree for an expression without word boundaries; everything a
client proves about searches goes through it and through `findIter_covers`.

Which characters make up words is a parameter: only `\b` and `\w` read it.
-/

namespace Freeclawdia

/-! ## Character classes -/

/-- One item of a character class. -/
inductive ClassItem
  | range (lo hi : Char)
  | space
  | word
  deriving DecidableEq

/-- A character class. -/
structure CharClass where
  items : List ClassItem
  negated : Bool
  ignoreCase : Bool
  deriving DecidableEq

/-- The characters that simple case folding identifies with one, as far as ASCII letters are concerned. -/
def foldings (c : Char) : List Char :=
  -- U+017F is a long s, U+212A the Kelvin sign
  if c = Char.ofNat 0x17F then [c, 's', 'S']
  else if c = Char.ofNat 0x212A then [c, 'k', 'K']
  else [c, c.toLower, c.toUpper]

def ClassItem.mem (isWord : Char → Bool) : ClassItem → Char → Bool
  | range lo hi, c => lo ≤ c && c ≤ hi
  | space, c => Rust.isWhitespace c
  | word, c => isWord c

/-- Membership in a class. -/
def CharClass.mem (isWord : Char → Bool) (k : CharClass) (c : Char) : Bool :=
  let variants := if k.ignoreCase then foldings c else [c]
  (variants.any fun d => k.items.any fun item => item.mem isWord d) != k.negated

/-! ## Expressions -/

inductive Regex
  | empty
  | cls (k : CharClass)
  | boundary
  | seq (a b : Regex)
  | alt (a b : Regex)
  | rep (r : Regex) (min : Nat) (max : Option Nat)
  deriving DecidableEq

namespace Regex

/-- Exactly so many rounds. -/
def timesEnds (body : Nat → List Nat) : (count : Nat) → Nat → List Nat
  | 0, i => [i]
  | count + 1, i => (body i).flatMap (timesEnds body count)

/-- As many non-empty rounds as possible, but no more than so many. -/
def upToEnds (body : Nat → List Nat) : (count : Nat) → Nat → List Nat
  | 0, i => [i]
  | count + 1, i => ((body i).filter (i < ·)).flatMap (upToEnds body count) ++ [i]

/-- Greedy repetition: `min` times, then up to `extra` times more. -/
def repeatEnds (body : Nat → List Nat) (min extra i : Nat) : List Nat :=
  (timesEnds body min i).flatMap (upToEnds body extra)

/-- Is the position between a word character and something else? -/
def atBoundary (isWord : Char → Bool) (text : List Char) (i : Nat) : Bool :=
  let before := i != 0 && (text[i - 1]?).any isWord
  before != (text[i]?).any isWord

/-- The ends of the matches that start at a position, in order of preference. -/
def ends (isWord : Char → Bool) (text : List Char) : Regex → Nat → List Nat
  | empty, i => [i]
  | cls k, i => if (text[i]?).any (k.mem isWord) then [i + 1] else []
  | boundary, i => if atBoundary isWord text i then [i] else []
  | seq a b, i => (ends isWord text a i).flatMap (ends isWord text b)
  | alt a b, i => ends isWord text a i ++ ends isWord text b i
  | rep r min max, i =>
    -- without a bound there are never more non-empty rounds than characters
    repeatEnds (ends isWord text r) min ((max.map (· - min)).getD text.length) i

/-- The language of an expression; a word boundary is ignored. -/
def Denotes (isWord : Char → Bool) : Regex → List Char → Prop
  | empty, w => w = []
  | cls k, w => ∃ c, w = [c] ∧ k.mem isWord c = true
  | boundary, w => w = []
  | seq a b, w => ∃ u v, w = u ++ v ∧ Denotes isWord a u ∧ Denotes isWord b v
  | alt a b, w => Denotes isWord a w ∨ Denotes isWord b w
  | rep r min max, w =>
    ∃ ws : List (List Char), w = ws.flatten ∧ (∀ x ∈ ws, Denotes isWord r x) ∧ min ≤ ws.length ∧
      ∀ m ∈ max, ws.length ≤ m

/-- No word boundary, and the bounds of repetitions are in order. -/
def plain : Regex → Bool
  | empty => true
  | cls _ => true
  | boundary => false
  | seq a b => plain a && plain b
  | alt a b => plain a && plain b
  | rep r min max => plain r && max.all (min ≤ ·)

/-! ## Search -/

/-- The matches from a position on, by leftmost-first search; the last one ended at `last`. -/
def findFrom (isWord : Char → Bool) (text : List Char) (r : Regex) : (fuel i last : Nat) → List (Nat × Nat)
  | 0, _, _ => []
  | fuel + 1, i, last =>
    if i < last then findFrom isWord text r fuel (i + 1) last
    else
      match (ends isWord text r i).head? with
      | none => findFrom isWord text r fuel (i + 1) last
      | some e =>
        -- no empty match right at the end of another one
        if e = i ∧ 0 < i ∧ last = i then findFrom isWord text r fuel (i + 1) last
        else (i, e) :: findFrom isWord text r fuel (i + 1) e

/-- All matches of a text, from left to right without overlap. -/
def findIter (isWord : Char → Bool) (r : Regex) (text : List Char) : List (Nat × Nat) :=
  findFrom isWord text r (text.length + 1) 0 0

/-- Is there a match? -/
def isMatch (isWord : Char → Bool) (r : Regex) (text : List Char) : Bool :=
  (List.range (text.length + 1)).any fun i => !(ends isWord text r i).isEmpty

/-! ## Positions and words -/

section Meaning

variable {isWord : Char → Bool} {text : List Char}

/-- A word that is a prefix of the text at a position. -/
def At (text w : List Char) (i : Nat) : Prop := w <+: text.drop i

variable {i : Nat}

theorem at_append {u v : List Char} : At text (u ++ v) i ↔ At text u i ∧ At text v (i + u.length) := by
  unfold At
  rw [← List.drop_drop]
  constructor
  · rintro ⟨t, ht⟩
    refine ⟨⟨v ++ t, by simpa using ht⟩, ⟨t, ?_⟩⟩
    rw [← ht, List.append_assoc, List.drop_left]
  · rintro ⟨⟨t, ht⟩, hv⟩
    rw [← ht, List.drop_left] at hv
    obtain ⟨t', ht'⟩ := hv
    exact ⟨t', by rw [← ht, ← ht', List.append_assoc]⟩

theorem at_nil (i : Nat) : At text [] i := List.nil_prefix

theorem at_singleton {c : Char} : At text [c] i ↔ text[i]? = some c := by
  unfold At
  rw [← List.head?_drop]
  cases text.drop i with
  | nil => simp
  | cons d ds =>
    simp only [List.head?_cons, Option.some.injEq, List.cons_prefix_cons, List.nil_prefix, and_true]
    exact eq_comm

variable {w : List Char}

theorem At.length_le (h : At text w i) : w.length ≤ text.length - i := by
  have hle := List.IsPrefix.length_le h
  rwa [List.length_drop] at hle

/-- Dropping empty rounds does not change what was read. -/
theorem flatten_nonempty (ws : List (List Char)) : (ws.filter (!·.isEmpty)).flatten = ws.flatten := by
  induction ws with
  | nil => rfl
  | cons w ws ih =>
    cases w with
    | nil => simpa using ih
    | cons c cs => simp [ih]

variable {ws : List (List Char)}

theorem length_le_flatten (h : ∀ w ∈ ws, w ≠ []) : ws.length ≤ ws.flatten.length := by
  induction ws with
  | nil => simp
  | cons w ws ih =>
    have hw : 0 < w.length := List.length_pos_iff.2 (h w (by simp))
    have := ih fun x hx => h x (by simp [hx])
    simp only [List.length_cons, List.flatten_cons, List.length_append]
    omega

section Rounds

variable {body : Nat → List Nat} {D : List Char → Prop}
  (hbody : ∀ i e, e ∈ body i ↔ ∃ w, At text w i ∧ e = i + w.length ∧ D w)
include hbody

theorem mem_timesEnds (count i e : Nat) : e ∈ timesEnds body count i ↔
      ∃ ws : List (List Char), At text ws.flatten i ∧ e = i + ws.flatten.length ∧ (∀ x ∈ ws, D x) ∧
        ws.length = count := by
  induction count generalizing i with
  | zero =>
    simp only [timesEnds, List.mem_singleton]
    constructor
    · rintro rfl
      exact ⟨[], at_nil _, by simp, by simp, rfl⟩
    · rintro ⟨ws, -, rfl, -, hlen⟩
      obtain rfl : ws = [] := List.length_eq_zero_iff.1 hlen
      simp
  | succ count ih =>
    simp only [timesEnds, List.mem_flatMap]
    constructor
    · rintro ⟨m, hm, he⟩
      obtain ⟨w, hat, rfl, hD⟩ := (hbody i m).1 hm
      obtain ⟨ws, hats, rfl, hDs, hlen⟩ := (ih _).1 he
      refine ⟨w :: ws, ?_, ?_, ?_, by simp [hlen]⟩
      · rw [List.flatten_cons, at_append]
        exact ⟨hat, hats⟩
      · simp only [List.flatten_cons, List.length_append]
        omega
      · simpa using ⟨hD, hDs⟩
    · rintro ⟨ws, hat, rfl, hD, hlen⟩
      cases ws with
      | nil => simp at hlen
      | cons w ws =>
        rw [List.flatten_cons, at_append] at hat
        refine ⟨i + w.length, (hbody _ _).2 ⟨w, hat.1, rfl, hD w (by simp)⟩, ?_⟩
        refine (ih _).2 ⟨ws, hat.2, ?_, fun x hx => hD x (by simp [hx]), by simpa using hlen⟩
        simp only [List.flatten_cons, List.length_append]
        omega

theorem mem_upToEnds (count i e : Nat) : e ∈ upToEnds body count i ↔
      ∃ ws : List (List Char), At text ws.flatten i ∧ e = i + ws.flatten.length ∧ (∀ x ∈ ws, D x) ∧
        ws.length ≤ count := by
  induction count generalizing i with
  | zero =>
    simp only [upToEnds, List.mem_singleton]
    constructor
    · rintro rfl
      exact ⟨[], at_nil _, by simp, by simp, by simp⟩
    · rintro ⟨ws, -, rfl, -, hlen⟩
      obtain rfl : ws = [] := List.length_eq_zero_iff.1 (by omega)
      simp
  | succ count ih =>
    simp only [upToEnds, List.mem_append, List.mem_flatMap, List.mem_filter, decide_eq_true_eq,
      List.mem_singleton]
    constructor
    · rintro (⟨m, ⟨hm, -⟩, he⟩ | rfl)
      · obtain ⟨w, hat, rfl, hD⟩ := (hbody i m).1 hm
        obtain ⟨ws, hats, rfl, hDs, hlen⟩ := (ih _).1 he
        refine ⟨w :: ws, ?_, ?_, ?_, by simpa using hlen⟩
        · rw [List.flatten_cons, at_append]
          exact ⟨hat, hats⟩
        · simp only [List.flatten_cons, List.length_append]
          omega
        · simpa using ⟨hD, hDs⟩
      · exact ⟨[], at_nil _, by simp, by simp, by simp⟩
    · rintro ⟨ws, hat, rfl, hD, hlen⟩
      -- only non-empty rounds are taken
      have hflat := flatten_nonempty ws
      cases hws : ws.filter (!·.isEmpty) with
      | nil =>
        right
        rw [← hflat, hws]
        simp
      | cons w rest =>
        left
        have hmem : ∀ x ∈ w :: rest, x ∈ ws ∧ x ≠ [] := by
          intro x hx
          rw [← hws, List.mem_filter] at hx
          exact ⟨hx.1, by simpa using hx.2⟩
        have hle : (w :: rest).length ≤ ws.length := hws ▸ List.length_filter_le _ ws
        rw [← hflat, hws, List.flatten_cons, at_append] at hat
        refine ⟨i + w.length, ⟨?_, ?_⟩, ?_⟩
        · exact (hbody _ _).2 ⟨w, hat.1, rfl, hD w (hmem w (by simp)).1⟩
        · have := List.length_pos_iff.2 (hmem w (by simp)).2
          omega
        · refine (ih _).2 ⟨rest, hat.2, ?_, fun x hx => hD x (hmem x (by simp [hx])).1, ?_⟩
          · rw [← hflat, hws, List.flatten_cons, List.length_append]
            omega
          · simp only [List.length_cons] at hle
            omega

/-- What a repetition reads: between `min` and `min + extra` rounds. -/
theorem mem_repeatEnds (min extra i e : Nat) : e ∈ repeatEnds body min extra i ↔
      ∃ ws : List (List Char), At text ws.flatten i ∧ e = i + ws.flatten.length ∧ (∀ x ∈ ws, D x) ∧
        min ≤ ws.length ∧ ws.length ≤ min + extra := by
  simp only [repeatEnds, List.mem_flatMap, mem_timesEnds hbody, mem_upToEnds hbody]
  constructor
  · rintro ⟨m, ⟨us, hus, rfl, hDu, hmin⟩, vs, hvs, rfl, hDv, hextra⟩
    refine ⟨us ++ vs, ?_, ?_, ?_, ?_, ?_⟩
    · rw [List.flatten_append, at_append]
      exact ⟨hus, hvs⟩
    · simp only [List.flatten_append, List.length_append]
      omega
    · intro x hx
      rcases List.mem_append.1 hx with h | h
      · exact hDu x h
      · exact hDv x h
    · simp only [List.length_append]
      omega
    · simp only [List.length_append]
      omega
  · rintro ⟨ws, hat, rfl, hD, hmin, hextra⟩
    have hsplit : ws = ws.take min ++ ws.drop min := (List.take_append_drop min ws).symm
    have hflat : ws.flatten = (ws.take min).flatten ++ (ws.drop min).flatten := by rw [← List.flatten_append, ← hsplit]
    rw [hflat, at_append] at hat
    refine ⟨_, ⟨ws.take min, hat.1, rfl, fun x hx => hD x (List.mem_of_mem_take hx), List.length_take_of_le hmin⟩,
      ws.drop min, hat.2, ?_, fun x hx => hD x (List.mem_of_mem_drop hx), by simp only [List.length_drop]; omega⟩
    rw [hflat, List.length_append]
    omega

end Rounds

variable {r : Regex}

/-- The two meanings agree. -/
theorem mem_ends_iff (hplain : r.plain = true) (i e : Nat) :
    e ∈ ends isWord text r i ↔ ∃ w, At text w i ∧ e = i + w.length ∧ Denotes isWord r w := by
  induction r generalizing i e with
  | empty =>
    simp only [ends, Denotes, List.mem_singleton]
    constructor
    · rintro rfl
      exact ⟨[], at_nil _, rfl, rfl⟩
    · rintro ⟨w, -, rfl, rfl⟩
      rfl
  | cls k =>
    simp only [ends, Denotes]
    constructor
    · intro h
      split at h
      · next hany =>
          obtain ⟨c, hc, hk⟩ := (Option.any_eq_true _ _).1 hany
          exact ⟨[c], at_singleton.2 hc, by simpa using h, c, rfl, hk⟩
      · simp at h
    · rintro ⟨w, hat, rfl, c, rfl, hk⟩
      rw [at_singleton] at hat
      simp [hat, hk]
  | boundary => simp [plain] at hplain
  | seq a b iha ihb =>
    simp only [plain, Bool.and_eq_true] at hplain
    simp only [ends, Denotes, List.mem_flatMap]
    constructor
    · rintro ⟨m, hm, he⟩
      obtain ⟨u, hu, rfl, hDu⟩ := (iha hplain.1 i m).1 hm
      obtain ⟨v, hv, rfl, hDv⟩ := (ihb hplain.2 _ e).1 he
      exact ⟨u ++ v, at_append.2 ⟨hu, hv⟩, by simp [Nat.add_assoc], u, v, rfl, hDu, hDv⟩
    · rintro ⟨w, hat, rfl, u, v, rfl, hDu, hDv⟩
      rw [at_append] at hat
      refine ⟨i + u.length, (iha hplain.1 _ _).2 ⟨u, hat.1, rfl, hDu⟩, ?_⟩
      exact (ihb hplain.2 _ _).2 ⟨v, hat.2, by simp [Nat.add_assoc], hDv⟩
  | alt a b iha ihb =>
    simp only [plain, Bool.and_eq_true] at hplain
    simp only [ends, Denotes, List.mem_append, iha hplain.1, ihb hplain.2]
    constructor
    · rintro (⟨w, hat, he, hD⟩ | ⟨w, hat, he, hD⟩)
      · exact ⟨w, hat, he, Or.inl hD⟩
      · exact ⟨w, hat, he, Or.inr hD⟩
    · rintro ⟨w, hat, he, hD | hD⟩
      · exact Or.inl ⟨w, hat, he, hD⟩
      · exact Or.inr ⟨w, hat, he, hD⟩
  | rep r min max ih =>
    simp only [plain, Bool.and_eq_true] at hplain
    simp only [ends, Denotes]
    rw [mem_repeatEnds (fun i e => ih hplain.1 i e)]
    constructor
    · rintro ⟨ws, hat, he, hD, hmin, hlen⟩
      refine ⟨_, hat, he, ws, rfl, hD, hmin, ?_⟩
      rintro m hm
      obtain rfl : max = some m := hm
      have hle : min ≤ m := by simpa using hplain.2
      simp only [Option.map_some, Option.getD_some] at hlen
      omega
    · rintro ⟨w, hat, he, ws, rfl, hD, hmin, hmax⟩
      cases max with
      | some m =>
        have := hmax m rfl
        exact ⟨ws, hat, he, hD, hmin, by simp only [Option.map_some, Option.getD_some]; omega⟩
      | none =>
        -- the rounds beyond the least number are the non-empty ones
        have hsplit : (ws.take min ++ (ws.drop min).filter (!·.isEmpty)).flatten = ws.flatten := by
          rw [List.flatten_append, flatten_nonempty, ← List.flatten_append, List.take_append_drop]
        refine ⟨ws.take min ++ (ws.drop min).filter (!·.isEmpty), hsplit ▸ hat, hsplit ▸ he, ?_, ?_, ?_⟩
        · intro x hx
          rcases List.mem_append.1 hx with h | h
          · exact hD x (List.mem_of_mem_take h)
          · exact hD x (List.mem_of_mem_drop (List.mem_filter.1 h).1)
        · simp only [List.length_append, List.length_take]
          omega
        · have h1 : ((ws.drop min).filter (!·.isEmpty)).length ≤ (ws.drop min).flatten.length := by
            rw [← flatten_nonempty (ws.drop min)]
            apply length_le_flatten
            intro w hw
            simpa using (List.mem_filter.1 hw).2
          have h2 := At.length_le (hsplit ▸ hat)
          have h3 : (ws.drop min).flatten.length ≤ ws.flatten.length := by
            conv_rhs => rw [← List.take_append_drop min ws, List.flatten_append, List.length_append]
            omega
          simp only [Option.map_none, Option.getD_none, List.length_append, List.length_take]
          rw [hsplit] at h2
          omega

/-- The least number of characters of a match. -/
def minWidth : Regex → Nat
  | empty => 0
  | cls _ => 1
  | boundary => 0
  | seq a b => minWidth a + minWidth b
  | alt a b => Nat.min (minWidth a) (minWidth b)
  | rep r min _ => min * minWidth r

theorem flatten_width {n : Nat} (h : ∀ w ∈ ws, n ≤ w.length) : ws.length * n ≤ ws.flatten.length := by
  induction ws with
  | nil => simp
  | cons w ws ih =>
    have hw := h w (by simp)
    have hws := ih fun x hx => h x (by simp [hx])
    simp only [List.length_cons, List.flatten_cons, List.length_append, Nat.succ_mul]
    omega

theorem minWidth_le (h : Denotes isWord r w) : r.minWidth ≤ w.length := by
  induction r generalizing w with
  | empty => simp [minWidth]
  | cls k =>
    obtain ⟨c, rfl, -⟩ := h
    simp [minWidth]
  | boundary => simp [minWidth]
  | seq a b iha ihb =>
    obtain ⟨u, v, rfl, hu, hv⟩ := h
    simpa [minWidth] using Nat.add_le_add (iha hu) (ihb hv)
  | alt a b iha ihb =>
    rcases h with h | h
    · exact le_trans (Nat.min_le_left _ _) (iha h)
    · exact le_trans (Nat.min_le_right _ _) (ihb h)
  | rep r min max ih =>
    obtain ⟨ws, rfl, hD, hmin, -⟩ := h
    calc min * minWidth r ≤ ws.length * minWidth r := Nat.mul_le_mul_right _ hmin
      _ ≤ ws.flatten.length := flatten_width fun w hw => ih (hD w hw)

/-- The literal characters an expression starts with. -/
def lead : Regex → List Char
  | seq (cls ⟨[.range lo hi], false, false⟩) rest => if lo = hi then lo :: lead rest else []
  | _ => []

theorem lead_isPrefix (h : Denotes isWord r w) : r.lead <+: w := by
  induction r using lead.induct generalizing w with
  | case1 lo rest ih =>
    obtain ⟨u, v, rfl, ⟨c, rfl, hc⟩, hv⟩ := h
    obtain rfl : lo = c := by
      have hle : lo ≤ c ∧ c ≤ lo := by simpa [CharClass.mem, ClassItem.mem] using hc
      exact Char.le_antisymm hle.1 hle.2
    simp only [lead, if_true, List.singleton_append]
    exact List.cons_prefix_cons.2 ⟨rfl, ih hv⟩
  | case2 lo hi rest hne => simp [lead, hne]
  | case3 r hr => simp [lead]

/-! ## Searches -/

variable {fuel last : Nat}

/-- A search reports only matches, from its position and the last end on. -/
theorem findFrom_sound {m : Nat × Nat} (h : m ∈ findFrom isWord text r fuel i last) :
    m.2 ∈ ends isWord text r m.1 ∧ i ≤ m.1 ∧ last ≤ m.1 := by
  induction fuel generalizing i last with
  | zero => simp [findFrom] at h
  | succ fuel ih =>
    unfold findFrom at h
    split_ifs at h with hlast
    · obtain ⟨hm, hi, hl⟩ := ih h
      exact ⟨hm, by omega, hl⟩
    · split at h
      · obtain ⟨hm, hi, hl⟩ := ih h
        exact ⟨hm, by omega, hl⟩
      · next e he =>
          split_ifs at h with hskip
          · obtain ⟨hm, hi, hl⟩ := ih h
            exact ⟨hm, by omega, hl⟩
          · rcases List.mem_cons.1 h with rfl | h
            · exact ⟨List.mem_of_head? he, le_refl _, by simpa using hlast⟩
            · obtain ⟨hm, hi, hl⟩ := ih h
              exact ⟨hm, by omega, by omega⟩

variable {e j : Nat}

/-- Where an expression matches, the search has reported a match that covers the position. -/
theorem findFrom_covers (hpos : ∀ i e, e ∈ ends isWord text r i → i < e) (he : e ∈ ends isWord text r j) (hi : i ≤ j)
    (hlast : last ≤ j) (hfuel : j < i + fuel) : ∃ m ∈ findFrom isWord text r fuel i last, m.1 ≤ j ∧ j < m.2 := by
  induction fuel generalizing i last with
  | zero => omega
  | succ fuel ih =>
    unfold findFrom
    split_ifs with hskip
    · exact ih (by omega) hlast (by omega)
    · split
      · next hnone =>
          have hne : i ≠ j := by
            rintro rfl
            rw [List.head?_eq_none_iff.1 hnone] at he
            simp at he
          exact ih (by omega) hlast (by omega)
      · next e' he' =>
          have hlt := hpos i e' (List.mem_of_head? he')
          split_ifs with hempty
          · omega
          · by_cases hj : j < e'
            · exact ⟨(i, e'), by simp, hi, hj⟩
            · obtain ⟨m, hm, hmj⟩ := @ih (i + 1) e' (by omega) (by omega) (by omega)
              exact ⟨m, by simp [hm], hmj⟩

theorem findIter_covers (hpos : ∀ i e, e ∈ ends isWord text r i → i < e) (he : e ∈ ends isWord text r j)
    (hj : j ≤ text.length) : ∃ m ∈ findIter isWord r text, m.1 ≤ j ∧ j < m.2 :=
  findFrom_covers hpos he (Nat.zero_le _) (Nat.zero_le _) (by omega)

/-- A text has a match exactly when a word of the language stands somewhere in it. -/
theorem isMatch_iff (hplain : r.plain = true) :
    isMatch isWord r text = true ↔ ∃ i w, i ≤ text.length ∧ At text w i ∧ Denotes isWord r w := by
  simp only [isMatch, List.any_eq_true, List.mem_range, Bool.not_eq_true', List.isEmpty_eq_false_iff]
  constructor
  · rintro ⟨i, hi, hne⟩
    obtain ⟨e, he⟩ := List.exists_mem_of_ne_nil _ hne
    obtain ⟨w, hat, -, hD⟩ := (mem_ends_iff hplain i e).1 he
    exact ⟨i, w, by omega, hat, hD⟩
  · rintro ⟨i, w, hi, hat, hD⟩
    have he := (mem_ends_iff hplain i (i + w.length)).2 ⟨w, hat, rfl, hD⟩
    exact ⟨i, by omega, List.ne_nil_of_mem he⟩

/-- Matches of an expression without the empty word have a length. -/
theorem lt_of_mem_ends (hplain : r.plain = true) (hw : 0 < r.minWidth) (i e : Nat) (he : e ∈ ends isWord text r i) :
    i < e := by
  obtain ⟨w, -, rfl, hD⟩ := (mem_ends_iff hplain i e).1 he
  have := minWidth_le hD
  omega

theorem isMatch_iff_findIter (hplain : r.plain = true) (hw : 0 < r.minWidth) :
    isMatch isWord r text = true ↔ findIter isWord r text ≠ [] := by
  rw [isMatch_iff hplain]
  constructor
  · rintro ⟨i, w, hi, hat, hD⟩
    have he := (mem_ends_iff hplain i (i + w.length)).2 ⟨w, hat, rfl, hD⟩
    obtain ⟨m, hm, -⟩ := findIter_covers (lt_of_mem_ends hplain hw) he hi
    exact List.ne_nil_of_mem hm
  · intro hne
    obtain ⟨m, hm⟩ := List.exists_mem_of_ne_nil _ hne
    obtain ⟨w, hat, -, hD⟩ := (mem_ends_iff hplain m.1 m.2).1 (findFrom_sound hm).1
    have := hat.length_le
    have := minWidth_le hD
    exact ⟨m.1, w, by omega, hat, hD⟩

end Meaning

end Regex
end Freeclawdia
