import Freeclawdia.Lib.Ranges
import Freeclawdia.Safety.LeakDetector

/-!
# `Correctness.LeakRedaction` — what is left of the secrets that are redacted

The ranges to redact come from several regexes, so they can be nested; they are sorted by where they start, and
`apply_redactions` goes through them with one cursor. A range that ends before an earlier one sets it back, and then a
part of the earlier match is put out again, unless the next range starts before that.

Regexes are taken as what `find_iter` reports (`scanWith`), so that the patterns can be any; `scan` is the case of
those that `Regex.parse` reads.
-/

namespace Freeclawdia.LeakDetector

open Rust Ranges

/-! ## Scanning with any regexes -/

section Scan

variable (findIter : LeakPattern → List Char → List (Nat × Nat))

/-- The matches of one pattern. -/
def patternMatchesWith (pattern : LeakPattern) (content : String) : List LeakMatch :=
  (findIter pattern content.toList).map fun range =>
    { patternName := pattern.name
      severity := pattern.severity
      action := pattern.action
      location := range
      maskedPreview := maskSecret (slice content range) }

/-- The matches of the candidates, in the order they are found. -/
def candidateMatchesWith (d : LeakDetector) (content : String) : List LeakMatch :=
  (d.candidateIndices content).flatMap fun idx =>
    ((d.patterns[idx]?).map fun pattern => patternMatchesWith findIter pattern content).getD []

/-- The ranges to redact. -/
def redactRanges (d : LeakDetector) (content : String) : List (Nat × Nat) :=
  (((candidateMatchesWith findIter d content).filter fun m => m.action = .redact).map LeakMatch.location).insertionSort
    fun a b => a.1 ≤ b.1

/-- Scan content for potential secret leaks. -/
def scanWith (d : LeakDetector) (content : String) : LeakScanResult :=
  let found := candidateMatchesWith findIter d content
  { leaks := found.insertionSort fun a b => a.location.1 ≤ b.location.1
    shouldBlock := found.any fun m => m.action = .block
    redactedContent :=
      if (redactRanges findIter d content).isEmpty then none
      else some (String.ofList (applyRedactions content.toList 0 (redactRanges findIter d content))) }

end Scan

variable {findIter : LeakPattern → List Char → List (Nat × Nat)} {d : LeakDetector} {content : String}

/-- The ranges to redact are the places of the matches that are reported with the action `redact`. -/
theorem mem_redactRanges {r : Nat × Nat} : r ∈ redactRanges findIter d content ↔
      ∃ m ∈ (scanWith findIter d content).leaks, m.action = .redact ∧ m.location = r := by
  unfold redactRanges scanWith
  rw [List.mem_insertionSort, List.mem_map]
  constructor
  · rintro ⟨m, hm, rfl⟩
    obtain ⟨hfound, haction⟩ := List.mem_filter.mp hm
    exact ⟨m, (List.mem_insertionSort _).mpr hfound, of_decide_eq_true haction, rfl⟩
  · rintro ⟨m, hm, haction, rfl⟩
    exact ⟨m, List.mem_filter.mpr ⟨(List.mem_insertionSort _).mp hm, decide_eq_true haction⟩, rfl⟩

/-- A match is one that its pattern's regex has reported. -/
theorem found_of_leak {m : LeakMatch} (h : m ∈ (scanWith findIter d content).leaks) :
    ∃ p ∈ d.patterns, m.location ∈ findIter p content.toList := by
  obtain ⟨idx, -, hm⟩ := List.mem_flatMap.mp ((List.mem_insertionSort _).mp h)
  cases hp : d.patterns[idx]? with
  | none =>
    rw [hp] at hm
    exact absurd hm List.not_mem_nil
  | some p =>
    rw [hp] at hm
    obtain ⟨range, hrange, rfl⟩ := List.mem_map.mp hm
    exact ⟨p, List.mem_of_getElem? hp, hrange⟩

theorem sorted_redactRanges : (redactRanges findIter d content).Pairwise fun a b => a.1 ≤ b.1 :=
  List.pairwise_insertionSort (fun a b : Nat × Nat => a.1 ≤ b.1) _

/-! ## The text that is put out -/

variable (content : List Char)

/-- The text of what the loop puts out. -/
def render (pieces : List Piece) : List Char :=
  pieces.flatMap fun piece =>
    match piece with
    | .kept i => content[i]?.toList
    | .marker => "[REDACTED]".toList

theorem flatMap_getElem? (a k : Nat) :
    ((List.range' a k).flatMap fun i => content[i]?.toList) = (content.drop a).take k := by
  induction k generalizing a with
  | zero => rfl
  | succ k ih =>
    rw [List.range'_succ, List.flatMap_cons, ih]
    by_cases h : a < content.length
    · rw [List.getElem?_eq_getElem h, List.drop_eq_getElem_cons h]
      rfl
    · have hnone : content[a]? = none := List.getElem?_eq_none (Nat.not_lt.mp h)
      rw [hnone, List.drop_eq_nil_of_le (Nat.not_lt.mp h), List.drop_eq_nil_of_le (by omega), List.take_nil, List.take_nil]
      rfl

theorem render_keptFrom (a b : Nat) : render content (keptFrom a b) = (content.take b).drop a := by
  unfold render keptFrom
  rw [List.flatMap_map, List.drop_take]
  exact flatMap_getElem? content a (b - a)

theorem render_append (a b : List Piece) :
    render content (a ++ b) = render content a ++ render content b :=
  List.flatMap_append

/-- **`apply_redactions` puts out what the loop with one cursor does.** -/
theorem applyRedactions_eq_render (last : Nat) (ranges : List (Nat × Nat)) :
    applyRedactions content last ranges = render content (trace content.length last ranges) := by
  induction ranges generalizing last with
  | nil =>
    unfold applyRedactions trace
    rw [render_keptFrom, List.take_length]
  | cons range ranges ih =>
    obtain ⟨start, stop⟩ := range
    unfold applyRedactions trace
    have hbefore : (if last < start then (content.take start).drop last else []) =
      render content (keptFrom last start) := by
      rw [render_keptFrom]
      split
      next => rfl
      next h => exact (List.drop_eq_nil_of_le ((List.length_take_le _ _).trans (Nat.not_lt.mp h))).symm
    have hmark : render content (.marker :: trace content.length stop ranges) =
        "[REDACTED]".toList ++ render content (trace content.length stop ranges) := List.flatMap_cons
    rw [hbefore, ih, render_append, hmark, List.append_assoc]

/-! ## What survives -/

/-- **Redaction removes every redacted byte**, and nothing else, exactly when no range falls back behind an earlier
one: the text put out is that of some positions and markers, and these are the uncovered positions, with each union of
ranges replaced by as many markers as ranges are in it. -/
theorem redaction_leaves_nothing (findIter : LeakPattern → List Char → List (Nat × Nat)) (patterns : List LeakPattern)
    (content : String)
    (hwithin : ∀ p ∈ patterns, ∀ m ∈ findIter p content.toList, m.1 ≤ m.2 ∧ m.2 ≤ content.toList.length)
    (hredact : ∃ m ∈ (scanWith findIter (withPatterns patterns) content).leaks, m.action = .redact) :
    ∃ ranges pieces, redactRanges findIter (withPatterns patterns) content = ranges ∧
      trace content.toList.length 0 ranges = pieces ∧
      (scanWith findIter (withPatterns patterns) content).redactedContent =
        some (String.ofList (render content.toList pieces)) ∧
      (∀ i, Covered ranges i ↔ ∃ m ∈ (scanWith findIter (withPatterns patterns) content).leaks,
        m.action = .redact ∧ m.location.1 ≤ i ∧ i < m.location.2) ∧
      (pieces = expected content.toList.length ranges ↔ NeverFallsBack ranges) := by
  refine ⟨_, _, rfl, rfl, ?_, fun i => ?_, ?_⟩
  · obtain ⟨m, hm, haction⟩ := hredact
    have hmem : m.location ∈ redactRanges findIter (withPatterns patterns) content :=
      mem_redactRanges.mpr ⟨m, hm, haction, rfl⟩
    have hne : (redactRanges findIter (withPatterns patterns) content).isEmpty = false :=
      List.isEmpty_eq_false_iff.mpr (List.ne_nil_of_mem hmem)
    unfold scanWith
    dsimp only
    rw [hne, if_neg Bool.false_ne_true, applyRedactions_eq_render]
  · constructor
    · rintro ⟨r, hr, hcover⟩
      obtain ⟨m, hm, haction, rfl⟩ := mem_redactRanges.mp hr
      exact ⟨m, hm, haction, hcover⟩
    · rintro ⟨m, hm, haction, hcover⟩
      exact ⟨m.location, mem_redactRanges.mpr ⟨m, hm, haction, rfl⟩, hcover⟩
  · refine trace_eq_expected_iff sorted_redactRanges fun r hr => ?_
    obtain ⟨m, hm, -, rfl⟩ := mem_redactRanges.mp hr
    obtain ⟨p, hp, hfound⟩ := found_of_leak hm
    exact hwithin p hp _ hfound

/-! ## One match inside another -/

def noWords : Char → Bool := fun _ => false

/-- The regexes of these patterns, as they are parsed. -/
def parsed (p : LeakPattern) (text : List Char) : List (Nat × Nat) := p.regex.findIter noWords text

/-- A token, and the part of it that is a number. -/
def tokenAndNumber : List LeakPattern :=
  [⟨"token", "tok_[a-z0-9]+", .high, .redact⟩, ⟨"number", "[0-9]+", .medium, .redact⟩]

theorem token_is_redacted : ∃ ranges pieces,
    redactRanges parsed (withPatterns tokenAndNumber) "a tok_abc 12 z" = ranges ∧
    trace "a tok_abc 12 z".toList.length 0 ranges = pieces ∧
    (scanWith parsed (withPatterns tokenAndNumber) "a tok_abc 12 z").redactedContent =
      some (String.ofList (render "a tok_abc 12 z".toList pieces)) ∧
    (∀ i, Covered ranges i ↔ ∃ m ∈ (scanWith parsed (withPatterns tokenAndNumber) "a tok_abc 12 z").leaks,
      m.action = .redact ∧ m.location.1 ≤ i ∧ i < m.location.2) ∧
    (pieces = expected "a tok_abc 12 z".toList.length ranges ↔ NeverFallsBack ranges) := by
  refine redaction_leaves_nothing parsed tokenAndNumber "a tok_abc 12 z" ?_ ?_
  · decide +kernel
  · decide +kernel

/-- A number in the middle of a token: the end of the token is put out again. -/
theorem token_survives :
    (scan noWords (withPatterns tokenAndNumber) "tok_12secret").redactedContent = some "[REDACTED][REDACTED]secret" ∧
      ((scan noWords (withPatterns tokenAndNumber) "tok_12secret").leaks.map fun m => (m.action, m.location)) =
        [(.redact, (0, 12)), (.redact, (4, 6))] := by
  decide +kernel

end Freeclawdia.LeakDetector
