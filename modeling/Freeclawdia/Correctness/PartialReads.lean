import Freeclawdia.Correctness.PathSandbox

/-!
# `Correctness.PartialReads` — which lines of a file are shown

The lines asked for are shown, each under its own number, but a read that starts behind the line after the last one
panics, and so does one whose last line number is out of the machine's range.
-/

namespace Freeclawdia.ReadFileTool

open Rust

/-! ## Numbered entries -/

section Numbered

variable {α : Type}

/-- The entries with numbers from `lo` to before `hi`, when the first one has number `n`. -/
theorem filter_zipIdx (l : List α) (n lo hi : Nat) : (l.zipIdx n).filter (fun p => decide (lo ≤ p.2 ∧ p.2 < hi)) =
      ((l.drop (lo - n)).take (hi - max lo n)).zipIdx (max lo n) := by
  induction l generalizing n with
  | nil => simp
  | cons a l ih =>
    rw [List.zipIdx_cons]
    rcases Nat.lt_or_ge n lo with hn | hn
    · rw [List.filter_cons_of_neg (by simpa using fun h => absurd h (Nat.not_le.mpr hn)), ih,
        show lo - n = lo - (n + 1) + 1 by omega, List.drop_succ_cons, Nat.max_eq_left hn.le, Nat.max_eq_left hn]
    · have hskip : lo - n = 0 := Nat.sub_eq_zero_of_le hn
      have hskip' : lo - (n + 1) = 0 := Nat.sub_eq_zero_of_le (Nat.le_succ_of_le hn)
      rw [hskip, Nat.max_eq_right hn, List.drop_zero]
      rcases Nat.lt_or_ge n hi with hlt | hge
      · rw [List.filter_cons_of_pos (by simpa using ⟨hn, hlt⟩), ih, hskip', Nat.max_eq_right (Nat.le_succ_of_le hn),
          List.drop_zero, show hi - n = hi - (n + 1) + 1 by omega, List.take_succ_cons, List.zipIdx_cons]
      · rw [List.filter_cons_of_neg (by simpa using fun _ => hge), ih, hskip', Nat.max_eq_right (Nat.le_succ_of_le hn),
          Nat.sub_eq_zero_of_le hge, Nat.sub_eq_zero_of_le (Nat.le_succ_of_le hge)]
        rfl

end Numbered

/-! ## What should hold -/

/-- Is the line with this number asked for? -/
def Asked (offset : Nat) (limit : Option Nat) (k : Nat) : Prop :=
  max offset 1 ≤ k ∧ ∀ lim, limit = some lim → k < max offset 1 + lim

instance (offset : Nat) (limit : Option Nat) : DecidablePred (Asked offset limit) := fun k =>
  match limit with
  | none => decidable_of_iff (max offset 1 ≤ k) ⟨fun h => ⟨h, nofun⟩, fun h => h.1⟩
  | some lim =>
    decidable_of_iff (max offset 1 ≤ k ∧ k < max offset 1 + lim)
      ⟨fun h => ⟨h.1, fun _ heq => Option.some.inj heq ▸ h.2⟩, fun h => ⟨h.1, h.2 lim rfl⟩⟩

/-- The lines asked for, each with its number. -/
def askedLines (offset : Nat) (limit : Option Nat) (content : String) : List (String × Nat) :=
  ((lines content).zipIdx 1).filter fun p => decide (Asked offset limit p.2)

/-- An output shows exactly the lines asked for. -/
structure ShowsAsked (offset : Nat) (limit : Option Nat) (path : Path) (content : String) (out : Json) : Prop where
  text : out.get "content" = some (.string (join "\n" ((askedLines offset limit content).map fun p => lineText p.2 p.1)))
  linesShown : out.get "lines_shown" = some (.number (.posInt (askedLines offset limit content).length))
  totalLines : out.get "total_lines" = some (.number (.posInt (lines content).length))
  path : out.get "path" = some (.string path.display)

/-- A read comes back, and when the file is read its output shows the lines asked for. -/
def ReadsAsked (overflowChecks : Bool) (os : Os) (files : FileReads) (baseDir : Option Path) (params : Json) : Prop :=
  ∃ r, execute overflowChecks os files baseDir params = some r ∧
    ∀ path content, readText os files baseDir params = .ok (path, content) →
      ∃ out, r = .ok out ∧ ShowsAsked (offsetOf params) (limitOf params) path content out

/-- The offset is at most one behind the last line, and the end of the range is in the machine's range. -/
def InRange (offset : Nat) (limit : Option Nat) (content : String) : Prop :=
  offset ≤ (lines content).length + 1 ∧ ∀ lim, limit = some lim → offset - 1 + lim < 2 ^ 64

/-! ## The range of lines -/

variable {lim : Nat}

theorem limitOf_lt {params : Json} (h : limitOf params = some lim) : lim < 2 ^ 64 := by
  obtain ⟨value, -, hvalue⟩ := Option.bind_eq_some_iff.mp h
  exact Json.asU64_lt hvalue

variable {stop : Nat}

theorem sliceLines_eq_some_iff {l selected : List String} {start : Nat} : sliceLines l start stop = some selected ↔
      (start ≤ stop ∧ stop ≤ l.length) ∧ selected = (l.drop start).take (stop - start) := by
  unfold sliceLines
  split
  next h => exact ⟨fun heq => ⟨h, (Option.some.inj heq).symm⟩, fun heq => by rw [heq.2]⟩
  next h => exact ⟨nofun, fun heq => absurd heq.1 h⟩

/-- Where the range ends. -/
def stopOf (offset total : Nat) : (limit : Option Nat) → Nat
  | some lim => min (offset - 1 + lim) total
  | none => total

theorem stopOf_le (offset total : Nat) (limit : Option Nat) : stopOf offset total limit ≤ total := by
  cases limit with
  | some lim => exact Nat.min_le_right _ _
  | none => exact Nat.le_refl _

variable {offset total : Nat} {limit : Option Nat}

theorem le_stopOf (h : offset ≤ total + 1) : offset - 1 ≤ stopOf offset total limit := by
  cases limit with
  | some lim => exact Nat.le_min.mpr ⟨Nat.le_add_right _ _, Nat.sub_le_of_le_add h⟩
  | none => exact Nat.sub_le_of_le_add h

/-- The lines of the range are the lines asked for. -/
theorem slice_eq_asked (offset : Nat) (limit : Option Nat) (content : String) :
    (((lines content).drop (offset - 1)).take (stopOf offset (lines content).length limit - (offset - 1))).zipIdx
      (offset - 1 + 1) = askedLines offset limit content := by
  have hstart : max offset 1 = offset - 1 + 1 := by omega
  unfold askedLines
  cases limit with
  | some lim =>
    have hasked : (fun p : String × Nat => decide (Asked offset (some lim) p.2)) =
        fun p => decide (max offset 1 ≤ p.2 ∧ p.2 < max offset 1 + lim) := by
      funext p
      exact decide_eq_decide.mpr ⟨fun h => ⟨h.1, h.2 lim rfl⟩, fun h => ⟨h.1, fun _ heq => Option.some.inj heq ▸ h.2⟩⟩
    rw [hasked, filter_zipIdx, max_eq_left (le_max_right offset 1), hstart]
    congr 1
    rw [Nat.add_sub_cancel, List.take_eq_take_iff, List.length_drop]
    show min (min (offset - 1 + lim) _ - _) _ = _
    omega
  | none =>
    have hasked : ((lines content).zipIdx 1).filter (fun p => decide (Asked offset none p.2)) =
        ((lines content).zipIdx 1).filter
          (fun p => decide (max offset 1 ≤ p.2 ∧ p.2 < max offset 1 + (lines content).length)) := by
      refine List.filter_congr fun p hp => decide_eq_decide.mpr ⟨fun h => ⟨h.1, ?_⟩, fun h => ⟨h.1, nofun⟩⟩
      have hlt := List.snd_lt_add_of_mem_zipIdx hp
      omega
    rw [hasked, filter_zipIdx, max_eq_left (le_max_right offset 1), hstart]
    congr 1
    rw [Nat.add_sub_cancel, List.take_eq_take_iff, List.length_drop]
    show min ((lines content).length - _) _ = _
    omega

/-- The output for a range of lines. -/
def outputOf (offset : Nat) (limit : Option Nat) (path : Path) (content : String) : Json :=
  .object
    [("content", .string (join "\n" ((askedLines offset limit content).map fun p => lineText p.2 p.1))),
     ("total_lines", .number (.posInt (lines content).length)),
     ("lines_shown", .number (.posInt (askedLines offset limit content).length)),
     ("path", .string path.display)]

theorem outputOf_showsAsked (offset : Nat) (limit : Option Nat) (path : Path) (content : String) :
    ShowsAsked offset limit path content (outputOf offset limit path content) := ⟨rfl, rfl, rfl, rfl⟩

theorem startLine_eq (offset : Nat) : (if 0 < offset then offset - 1 else 0) = offset - 1 := by
  split
  · rfl
  next h => rw [Nat.eq_zero_of_not_pos h]

variable {overflowChecks : Bool}

theorem endLineOf_of_lt (h : ∀ lim, limit = some lim → offset - 1 + lim < 2 ^ 64) :
    endLineOf overflowChecks (offset - 1) total limit = some (stopOf offset total limit) := by
  cases limit with
  | none => rfl
  | some lim =>
    show (addUsize overflowChecks (offset - 1) lim).map _ = _
    unfold addUsize
    rw [if_pos (h lim rfl)]
    rfl

/-- The number of a last line that wraps around is before the first. -/
theorem lt_of_endLineOf (hlim : lim < 2 ^ 64) (hover : ¬offset - 1 + lim < 2 ^ 64)
    (h : endLineOf overflowChecks (offset - 1) total (some lim) = some stop) (hoffset : offset < 2 ^ 64) :
    stop < offset - 1 := by
  obtain ⟨sum, hsum, rfl⟩ := Option.map_eq_some_iff.mp h
  unfold addUsize at hsum
  rw [if_neg hover] at hsum
  split at hsum
  · cases hsum
  · cases hsum
    have hmod : (offset - 1 + lim) % 2 ^ 64 = offset - 1 + lim - 2 ^ 64 := by
      rw [Nat.mod_eq_sub_mod (Nat.not_lt.mp hover), Nat.mod_eq_of_lt (by omega)]
    rw [hmod]
    omega

variable {path : Path} {content : String}

/-- A range that is in range is shown. -/
theorem showLines_of_inRange (h : InRange offset limit content) :
    showLines overflowChecks offset limit path content = some (outputOf offset limit path content) := by
  obtain ⟨hoffset, hlimit⟩ := h
  have hstop : offset - 1 ≤ stopOf offset (lines content).length limit := le_stopOf hoffset
  have hslice := sliceLines_eq_some_iff.mpr ⟨⟨hstop, stopOf_le offset (lines content).length limit⟩, rfl⟩
  have hasked := slice_eq_asked offset limit content
  have hlength : stopOf offset (lines content).length limit - (offset - 1) = (askedLines offset limit content).length := by
    have hle := stopOf_le offset (lines content).length limit
    rw [← hasked, List.length_zipIdx, List.length_take, List.length_drop]
    omega
  unfold showLines
  simp only [startLine_eq, endLineOf_of_lt hlimit, Option.bind_eq_bind, Option.bind_some, hslice]
  unfold outputOf
  have hnumbers : (fun p : String × Nat => lineText (offset - 1 + p.2 + 1) p.1) =
      (fun p => lineText p.2 p.1) ∘ fun p => (p.1, offset - 1 + 1 + p.2) := by
    funext p
    exact congrArg (lineText · p.1) (Nat.add_right_comm _ _ _)
  have hfrom (l : List String) : l.zipIdx (offset - 1 + 1) = l.zipIdx.map fun p => (p.1, offset - 1 + 1 + p.2) :=
    List.zipIdx_eq_map_add
  rw [← hlength, ← hasked, hfrom, List.map_map, hnumbers]
  rfl

/-- What is shown was in range. -/
theorem inRange_of_showLines {out : Json} (hoffset : offset < 2 ^ 64) (hlimit : ∀ lim, limit = some lim → lim < 2 ^ 64)
    (h : showLines overflowChecks offset limit path content = some out) : InRange offset limit content := by
  unfold showLines at h
  simp only [startLine_eq, Option.bind_eq_bind] at h
  obtain ⟨stop, hstop, h⟩ := Option.bind_eq_some_iff.mp h
  obtain ⟨selected, hselected, -⟩ := Option.bind_eq_some_iff.mp h
  obtain ⟨⟨hle, hend⟩, -⟩ := sliceLines_eq_some_iff.mp hselected
  refine ⟨Nat.le_add_of_sub_le (hle.trans hend), fun lim hlim => ?_⟩
  subst hlim
  by_contra hover
  exact absurd hle (Nat.not_le.mpr (lt_of_endLineOf (hlimit lim rfl) hover hstop hoffset))

theorem offsetOf_lt (params : Json) : offsetOf params < 2 ^ 64 := by
  unfold offsetOf
  cases h : (params.get "offset").bind Json.asU64 with
  | none => exact Nat.two_pow_pos 64
  | some n =>
    obtain ⟨value, -, hvalue⟩ := Option.bind_eq_some_iff.mp h
    exact Json.asU64_lt hvalue

/-- **A read shows exactly the lines asked for, or the whole task panics**: the first exactly when the range is in
    range. -/
theorem read_shows_asked_iff (overflowChecks : Bool) (os : Os) (files : FileReads) (baseDir : Option Path)
    (params : Json) :
    ReadsAsked overflowChecks os files baseDir params ↔
      ∀ path content, readText os files baseDir params = .ok (path, content) →
        InRange (offsetOf params) (limitOf params) content := by
  unfold ReadsAsked execute
  cases hread : readText os files baseDir params with
  | error e => exact ⟨fun _ => nofun, fun _ => ⟨.error e, rfl, nofun⟩⟩
  | ok file =>
    obtain ⟨path, content⟩ := file
    constructor
    · rintro ⟨r, hr, -⟩ path' content' heq
      cases heq
      obtain ⟨out, hout, -⟩ := Option.map_eq_some_iff.mp hr
      exact inRange_of_showLines (offsetOf_lt params) (fun _ hlim => limitOf_lt hlim) hout
    · intro h
      refine ⟨.ok (outputOf (offsetOf params) (limitOf params) path content), ?_, ?_⟩
      · show (showLines overflowChecks _ _ path content).map _ = _
        rw [showLines_of_inRange (h path content rfl)]
        rfl
      · rintro path' content' heq
        cases heq
        exact ⟨_, rfl, outputOf_showsAsked _ _ path content⟩

/-! ## A file of one line -/

def oneLine : FileReads := ⟨fun _ => .ok 2, fun _ => .ok "a\n"⟩

/-- The third line of one, and all from the second. -/
theorem read_panics :
    ¬ReadsAsked false PathSandbox.linkOs oneLine none
        (.object [("path", .string "/base/notes"), ("offset", .number (.posInt 3))]) ∧
      ¬ReadsAsked false PathSandbox.linkOs oneLine none
        (.object [("path", .string "/base/notes"), ("offset", .number (.posInt 2)),
          ("limit", .number (.posInt (2 ^ 64 - 1)))]) := by
  have hnone : ∀ {params : Json}, (execute false PathSandbox.linkOs oneLine none params).isNone = true →
      ¬ReadsAsked false PathSandbox.linkOs oneLine none params := by
    rintro params h ⟨r, hr, -⟩
    rw [hr] at h
    cases h
  exact ⟨hnone (by decide), hnone (by decide)⟩

end Freeclawdia.ReadFileTool
