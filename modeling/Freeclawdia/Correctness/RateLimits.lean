import Freeclawdia.Lib.Window
import Freeclawdia.Tools.RateLimiter

/-!
# `Correctness.RateLimits` — what the rate limiter admits over whole runs

The two windows of a pair are counters of `Lib.Window`: along any sequence of calls with a monotone clock,
each keeps the ledger of the requests admitted for the pair, whichever window refuses and whatever other pairs
do in between. The bound over every short interval is then the ledger's.

A preview (`check`) counts no request, but it is not without effect: it runs the same resets, so it **starts**
a window that is missing or has expired, and a window started earlier also ends earlier.
-/

namespace Freeclawdia.RateLimits

open Window

/-! ## One call, seen from a pair -/

/-- Does the call record the request it allows? -/
def records (c : RateCall) : Bool := decide (c.method = .checkAndRecord)

theorem call_eq (l : RateLimiter) (c : RateCall) :
    l.call c = l.checkInternal c.userId c.toolName c.config (records c) c.clk := by
  unfold RateLimiter.call records
  cases c.method with
  | check => rfl
  | checkAndRecord => rfl

theorem call_answer (l : RateLimiter) (c : RateCall) :
    (l.call c).1 = ((l.entry c.pair c.clk).decideOn c.config (records c) c.clk).1 := by
  rw [call_eq]
  rfl

theorem call_lookup_self (l : RateLimiter) (c : RateCall) : (l.call c).2.state.lookup c.pair =
      some ((l.entry c.pair c.clk).decideOn c.config (records c) c.clk).2 := by
  rw [call_eq]
  exact AList.lookup_insert _

variable {c : RateCall} {p : String × String}

theorem call_lookup_ne (l : RateLimiter) (hp : p ≠ c.pair) : (l.call c).2.state.lookup p = l.state.lookup p := by
  rw [call_eq]
  exact AList.lookup_insert_ne hp

variable {config : ToolRateLimitConfig} {s : ToolRateLimitState}

/-- An allowed request found both counts below their limits. -/
theorem exceeded_eq_none_iff : s.exceeded config = none ↔
      s.minuteWindow.count < config.requestsPerMinute ∧ s.hourWindow.count < config.requestsPerHour := by
  unfold ToolRateLimitState.exceeded
  by_cases hm : config.requestsPerMinute ≤ s.minuteWindow.count
  · simp [hm, UInt32.not_lt.mpr hm]
  · by_cases hh : config.requestsPerHour ≤ s.hourWindow.count
    · simp [hm, hh, UInt32.not_lt.mpr hh]
    · simp [hm, hh, UInt32.not_le.mp hm, UInt32.not_le.mp hh]

/-- **One decision**: the request is refused and the state stays, or it is allowed below both limits and
    counted if it is recorded. -/
theorem decideOn_cases (s : ToolRateLimitState) (config : ToolRateLimitConfig) (record : Bool) (clk : Reads) :
    ((s.decideOn config record clk).1.isAllowed = false ∧ (s.decideOn config record clk).2 = s) ∨
    (s.minuteWindow.count < config.requestsPerMinute ∧ s.hourWindow.count < config.requestsPerHour ∧
      s.decideOn config record clk = (.allowed (config.requestsPerMinute - (s.count record).minuteWindow.count)
          (config.requestsPerHour - (s.count record).hourWindow.count), s.count record)) := by
  unfold ToolRateLimitState.decideOn
  cases h : s.exceeded config with
  | none =>
    obtain ⟨hm, hh⟩ := exceeded_eq_none_iff.mp h
    exact Or.inr ⟨hm, hh, rfl⟩
  | some t =>
    left
    cases t with
    | perMinute => exact ⟨rfl, rfl⟩
    | perHour => exact ⟨rfl, rfl⟩

/-- A decision that records nothing changes nothing. -/
theorem decideOn_preview (s : ToolRateLimitState) (config : ToolRateLimitConfig) (clk : Reads) :
    (s.decideOn config false clk).2 = s := by
  rcases decideOn_cases s config false clk with ⟨_, h⟩ | ⟨_, _, h⟩
  · exact h
  · rw [h]
    rfl

/-! ## The arithmetic of `u32` -/

/-- Below a limit the count can be incremented. -/
theorem increment_toNat {w : WindowState} {limit : UInt32} (h : w.count < limit) :
    w.increment.count.toNat = w.count.toNat + 1 := by
  have hlt : w.count.toNat < limit.toNat := UInt32.lt_iff_toNat_lt.mp h
  have hlim := limit.toNat_lt
  show (w.count + 1).toNat = w.count.toNat + 1
  rw [UInt32.toNat_add]
  have hone : (1 : UInt32).toNat = 1 := rfl
  rw [hone]
  omega

/-- Whether or not the request is counted, the counts stay within the limits they were below. -/
theorem count_le (record : Bool) (hm : s.minuteWindow.count < config.requestsPerMinute)
    (hh : s.hourWindow.count < config.requestsPerHour) :
    (s.count record).minuteWindow.count ≤ config.requestsPerMinute ∧
      (s.count record).hourWindow.count ≤ config.requestsPerHour := by
  have hm' := UInt32.lt_iff_toNat_lt.mp hm
  have hh' := UInt32.lt_iff_toNat_lt.mp hh
  cases record with
  | false => exact ⟨UInt32.le_of_lt hm, UInt32.le_of_lt hh⟩
  | true =>
    constructor
    · apply UInt32.le_iff_toNat_le.mpr
      show s.minuteWindow.increment.count.toNat ≤ _
      rw [increment_toNat hm]
      omega
    · apply UInt32.le_iff_toNat_le.mpr
      show s.hourWindow.increment.count.toNat ≤ _
      rw [increment_toNat hh]
      omega

/-! ## The ledgers of a pair -/

/-- The window keeps the ledger of the admissions `ts`. -/
def Keeps (windowDuration : Nanos) (limit : UInt32) (now : Instant) (w : WindowState) (ts : List Instant) : Prop :=
  Ledger windowDuration limit.toNat now w.windowStart w.count.toNat ts

variable {d : Nanos} {limit : UInt32} {now : Instant} {w : WindowState} {ts : List Instant}

theorem keeps_new (d : Nanos) (limit : UInt32) (now : Instant) : Keeps d limit now (.new now) [] :=
  Ledger.fresh d limit.toNat now

theorem keeps_maybeReset {e n : Instant} (h : Keeps d limit now w ts) (he : now ≤ e) (hn : e ≤ n) :
    Keeps d limit n (w.maybeReset d e n) ts := by
  unfold WindowState.maybeReset
  split
  · next hexp =>
      -- the elapsed time is taken from the window's start, which is not after this reading
      have hexpired : w.windowStart + d ≤ n := by
        have hstart : w.windowStart ≤ e := le_trans h.started he
        have hsum : w.windowStart + d ≤ e := Nat.add_le_of_le_sub' hstart hexp
        exact le_trans hsum hn
      exact Ledger.reset h (le_trans he hn) hexpired
  · exact Ledger.advance h (le_trans he hn)

theorem keeps_increment {t : Instant} (h : Keeps d limit now w ts) (ht : now ≤ t) (hroom : w.count < limit) :
    Keeps d limit t w.increment (ts ++ [t]) := by
  unfold Keeps
  rw [increment_toNat hroom]
  exact Ledger.admitOne h ht (UInt32.lt_iff_toNat_lt.mp hroom)

/-- Both windows of a pair keep the ledger of the pair's admissions. -/
structure PairLedger (config : ToolRateLimitConfig) (now : Instant) (s : ToolRateLimitState)
    (ts : List Instant) : Prop where
  minute : Keeps (.fromSecs MINUTE_SECS) config.requestsPerMinute now s.minuteWindow ts
  hour : Keeps (.fromSecs HOUR_SECS) config.requestsPerHour now s.hourWindow ts

/-- The same of what the limiter has for the pair: no entry, no admission. -/
def EntryLedger (config : ToolRateLimitConfig) (now : Instant) (ts : List Instant) :
    Option ToolRateLimitState → Prop
  | none => ts = []
  | some s => PairLedger config now s ts

variable {l : RateLimiter}

/-- The state a call decides on keeps the ledger too: new windows, restarted windows and windows that go on. -/
theorem entry_ledger {clk : Reads} (h : EntryLedger config now ts (l.state.lookup p)) (hnow : now ≤ clk.minuteNew) :
    PairLedger config clk.answered (l.entry p clk) ts := by
  have hsorted := clk.sorted
  simp only [List.pairwise_cons, List.mem_cons, List.not_mem_nil, or_false, forall_eq_or_imp, forall_eq] at hsorted
  obtain ⟨hmn, hhn, hme, hmo, hhe, hho, -⟩ := hsorted
  unfold RateLimiter.entry ToolRateLimitState.resetExpired
  cases ho : l.state.lookup p with
  | none =>
    rw [ho] at h
    have hts : ts = [] := h
    subst hts
    exact ⟨Ledger.advance (keeps_maybeReset (keeps_new _ _ clk.minuteNew) hmn.2.1 hme.1) hmo.2.2,
      Ledger.advance (keeps_maybeReset (keeps_new _ _ clk.hourNew) hhn.2.2.1 hhe.1) hho⟩
  | some s =>
    rw [ho] at h
    have hs : PairLedger config now s ts := h
    exact ⟨Ledger.advance (keeps_maybeReset hs.minute (le_trans hnow hmn.2.1) hme.1) hmo.2.2,
      Ledger.advance (keeps_maybeReset hs.hour (le_trans hnow hmn.2.2.2.1) hhe.1) hho⟩

/-- What a decision adds to the ledger. -/
def granted (c : RateCall) (r : RateLimitResult) : List Instant :=
  if records c && r.isAllowed then [c.clk.answered] else []

theorem decideOn_ledger (h : PairLedger c.config c.clk.answered s ts) :
    PairLedger c.config c.clk.answered (s.decideOn c.config (records c) c.clk).2
      (ts ++ granted c (s.decideOn c.config (records c) c.clk).1) := by
  rcases decideOn_cases s c.config (records c) c.clk with ⟨hno, hs⟩ | ⟨hm, hh, hyes⟩
  · rw [hs]
    simpa [granted, hno] using h
  · rw [hyes]
    cases hrec : records c with
    | false => simpa [granted, hrec, ToolRateLimitState.count] using h
    | true =>
      have hgrant : granted c (.allowed (c.config.requestsPerMinute - (s.count true).minuteWindow.count)
          (c.config.requestsPerHour - (s.count true).hourWindow.count)) = [c.clk.answered] := by
        simp [granted, hrec, RateLimitResult.isAllowed]
      rw [hgrant]
      exact ⟨keeps_increment h.minute le_rfl hm, keeps_increment h.hour le_rfl hh⟩

/-! ## Runs -/

/-- The clock is monotone along the calls: a call reads it after the earlier calls did. -/
def Clocked (cs : List RateCall) : Prop := cs.Pairwise fun c d => c.clk.answered ≤ d.clk.minuteNew

/-- The moments at which requests were admitted for a pair: the recorded calls that were allowed. -/
def admissions (p : String × String) (log : List (RateCall × RateLimitResult)) : List Instant :=
  (log.filter fun e => decide (e.1.pair = p) && (records e.1 && e.2.isAllowed)).map fun e => e.1.clk.answered

theorem admissions_cons_self (hp : c.pair = p) (r : RateLimitResult) (log : List (RateCall × RateLimitResult)) :
    admissions p ((c, r) :: log) = granted c r ++ admissions p log := by
  unfold admissions granted
  by_cases h : (records c && r.isAllowed) = true
  · simp [hp, h]
  · simp [hp, h]

theorem admissions_cons_ne (hp : c.pair ≠ p) (r : RateLimitResult) (log : List (RateCall × RateLimitResult)) :
    admissions p ((c, r) :: log) = admissions p log := by
  simp [admissions, hp]

variable {cs : List RateCall}

/-- **The run lemma.** The ledger of a pair, kept call by call with the pair's admissions appended. -/
theorem answers_ledger {config : String → ToolRateLimitConfig} :
    ∀ {l : RateLimiter} {now : Instant} {ts : List Instant},
      EntryLedger (config p.2) now ts (l.state.lookup p) → (∀ c ∈ cs, now ≤ c.clk.minuteNew) → Clocked cs →
      (∀ c ∈ cs, c.config = config c.toolName) →
      ∃ now' o, EntryLedger (config p.2) now' (ts ++ admissions p (l.answers cs)) o := by
  induction cs with
  | nil =>
    intro l now ts h _ _ _
    refine ⟨now, l.state.lookup p, ?_⟩
    simpa [RateLimiter.answers, admissions] using h
  | cons c cs ih =>
    intro l now ts h hnow hclock hconfig
    obtain ⟨hc, hcs⟩ := List.pairwise_cons.mp hclock
    have hconfig' : ∀ d ∈ cs, d.config = config d.toolName :=
      fun d hd => hconfig d (List.mem_cons_of_mem c hd)
    by_cases hp : c.pair = p
    · -- a call for the pair: its entry's ledger, with what this call adds
      have hcc : c.config = config p.2 := by
        rw [hconfig c List.mem_cons_self, ← hp]
        rfl
      have hentry := entry_ledger h (hnow c List.mem_cons_self)
      rw [← hcc, ← hp] at hentry
      have hnext : EntryLedger (config p.2) c.clk.answered (ts ++ granted c (l.call c).1)
          ((l.call c).2.state.lookup p) := by
        rw [← hp, call_lookup_self, call_answer, hp, ← hcc, ← hp]
        exact decideOn_ledger hentry
      obtain ⟨now', o, hend⟩ := ih hnext hc hcs hconfig'
      refine ⟨now', o, ?_⟩
      show EntryLedger _ _ (ts ++ admissions p ((c, (l.call c).1) :: (l.call c).2.answers cs)) o
      rw [admissions_cons_self hp, ← List.append_assoc]
      exact hend
    · -- a call for another pair: the entry is as it was
      have hnext : EntryLedger (config p.2) now ts ((l.call c).2.state.lookup p) := by
        rw [call_lookup_ne l (Ne.symm hp)]
        exact h
      obtain ⟨now', o, hend⟩ := ih hnext (fun d hd => hnow d (List.mem_cons_of_mem c hd)) hcs hconfig'
      refine ⟨now', o, ?_⟩
      show EntryLedger _ _ (ts ++ admissions p ((c, (l.call c).1) :: (l.call c).2.answers cs)) o
      rw [admissions_cons_ne hp]
      exact hend

/-- The ledger of a pair bounds its admissions over short intervals, by the minute's limit and by the hour's. -/
theorem EntryLedger.bounded {o : Option ToolRateLimitState} (h : EntryLedger config now ts o) (a b : Instant) :
    (b < a + Nanos.fromSecs MINUTE_SECS → within a b ts ≤ 2 * config.requestsPerMinute.toNat) ∧
    (b < a + Nanos.fromSecs HOUR_SECS → within a b ts ≤ 2 * config.requestsPerHour.toNat) := by
  cases o with
  | none =>
    have hts : ts = [] := h
    simp [hts, within]
  | some s =>
    have hs : PairLedger config now s ts := h
    exact ⟨hs.minute.bounded a b, hs.hour.bounded a b⟩

/-! ## Pairs do not meet -/

theorem entry_congr {l' : RateLimiter} (h : l.state.lookup p = l'.state.lookup p) (clk : Reads) :
    l.entry p clk = l'.entry p clk := by
  unfold RateLimiter.entry
  rw [h]

/-- What a call answers and leaves for its pair depends on the pair's entry alone. -/
theorem call_congr {l' : RateLimiter} (h : l.state.lookup c.pair = l'.state.lookup c.pair) :
    (l.call c).1 = (l'.call c).1 ∧ (l.call c).2.state.lookup c.pair = (l'.call c).2.state.lookup c.pair := by
  constructor
  · rw [call_answer, call_answer, entry_congr h]
  · rw [call_lookup_self, call_lookup_self, entry_congr h]

/-- The answers for a pair are those of the run that has only the pair's calls. -/
theorem answers_filter : ∀ {l l' : RateLimiter}, l.state.lookup p = l'.state.lookup p →
      (l.answers cs).filter (fun e => decide (e.1.pair = p)) = l'.answers (cs.filter fun c => decide (c.pair = p)) := by
  induction cs with
  | nil => exact fun _ => rfl
  | cons c cs ih =>
    intro l l' h
    by_cases hp : c.pair = p
    · rw [← hp] at h
      obtain ⟨hans, hnext⟩ := call_congr h
      rw [hp] at hnext
      simp only [RateLimiter.answers, List.filter_cons, hp, decide_true, if_true, hans]
      rw [ih hnext]
    · have hnext : (l.call c).2.state.lookup p = l'.state.lookup p := by
        rw [call_lookup_ne l (Ne.symm hp)]
        exact h
      simp only [RateLimiter.answers, List.filter_cons, hp, decide_false, Bool.false_eq_true, if_false]
      exact ih hnext

/-- Limiters with the same entries answer every sequence of calls alike. -/
theorem answers_congr :
    ∀ {l l' : RateLimiter}, (∀ p, l.state.lookup p = l'.state.lookup p) → l.answers cs = l'.answers cs := by
  induction cs with
  | nil => exact fun _ => rfl
  | cons c cs ih =>
    intro l l' h
    obtain ⟨hans, hnext⟩ := call_congr (h c.pair)
    have hrest : ∀ p, (l.call c).2.state.lookup p = (l'.call c).2.state.lookup p := by
      intro p
      by_cases hp : p = c.pair
      · rw [hp]
        exact hnext
      · rw [call_lookup_ne l hp, call_lookup_ne l' hp]
        exact h p
    simp only [RateLimiter.answers, hans]
    rw [ih hrest]

/-! ## Previews -/

/-- The pair of the call has both windows, and neither has expired when the call looks at it. -/
def Live (l : RateLimiter) (c : RateCall) : Prop :=
  ∃ s, l.state.lookup c.pair = some s ∧
    ¬ s.minuteWindow.expired (Nanos.fromSecs MINUTE_SECS) c.clk.minuteElapsed ∧
    ¬ s.hourWindow.expired (Nanos.fromSecs HOUR_SECS) c.clk.hourElapsed

/-- A preview leaves the entry it decided on: windows started, nothing counted. -/
theorem call_check_lookup (l : RateLimiter) (hc : c.method = .check) (p : String × String) :
    (l.call c).2.state.lookup p = if p = c.pair then some (l.entry p c.clk) else l.state.lookup p := by
  by_cases hp : p = c.pair
  · have hrec : records c = false := by simp [records, hc]
    rw [if_pos hp, hp, call_lookup_self, hrec, decideOn_preview]
  · rw [if_neg hp, call_lookup_ne l hp]

theorem entry_of_live (h : Live l c) : l.state.lookup c.pair = some (l.entry c.pair c.clk) := by
  obtain ⟨s, hs, hm, hh⟩ := h
  simp [RateLimiter.entry, ToolRateLimitState.resetExpired, WindowState.maybeReset, hs, hm, hh]

theorem answers_after_live_check (hc : c.method = .check) (h : Live l c) (cs : List RateCall) :
    (l.call c).2.answers cs = l.answers cs := by
  apply answers_congr
  intro p
  rw [call_check_lookup l hc]
  by_cases hp : p = c.pair
  · rw [if_pos hp, hp]
    exact (entry_of_live h).symm
  · rw [if_neg hp]

/-! ## The remaining requests -/

/-- The `u32` subtractions of an allowed answer are exact. -/
theorem remaining_exact {rm rh : UInt32} (h : (l.call c).1 = .allowed rm rh) :
    ∃ s, (l.call c).2.state.lookup c.pair = some s ∧
      s.minuteWindow.count.toNat + rm.toNat = c.config.requestsPerMinute.toNat ∧
      s.hourWindow.count.toNat + rh.toNat = c.config.requestsPerHour.toNat := by
  refine ⟨_, call_lookup_self l c, ?_⟩
  rw [call_answer] at h
  rcases decideOn_cases (l.entry c.pair c.clk) c.config (records c) c.clk with ⟨hno, _⟩ | ⟨hm, hh, hyes⟩
  · rw [h] at hno
    exact absurd hno (by simp [RateLimitResult.isAllowed])
  · rw [hyes] at h ⊢
    injection h with hrm hrh
    obtain ⟨hlm, hlh⟩ := count_le (records c) hm hh
    rw [← hrm, ← hrh, UInt32.toNat_sub_of_le _ _ hlm, UInt32.toNat_sub_of_le _ _ hlh]
    exact ⟨Nat.add_sub_of_le (UInt32.le_iff_toNat_le.mp hlm), Nat.add_sub_of_le (UInt32.le_iff_toNat_le.mp hlh)⟩

/-! ## The limiter over whole runs -/

/-- From a new limiter on, at most twice the limit is admitted for a pair in any interval shorter than the window. -/
theorem admissions_bounded {config : String → ToolRateLimitConfig} (hclock : Clocked cs)
    (hconfig : ∀ c ∈ cs, c.config = config c.toolName) (p : String × String) (a b : Instant) :
    (b < a + Nanos.fromSecs MINUTE_SECS → within a b (admissions p (RateLimiter.new.answers cs)) ≤
        2 * (config p.2).requestsPerMinute.toNat) ∧
      (b < a + Nanos.fromSecs HOUR_SECS → within a b (admissions p (RateLimiter.new.answers cs)) ≤
        2 * (config p.2).requestsPerHour.toNat) := by
  have hinit : EntryLedger (config p.2) 0 [] (RateLimiter.new.state.lookup p) := by
    have hnone : RateLimiter.new.state.lookup p = none := AList.lookup_empty p
    rw [hnone]
    rfl
  obtain ⟨now', o, hend⟩ := answers_ledger hinit (fun c _ => Nat.zero_le _) hclock hconfig
  exact hend.bounded a b

/-- **The rate limiter.** With a monotone clock and one configuration per tool, at most twice the limit is
    admitted for a pair in any interval shorter than the window, for both windows. The remaining requests are
    exact, whatever the configurations. A preview counts nothing and touches no other pair: it leaves the entry
    it decided on, and where both windows are open it changes no later answer. What a pair is answered does not
    depend on the calls for other pairs. -/
theorem admissions_bounded_and_isolated :
    (∀ (config : String → ToolRateLimitConfig) (cs : List RateCall), Clocked cs →
      (∀ c ∈ cs, c.config = config c.toolName) → ∀ (p : String × String) (a b : Instant),
        (b < a + Nanos.fromSecs MINUTE_SECS → within a b (admissions p (RateLimiter.new.answers cs)) ≤
          2 * (config p.2).requestsPerMinute.toNat) ∧
        (b < a + Nanos.fromSecs HOUR_SECS → within a b (admissions p (RateLimiter.new.answers cs)) ≤
          2 * (config p.2).requestsPerHour.toNat)) ∧
    (∀ (l : RateLimiter) (c : RateCall) (rm rh : UInt32), (l.call c).1 = .allowed rm rh →
      ∃ s, (l.call c).2.state.lookup c.pair = some s ∧
        s.minuteWindow.count.toNat + rm.toNat = c.config.requestsPerMinute.toNat ∧
        s.hourWindow.count.toNat + rh.toNat = c.config.requestsPerHour.toNat) ∧
    (∀ (l : RateLimiter) (c : RateCall), c.method = .check →
      (∀ p, (l.call c).2.state.lookup p = if p = c.pair then some (l.entry p c.clk) else l.state.lookup p) ∧
      (Live l c → ∀ cs, (l.call c).2.answers cs = l.answers cs)) ∧
    (∀ (l : RateLimiter) (cs : List RateCall) (p : String × String),
      (l.answers cs).filter (fun e => decide (e.1.pair = p)) =
        l.answers (cs.filter fun c => decide (c.pair = p))) := by
  refine ⟨?_, fun _ _ _ _ h => remaining_exact h, ?_, fun _ _ _ => answers_filter rfl⟩
  · intro config cs hclock hconfig p a b
    exact admissions_bounded hclock hconfig p a b
  · intro l c hc
    exact ⟨call_check_lookup l hc, fun h cs => answers_after_live_check hc h cs⟩

/-- A call of `user1` to the shell tool, `secs` seconds into the run, with one request a minute. -/
def shellCall (method : RateMethod) (secs : Nat) : RateCall :=
  ⟨method, "user1", "shell", ⟨1, 10⟩, .at (Nanos.fromSecs secs)⟩

/-- Two requests in two adjacent windows. -/
theorem admissions_bounded_across_windows :
    within (Nanos.fromSecs 59) (Nanos.fromSecs 60) (admissions ("user1", "shell")
      (RateLimiter.new.answers [shellCall .check 0, shellCall .checkAndRecord 59, shellCall .checkAndRecord 60])) ≤
      2 * 1 := by
  have hrun := admissions_bounded_and_isolated.1 (fun _ => ⟨1, 10⟩)
    [shellCall .check 0, shellCall .checkAndRecord 59, shellCall .checkAndRecord 60]
    (by simp [Clocked, shellCall, Reads.at, Nanos.fromSecs]) (by simp [shellCall])
    ("user1", "shell") (Nanos.fromSecs 59) (Nanos.fromSecs 60)
  exact hrun.1 (by decide)

/-- **A preview can change a later answer.** The preview at second 0 starts the minute; the request at second 59
    is then counted in a window that has run out at second 61. Without the preview the window starts with the
    request, and the second one is refused. -/
theorem check_changes_a_later_answer :
    ¬ ∀ (l : RateLimiter) (c : RateCall) (cs : List RateCall), c.method = .check → Clocked (c :: cs) →
        (l.call c).2.answers cs = l.answers cs := by
  intro h
  have hrun := h .new (shellCall .check 0) [shellCall .checkAndRecord 59, shellCall .checkAndRecord 61] rfl
    (by simp [Clocked, shellCall, Reads.at, Nanos.fromSecs])
  have hlast := congrArg (List.map fun e => e.2.isAllowed) hrun
  revert hlast
  decide

end Freeclawdia.RateLimits
