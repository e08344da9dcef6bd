import Freeclawdia.Lib.Runs
import Freeclawdia.Lib.Window
import Freeclawdia.Tools.Wasm.Host

/-!
# `Correctness.EmitLimits` — what a refused emission costs

Each window counts before the other one is asked, so an emission that only one of them refuses is counted by the other. As
long as the two refuse together, their counts are the emissions allowed since they started, and a refused call does nothing
but restart what has expired.
-/

namespace Freeclawdia.EmitLimits

open Window

/-- The emissions among `allowed` since a moment. -/
def since (start : Nat) (allowed : List Nat) : Nat := allowed.countP fun t => decide (start ≤ t)

/-- The limiter after some calls, with the time of the last one and the times of those that were allowed. -/
structure Emissions where
  limiter : ChannelEmitRateLimiter
  clock : Nat := 0
  allowed : List Nat := []

namespace Emissions

variable (s : Emissions)

/-- A call; the clock is monotone. -/
def call (now : Nat) : Option Emissions :=
  if s.clock ≤ now then
    let (ok, limiter) := s.limiter.checkAndRecord now
    some ⟨limiter, now, s.allowed ++ if ok then [now] else []⟩
  else none

/-- The limiter with its expired windows restarted. -/
def restarted (l : ChannelEmitRateLimiter) (now : Nat) : ChannelEmitRateLimiter :=
  { l with minuteWindow := l.minuteWindow.restarted now, hourWindow := l.hourWindow.restarted now }

/-- The windows agree on a call: both have room for it, or neither. -/
def Agreed (now : Nat) : Prop :=
  (s.limiter.minuteWindow.restarted now).count < s.limiter.config.messagesPerMinute ↔
    (s.limiter.hourWindow.restarted now).count < s.limiter.config.messagesPerHour

instance (s : Emissions) (now : Nat) : Decidable (s.Agreed now) := inferInstanceAs (Decidable (_ ↔ _))

/-- As many emissions were allowed since a window started as its limit lets through. -/
def Full (w : RateWindow) (now limit : Nat) : Prop := limit ≤ since (w.restarted now).windowStart s.allowed

/-- A refused call does nothing but restart what has expired. -/
def CostsNothing (now : Nat) : Prop :=
  (s.limiter.checkAndRecord now).1 = false → (s.limiter.checkAndRecord now).2 = restarted s.limiter now

/-! ## A window -/

/-- What a window knows of the emissions: it keeps their ledger, it has counted those since its start, and none came after
its end. -/
structure Keeps (limit now : Nat) (allowed : List Nat) (w : RateWindow) : Prop where
  ledger : Ledger (w.windowDurationMs + 1) limit now w.windowStart w.count allowed
  counted : w.count = since w.windowStart allowed
  current : ∀ t ∈ allowed, t ≤ w.windowStart + w.windowDurationMs

theorem keeps_new (limit durationMs : Nat) : Keeps limit 0 [] (.new durationMs) where
  ledger := Ledger.fresh _ limit 0
  counted := rfl
  current := by simp

variable {w : RateWindow} {limit clock now : Nat} {allowed : List Nat}

theorem Keeps.restarted (h : Keeps limit clock allowed w) (hnow : clock ≤ now) :
    Keeps limit now allowed (w.restarted now) := by
  unfold RateWindow.restarted
  split
  · next hexpired =>
      -- everything lies in the window that has run out
      refine ⟨h.ledger.reset hnow (by omega), (List.countP_eq_zero.mpr fun t ht => ?_).symm, fun t ht => ?_⟩
      · have := h.current t ht
        simp only [decide_eq_true_eq, not_le]
        omega
      · have := h.current t ht
        show t ≤ now + w.windowDurationMs
        omega
  · exact ⟨h.ledger.advance hnow, h.counted, h.current⟩

theorem not_expired (w : RateWindow) (now : Nat) : now ≤ (w.restarted now).windowStart + w.windowDurationMs := by
  unfold RateWindow.restarted
  split
  · exact Nat.le_add_right now _
  · omega

theorem duration_restarted (w : RateWindow) (now : Nat) : (w.restarted now).windowDurationMs = w.windowDurationMs := by
  unfold RateWindow.restarted
  split <;> rfl

/-- The window after a call that is counted in it exactly if it is allowed. -/
theorem Keeps.record (h : Keeps limit clock allowed w) (hnow : clock ≤ now) (ok : Bool)
    (hok : ok = true ↔ (w.restarted now).count < limit) :
    Keeps limit now (allowed ++ if ok then [now] else []) (w.checkAndRecord now limit).2 := by
  have hkeeps := h.restarted hnow
  unfold RateWindow.checkAndRecord
  cases ok with
  | false =>
    have hfull : limit ≤ (w.restarted now).count := Nat.not_lt.mp fun hroom => by simpa using hok.mpr hroom
    simpa [hfull] using hkeeps
  | true =>
    have hroom := hok.mp rfl
    simp only [Nat.not_le.mpr hroom, if_false, if_true]
    refine ⟨hkeeps.ledger.admitOne le_rfl hroom, ?_, ?_⟩
    · have hstarted : (w.restarted now).windowStart ≤ now := hkeeps.ledger.started
      show (w.restarted now).count + 1 = since (w.restarted now).windowStart (allowed ++ [now])
      rw [hkeeps.counted, since, since, List.countP_append]
      simp [hstarted]
    · intro t ht
      rcases List.mem_append.mp ht with ht | ht
      · exact hkeeps.current t ht
      · rw [List.mem_singleton.mp ht]
        exact (duration_restarted w now).symm ▸ not_expired w now

/-! ## The two windows -/

theorem allowed_iff (now : Nat) : (s.limiter.checkAndRecord now).1 = true ↔
      (s.limiter.minuteWindow.restarted now).count < s.limiter.config.messagesPerMinute ∧
        (s.limiter.hourWindow.restarted now).count < s.limiter.config.messagesPerHour := by
  have hwindow : ∀ (w : RateWindow) (limit : Nat),
      (w.checkAndRecord now limit).1 = true ↔ (w.restarted now).count < limit := by
    intro w limit
    unfold RateWindow.checkAndRecord
    by_cases hfull : limit ≤ (w.restarted now).count
    · simp [hfull]
    · simp [hfull, Nat.not_le.mp hfull]
  show (_ && _) = true ↔ _
  rw [Bool.and_eq_true, hwindow, hwindow]

/-- A refused call is free of cost exactly if the windows agree on it. -/
theorem costsNothing_iff (now : Nat) : s.CostsNothing now ↔ s.Agreed now := by
  have hanswer := allowed_iff s now
  have hwindow : ∀ (w : RateWindow) (limit : Nat), (w.checkAndRecord now limit).2 = w.restarted now ↔
      ¬(w.restarted now).count < limit := by
    intro w limit
    unfold RateWindow.checkAndRecord
    by_cases hfull : limit ≤ (w.restarted now).count
    · simp [hfull]
    · -- a counted call shows in the count
      simp only [hfull, if_false, Nat.not_le.mp hfull, not_true, iff_false]
      intro h
      exact absurd (congrArg RateWindow.count h) (Nat.succ_ne_self _)
  have hafter : (s.limiter.checkAndRecord now).2 = restarted s.limiter now ↔
      ¬(s.limiter.minuteWindow.restarted now).count < s.limiter.config.messagesPerMinute ∧
        ¬(s.limiter.hourWindow.restarted now).count < s.limiter.config.messagesPerHour := by
    rw [← hwindow, ← hwindow]
    simp [ChannelEmitRateLimiter.checkAndRecord, restarted]
  unfold CostsNothing Agreed
  rw [hafter, ← Bool.not_eq_true, hanswer]
  tauto

/-- Both windows keep the ledger of what was allowed. -/
structure Kept (config : EmitRateLimitConfig) (s : Emissions) : Prop where
  config_eq : s.limiter.config = config
  minutes : s.limiter.minuteWindow.windowDurationMs = 60000
  hours : s.limiter.hourWindow.windowDurationMs = 3600000
  minute : Keeps config.messagesPerMinute s.clock s.allowed s.limiter.minuteWindow
  hour : Keeps config.messagesPerHour s.clock s.allowed s.limiter.hourWindow

variable {s : Emissions} {config : EmitRateLimitConfig}

/-- **One call** on which the windows agree. -/
theorem Kept.call {s' : Emissions} {now : Nat} (h : Kept config s) (hagreed : s.Agreed now)
    (hstep : s.call now = some s') :
    Kept config s' := by
  obtain ⟨rfl, hminutes, hhours, hminute, hhour⟩ := h
  unfold Emissions.call at hstep
  split at hstep
  · next hnow =>
      cases hstep
      have hanswer := allowed_iff s now
      have hboth : ∀ w limit, (RateWindow.checkAndRecord w now limit).2.windowDurationMs = w.windowDurationMs := by
        intro w limit
        unfold RateWindow.checkAndRecord
        simp only
        split <;> exact duration_restarted w now
      exact ⟨rfl, (hboth _ _).trans hminutes, (hboth _ _).trans hhours,
        hminute.record hnow _ (hanswer.trans (and_iff_left_of_imp hagreed.mp)),
        hhour.record hnow _ (hanswer.trans (and_iff_right_of_imp hagreed.mpr))⟩
  · cases hstep

theorem kept_of_run {calls : List Nat} (run : Runs Emissions.call Agreed ⟨.new config, 0, []⟩ calls s) : Kept config s :=
  run.invariant (P := fun _ s => Kept config s) ⟨rfl, rfl, rfl, keeps_new _ _, keeps_new _ _⟩
    fun h hagreed hstep => h.call hagreed hstep

/-- **Refused emissions cost nothing while the windows agree.** After calls on which they did, a call is refused
exactly if one of the limits is used up by what was allowed since its window started; a refused call changes nothing
but the start of an expired window exactly if they agree on it too; and no 60 seconds and no 3600 seconds have more
than twice their limit. -/
theorem refused_cost_nothing (config : EmitRateLimitConfig) (calls : List Nat) (s : Emissions)
    (run : Runs Emissions.call Agreed ⟨.new config, 0, []⟩ calls s) :
    (∀ now, s.clock ≤ now →
      ((s.limiter.checkAndRecord now).1 = false ↔
        s.Full s.limiter.minuteWindow now config.messagesPerMinute ∨
          s.Full s.limiter.hourWindow now config.messagesPerHour) ∧
      (s.CostsNothing now ↔ s.Agreed now)) ∧
    ∀ a, within a (a + 60000) s.allowed ≤ 2 * config.messagesPerMinute ∧
      within a (a + 3600000) s.allowed ≤ 2 * config.messagesPerHour := by
  obtain ⟨rfl, hminutes, hhours, hminute, hhour⟩ := kept_of_run run
  refine ⟨fun now hnow => ⟨?_, costsNothing_iff s now⟩, fun a =>
    ⟨hminute.ledger.bounded a _ ?_, hhour.ledger.bounded a _ ?_⟩⟩
  · rw [← Bool.not_eq_true, allowed_iff, Full, Full, ← (hminute.restarted hnow).counted, ← (hhour.restarted hnow).counted,
      not_and_or, Nat.not_lt, Nat.not_lt]
  · rw [hminutes]
    omega
  · rw [hhours]
    omega

/-! ## A burst -/

/-- One message a minute and three an hour. -/
def strict : EmitRateLimitConfig := ⟨1, 3⟩

/-- Three messages use the hour up. The fourth is refused by both limits, and the next hour has one again. -/
theorem hourly_messages :
    ∃ s : Emissions, s.allowed = [4000000, 4060001, 4120002, 8000000] ∧
      within 4000000 (4000000 + 60000) s.allowed ≤ 2 * 1 := by
  obtain ⟨s, hs⟩ : ∃ s, [4000000, 4060001, 4120002, 4120003, 8000000].foldlM (fun s now => if decide (Agreed s now) then s.call now else none)
      (⟨.new strict, 0, []⟩ : Emissions) = some s := ⟨_, rfl⟩
  have hallowed := congrArg (Option.map Emissions.allowed) hs
  refine ⟨s, (Option.some.inj hallowed).symm, ?_⟩
  exact ((refused_cost_nothing strict _ s (Runs.of_checked (fun _ _ h => of_decide_eq_true h) hs)).2 4000000).1

/-- Two messages right after the first are refused by the minute and counted by the hour. The next minute has a message
refused although one alone was allowed in the hour, and without the two it would not be. -/
theorem refusals_use_the_hour :
    ∃ s : Emissions, [4000000, 4000001, 4000002].foldlM Emissions.call ⟨.new strict, 0, []⟩ = some s ∧
      s.allowed = [4000000] ∧ (s.limiter.checkAndRecord 4060001).1 = false ∧
      ¬s.Full s.limiter.minuteWindow 4060001 1 ∧ ¬s.Full s.limiter.hourWindow 4060001 3 ∧
      ([4000000, 4060001].foldlM Emissions.call ⟨.new strict, 0, []⟩).map Emissions.allowed = some [4000000, 4060001] := by
  refine ⟨_, rfl, ?_⟩
  unfold Full
  decide

end Emissions
end Freeclawdia.EmitLimits
