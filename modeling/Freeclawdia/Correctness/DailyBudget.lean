import Freeclawdia.Agent.CostGuard
import Freeclawdia.Lib.Runs
import Mathlib.Data.List.Sort
import Mathlib.Data.Rat.Defs
import Mathlib.Order.Nat

/-!
# `Correctness.DailyBudget` — the budget and the day it belongs to

The guard keeps a total, the day the total belongs to, and a flag that the limit was reached. Only `record_llm_call`
looks at the date. So the total is the sum of the costs of its own day (`Inv.total`), and what `check_allowed` compares
with the limit is that sum also when the day is over. The answer is right exactly while the total is of today, or when
it makes no difference (`Fresh`).
-/

namespace Freeclawdia.CostGuard

open Rust Costs DecimalArith

variable {D : Type} [DecimalArith D] {config : CostGuardConfig}

/-- A check at time `now` refuses for the budget exactly when the costs of that day reach the limit, which is also what
    is reported as spent; and it refuses for the rate only after enough calls in the last hour. -/
structure Right (config : CostGuardConfig) (s : System D) (now : Nat) : Prop where
  budget : (∃ spent limit, (checkAllowed config now s.guard).1 = .error (.dailyBudget spent limit)) ↔
    ∃ limit, config.maxCostPerDayCents = some limit ∧ limit ≤ toCents (spentOn (dayOf now) s.recorded)
  reported : dailySpend now s.guard = spentOn (dayOf now) s.recorded
  rate : ∀ actions limit, (checkAllowed config now s.guard).1 = .error (.hourlyRate actions limit) →
    config.maxActionsPerHour = some limit ∧
      limit ≤ (s.recorded.filter fun r => now - hourNanos ≤ r.1 ∧ r.1 ≤ now).length

/-- The total is of today, or the limit is reached by it just as by nothing. -/
def Fresh (config : CostGuardConfig) (g : CostGuard D) (now : Nat) : Prop :=
  dayOf now = g.dailyCost.resetDate ∨ ∀ limit, config.maxCostPerDayCents = some limit →
    (limit ≤ toCents g.dailyCost.total ↔ limit ≤ toCents (zero : D))

/-- A call does not lower the whole cents of its day. -/
def Rising (config : CostGuardConfig) (s : System D) : Nat × Action D → Prop
  | (_, .check) => True
  | (now, .record call) => config.maxCostPerDayCents.isSome → dayOf now = s.guard.dailyCost.resetDate →
      toCents s.guard.dailyCost.total ≤ toCents (add s.guard.dailyCost.total call.cost)

/-! ## The invariant -/

/-- What the guard's fields say about the calls that were recorded. -/
structure Inv (config : CostGuardConfig) (s : System D) : Prop where
  past : ∀ r ∈ s.recorded, r.1 ≤ s.now
  sorted : (s.recorded.map Prod.fst).Pairwise (· ≤ ·)
  window : s.guard.actionWindow <:+ s.recorded.map Prod.fst
  date : s.guard.dailyCost.resetDate ≤ dayOf s.now
  days : ∀ r ∈ s.recorded, dayOf r.1 ≤ s.guard.dailyCost.resetDate
  total : s.guard.dailyCost.total = spentOn s.guard.dailyCost.resetDate s.recorded
  flag : s.guard.budgetExceeded = true →
    ∃ limit, config.maxCostPerDayCents = some limit ∧ limit ≤ toCents s.guard.dailyCost.total

theorem dayOf_mono {a b : Nat} (h : a ≤ b) : dayOf a ≤ dayOf b := Nat.div_le_div_right h

/-- Nothing was recorded on a day after the last. -/
theorem spentOn_eq_zero {day : Nat} {recorded : List (Nat × D)} (h : ∀ r ∈ recorded, dayOf r.1 < day) :
    spentOn day recorded = zero := by
  have hnil : recorded.filter (fun r => dayOf r.1 = day) = [] := by
    refine List.filter_eq_nil_iff.mpr ?_
    intro r hr
    have hlt := h r hr
    simp only [decide_eq_true_eq]
    omega
  rw [spentOn, hnil]
  rfl

theorem spentOn_snoc (recorded : List (Nat × D)) (now : Nat) (cost : D) :
    spentOn (dayOf now) (recorded ++ [(now, cost)]) = add (spentOn (dayOf now) recorded) cost := by
  simp [spentOn]

theorem inv_init (now : Nat) : Inv (D := D) config (init now) where
  past := by intro r hr; cases hr
  sorted := List.Pairwise.nil
  window := List.suffix_refl _
  date := le_rfl
  days := by intro r hr; cases hr
  total := rfl
  flag := by intro h; cases h

/-! ### Checks -/

omit [DecimalArith D] in
theorem checkRate_guard (now : Nat) (g : CostGuard D) :
    ∃ n, (checkAllowed.checkRate config now g).2 = { g with actionWindow := g.actionWindow.drop n } := by
  unfold checkAllowed.checkRate
  cases config.maxActionsPerHour with
  | none => exact ⟨0, rfl⟩
  | some limit =>
    obtain ⟨n, hn⟩ : ∃ n, g.actionWindow.dropWhile (fun t => decide (t < now - hourNanos)) = g.actionWindow.drop n :=
      ⟨_, List.dropWhile_eq_drop_findIdx_not⟩
    refine ⟨n, ?_⟩
    dsimp only
    rw [hn]
    split_ifs <;> rfl

/-- A check drains the window and may set the flag. -/
theorem checkAllowed_guard (config : CostGuardConfig) (now : Nat) (g : CostGuard D) :
    (∃ n, (checkAllowed config now g).2 = { g with actionWindow := g.actionWindow.drop n }) ∨
      ((checkAllowed config now g).2 = { g with budgetExceeded := true } ∧
        ∃ limit, config.maxCostPerDayCents = some limit ∧ limit ≤ toCents g.dailyCost.total) := by
  unfold checkAllowed
  split_ifs with hflag
  · exact Or.inl ⟨0, rfl⟩
  · cases hlimit : config.maxCostPerDayCents with
    | none => exact Or.inl (checkRate_guard now g)
    | some limit =>
      dsimp only
      split_ifs with hreached
      · exact Or.inr ⟨rfl, limit, rfl, hreached⟩
      · exact Or.inl (checkRate_guard now g)

variable {now : Nat} {s : System D}

theorem Inv.check (h : Inv config s) (hnow : s.now ≤ now) :
    Inv config { s with guard := (checkAllowed config now s.guard).2, now := now } := by
  have hpast : ∀ r ∈ s.recorded, r.1 ≤ now := fun r hr => (h.past r hr).trans hnow
  have hdate : s.guard.dailyCost.resetDate ≤ dayOf now := h.date.trans (dayOf_mono hnow)
  rcases checkAllowed_guard config now s.guard with ⟨n, hg⟩ | ⟨hg, hreached⟩
  · rw [hg]
    exact { h with past := hpast, date := hdate, window := (List.drop_suffix n _).trans h.window }
  · rw [hg]
    exact { h with past := hpast, date := hdate, flag := fun _ => hreached }

/-! ### Records -/

/-- The total after a call is the sum of the day of the call. -/
theorem addCost_total (h : Inv config s) (hnow : s.now ≤ now) (cost : D) :
    (addCost config now cost s.guard).dailyCost.total = spentOn (dayOf now) (s.recorded ++ [(now, cost)]) := by
  rw [spentOn_snoc]
  show add (if decide (dayOf now ≠ s.guard.dailyCost.resetDate) = true then zero else s.guard.dailyCost.total) cost = _
  by_cases hday : dayOf now = s.guard.dailyCost.resetDate
  · rw [hday, ← h.total]
    simp
  · -- the guard's date is over, and so are the days of all calls so far
    have hlt : s.guard.dailyCost.resetDate < dayOf now :=
      lt_of_le_of_ne (h.date.trans (dayOf_mono hnow)) (Ne.symm hday)
    rw [spentOn_eq_zero fun r hr => (h.days r hr).trans_lt hlt]
    simp [hday]

variable {call : LlmCall D}

theorem addCost_flag (h : Inv config s) (hrising : Rising config s (now, .record call))
    (hflag : (addCost config now call.cost s.guard).budgetExceeded = true) :
    ∃ limit, config.maxCostPerDayCents = some limit ∧
      limit ≤ toCents (addCost config now call.cost s.guard).dailyCost.total := by
  by_cases hday : dayOf now = s.guard.dailyCost.resetDate
  · cases hlimit : config.maxCostPerDayCents with
    | none =>
      have hold : s.guard.budgetExceeded = true := by simpa [addCost, hlimit, hday] using hflag
      obtain ⟨limit, hsome, -⟩ := h.flag hold
      rw [hlimit] at hsome
      cases hsome
    | some limit =>
      refine ⟨limit, rfl, ?_⟩
      have htotal : (addCost config now call.cost s.guard).dailyCost.total =
          add s.guard.dailyCost.total call.cost := by simp [addCost, hday]
      rw [htotal]
      by_contra hbelow
      have hold : s.guard.budgetExceeded = true := by simpa [addCost, hlimit, hday, hbelow] using hflag
      obtain ⟨limit', hsome, hle⟩ := h.flag hold
      obtain rfl : limit = limit' := by simpa [hlimit] using hsome
      exact hbelow (hle.trans (hrising (by simp [hlimit]) hday))
  · cases hlimit : config.maxCostPerDayCents with
    | none => simp [addCost, hlimit, hday] at hflag
    | some limit =>
      refine ⟨limit, rfl, ?_⟩
      by_contra hbelow
      have htotal : (addCost config now call.cost s.guard).dailyCost.total = add zero call.cost := by
        simp [addCost, hday]
      rw [htotal] at hbelow
      simp [addCost, hlimit, hday, hbelow] at hflag

theorem Inv.record (h : Inv config s) (hnow : s.now ≤ now) (hrising : Rising config s (now, .record call)) :
    Inv config ⟨(recordLlmCall config now call s.guard).2, now, s.recorded ++ [(now, call.cost)]⟩ where
  past := by
    intro r hr
    rcases List.mem_append.mp hr with hr | hr
    · exact (h.past r hr).trans hnow
    · obtain rfl : r = (now, call.cost) := by simpa using hr
      exact le_rfl
  sorted := by
    rw [List.map_append, List.pairwise_append]
    refine ⟨h.sorted, List.pairwise_singleton _ _, ?_⟩
    intro a ha b hb
    obtain ⟨r, hr, rfl⟩ := List.mem_map.mp ha
    obtain rfl : b = now := by simpa using hb
    exact (h.past r hr).trans hnow
  window := by
    obtain ⟨before, hbefore⟩ := h.window
    refine ⟨before, ?_⟩
    show before ++ (s.guard.actionWindow ++ [now]) = _
    rw [← List.append_assoc, hbefore]
    simp
  date := le_rfl
  days := by
    intro r hr
    show dayOf r.1 ≤ dayOf now
    rcases List.mem_append.mp hr with hr | hr
    · exact dayOf_mono ((h.past r hr).trans hnow)
    · obtain rfl : r = (now, call.cost) := by simpa using hr
      exact le_rfl
  total := addCost_total h hnow call.cost
  flag := addCost_flag h hrising

theorem inv_of_run {start : Nat} {actions : List (Nat × Action D)}
    (run : Runs (step config) (Rising config) (init start) actions s) : Inv config s := by
  refine run.invariant (P := fun _ s => Inv config s) (inv_init start) ?_
  intro _ a b l ha hrising hstep
  obtain ⟨now, action⟩ := l
  simp only [step] at hstep
  split_ifs at hstep with hnow
  have hnow : a.now ≤ now := Nat.not_lt.mp hnow
  cases action with
  | check =>
    cases hstep
    exact ha.check hnow
  | record call =>
    cases hstep
    exact ha.record hnow hrising

/-! ## The answers -/

omit [DecimalArith D] in
theorem checkRate_ne_budget (now : Nat) (g : CostGuard D) (spent limit : Nat) :
    (checkAllowed.checkRate config now g).1 ≠ .error (.dailyBudget spent limit) := by
  unfold checkAllowed.checkRate
  cases config.maxActionsPerHour with
  | none => simp
  | some limit =>
    dsimp only
    split_ifs <;> simp

/-- The budget is refused by what the guard's total says. -/
theorem refuses_budget_iff (h : Inv config s) (now : Nat) :
    (∃ spent limit, (checkAllowed config now s.guard).1 = .error (.dailyBudget spent limit)) ↔
      ∃ limit, config.maxCostPerDayCents = some limit ∧ limit ≤ toCents s.guard.dailyCost.total := by
  unfold checkAllowed
  by_cases hflag : s.guard.budgetExceeded = true
  · simp [hflag, h.flag hflag]
  · simp only [hflag, Bool.false_eq_true, if_false]
    cases hlimit : config.maxCostPerDayCents with
    | none => simp [checkRate_ne_budget]
    | some limit =>
      by_cases hreached : limit ≤ toCents s.guard.dailyCost.total
      · simp [hreached]
      · simp [hreached, checkRate_ne_budget]

/-- The sum of the costs of today, seen from the guard. -/
theorem spentOn_today (h : Inv config s) (hnow : s.now ≤ now) :
    spentOn (dayOf now) s.recorded = dailySpend now s.guard := by
  unfold dailySpend
  by_cases hday : dayOf now = s.guard.dailyCost.resetDate
  · simp [hday, h.total]
  · have hlt : s.guard.dailyCost.resetDate < dayOf now :=
      lt_of_le_of_ne (h.date.trans (dayOf_mono hnow)) (Ne.symm hday)
    rw [spentOn_eq_zero fun r hr => (h.days r hr).trans_lt hlt]
    simp [hday]

/-- What is left of a sorted window after the drain. -/
theorem le_of_mem_dropWhile {ts : List Nat} (hsorted : ts.Pairwise (· ≤ ·)) {cutoff t : Nat}
    (ht : t ∈ ts.dropWhile fun x => decide (x < cutoff)) : cutoff ≤ t := by
  induction ts with
  | nil => cases ht
  | cons x xs ih =>
    obtain ⟨hx, hxs⟩ := List.pairwise_cons.mp hsorted
    by_cases hlt : x < cutoff
    · rw [List.dropWhile_cons_of_pos (by simpa using hlt)] at ht
      exact ih hxs ht
    · rw [List.dropWhile_cons_of_neg (by simpa using hlt)] at ht
      rcases List.mem_cons.mp ht with rfl | ht
      · omega
      · have hle := hx t ht
        omega

/-- The window holds recorded calls since the cutoff only. -/
theorem window_le (h : Inv config s) (hnow : s.now ≤ now) (cutoff : Nat) :
    (s.guard.actionWindow.dropWhile fun t => decide (t < cutoff)).length ≤
      (s.recorded.filter fun r => cutoff ≤ r.1 ∧ r.1 ≤ now).length := by
  have hsorted : s.guard.actionWindow.Pairwise (· ≤ ·) := h.sorted.sublist h.window.sublist
  have hsub : (s.guard.actionWindow.dropWhile fun t => decide (t < cutoff)).Sublist (s.recorded.map Prod.fst) :=
    (List.dropWhile_sublist _).trans h.window.sublist
  have hfilter := hsub.filter (fun t => decide (cutoff ≤ t ∧ t ≤ now))
  have hall : (s.guard.actionWindow.dropWhile fun t => decide (t < cutoff)).filter
      (fun t => decide (cutoff ≤ t ∧ t ≤ now)) = s.guard.actionWindow.dropWhile fun t => decide (t < cutoff) := by
    refine List.filter_eq_self.mpr ?_
    intro t ht
    obtain ⟨r, hr, rfl⟩ := List.mem_map.mp (hsub.subset ht)
    have hpast := (h.past r hr).trans hnow
    exact decide_eq_true ⟨le_of_mem_dropWhile hsorted ht, hpast⟩
  rw [hall, List.filter_map] at hfilter
  exact hfilter.length_le.trans_eq (List.length_map _)

omit [DecimalArith D] in
theorem checkRate_hourly {now : Nat} {g : CostGuard D} {actions limit : Nat}
    (h : (checkAllowed.checkRate config now g).1 = .error (.hourlyRate actions limit)) :
    config.maxActionsPerHour = some limit ∧
      limit ≤ (g.actionWindow.dropWhile fun t => decide (t < now - hourNanos)).length := by
  unfold checkAllowed.checkRate at h
  cases hmax : config.maxActionsPerHour with
  | none => simp [hmax] at h
  | some limit' =>
    simp only [hmax] at h
    split_ifs at h with hfull
    cases h
    exact ⟨rfl, hfull⟩

theorem checkAllowed_hourly {g : CostGuard D} {actions limit : Nat}
    (h : (checkAllowed config now g).1 = .error (.hourlyRate actions limit)) : config.maxActionsPerHour = some limit ∧
      limit ≤ (g.actionWindow.dropWhile fun t => decide (t < now - hourNanos)).length := by
  unfold checkAllowed at h
  cases hflag : g.budgetExceeded with
  | true => simp [hflag] at h
  | false =>
    simp only [hflag, Bool.false_eq_true, if_false] at h
    cases hlimit : config.maxCostPerDayCents with
    | none =>
      simp only [hlimit] at h
      exact checkRate_hourly h
    | some limitCents =>
      simp only [hlimit] at h
      by_cases hreached : limitCents ≤ toCents g.dailyCost.total
      · simp [hreached] at h
      · simp only [hreached, if_false] at h
        exact checkRate_hourly h

/-- **The daily budget**: in every run whose calls do not lower the cents of a day, a check is answered right exactly
    when the total is of that day, or makes no difference. -/
theorem check_right_iff {start : Nat} {actions : List (Nat × Action D)} {s : System D}
    (run : Runs (step config) (Rising config) (init start) actions s) {now : Nat} (hnow : s.now ≤ now) :
    Right config s now ↔ Fresh config s.guard now := by
  have h := inv_of_run run
  have hspent := spentOn_today h hnow
  constructor
  · intro hright
    by_cases hday : dayOf now = s.guard.dailyCost.resetDate
    · exact Or.inl hday
    · right
      intro limit hlimit
      have hzero : dailySpend now s.guard = zero := by simp [dailySpend, hday]
      have hiff := (refuses_budget_iff h now).symm.trans hright.budget
      rw [hspent, hzero] at hiff
      simpa [hlimit] using hiff
  · intro hfresh
    refine ⟨?_, hspent.symm, ?_⟩
    · rw [refuses_budget_iff h now, hspent]
      by_cases hday : dayOf now = s.guard.dailyCost.resetDate
      · have htotal : dailySpend now s.guard = s.guard.dailyCost.total := by simp [dailySpend, hday]
        rw [htotal]
      · have hzero : dailySpend now s.guard = zero := by simp [dailySpend, hday]
        rw [hzero]
        rcases hfresh with htoday | hsame
        · exact absurd htoday hday
        · exact exists_congr fun limit => and_congr_right fun hlimit => hsame limit hlimit
    · intro actions limit hanswer
      obtain ⟨hmax, hlen⟩ := checkAllowed_hourly hanswer
      exact ⟨hmax, hlen.trans (window_le h hnow _)⟩

/-! ### Across midnight -/

/-- Amounts as exact fractions. -/
instance : DecimalArith ℚ where
  dec m s := m / 10 ^ s
  add := (· + ·)
  mul := (· * ·)
  div := (· / ·)
  isZero q := q = 0
  trunc q := q.num.tdiv q.den
  display q := toString q.num

/-- A call of one input token that costs a dollar. -/
def dollarCall : LlmCall ℚ := ⟨"test-model", 1, 0, 0, 0, 1, 1, some (1, 0)⟩

/-- A limit of one dollar a day. -/
def dollarConfig : CostGuardConfig := ⟨some 100, none⟩

/-- A dollar is spent on the first day, and the guard is asked on the same day. -/
theorem spent_today_is_refused : ∃ s : System ℚ, Runs (step dollarConfig) (Rising dollarConfig) (init 0)
      [(5, .record dollarCall)] s ∧ s.now ≤ 10 ∧ Fresh dollarConfig s.guard 10 ∧ Right dollarConfig s 10 := by
  have hrising : Rising dollarConfig (init (D := ℚ) 0) (5, Action.record dollarCall) :=
    fun _ _ => by decide +kernel
  have hrun : Runs (step dollarConfig) (Rising dollarConfig) (init (D := ℚ) 0) ([] ++ [(5, Action.record dollarCall)])
      ⟨(recordLlmCall dollarConfig 5 dollarCall (new 0)).2, 5, [(5, dollarCall.cost)]⟩ :=
    (Runs.refl _).snoc _ hrising rfl
  have hfresh : Fresh dollarConfig (recordLlmCall dollarConfig 5 dollarCall (new (D := ℚ) 0)).2 10 :=
    Or.inl (by decide)
  exact ⟨_, hrun, by decide, hfresh, (check_right_iff hrun (by decide)).mpr hfresh⟩

/-- A dollar is spent on the first day, and the guard still refuses on the next one. -/
theorem spent_yesterday_is_refused :
    ¬∀ (config : CostGuardConfig) (start : Nat) (actions : List (Nat × Action ℚ)) (s : System ℚ),
      Runs (step config) (fun _ _ => True) (init start) actions s → ∀ now, s.now ≤ now → Right config s now := by
  intro h
  have hright := h dollarConfig 0 [(5, .record dollarCall)] _
    (Runs.of_foldlM rfl) (dayNanos + 5) (by decide)
  obtain ⟨limit, hlimit, hle⟩ := hright.budget.mp ⟨100, 100, by decide +kernel⟩
  obtain rfl : 100 = limit := by simpa [dollarConfig] using hlimit
  revert hle
  decide +kernel

end Freeclawdia.CostGuard
