import Freeclawdia.Correctness.DailyBudget
import Mathlib.Algebra.BigOperators.Group.Finset.Piecewise
import Mathlib.Algebra.BigOperators.Ring.List
import Mathlib.Algebra.Order.Floor.Semiring
import Mathlib.Algebra.Order.BigOperators.Group.List
import Mathlib.Data.Rat.Floor
import Mathlib.Tactic.NormNum
import Mathlib.Tactic.Positivity

/-!
# `Correctness.ExactCosts` — the books of the cost guard over a day

With exact fractions, what `record_llm_call` returns, adds to the day and adds to the models agrees. The integers
beside them need room: the limit is multiplied by 80, what was spent by 100, and amounts of `2^64` cents and more
count as nothing.
-/

namespace Freeclawdia.CostGuard

open Rust Costs DecimalArith

/-! ## What should hold -/

/-- The rates of a call. -/
def ratesOf (call : LlmCall ℚ) : ℚ × ℚ := call.costPerToken.getD ((modelCost call.model).getD defaultCost)

/-- The price of a call. -/
def price (call : LlmCall ℚ) : ℚ :=
  let rates := ratesOf call
  let cached : ℕ := min (call.cacheReadInputTokens + call.cacheCreationInputTokens) (2 ^ 32 - 1)
  let discount := if call.cacheReadDiscount = 0 then 1 else call.cacheReadDiscount
  rates.1 * max ((call.inputTokens : ℚ) - cached) 0 + rates.1 * call.cacheReadInputTokens / discount +
    rates.1 * call.cacheCreationInputTokens * call.cacheWriteMultiplier + rates.2 * call.outputTokens

/-- The rates given with a call, its discount and its multiplier are not negative. -/
structure NonNegative (call : LlmCall ℚ) : Prop where
  rates : ∀ rates, call.costPerToken = some rates → 0 ≤ rates.1 ∧ 0 ≤ rates.2
  discount : 0 ≤ call.cacheReadDiscount
  multiplier : 0 ≤ call.cacheWriteMultiplier

variable (config : CostGuardConfig)

/-- All calls, from a new guard: what they returned, and the guard. None is an overflow or a division by zero. -/
def recordAll (start : Nat) (calls : List (Nat × LlmCall ℚ)) :
    Option (List ℚ × CostGuard ℚ) :=
  calls.foldlM (fun s c => (recordLlmCallChecked config c.1 c.2 s.2).map fun r => (s.1 ++ [r.1], r.2)) ([], new start)

/-- The costs that models have in the books. -/
def modelCosts (g : CostGuard ℚ) (models : Finset String) : ℚ :=
  ∑ m ∈ models, ((g.modelTokens m).map ModelTokens.cost).getD 0

/-- No integer overflows, each call costs its price, and the day and the models have all costs. -/
def Exact (start : Nat) (calls : List (Nat × LlmCall ℚ)) : Prop :=
  ∃ costs g, recordAll config start calls = some (costs, g) ∧
    costs = calls.map (fun c => price c.2) ∧
    (∀ now, (∀ c ∈ calls, dayOf c.1 = dayOf now) → dailySpend now g = costs.sum) ∧
    modelCosts g (calls.map fun c => c.2.model).toFinset = costs.sum ∧
    ∀ m, m ∉ calls.map (fun c => c.2.model) → g.modelTokens m = none

/-! ## When it holds -/

/-- Whole cents. -/
def cents (usd : ℚ) : ℕ := ⌊usd * 100⌋₊

variable (calls : List (Nat × LlmCall ℚ))

def spent : ℚ := (calls.map fun c => price c.2).sum

/-- The tokens of a model. -/
def tokensOf (count : LlmCall ℚ → ℕ) (model : String) (calls : List (Nat × LlmCall ℚ)) : ℕ :=
  ((calls.filter fun c => c.2.model = model).map fun c => count c.2).sum

/-- 80 times the limit is in range, and 100 times the cents that are spent if they are below the limit; and so are the
tokens of the model. -/
structure Fits (config : CostGuardConfig) (before : List (Nat × LlmCall ℚ)) (c : Nat × LlmCall ℚ) : Prop where
  limit : ∀ limit, config.maxCostPerDayCents = some limit →
    limit * 80 < 2 ^ 64 ∧ (limit ≤ cents (spent (before ++ [c])) ∨ cents (spent (before ++ [c])) * 100 < 2 ^ 64)
  inputs : tokensOf LlmCall.inputTokens c.2.model (before ++ [c]) < 2 ^ 64
  outputs : tokensOf LlmCall.outputTokens c.2.model (before ++ [c]) < 2 ^ 64

/-- This is so at every call. -/
def AllFit (calls : List (Nat × LlmCall ℚ)) : Prop :=
  ∀ before c after, calls = before ++ c :: after → Fits config before c

/-- The larger amount is in range, or the smaller one counts as nothing. -/
def InOrder (a b : ℚ) : Prop := cents b < 2 ^ 64 ∨ cents a = 0 ∨ 2 ^ 64 ≤ cents a

/-! ## Cents -/

theorem toCents_eq {usd : ℚ} (h : 0 ≤ usd) : toCents usd = if cents usd < 2 ^ 64 then cents usd else 0 := by
  have hpos : 0 ≤ usd * 100 := mul_nonneg h (by norm_num)
  have hmul : mul usd (dec 100 0) = usd * 100 := by
    show usd * ((100 : ℕ) / 10 ^ 0) = usd * 100
    norm_num
  have htrunc : (usd * 100).num.tdiv (usd * 100).den = cents usd := by
    rw [Int.tdiv_eq_ediv_of_nonneg (Rat.num_nonneg.mpr hpos), ← Rat.floor_def, cents, Int.natCast_floor_eq_floor hpos]
    rfl
  have hdisplay : display (trunc (mul usd (dec 100 0))) = toString (cents usd) := by
    rw [hmul]
    show toString (((usd * 100).num.tdiv (usd * 100).den : ℤ) : ℚ).num = _
    rw [htrunc, Rat.num_intCast]
    rfl
  rw [toCents, hdisplay, parseUsize_toString_eq]
  split <;> rfl

theorem cents_mono {a b : ℚ} (h : a ≤ b) : cents a ≤ cents b :=
  Nat.floor_mono (mul_le_mul_of_nonneg_right h (by norm_num))

/-- **More never counts less**, exactly when the larger amount is in range or the smaller one counts as nothing. -/
theorem toCents_le_iff {a b : ℚ} (ha : 0 ≤ a) (hab : a ≤ b) : toCents a ≤ toCents b ↔ InOrder a b := by
  have hmono := cents_mono hab
  rw [toCents_eq ha, toCents_eq (ha.trans hab), InOrder]
  split <;> split <;> omega

/-! ## Prices -/

theorem dec_nat (n : ℕ) : (dec n 0 : ℚ) = n := by
  show (n : ℚ) / 10 ^ 0 = n
  rw [pow_zero, div_one]

/-- Tokens that are subtracted in range, as fractions. -/
theorem cast_sub_max (a b : ℕ) : ((a - b : ℕ) : ℚ) = max ((a : ℚ) - b) 0 := by
  rcases Nat.le_total b a with h | h
  · rw [Nat.cast_sub h, max_eq_left (sub_nonneg.mpr (Nat.cast_le.mpr h))]
  · rw [Nat.sub_eq_zero_of_le h, Nat.cast_zero, max_eq_right (sub_nonpos.mpr (Nat.cast_le.mpr h))]

theorem cost_eq_price (call : LlmCall ℚ) : call.cost = price call := by
  have hdiscount : (if isZero call.cacheReadDiscount = true then dec 1 0 else call.cacheReadDiscount) =
      if call.cacheReadDiscount = 0 then 1 else call.cacheReadDiscount := by
    rw [dec_nat, Nat.cast_one]
    exact if_congr decide_eq_true_iff rfl rfl
  unfold LlmCall.cost price ratesOf
  rw [hdiscount]
  simp only [dec_nat, ← cast_sub_max]
  rfl

theorem knownModels_nonneg : ∀ row ∈ (knownModels : List (List String × ℚ × ℚ)), 0 ≤ row.2.1 ∧ 0 ≤ row.2.2 := by
  decide +kernel

variable {model : String}

theorem modelCost_nonneg {rates : ℚ × ℚ} (h : modelCost model = some rates) : 0 ≤ rates.1 ∧ 0 ≤ rates.2 := by
  have hzero : (0 : ℚ) ≤ (zero : ℚ) := by decide +kernel
  unfold modelCost at h
  split at h
  · cases h
    exact ⟨hzero, hzero⟩
  · dsimp only at h
    split at h
    next row hrow =>
      cases h
      exact knownModels_nonneg row (List.mem_of_find?_eq_some hrow)
    next =>
      split at h
      · cases h
        exact ⟨hzero, hzero⟩
      · cases h

theorem ratesOf_nonneg {call : LlmCall ℚ} (h : NonNegative call) : 0 ≤ (ratesOf call).1 ∧ 0 ≤ (ratesOf call).2 := by
  unfold ratesOf
  cases hgiven : call.costPerToken with
  | some rates => exact h.rates rates hgiven
  | none =>
    cases hmodel : (modelCost call.model : Option (ℚ × ℚ)) with
    | some rates => exact modelCost_nonneg hmodel
    | none => decide +kernel

theorem price_nonneg {call : LlmCall ℚ} (h : NonNegative call) : 0 ≤ price call := by
  obtain ⟨hinput, houtput⟩ := ratesOf_nonneg h
  have hdiscount : 0 ≤ if call.cacheReadDiscount = 0 then (1 : ℚ) else call.cacheReadDiscount := by
    split
    · exact zero_le_one
    · exact h.discount
  have hmultiplier := h.multiplier
  unfold price
  positivity

/-! ## The books -/

/-- The costs of a model. -/
def costOf (model : String) (calls : List (Nat × LlmCall ℚ)) : ℚ :=
  ((calls.filter fun c => c.2.model = model).map fun c => price c.2).sum

/-- The tokens and costs of a model. -/
def usageOf (model : String) (calls : List (Nat × LlmCall ℚ)) : ModelTokens ℚ :=
  ⟨tokensOf LlmCall.inputTokens model calls, tokensOf LlmCall.outputTokens model calls, costOf model calls⟩

/-- What a model has in the books after some calls. -/
def booked (model : String) : Option (ModelTokens ℚ) :=
  if model ∈ calls.map (fun c => c.2.model) then some (usageOf model calls) else none

/-- The guard after calls of one day. -/
structure Books (day : Nat) (calls : List (Nat × LlmCall ℚ)) (g : CostGuard ℚ) : Prop where
  date : calls ≠ [] → g.dailyCost.resetDate = day
  total : g.dailyCost.total = spent calls
  models : ∀ m, g.modelTokens m = booked calls m

theorem books_new (day start : Nat) : Books day [] (new start) where
  date h := absurd rfl h
  total := by
    show (dec 0 0 : ℚ) = 0
    rw [dec_nat, Nat.cast_zero]
  models _ := rfl

theorem spent_concat (c : Nat × LlmCall ℚ) :
    spent (calls ++ [c]) = spent calls + price c.2 := by
  simp [spent]

theorem tokensOf_concat (count : LlmCall ℚ → ℕ) (model : String) (calls : List (Nat × LlmCall ℚ)) (c : Nat × LlmCall ℚ) :
    tokensOf count model (calls ++ [c]) = tokensOf count model calls + if c.2.model = model then count c.2 else 0 := by
  unfold tokensOf
  rw [List.filter_append]
  split
  next h => simp [h]
  next h => simp [h]

variable {calls : List (Nat × LlmCall ℚ)}

/-- A model without calls has no tokens. -/
theorem filter_unused (h : model ∉ calls.map fun c => c.2.model) :
    calls.filter (fun c => c.2.model = model) = [] := by
  refine List.filter_eq_nil_iff.mpr fun c hc heq => h ?_
  exact List.mem_map.mpr ⟨c, hc, of_decide_eq_true heq⟩

theorem costOf_concat (model : String) (calls : List (Nat × LlmCall ℚ)) (c : Nat × LlmCall ℚ) :
    costOf model (calls ++ [c]) = costOf model calls + if c.2.model = model then price c.2 else 0 := by
  unfold costOf
  rw [List.filter_append]
  split
  next h => simp [h]
  next h => simp [h]

theorem booked_getD (model : String) :
    (booked calls model).getD ⟨0, 0, zero⟩ = usageOf model calls := by
  unfold booked
  split
  · rfl
  next h =>
    unfold usageOf tokensOf costOf
    rw [filter_unused h]
    show (⟨0, 0, dec 0 0⟩ : ModelTokens ℚ) = ⟨0, 0, 0⟩
    rw [dec_nat, Nat.cast_zero]

theorem booked_concat (c : Nat × LlmCall ℚ) :
    booked (calls ++ [c]) = Function.update (booked calls) c.2.model (some (usageOf c.2.model (calls ++ [c]))) := by
  funext m
  unfold booked
  by_cases hm : m = c.2.model
  · subst hm
    simp
  · have husage : usageOf m (calls ++ [c]) = usageOf m calls := by
      unfold usageOf
      simp only [tokensOf_concat, costOf_concat, if_neg (Ne.symm hm), add_zero]
    have hmem : m ∈ (calls ++ [c]).map (fun c => c.2.model) ↔ m ∈ calls.map fun c => c.2.model := by
      rw [List.map_append, List.mem_append, List.map_singleton, List.mem_singleton]
      exact or_iff_left hm
    rw [Function.update_of_ne hm, husage]
    exact if_congr hmem rfl rfl

variable {day start : Nat} {g : CostGuard ℚ}

/-- **A call of the same day keeps the books.** The first one may find the guard at an earlier day, with nothing spent. -/
theorem Books.record (h : Books day calls g)
    (config : CostGuardConfig) {c : Nat × LlmCall ℚ} (hday : dayOf c.1 = day) :
    Books day (calls ++ [c]) (recordLlmCall config c.1 c.2 g).2 := by
  refine ⟨fun _ => hday, ?_, fun m => ?_⟩
  · have hkept : (if dayOf c.1 ≠ g.dailyCost.resetDate then zero else g.dailyCost.total) = spent calls := by
      split
      next hnew =>
        have hnil : calls = [] := by
          by_contra hne
          exact hnew (hday.trans (h.date hne).symm)
        rw [hnil]
        show (dec 0 0 : ℚ) = 0
        rw [dec_nat, Nat.cast_zero]
      next => exact h.total
    have htotal : (recordLlmCall config c.1 c.2 g).2.dailyCost.total = add (spent calls) c.2.cost := by
      rw [← hkept]
      unfold recordLlmCall addCost
      simp only [decide_eq_true_eq]
    rw [htotal, cost_eq_price, spent_concat]
    rfl
  · rw [booked_concat, ← funext h.models]
    have hentry : (g.modelTokens c.2.model).getD ⟨0, 0, zero⟩ = usageOf c.2.model calls := by rw [h.models, booked_getD]
    show Function.update g.modelTokens c.2.model (some ⟨((g.modelTokens c.2.model).getD ⟨0, 0, zero⟩).inputTokens + _,
      ((g.modelTokens c.2.model).getD ⟨0, 0, zero⟩).outputTokens + _,
      add ((g.modelTokens c.2.model).getD ⟨0, 0, zero⟩).cost c.2.cost⟩) m = _
    rw [hentry, cost_eq_price]
    unfold usageOf
    simp only [tokensOf_concat, costOf_concat, if_true]
    rfl

/-- The costs of the models are all costs. -/
theorem sum_models (models : Finset String) (h : ∀ c ∈ calls, c.2.model ∈ models) :
    ∑ m ∈ models, costOf m calls = spent calls := by
  induction calls using List.reverseRecOn with
  | nil => simp [costOf, spent]
  | append_singleton calls c ih =>
    have hmem : c.2.model ∈ models := h c (List.mem_append_right calls List.mem_cons_self)
    simp only [costOf_concat]
    rw [Finset.sum_add_distrib, ih fun d hd => h d (List.mem_append_left _ hd), spent_concat,
      Finset.sum_ite_eq models c.2.model, if_pos hmem]

/-! ## Integers in range -/

theorem addU64_isSome {a b : ℕ} : (addU64 a b).isSome = true ↔ a + b < 2 ^ 64 := by
  unfold addU64
  split
  next h => exact ⟨fun _ => h, fun _ => rfl⟩
  next h => exact ⟨nofun, fun h' => absurd h' h⟩

/-- **The warning's integers are in range**: a percentage is computed below the limit only. -/
theorem warning_isSome {limitCents spentCents : ℕ} : (warning limitCents spentCents).isSome = true ↔
      limitCents * 80 < 2 ^ 64 ∧ (limitCents ≤ spentCents ∨ spentCents * 100 < 2 ^ 64) := by
  unfold warning mulU64
  by_cases hlimit : limitCents * 80 < 2 ^ 64
  · rw [if_pos hlimit, Option.bind_some]
    split
    next h =>
      by_cases hspent : spentCents * 100 < 2 ^ 64
      · rw [if_pos hspent, Option.bind_some, if_neg (by omega)]
        exact ⟨fun _ => ⟨hlimit, .inr hspent⟩, fun _ => rfl⟩
      · rw [if_neg hspent]
        refine ⟨nofun, fun h' => ?_⟩
        rcases h'.2 with hle | hlt
        · omega
        · exact absurd hlt hspent
    next h =>
      refine ⟨fun _ => ⟨hlimit, ?_⟩, fun _ => rfl⟩
      -- Below the threshold, 100 times what is spent is below 80 times the limit.
      omega
  · rw [if_neg hlimit]
    exact ⟨nofun, fun h' => absurd h'.1 hlimit⟩

theorem isSome_bind {α β : Type} {o : Option α} {p : Option β} : (o.bind fun _ => p).isSome = (o.isSome && p.isSome) := by
  cases o <;> rfl

/-- The warning of a call, from the day's total after it. -/
def warned (total : ℚ) : Option (Option Nat) :=
  match config.maxCostPerDayCents with
  | some limitCents => warning limitCents (toCents total)
  | none => some none

/-- **A call is recorded exactly when its integers fit.** -/
theorem checked_isSome_iff (h : Books day calls g)
    (config : CostGuardConfig) {c : Nat × LlmCall ℚ} (hday : dayOf c.1 = day) (hpos : 0 ≤ spent (calls ++ [c])) :
    (recordLlmCallChecked config c.1 c.2 g).isSome = true ↔ Fits config calls c := by
  have hentry : (g.modelTokens c.2.model).getD ⟨0, 0, zero⟩ = usageOf c.2.model calls := by rw [h.models, booked_getD]
  have htotal : (recordLlmCall config c.1 c.2 g).2.dailyCost.total = spent (calls ++ [c]) := (h.record config hday).total
  have hinputs : (usageOf c.2.model calls).inputTokens + c.2.inputTokens =
      tokensOf LlmCall.inputTokens c.2.model (calls ++ [c]) := by
    rw [tokensOf_concat, if_pos rfl]
    rfl
  have houtputs : (usageOf c.2.model calls).outputTokens + c.2.outputTokens =
      tokensOf LlmCall.outputTokens c.2.model (calls ++ [c]) := by
    rw [tokensOf_concat, if_pos rfl]
    rfl
  have hwarned : (warned config (spent (calls ++ [c]))).isSome = true ↔ ∀ limit, config.maxCostPerDayCents = some limit →
      limit * 80 < 2 ^ 64 ∧ (limit ≤ cents (spent (calls ++ [c])) ∨ cents (spent (calls ++ [c])) * 100 < 2 ^ 64) := by
    unfold warned
    cases config.maxCostPerDayCents with
    | none => simp
    | some limit =>
      have hiff : (warning limit (toCents (spent (calls ++ [c])))).isSome = true ↔
          limit * 80 < 2 ^ 64 ∧ (limit ≤ cents (spent (calls ++ [c])) ∨ cents (spent (calls ++ [c])) * 100 < 2 ^ 64) := by
        rw [warning_isSome, toCents_eq hpos]
        -- What is out of range is above every limit in range.
        split <;> omega
      exact ⟨fun hw l hl => Option.some.inj hl ▸ hiff.mp hw, fun hl => hiff.mpr (hl limit rfl)⟩
  unfold recordLlmCallChecked
  simp only [isSome_bind, hentry, htotal, Option.isSome_some, Bool.and_true, Bool.and_eq_true, addU64_isSome, hinputs,
    houtputs]
  exact ⟨fun h => ⟨hwarned.mp h.1, h.2.1, h.2.2⟩, fun h => ⟨hwarned.mpr h.limit, h.inputs, h.outputs⟩⟩

/-! ## All calls -/

theorem recordAll_concat (start : Nat) (calls : List (Nat × LlmCall ℚ)) (c : Nat × LlmCall ℚ) :
    recordAll config start (calls ++ [c]) = (recordAll config start calls).bind fun s =>
        (recordLlmCallChecked config c.1 c.2 s.2).map fun r => (s.1 ++ [r.1], r.2) := by
  unfold recordAll
  rw [List.foldlM_append]
  congr 1
  funext s
  simp only [List.foldlM_cons, List.foldlM_nil, bind_pure]

variable {config : CostGuardConfig}

theorem checked_eq {now : Nat} {call : LlmCall ℚ} {r : ℚ × CostGuard ℚ}
    (h : recordLlmCallChecked config now call g = some r) : r = recordLlmCall config now call g := by
  unfold recordLlmCallChecked at h
  simp only [Option.bind_eq_some_iff] at h
  obtain ⟨-, -, -, -, -, -, heq⟩ := h
  exact (Option.some.inj heq).symm

/-- **After all calls**, what they returned are their prices, and the books are kept. -/
theorem books_recordAll {costs : List ℚ}
    (hday : ∀ c ∈ calls, dayOf c.1 = day) (h : recordAll config start calls = some (costs, g)) :
    costs = calls.map (fun c => price c.2) ∧ Books day calls g := by
  induction calls using List.reverseRecOn generalizing costs g with
  | nil =>
    cases h
    exact ⟨rfl, books_new day start⟩
  | append_singleton calls c ih =>
    rw [recordAll_concat] at h
    obtain ⟨⟨costs', g'⟩, hbefore, h⟩ := Option.bind_eq_some_iff.mp h
    obtain ⟨r, hr, h⟩ := Option.map_eq_some_iff.mp h
    obtain ⟨rfl, hbooks⟩ := ih (fun d hd => hday d (List.mem_append_left _ hd)) hbefore
    obtain rfl := checked_eq hr
    cases h
    refine ⟨?_, hbooks.record config (hday c (List.mem_append_right calls List.mem_cons_self))⟩
    rw [List.map_append]
    congr 1
    exact congrArg (fun q => [q]) (cost_eq_price c.2)

theorem spent_nonneg (hpos : ∀ c ∈ calls, NonNegative c.2) : 0 ≤ spent calls := by
  refine List.sum_nonneg fun q hq => ?_
  obtain ⟨c, hc, rfl⟩ := List.mem_map.mp hq
  exact price_nonneg (hpos c hc)

/-- **All calls are recorded exactly when their integers fit.** -/
theorem recordAll_isSome_iff (hday : ∀ c ∈ calls, dayOf c.1 = day)
    (hpos : ∀ c ∈ calls, NonNegative c.2) : (recordAll config start calls).isSome = true ↔ AllFit config calls := by
  induction calls using List.reverseRecOn with
  | nil => exact ⟨fun _ before c after heq => absurd heq (by simp), fun _ => rfl⟩
  | append_singleton calls c ih =>
    have hday' : ∀ d ∈ calls, dayOf d.1 = day := fun d hd => hday d (List.mem_append_left _ hd)
    have hlast : dayOf c.1 = day := hday c (List.mem_append_right calls List.mem_cons_self)
    have hspent := spent_nonneg hpos
    have ih := ih hday' fun d hd => hpos d (List.mem_append_left _ hd)
    rw [recordAll_concat]
    constructor
    · intro h before d after heq
      obtain ⟨⟨costs, g⟩, hbefore, hmap⟩ := Option.bind_eq_some_iff.mp (Option.some_get h).symm
      rcases List.eq_nil_or_concat after with rfl | ⟨after, last, rfl⟩
      · obtain ⟨rfl, hc⟩ := List.append_inj' heq rfl
        obtain rfl := (List.cons.inj hc).1
        obtain ⟨r, hr, -⟩ := Option.map_eq_some_iff.mp hmap
        exact (checked_isSome_iff (books_recordAll hday' hbefore).2 config hlast hspent).mp (by rw [hr]; rfl)
      · have hsplit : calls = before ++ d :: after := by
          have heq : calls ++ [c] = (before ++ d :: after) ++ [last] := by
            rw [heq]
            simp
          exact (List.append_inj' heq rfl).1
        exact ih.mp (by rw [hbefore]; rfl) before d after hsplit
    · intro h
      have hcalls : AllFit config calls := fun before d after heq => h before d (after ++ [c]) (by rw [heq]; simp)
      obtain ⟨⟨costs, g⟩, hbefore⟩ := Option.isSome_iff_exists.mp (ih.mpr hcalls)
      rw [hbefore, Option.bind_some, Option.isSome_map]
      exact (checked_isSome_iff (books_recordAll hday' hbefore).2 config hlast hspent).mpr (h calls c [] rfl)

/-- **The books of a day are exact** when all integers are in range, and only then; and more never counts less where
it is in range. -/
theorem accounts_exact_iff (config : CostGuardConfig) (start day : Nat) (calls : List (Nat × LlmCall ℚ))
    (hday : ∀ c ∈ calls, dayOf c.1 = day) (hpos : ∀ c ∈ calls, NonNegative c.2) (a b : ℚ) (ha : 0 ≤ a)
    (hab : a ≤ b) :
    (Exact config start calls ∧ toCents a ≤ toCents b) ↔ (AllFit config calls ∧ InOrder a b) := by
  refine and_congr ?_ (toCents_le_iff ha hab)
  rw [← recordAll_isSome_iff hday hpos, Option.isSome_iff_exists]
  constructor
  · rintro ⟨costs, g, h, -⟩
    exact ⟨(costs, g), h⟩
  · rintro ⟨⟨costs, g⟩, h⟩
    obtain ⟨hcosts, hbooks⟩ := books_recordAll hday h
    have hsum : costs.sum = spent calls := congrArg List.sum hcosts
    refine ⟨costs, g, h, hcosts, fun now hnow => ?_, ?_, fun m hm => ?_⟩
    · rw [hsum, ← hbooks.total]
      unfold dailySpend
      split
      next hother =>
        -- On another day than the calls, if there are any.
        have hnil : calls = [] := by
          by_contra hne
          obtain ⟨c, hc⟩ := List.exists_mem_of_ne_nil calls hne
          exact hother ((hnow c hc).symm.trans ((hday c hc).trans (hbooks.date hne).symm))
        rw [hbooks.total, hnil]
        show (dec 0 0 : ℚ) = 0
        rw [dec_nat, Nat.cast_zero]
      next => rfl
    · rw [hsum, ← sum_models (calls.map fun c => c.2.model).toFinset fun c hc =>
        List.mem_toFinset.mpr (List.mem_map_of_mem hc)]
      refine Finset.sum_congr rfl fun m hm => ?_
      rw [hbooks.models, booked, if_pos (List.mem_toFinset.mp hm)]
      rfl
    · rw [hbooks.models, booked, if_neg hm]

/-- A call that reaches the limit of a dollar, the day after the guard was made. -/
theorem dollar_is_exact :
    Exact dollarConfig 0 [(dayNanos + 5, dollarCall)] ∧ toCents (1 : ℚ) ≤ toCents (2 : ℚ) := by
  refine (accounts_exact_iff dollarConfig 0 1 [(dayNanos + 5, dollarCall)] (by decide) ?_ 1 2 (by norm_num) (by norm_num)).mpr ⟨?_, ?_⟩
  · intro c hc
    obtain rfl := List.mem_singleton.mp hc
    exact ⟨fun rates h => by cases h; decide, by decide, by decide⟩
  · intro before c after heq
    cases before with
    | nil =>
      obtain rfl := (List.cons.inj heq).1
      exact ⟨fun limit h => by cases h; decide +kernel, by decide +kernel, by decide +kernel⟩
    | cons b bs => simp at heq
  · exact .inl (by decide +kernel)

/-! ## Amounts and limits out of range -/

/-- The largest limit, and an amount that is too large for the cents. -/
theorem out_of_range :
    ¬Exact ⟨some (2 ^ 64 - 1), none⟩ 0 [(5, dollarCall)] ∧ ¬toCents (1 : ℚ) ≤ toCents (2 ^ 64 : ℚ) := by
  constructor
  · rintro ⟨costs, g, h, -⟩
    have hnone : (recordAll ⟨some (2 ^ 64 - 1), none⟩ 0 [(5, dollarCall)]).isNone = true := by decide
    rw [h] at hnone
    cases hnone
  · decide +kernel

end Freeclawdia.CostGuard
