import Mathlib.Algebra.Group.Nat.Defs
import Freeclawdia.Rust.Str
import Mathlib.Logic.Function.Basic

/-!
# `Agent.CostGuard` — what a token costs, and limits on spending

`llm/costs.rs`. Amounts are `rust_decimal::Decimal`s; what the program uses of that type is the class here.
-/

namespace Freeclawdia

open Rust

/-- `rust_decimal::Decimal`. `dec m s` is the literal `m` with `s` decimals. -/
class DecimalArith (D : Type) where
  dec : (mantissa scale : Nat) → D
  add : D → D → D
  mul : D → D → D
  div : D → D → D
  isZero : D → Bool
  trunc : D → D
  display : D → String

namespace Costs

open DecimalArith

variable {D : Type} [DecimalArith D]

/-- `Decimal::ZERO`. -/
def zero : D := dec 0 0

/-- The known models, with the cost of an input and of an output token. -/
def knownModels : List (List String × D × D) := [
  (["gpt-5.3-codex", "gpt-5.3-codex-spark"], dec 2 6, dec 8 6),
  (["gpt-5.2-codex", "gpt-5.2-pro", "gpt-5.2"], dec 2 6, dec 8 6),
  (["gpt-5.1-codex", "gpt-5.1-codex-max", "gpt-5.1"], dec 2 6, dec 8 6),
  (["gpt-5.1-codex-mini"], dec 3 7, dec 12 7),
  (["gpt-5-codex", "gpt-5-pro", "gpt-5"], dec 2 6, dec 8 6),
  (["gpt-5-mini", "gpt-5-nano"], dec 3 7, dec 12 7),
  (["gpt-4.1"], dec 2 6, dec 8 6),
  (["gpt-4.1-mini"], dec 4 7, dec 16 7),
  (["gpt-4.1-nano"], dec 1 7, dec 4 7),
  (["gpt-4o", "gpt-4o-2024-11-20", "gpt-4o-2024-08-06"], dec 25 7, dec 1 5),
  (["gpt-4o-mini", "gpt-4o-mini-2024-07-18"], dec 15 8, dec 6 7),
  (["gpt-4-turbo", "gpt-4-turbo-2024-04-09"], dec 1 5, dec 3 5),
  (["gpt-4", "gpt-4-0613"], dec 3 5, dec 6 5),
  (["gpt-3.5-turbo", "gpt-3.5-turbo-0125"], dec 5 7, dec 15 7),
  (["o3"], dec 2 6, dec 8 6),
  (["o3-mini", "o3-mini-2025-01-31"], dec 11 7, dec 44 7),
  (["o4-mini"], dec 11 7, dec 44 7),
  (["o1", "o1-2024-12-17"], dec 15 6, dec 6 5),
  (["o1-mini", "o1-mini-2024-09-12"], dec 3 6, dec 12 6),
  (["claude-opus-4-6", "claude-opus-4-5", "claude-opus-4-5-20251101", "claude-opus-4-1",
    "claude-opus-4-1-20250805", "claude-opus-4-0", "claude-opus-4-20250514", "claude-3-opus-20240229",
    "claude-3-opus-latest"], dec 15 6, dec 75 6),
  (["claude-sonnet-4-6", "claude-sonnet-4-5", "claude-sonnet-4-5-20250929", "claude-sonnet-4-0",
    "claude-sonnet-4-20250514", "claude-3-7-sonnet-20250219", "claude-3-7-sonnet-latest",
    "claude-3-5-sonnet-20241022", "claude-3-5-sonnet-latest"], dec 3 6, dec 15 6),
  (["claude-haiku-4-5", "claude-haiku-4-5-20251001", "claude-3-5-haiku-20241022",
    "claude-3-5-haiku-latest"], dec 8 7, dec 4 6),
  (["claude-3-haiku-20240307"], dec 25 8, dec 125 8)]

/-- Heuristic to detect local and self-hosted models. -/
def isLocalModel (modelId : String) : Bool :=
  let lower := toLowercase modelId
  (["llama", "mistral", "mixtral", "phi", "gemma", "qwen", "codellama", "deepseek", "starcoder", "vicuna", "yi"].any
    (startsWith lower)) || contains lower ":latest" || contains lower ":instruct"

/-- What follows the last slash. -/
def afterLastSlash (s : String) : String := String.ofList (s.toList.reverse.takeWhile (· ≠ '/')).reverse

/-- Look up known per-token costs for a model by its identifier. -/
def modelCost (modelId : String) : Option (D × D) :=
  if endsWith modelId ":free" || modelId = "openrouter/free" || modelId = "free" then some (zero, zero)
  else
    -- strip provider prefixes
    let id := afterLastSlash modelId
    match knownModels.find? fun row => row.1.contains id with
    | some row => some row.2
    | none => if isLocalModel id then some (zero, zero) else none

/-- Default cost for unknown models. -/
def defaultCost : D × D := (dec 25 7, dec 1 5)

end Costs

/-! ## Limits on spending and on calls

`agent/cost_guard.rs`. The clock is a count of nanoseconds; the day of a time is its UTC day. -/

/-- Per-model token usage counters. -/
structure ModelTokens (D : Type) where
  inputTokens : Nat
  outputTokens : Nat
  cost : D

/-- The running total, and the day it belongs to. -/
structure DailyCost (D : Type) where
  total : D
  resetDate : Nat

/-- Tracks costs and action rates. -/
structure CostGuard (D : Type) where
  dailyCost : DailyCost D
  actionWindow : List Nat
  budgetExceeded : Bool
  modelTokens : String → Option (ModelTokens D)

namespace CostGuard

open Costs DecimalArith

variable {D : Type} [DecimalArith D]

/-- Configuration for cost guardrails. -/
structure CostGuardConfig where
  maxCostPerDayCents : Option Nat
  maxActionsPerHour : Option Nat

/-- Error returned when a cost limit is exceeded. -/
inductive CostLimitExceeded
  | dailyBudget (spentCents limitCents : Nat)
  | hourlyRate (actions limit : Nat)
  deriving DecidableEq

/-- The length of a day. -/
def dayNanos : Nat := 86400 * 1000000000

/-- The length of an hour. -/
def hourNanos : Nat := 3600 * 1000000000

/-- `Utc::now().date_naive()`. -/
def dayOf (now : Nat) : Nat := now / dayNanos

/-- Convert an amount in USD to whole cents (truncated). -/
def toCents (usd : D) : Nat := (parseUsize (display (trunc (mul usd (dec 100 0))))).getD 0

def new (now : Nat) : CostGuard D := ⟨⟨zero, dayOf now⟩, [], false, fun _ => none⟩

variable (config : CostGuardConfig)

/-- Check whether the next action is allowed under the configured limits. -/
def checkAllowed (now : Nat) (g : CostGuard D) :
    Except CostLimitExceeded Unit × CostGuard D :=
  -- fast path: the budget is already blown
  if g.budgetExceeded then
    (.error (.dailyBudget (toCents g.dailyCost.total) (config.maxCostPerDayCents.getD 0)), g)
  else
    match config.maxCostPerDayCents with
    | some limitCents =>
      if limitCents ≤ toCents g.dailyCost.total then
        (.error (.dailyBudget (toCents g.dailyCost.total) limitCents), { g with budgetExceeded := true })
      else checkRate config now g
    | none => checkRate config now g
where
  /-- The hourly rate: expired entries are drained first. -/
  checkRate (config : CostGuardConfig) (now : Nat) (g : CostGuard D) : Except CostLimitExceeded Unit × CostGuard D :=
    match config.maxActionsPerHour with
    | none => (.ok (), g)
    | some limit =>
        let window := g.actionWindow.dropWhile fun t => t < now - hourNanos
        let g := { g with actionWindow := window }
        if limit ≤ window.length then (.error (.hourlyRate window.length limit), g) else (.ok (), g)

/-- The arguments of `record_llm_call`. -/
structure LlmCall (D : Type) where
  model : String
  inputTokens : Nat
  outputTokens : Nat
  cacheReadInputTokens : Nat
  cacheCreationInputTokens : Nat
  cacheReadDiscount : D
  cacheWriteMultiplier : D
  costPerToken : Option (D × D)

/-- What a call costs. -/
def LlmCall.cost (call : LlmCall D) : D :=
  let rates := call.costPerToken.getD ((modelCost call.model).getD defaultCost)
  -- u32::saturating_add and u32::saturating_sub
  let cachedTotal := Nat.min (call.cacheReadInputTokens + call.cacheCreationInputTokens) (2 ^ 32 - 1)
  let uncachedInput := call.inputTokens - cachedTotal
  let effectiveDiscount := if isZero call.cacheReadDiscount then dec 1 0 else call.cacheReadDiscount
  let cacheReadCost := div (mul rates.1 (dec call.cacheReadInputTokens 0)) effectiveDiscount
  let cacheWriteCost := mul (mul rates.1 (dec call.cacheCreationInputTokens 0)) call.cacheWriteMultiplier
  add (add (add (mul rates.1 (dec uncachedInput 0)) cacheReadCost) cacheWriteCost)
    (mul rates.2 (dec call.outputTokens 0))

/-- The daily total after a cost: it starts again on a new day. -/
def addCost (now : Nat) (cost : D) (g : CostGuard D) : CostGuard D :=
  let fresh : Bool := dayOf now ≠ g.dailyCost.resetDate
  let total := add (if fresh then zero else g.dailyCost.total) cost
  { g with
    dailyCost := ⟨total, dayOf now⟩
    budgetExceeded :=
      match config.maxCostPerDayCents with
      | some limitCents => if limitCents ≤ toCents total then true else if fresh then false else g.budgetExceeded
      | none => if fresh then false else g.budgetExceeded }

/-- Record a completed LLM action: its token costs and the action timestamp. -/
def recordLlmCall (now : Nat) (call : LlmCall D) (g : CostGuard D) : D × CostGuard D :=
  let cost := call.cost
  let g := addCost config now cost g
  let entry := (g.modelTokens call.model).getD ⟨0, 0, zero⟩
  let entry := ⟨entry.inputTokens + call.inputTokens, entry.outputTokens + call.outputTokens, add entry.cost cost⟩
  (cost, { g with
    actionWindow := g.actionWindow ++ [now]
    modelTokens := Function.update g.modelTokens call.model (some entry) })

/-! ### Integers in range -/

/-- `u64` multiplication. None is an overflow. -/
def mulU64 (a b : Nat) : Option Nat := if a * b < 2 ^ 64 then some (a * b) else none

/-- `u64` addition. None is an overflow. -/
def addU64 (a b : Nat) : Option Nat := if a + b < 2 ^ 64 then some (a + b) else none

/-- The percentage of the limit that is warned of, if any. None is an overflow or a division by zero. -/
def warning (limitCents spentCents : Nat) : Option (Option Nat) :=
  (mulU64 limitCents 80).bind fun product =>
    if product / 100 ≤ spentCents ∧ spentCents < limitCents then
      (mulU64 spentCents 100).bind fun scaled => if limitCents = 0 then none else some (some (scaled / limitCents))
    else some none

/-- `record_llm_call` with the integers it computes for its warnings and for the tokens of the model. None is an
overflow or a division by zero. -/
def recordLlmCallChecked (now : Nat) (call : LlmCall D) (g : CostGuard D) :
    Option (D × CostGuard D) :=
  let result := recordLlmCall config now call g
  let entry := (g.modelTokens call.model).getD ⟨0, 0, zero⟩
  let warned := match config.maxCostPerDayCents with
    | some limitCents => warning limitCents (toCents result.2.dailyCost.total)
    | none => some none
  warned.bind fun _ =>
    (addU64 entry.inputTokens call.inputTokens).bind fun _ =>
      (addU64 entry.outputTokens call.outputTokens).bind fun _ => some result

/-- Current daily spend in USD. -/
def dailySpend (now : Nat) (g : CostGuard D) : D :=
  if dayOf now ≠ g.dailyCost.resetDate then zero else g.dailyCost.total

/-! ## Runs -/

/-- A guard, the time, and what was recorded so far, oldest first. -/
structure System (D : Type) where
  guard : CostGuard D
  now : Nat
  recorded : List (Nat × D)

/-- What callers do with a guard. -/
inductive Action (D : Type)
  | check
  | record (call : LlmCall D)

/-- A guard that was made at time `now`. -/
def init (now : Nat) : System D := ⟨new now, now, []⟩

/-- One call, at a time that is not before the last one. -/
def step (s : System D) : Nat × Action D → Option (System D)
  | (now, action) =>
    if now < s.now then none
    else
      match action with
      | .check => some { s with guard := (checkAllowed config now s.guard).2, now := now }
      | .record call =>
        let result := recordLlmCall config now call s.guard
        some ⟨result.2, now, s.recorded ++ [(now, result.1)]⟩

/-- The sum of the costs recorded on a day. -/
def spentOn (day : Nat) (recorded : List (Nat × D)) : D :=
  ((recorded.filter fun r => dayOf r.1 = day).map Prod.snd).foldl add zero

end CostGuard
end Freeclawdia
