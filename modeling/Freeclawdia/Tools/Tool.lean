import Freeclawdia.Rust.Json
import Freeclawdia.Tools.RateLimiter

/-!
# `Tools.Tool` — what the agent reads off a tool

The part of the `Tool` trait (`src/tools/tool.rs`) that decides approval, redaction and rate limiting. Running
a tool is the environment's business (`Agent.Env`).
-/

namespace Freeclawdia

open Rust

/-- How much approval a specific tool invocation requires. -/
inductive ApprovalRequirement
  | never
  | unlessAutoApproved
  | always
deriving DecidableEq

/-- Does this invocation require approval where auto-approval is irrelevant? -/
def ApprovalRequirement.isRequired : ApprovalRequirement → Bool
  | .never => false
  | _ => true

/-- Approval context for autonomous tool execution: the tools allowed even where approval is always needed. -/
inductive ApprovalContext
  | autonomous (allowedTools : List String)

namespace ApprovalContext

/-- Is a tool invocation blocked in this context? -/
def isBlocked (ctx : ApprovalContext) (toolName : String) (requirement : ApprovalRequirement) : Bool :=
  match ctx with
  | autonomous allowedTools =>
    match requirement with
    | .never => false
    | .unlessAutoApproved => false
    | .always => !decide (toolName ∈ allowedTools)

/-- The same for an optional context; without one every tool that needs approval is blocked. -/
def isBlockedOrDefault (context : Option ApprovalContext) (toolName : String)
    (requirement : ApprovalRequirement) : Bool :=
  match context with
  | some ctx => ctx.isBlocked toolName requirement
  | none => requirement.isRequired

end ApprovalContext

/-- Error type for tool execution (`tools::tool::ToolError`). -/
inductive Tools.ToolError
  | invalidParameters (reason : String)
  | executionFailed (reason : String)
  | notAuthorized (reason : String)
  | externalService (reason : String)
  | timeout (secs : Nat)
deriving DecidableEq

/-- A required string parameter. -/
def requireStr (params : Json) (name : String) : Except Tools.ToolError String :=
  match (params.get name).bind Json.asStr with
  | some s => .ok s
  | none => .error (.invalidParameters ("missing '" ++ name ++ "' parameter"))

/-- A registered tool, as seen at one moment. -/
structure Tool where
  description : String
  sensitiveParams : List String
  requiresApproval : Json → ApprovalRequirement
  rateLimitConfig : Option ToolRateLimitConfig := none

/-- Replace the value of every sensitive key that is present by `[REDACTED]`. -/
def redactParams (params : Json) (sensitive : List String) : Json :=
  match params with
  | .object fields =>
    .object (sensitive.foldl
      (fun fs key =>
        if Json.hasKey key fs then Json.insertField key (.string "[REDACTED]") fs else fs)
      fields)
  | other => other

/-- Put the original values of the sensitive keys back into a hook's answer. -/
def restoreSensitive (original parsed : Json) (sensitive : List String) : Json :=
  match parsed with
  | .object fields =>
    .object (sensitive.foldl
      (fun fs key =>
        match original.get key with
        | some value => Json.insertField key value fs
        | none => fs)
      fields)
  | other => other

/-- A restored key has its original value. -/
theorem get_restoreSensitive {original : Json} {fields : List (String × Json)} {sensitive : List String}
    {key : String} {value : Json} (hkey : key ∈ sensitive) (hvalue : original.get key = some value) :
    (restoreSensitive original (.object fields) sensitive).get key = some value := by
  show (Json.object (sensitive.foldl _ fields)).get key = some value
  -- the last insertion for the key stands, and every insertion for it has the same value
  induction sensitive using List.reverseRecOn with
  | nil => cases hkey
  | append_singleton keys k ih =>
    rw [List.foldl_append, List.foldl_cons, List.foldl_nil]
    by_cases hk : key = k
    · subst hk
      rw [hvalue]
      exact Json.get_insertField_self _
    · have hmem : key ∈ keys := by
        rcases List.mem_append.mp hkey with h | h
        · exact h
        · exact absurd (List.mem_singleton.mp h) hk
      cases horig : original.get k with
      | none => exact ih hmem
      | some v =>
        show (Json.object (Json.insertField k v _)).get key = some value
        rw [Json.get_insertField_ne hk]
        exact ih hmem

/-- **Restoring changes nothing exactly when nothing was lost**: an object keeps every original value of a
    sensitive key, and what is not an object is left alone. -/
theorem restoreSensitive_eq_self_iff (original parsed : Json) (sensitive : List String) :
    restoreSensitive original parsed sensitive = parsed ↔
      ∀ fields, parsed = .object fields → ∀ key ∈ sensitive, ∀ value, original.get key = some value →
        parsed.get key = some value := by
  constructor
  · rintro hsame fields rfl key hkey value hvalue
    rw [← hsame]
    exact get_restoreSensitive hkey hvalue
  · intro hkeeps
    cases parsed with
    | object fields =>
      show Json.object (sensitive.foldl _ fields) = .object fields
      congr 1
      have hkeeps' := hkeeps fields rfl
      induction sensitive with
      | nil => rfl
      | cons k ks ih =>
        rw [List.foldl_cons]
        have hfirst : (match original.get k with
            | some value => Json.insertField k value fields
            | none => fields) = fields := by
          cases horig : original.get k with
          | none => rfl
          | some v => exact Json.insertField_of_get (hkeeps' k List.mem_cons_self v horig)
        rw [hfirst]
        refine ih (fun f hf key hkey => hkeeps f hf key (List.mem_cons_of_mem k hkey)) ?_
        exact fun key hkey => hkeeps' key (List.mem_cons_of_mem k hkey)
    | null => rfl
    | bool b => rfl
    | number n => rfl
    | string t => rfl
    | array items => rfl

/-- The original parameters have all their own values. -/
theorem restoreSensitive_self (original : Json) (sensitive : List String) :
    restoreSensitive original original sensitive = original := by
  rw [restoreSensitive_eq_self_iff]
  exact fun _ _ _ _ _ hvalue => hvalue

end Freeclawdia
