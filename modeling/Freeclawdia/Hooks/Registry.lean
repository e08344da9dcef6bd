import Freeclawdia.Rust.Json
import Freeclawdia.Lib.StableSort

/-!
# `Hooks.Registry` — lifecycle hooks and the registry that runs them

Hook events, outcomes and `HookRegistry::run` (`src/hooks/hook.rs`, `src/hooks/registry.rs`). A hook's own
code is outside the agent: a hook is a function of the event and the world that answers, fails or times
out. What the registry makes of the answers is modelled in full: a rejection stops the chain, a
modification is passed on, a failure counts only when the hook fails closed.

The agent matches on `Ok(HookOutcome::Continue ..)` and treats every other `Ok` as "go on", so it matters
that the registry never hands a rejection through as `Ok` (`run_ne_reject`).
-/

namespace Freeclawdia

open Rust

/-- Points in the agent lifecycle where hooks can be attached. -/
inductive HookPoint
  | beforeInbound
  | beforeToolCall
  | beforeOutbound
  | onSessionStart
  | onSessionEnd
  | transformResponse
deriving DecidableEq

/-- Contextual data carried with each hook invocation. -/
inductive HookEvent
  | inbound (userId channel content : String) (threadId : Option String)
  | toolCall (toolName : String) (parameters : Json) (userId context : String)
  | outbound (userId channel content : String) (threadId : Option String)
  | sessionStart (userId sessionId : String)
  | sessionEnd (userId sessionId : String)
  | responseTransform (userId threadId response : String)

/-- The result of executing a hook. -/
inductive HookOutcome
  | continue (modified : Option String)
  | reject (reason : String)

/-- How to handle hook execution failures. -/
inductive HookFailureMode
  | failOpen
  | failClosed

/-- Hook execution errors; the timeout is kept as the text it is displayed with. -/
inductive HookError
  | executionFailed (reason : String)
  | timeout (timeout : String)
  | rejected (reason : String)

/-- `Display` of a hook error. -/
def HookError.display : HookError → String
  | executionFailed reason => "Hook execution failed: " ++ reason
  | timeout t => "Hook timed out after " ++ t
  | rejected reason => "Hook rejected: " ++ reason

namespace HookEvent

/-- The hook point an event corresponds to. -/
def hookPoint : HookEvent → HookPoint
  | inbound .. => .beforeInbound
  | toolCall .. => .beforeToolCall
  | outbound .. => .beforeOutbound
  | sessionStart .. => .onSessionStart
  | sessionEnd .. => .onSessionEnd
  | responseTransform .. => .transformResponse

/-- Apply a modification string to the event's primary content field; `fromStr` is
    `serde_json::from_str`. -/
def applyModification (fromStr : String → Option Json) (modified : String) : HookEvent → HookEvent
  | inbound u c _ t => inbound u c modified t
  | outbound u c _ t => outbound u c modified t
  | toolCall n p u c => toolCall n ((fromStr modified).getD p) u c
  | responseTransform u t _ => responseTransform u t modified
  | e => e

/-- The primary content string of an event; `toText` is `serde_json::to_string`. -/
def extractContent (toText : Json → String) : HookEvent → String
  | inbound _ _ content _ => content
  | outbound _ _ content _ => content
  | toolCall _ parameters _ _ => toText parameters
  | responseTransform _ _ response => response
  | sessionStart _ sessionId => sessionId
  | sessionEnd _ sessionId => sessionId

end HookEvent

/-- What a hook does with an event. -/
inductive HookRun
  | answered (outcome : HookOutcome)
  | failed (error : HookError)
  | timedOut (timeout : String)

/-- A registered hook over a world `W`. -/
structure Hook (W : Type) where
  name : String
  failureMode : HookFailureMode
  execute : HookEvent → W → HookRun × W

namespace HookRegistry

variable {W : Type}

/-- Run a list of hooks in order over the current event. -/
def runList (fromStr : String → Option Json) :
    List (Hook W) → HookEvent → W → Except HookError HookEvent × W
  | [], event, w => (.ok event, w)
  | hook :: rest, event, w =>
    match hook.execute event w with
    | (.answered (.reject reason), w) => (.error (.rejected reason), w)
    | (.answered (.continue (some value)), w) =>
      runList fromStr rest (event.applyModification fromStr value) w
    | (.answered (.continue none), w) => runList fromStr rest event w
    | (.failed err, w) =>
      match hook.failureMode with
      | .failOpen => runList fromStr rest event w
      | .failClosed =>
        (.error (.executionFailed ("Hook '" ++ hook.name ++ "' failed: " ++ err.display)), w)
    | (.timedOut t, w) =>
      match hook.failureMode with
      | .failOpen => runList fromStr rest event w
      | .failClosed => (.error (.timeout t), w)

/-- `HookRegistry::run` over the hooks registered for the event's point. The final outcome is decided by
    comparing the content after the chain with the content before it. -/
def run (fromStr : String → Option Json) (toText : Json → String) (matching : List (Hook W))
    (event : HookEvent) (w : W) : Except HookError HookOutcome × W :=
  match matching with
  | [] => (.ok (.continue none), w)
  | _ =>
    match runList fromStr matching event w with
    | (.error e, w) => (.error e, w)
    | (.ok event', w) =>
      if event'.extractContent toText ≠ event.extractContent toText then
        (.ok (.continue (some (event'.extractContent toText))), w)
      else (.ok (.continue none), w)

/-- The registry turns every rejection into an error: an `Ok` answer is a `Continue`. -/
theorem run_ne_reject (fromStr : String → Option Json) (toText : Json → String)
    (matching : List (Hook W)) (event : HookEvent) (w : W) (reason : String) :
    (run fromStr toText matching event w).1 ≠ .ok (.reject reason) := by
  intro h
  unfold run at h
  split at h
  · cases h
  · split at h
    · cases h
    · split at h <;> cases h

end HookRegistry

/-! ## Registering hooks, and the rules of a bundle

`register_with_priority`, `register`, `unregister` and the choice of the hooks an event is for
(`hooks/registry.rs`), and `RuleHook`, the hook a declarative rule is compiled to (`hooks/bundled.rs`). Compiled
regular expressions are given by what they match and replace. -/

/-- A registered hook with the points it is for and its priority. -/
structure HookEntry (W : Type) where
  hook : Hook W
  points : List HookPoint
  priority : UInt32

/-- What the registry sorts by. -/
def HookEntry.key {W : Type} (e : HookEntry W) : Nat := e.priority.toNat

namespace HookRegistry

variable {W : Type}

/-- The entries with the first one of this name replaced, if there is one. -/
def replaceNamed (entry : HookEntry W) : List (HookEntry W) → Option (List (HookEntry W))
  | [] => none
  | e :: es =>
    if e.hook.name = entry.hook.name then some (entry :: es)
    else (replaceNamed entry es).map fun es => e :: es

/-- Register a hook with a specific priority. -/
def registerWithPriority (hooks : List (HookEntry W)) (entry : HookEntry W) : List (HookEntry W) :=
  sortByKey HookEntry.key ((replaceNamed entry hooks).getD (hooks ++ [entry]))

/-- Register a hook with default priority (100). -/
def register (hooks : List (HookEntry W)) (hook : Hook W) (points : List HookPoint) : List (HookEntry W) :=
  registerWithPriority hooks ⟨hook, points, 100⟩

/-- Unregister a hook by name: what is left, and whether it was found. -/
def unregister (hooks : List (HookEntry W)) (name : String) : List (HookEntry W) × Bool :=
  let kept := hooks.filter fun e => e.hook.name ≠ name
  (kept, kept.length < hooks.length)

def list (hooks : List (HookEntry W)) : List String := hooks.map fun e => e.hook.name

/-- The hooks registered for a point, in the order of the registry. -/
def matching (hooks : List (HookEntry W)) (point : HookPoint) : List (Hook W) :=
  (hooks.filter fun e => e.points.contains point).map HookEntry.hook

/-- `HookRegistry::run`. -/
def runRegistered (fromStr : String → Option Json) (toText : Json → String) (hooks : List (HookEntry W))
    (event : HookEvent) (w : W) : Except HookError HookOutcome × W :=
  run fromStr toText (matching hooks event.hookPoint) event w

/-- The calls that change the registry. -/
inductive Change (W : Type)
  | registerWithPriority (entry : HookEntry W)
  | register (hook : Hook W) (points : List HookPoint)
  | unregister (name : String)

def apply (hooks : List (HookEntry W)) : Change W → List (HookEntry W)
  | .registerWithPriority entry => registerWithPriority hooks entry
  | .register hook points => register hooks hook points
  | .unregister name => (unregister hooks name).1

/-- The registry after some calls, from an empty one. -/
def after (changes : List (Change W)) : List (HookEntry W) := changes.foldl apply []

end HookRegistry

/-! ## Rules of a bundle -/

/-- A compiled regular expression. -/
structure CompiledRegex where
  isMatch : String → Bool
  replaceAll : (text replacement : String) → String

structure CompiledReplacement where
  regex : CompiledRegex
  replacement : String

/-- Runtime hook compiled from a rule. -/
structure RuleHook where
  name : String
  points : List HookPoint
  failureMode : HookFailureMode
  whenRegex : Option CompiledRegex
  rejectReason : Option String
  replacements : List CompiledReplacement
  prepend : Option String
  append : Option String

namespace RuleHook

/-- The replacements one after the other, then what goes before and behind. -/
def rewrite (rule : RuleHook) (content : String) : String :=
  let replaced := rule.replacements.foldl (fun text r => r.regex.replaceAll text r.replacement) content
  rule.prepend.getD "" ++ replaced ++ rule.append.getD ""

/-- `RuleHook::execute`; `extract_primary_content` is the registry's `extract_content`. -/
def execute (toText : Json → String) (rule : RuleHook) (event : HookEvent) : HookOutcome :=
  let content := event.extractContent toText
  if rule.whenRegex.any fun guard => !guard.isMatch content then .continue none
  else
    match rule.rejectReason with
    | some reason => .reject reason
    | none =>
      let modified := rule.rewrite content
      if modified ≠ content then .continue (some modified) else .continue none

/-- The rule as a hook: it always answers. -/
def toHook {W : Type} (toText : Json → String) (rule : RuleHook) : Hook W where
  name := rule.name
  failureMode := rule.failureMode
  execute event w := (.answered (rule.execute toText event), w)

end RuleHook
end Freeclawdia
