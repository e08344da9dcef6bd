import Freeclawdia.Llm.Failover

/-!
# `Llm.Chain` — which model is active

`set_model` and `active_model_name` of the providers that `build_provider_chain` (`llm/mod.rs`) puts around each
other: most decorators hand both on to the provider inside, `SmartRoutingProvider` to its primary one. Serving a call
only changes which provider a `FailoverProvider` used last.
-/

namespace Freeclawdia.ModelSwitch

open Failover (LlmError)

/-! ## A list of providers -/

/-- A provider as `FailoverProvider` sees it: its active model, and why it refuses to switch to a model, if it does. -/
structure Provider where
  activeModelName : String
  refusal : String → Option LlmError

def Provider.setModel (p : Provider) (model : String) : Except LlmError Unit × Provider :=
  match p.refusal model with
  | some e => (.error e, p)
  | none => (.ok (), { p with activeModelName := model })

/-- `FailoverProvider::set_model`. -/
def setModel (model : String) : List Provider → Except LlmError Unit × List Provider
  | [] => (.ok (), [])
  | p :: ps =>
    match p.setModel model with
    | (.error e, p) => (.error e, p :: ps)
    | (.ok (), p) => ((setModel model ps).1, p :: (setModel model ps).2)

/-! ## Chains of decorators -/

inductive Chain
  /-- `NearAiChatProvider`. -/
  | nearAi (activeModel : String)
  /-- `RigAdapter`. -/
  | rig (modelName : String)
  | retry (inner : Chain)
  | smartRouting (primary cheap : Chain)
  | failover (fallbackUsed : Bool) (primary fallback : Chain)
  | circuitBreaker (inner : Chain)
  | cached (inner : Chain)
  | recording (inner : Chain)

namespace Chain

def switchingNotSupported (modelName : String) : LlmError :=
  .requestFailed modelName
    "Runtime model switching not supported for rig-core providers. Restart with a different model configured."

def activeModelName : Chain → String
  | nearAi activeModel => activeModel
  | rig modelName => modelName
  | retry inner | circuitBreaker inner | cached inner | recording inner => inner.activeModelName
  | smartRouting primary _ => primary.activeModelName
  | failover fallbackUsed primary fallback => if fallbackUsed then fallback.activeModelName else primary.activeModelName

def setModel (model : String) : Chain → Except LlmError Unit × Chain
  | nearAi _ => (.ok (), nearAi model)
  | rig modelName => (.error (switchingNotSupported modelName), rig modelName)
  | retry inner => (inner.setModel model).map id retry
  | circuitBreaker inner => (inner.setModel model).map id circuitBreaker
  | cached inner => (inner.setModel model).map id cached
  | recording inner => (inner.setModel model).map id recording
  | smartRouting primary cheap => (primary.setModel model).map id (smartRouting · cheap)
  | failover used primary fallback =>
    match primary.setModel model with
    | (.error e, primary) => (.error e, failover used primary fallback)
    | (.ok (), primary) => (fallback.setModel model).map id (failover used primary)

/-- A call was served; the answer says whether by the fallback. -/
def serve (byFallback : Bool) : Chain → Chain
  | failover _ primary fallback => failover byFallback (primary.serve byFallback) (fallback.serve byFallback)
  | retry inner => retry (inner.serve byFallback)
  | circuitBreaker inner => circuitBreaker (inner.serve byFallback)
  | cached inner => cached (inner.serve byFallback)
  | recording inner => recording (inner.serve byFallback)
  | smartRouting primary cheap => smartRouting (primary.serve byFallback) cheap
  | c => c

end Chain
end Freeclawdia.ModelSwitch
