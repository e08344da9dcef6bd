import Freeclawdia.Extensions.Manager
import Freeclawdia.Extensions.WasmTools
import Freeclawdia.Lib.Runs

/-!
# `Correctness.CredentialAuthority` — credential mappings against the tools that declare them

The shared credential registry should hold the mappings of the WASM tools now registered, no more and no fewer.
Mappings are added by one operation and revoked by another, which looks at a file; this module says for each
operation when the two agree, and what follows for whole sequences of them.
-/

namespace Freeclawdia.Extensions

open Rust CapabilitiesSchema

/-! ## The registry and its tools -/

variable (registry : ToolRegistry)

/-- A registered tool declares the mapping. -/
def Declared (m : CredentialMapping) : Prop :=
  ∃ name tool, registry.get name = some tool ∧ m ∈ tool.credentials

/-- A registered tool of another name declares it. -/
def DeclaredElsewhere (name : String) (m : CredentialMapping) : Prop :=
  ∃ other tool, other ≠ name ∧ registry.get other = some tool ∧ m ∈ tool.credentials

/-- The shared registry, where there is one, holds exactly the declared mappings. -/
def Exact : Prop :=
  ∀ cr, registry.credentialRegistry = some cr → ∀ m, m ∈ cr ↔ Declared registry m

theorem Declared.cases {registry : ToolRegistry} {m : CredentialMapping} (h : Declared registry m) (name : String) :
    (∃ tool, registry.get name = some tool ∧ m ∈ tool.credentials) ∨ DeclaredElsewhere registry name m := by
  obtain ⟨other, tool, hget, hm⟩ := h
  by_cases hname : other = name
  · exact Or.inl ⟨tool, hname ▸ hget, hm⟩
  · exact Or.inr ⟨other, tool, hname, hget, hm⟩

theorem DeclaredElsewhere.declared {registry : ToolRegistry} {name : String} {m : CredentialMapping}
    (h : DeclaredElsewhere registry name m) : Declared registry m := by
  obtain ⟨other, tool, -, hget, hm⟩ := h
  exact ⟨other, tool, hget, hm⟩

variable (registry : ToolRegistry) (name : String) (credentials : List CredentialMapping)

/-- After registering a WASM tool: its mappings and those of the tools of other names, unless it is rejected. -/
theorem declared_register (m : CredentialMapping) :
    Declared (registry.register ⟨name, .wasm credentials⟩) m ↔
      if name ∈ registry.builtinNames then Declared registry m
      else m ∈ credentials ∨ DeclaredElsewhere registry name m := by
  split
  · next hbuiltin => rw [ToolRegistry.register, if_pos hbuiltin]
  · next hfree =>
      unfold Declared DeclaredElsewhere
      simp only [ToolRegistry.get_register, hfree, not_false_iff, and_true]
      constructor
      · rintro ⟨other, tool, hget, hm⟩
        split at hget
        · obtain rfl := Option.some.inj hget
          exact Or.inl hm
        · next hne => exact Or.inr ⟨other, tool, hne, hget, hm⟩
      · rintro (hm | ⟨other, tool, hne, hget, hm⟩)
        · exact ⟨name, _, if_pos rfl, hm⟩
        · exact ⟨other, tool, by rw [if_neg hne, hget], hm⟩

theorem declared_unregister (m : CredentialMapping) :
    Declared (registry.unregister name) m ↔ DeclaredElsewhere registry name m := by
  unfold Declared DeclaredElsewhere
  simp only [ToolRegistry.get_unregister]
  constructor
  · rintro ⟨other, tool, hget, hm⟩
    split at hget
    · cases hget
    · next hne => exact ⟨other, tool, hne, hget, hm⟩
  · rintro ⟨other, tool, hne, hget, hm⟩
    exact ⟨other, tool, by rw [if_neg hne, hget], hm⟩

/-! ## One registration -/

/-- A registration keeps the registry exact: a rejected tool brings no mapping that is not declared already, and a
replaced one had none that the new tool or another does not declare. -/
def RegisterClean (name : String) (credentials : List CredentialMapping) : Prop :=
  registry.credentialRegistry ≠ none →
    if name ∈ registry.builtinNames then ∀ m ∈ credentials, Declared registry m
    else ∀ tool, registry.get name = some tool → ∀ m ∈ tool.credentials,
      m ∈ credentials ∨ DeclaredElsewhere registry name m

theorem credentialRegistry_register (tool : RegisteredTool) :
    (registry.register tool).credentialRegistry = registry.credentialRegistry := by
  unfold ToolRegistry.register
  split
  · rfl
  · rfl

/-- The shared registry after a registration that compiles. -/
theorem credentialRegistry_registerWasm :
    (registry.registerWasm name (.ok ()) credentials).1.credentialRegistry =
      registry.credentialRegistry.map fun cr => cr ++ credentials := by
  unfold ToolRegistry.registerWasm
  simp only
  split
  · next hempty =>
      rw [credentialRegistry_register, List.isEmpty_iff.mp hempty]
      cases registry.credentialRegistry with
      | none => rfl
      | some cr => rw [Option.map_some, List.append_nil]
  · rw [ToolRegistry.addCredentials, credentialRegistry_register]
    rfl

theorem declared_registerWasm (m : CredentialMapping) :
    Declared (registry.registerWasm name (.ok ()) credentials).1 m ↔
      Declared (registry.register ⟨name, .wasm credentials⟩) m := by
  unfold ToolRegistry.registerWasm
  simp only
  split
  · rfl
  · rfl

theorem exact_registerWasm {registry : ToolRegistry} (h : Exact registry) (name : String)
    (credentials : List CredentialMapping) :
    Exact (registry.registerWasm name (.ok ()) credentials).1 ↔ RegisterClean registry name credentials := by
  unfold Exact RegisterClean
  simp only [credentialRegistry_registerWasm, declared_registerWasm, declared_register]
  cases hcr : registry.credentialRegistry with
  | none => simp
  | some cr =>
    have hexact := h cr hcr
    simp only [Option.map_some, Option.some.injEq, forall_eq', List.mem_append, hexact, ne_eq, reduceCtorEq,
      not_false_iff, true_imp_iff]
    split
    · -- rejected, but its mappings are added
      constructor
      · intro hall m hm
        exact (hall m).mp (Or.inr hm)
      · intro hall m
        exact ⟨fun hor => hor.elim id (hall m), Or.inl⟩
    · constructor
      · intro hall tool hget m hm
        exact (hall m).mp (Or.inl ⟨name, tool, hget, hm⟩)
      · intro hall m
        constructor
        · rintro (hdeclared | hm)
          · rcases hdeclared.cases name with ⟨tool, hget, hm⟩ | helse
            · exact hall tool hget m hm
            · exact Or.inr helse
          · exact Or.inl hm
        · rintro (hm | helse)
          · exact Or.inr hm
          · exact Or.inl helse.declared

/-! ## The operations -/

/-- What happens to the WASM tools: a registration, an activation, a removal, or a change to the files on disk. -/
inductive Action
  | registerWasm (name : String) (prepared : Except String Unit) (credentials : List CredentialMapping)
  | activate (name : String) (answers : LoadAnswers)
  | remove (name : String) (answers : RemoveAnswers)
  | file (path : String) (content : Option (List UInt8))

section Steps

variable (env : LoadEnv)

/-- One operation. A name without a module in the tools directory is no WASM tool to remove. -/
def step (s : WasmTools) : Action → Option WasmTools
  | .registerWasm name prepared credentials =>
    some { s with registry := (s.registry.registerWasm name prepared credentials).1 }
  | .activate name answers => some (activateWasmTool env answers name s).1
  | .remove name answers =>
    match s.files (wasmFile name) with
    | none => none
    | some _ => some (removeWasmTool env answers name s).1
  | .file path content => some { s with files := Function.update s.files path content }

/-- The credentials an activation registers the tool with, when it comes to that. -/
def registersWith (answers : LoadAnswers) (name : String) (s : WasmTools) : Option (List CredentialMapping) :=
  if s.registry.has name = false ∧ s.hasRuntime = true ∧ (s.files (wasmFile name)).isSome = true ∧
      ¬ (name = "" ∨ '/' ∈ name.toList ∨ '\\' ∈ name.toList) ∧ answers.wasmRead = none then
    match loadCapabilities env answers name (s.files (capsFile name)), answers.prepared with
    | .ok credentials, .ok _ => some credentials
    | _, _ => none
  else none

variable (answers : RemoveAnswers)

/-- The secret names a removal revokes the mappings of. -/
def revokes (name : String) (s : WasmTools) : List String :=
  match s.files (capsFile name), answers.capsRead with
  | some bytes, none => ((env.parseJson bytes).map secretNames).getD []
  | _, _ => []

/-- An operation keeps the registry exact. A removal does when the capabilities file names the secret of every
mapping that only this tool declares, and of none that another tool declares. -/
def StepClean (s : WasmTools) : Action → Prop
  | .registerWasm name prepared credentials =>
    prepared = .ok () → RegisterClean s.registry name credentials
  | .activate name answers =>
    ∀ credentials, registersWith env answers name s = some credentials →
      RegisterClean s.registry name credentials
  | .remove name answers =>
    s.registry.credentialRegistry ≠ none → (s.files (wasmFile name)).isSome = true →
      ∀ m, Declared s.registry m →
        (m.secretName ∉ revokes env answers name s ↔ DeclaredElsewhere s.registry name m)
  | .file _ _ => True

/-- An activation either leaves the registry as it is or registers the tool. -/
theorem activateWasmTool_registry (answers : LoadAnswers) (name : String) (s : WasmTools) :
    (activateWasmTool env answers name s).1.registry =
      match registersWith env answers name s with
      | none => s.registry
      | some credentials => (s.registry.registerWasm name (.ok ()) credentials).1 := by
  unfold activateWasmTool registersWith loadFromFiles
  cases hhas : s.registry.has name with
  | true => simp
  | false =>
    by_cases hruntime : s.hasRuntime = true
    · cases s.files (wasmFile name) with
      | none => simp [hruntime]
      | some bytes =>
        by_cases hname : name = "" ∨ '/' ∈ name.toList ∨ '\\' ∈ name.toList
        · simp [hruntime, hname]
        · cases answers.wasmRead with
          | some e => simp [hruntime, hname]
          | none =>
            cases loadCapabilities env answers name (s.files (capsFile name)) with
            | error e => simp [hruntime, hname]
            | ok credentials =>
              cases answers.prepared with
              | error e => simp [hruntime, hname, ToolRegistry.registerWasm]
              | ok u => simp [hruntime, hname, ToolRegistry.registerWasm]
    · simp [hruntime]

/-- A revocation filters the shared registry, and keeps the tools. -/
theorem revokeCredentialMappings_eq (name : String) (s : WasmTools)
    (registry : ToolRegistry) : revokeCredentialMappings env answers.capsRead (s.files (capsFile name)) registry =
      { registry with
        credentialRegistry := registry.credentialRegistry.map
          (SharedCredentialRegistry.removeMappingsForSecrets (revokes env answers name s)) } := by
  have hnone : registry = { registry with
      credentialRegistry := registry.credentialRegistry.map
        (SharedCredentialRegistry.removeMappingsForSecrets []) } := by
    have hfilter : SharedCredentialRegistry.removeMappingsForSecrets [] = id := by
      funext cr
      simp [SharedCredentialRegistry.removeMappingsForSecrets]
    rw [hfilter, Option.map_id]
    rfl
  unfold revokeCredentialMappings revokes
  cases s.files (capsFile name) with
  | none => exact hnone
  | some bytes =>
    cases answers.capsRead with
    | some e => exact hnone
    | none =>
      simp only
      cases env.parseJson bytes with
      | none => exact hnone
      | some j => rfl

theorem removeWasmTool_registry (name : String) (s : WasmTools) :
    (removeWasmTool env answers name s).1.registry = { s.registry.unregister name with
        credentialRegistry := s.registry.credentialRegistry.map
          (SharedCredentialRegistry.removeMappingsForSecrets (revokes env answers name s)) } := by
  have hrevoke := revokeCredentialMappings_eq env answers name s (s.registry.unregister name)
  unfold removeWasmTool
  simp only
  rw [hrevoke]
  split
  · rfl
  · split
    · rfl
    · rfl

/-- **One operation** keeps the registry exact if and only if it is clean. -/
theorem exact_step {s : WasmTools} (h : Exact s.registry) (a : Action) :
    (∀ s', step env s a = some s' → Exact s'.registry) ↔ StepClean env s a := by
  cases a with
  | registerWasm name prepared credentials =>
    simp only [step, Option.some.injEq, forall_eq', StepClean]
    cases prepared with
    | error e => simp [ToolRegistry.registerWasm, h]
    | ok u => simp [exact_registerWasm h]
  | activate name answers =>
    simp only [step, Option.some.injEq, forall_eq', StepClean, activateWasmTool_registry]
    cases registersWith env answers name s with
    | none => simp [h]
    | some credentials => simp [exact_registerWasm h]
  | remove name answers =>
    simp only [step, StepClean]
    cases s.files (wasmFile name) with
    | none => simp
    | some bytes =>
      simp only [Option.some.injEq, forall_eq', removeWasmTool_registry, Exact, Option.isSome_some,
        true_imp_iff]
      cases hcr : s.registry.credentialRegistry with
      | none => simp
      | some cr =>
        have hdeclared := declared_unregister s.registry name
        have hexact := h cr hcr
        simp only [Option.map_some, Option.some.injEq, forall_eq', ne_eq, reduceCtorEq, not_false_iff,
          true_imp_iff, SharedCredentialRegistry.removeMappingsForSecrets, List.mem_filter,
          decide_eq_true_eq, hexact]
        have hafter : ∀ m, Declared { s.registry.unregister name with
            credentialRegistry := some (cr.filter fun m => m.secretName ∉ revokes env answers name s) } m ↔
            DeclaredElsewhere s.registry name m := hdeclared
        constructor
        · intro hall m hm
          have hiff := (hall m).trans (hafter m)
          exact ⟨fun hkept => hiff.mp ⟨hm, hkept⟩, fun helse => (hiff.mpr helse).2⟩
        · intro hall m
          apply Iff.trans _ (hafter m).symm
          constructor
          · rintro ⟨hm, hkept⟩
            exact (hall m hm).mp hkept
          · intro helse
            exact ⟨helse.declared, (hall m helse.declared).mpr helse⟩
  | file path content => simp [step, StepClean, h]

/-- An operation after which the registry is exact. -/
def KeepsExact (s : WasmTools) (a : Action) : Prop := ∀ s', step env s a = some s' → Exact s'.registry

theorem exact_of_clean {s s' : WasmTools} {actions : List Action} (h : Exact s.registry)
    (run : Runs (step env) (StepClean env) s actions s') :
    Runs (step env) (KeepsExact env) s actions s' ∧ Exact s'.registry := by
  induction run with
  | refl => exact ⟨.refl s, h⟩
  | snoc run a hclean hstep ih =>
    have hkeeps := (exact_step env ih.2 a).mpr hclean
    exact ⟨.snoc ih.1 a hkeeps hstep, hkeeps _ hstep⟩

theorem clean_of_exact {s s' : WasmTools} {actions : List Action} (h : Exact s.registry)
    (run : Runs (step env) (KeepsExact env) s actions s') :
    Runs (step env) (StepClean env) s actions s' ∧ Exact s'.registry := by
  induction run with
  | refl => exact ⟨.refl s, h⟩
  | snoc run a hkeeps hstep ih => exact ⟨.snoc ih.1 a ((exact_step env ih.2 a).mp hkeeps) hstep, hkeeps _ hstep⟩

/-- **Whole sequences.** From an exact registry, the sequences of operations that keep it exact all along are
those of clean operations, and they end with an exact registry. -/
theorem exact_runs_iff {s : WasmTools} (h : Exact s.registry) (actions : List Action) (s' : WasmTools) :
    (Runs (step env) (KeepsExact env) s actions s' ↔ Runs (step env) (StepClean env) s actions s') ∧
      (Runs (step env) (StepClean env) s actions s' → Exact s'.registry) := by
  refine ⟨⟨?_, ?_⟩, ?_⟩
  · intro run
    exact (clean_of_exact env h run).1
  · intro run
    exact (exact_of_clean env h run).1
  · intro run
    exact (exact_of_clean env h run).2

/-! ## Two tools with one secret -/

/-- The weather service's key, for one host. -/
def keyFor (host : String) : CredentialMapping := ⟨"API_KEY", .authorizationBearer, [host]⟩

/-- A capabilities file that names the key. -/
def keyFile : Json :=
  .object [("http", .object [("credentials", .object [("key", .object
    [("secret_name", .string "API_KEY"), ("location", .object [("type", .string "bearer")]),
     ("host_patterns", .array [.string "weather.test"])])])])]

/-- Every file parses as the capabilities above. -/
def keyEnv : LoadEnv where
  parseJson := fun _ => some keyFile
  otherSections := fun _ => true
  checkWitVersionCompat := fun _ _ => .ok ()
  displayPath := id
  jsonError := fun _ => "invalid"

/-- No tool is registered; the files of `weather` are on disk. -/
def weatherInstalled : WasmTools where
  registry := ToolRegistry.new (some [])
  files := fun file => if file = "weather.wasm" ∨ file = "weather.capabilities.json" then some [] else none
  hasRuntime := true

theorem exact_weatherInstalled : Exact weatherInstalled.registry := by
  intro cr hcr m
  obtain rfl : [] = cr := Option.some.inj hcr
  simp [Declared, weatherInstalled, ToolRegistry.new, ToolRegistry.get]

/-- The state after `weather` has been activated. -/
def weatherActive : WasmTools := (activateWasmTool keyEnv ⟨none, none, .ok ()⟩ "weather" weatherInstalled).1

/-- The state after it has been removed again. -/
def weatherRemoved : WasmTools := (removeWasmTool keyEnv ⟨none, none, none⟩ "weather" weatherActive).1

theorem get_weatherActive {name : String} {tool : RegisteredTool} (h : weatherActive.registry.get name = some tool) :
    name = "weather" ∧ tool = ⟨"weather", .wasm [keyFor "weather.test"]⟩ := by
  have htools : weatherActive.registry.tools.entries =
      [⟨"weather", ⟨"weather", .wasm [keyFor "weather.test"]⟩⟩] := by decide
  have hmem := AList.mem_lookup_iff.mp h
  rw [htools, List.mem_singleton] at hmem
  cases hmem
  exact ⟨rfl, rfl⟩

/-- Activating one tool and removing it again keeps the registry exact. -/
theorem one_tool_exact :
    Runs (step keyEnv) (KeepsExact keyEnv) weatherInstalled
        [.activate "weather" ⟨none, none, .ok ()⟩, .remove "weather" ⟨none, none, none⟩] weatherRemoved ∧
      weatherRemoved.registry.get "weather" = none ∧ Exact weatherRemoved.registry := by
  have hactivated : Runs (step keyEnv) (StepClean keyEnv) weatherInstalled
      ([] ++ [.activate "weather" ⟨none, none, .ok ()⟩]) weatherActive := by
    refine .snoc (.refl _) _ ?_ rfl
    intro credentials _ _
    simp [weatherInstalled, ToolRegistry.new, ToolRegistry.get]
  have hclean : Runs (step keyEnv) (StepClean keyEnv) weatherInstalled
      [.activate "weather" ⟨none, none, .ok ()⟩, .remove "weather" ⟨none, none, none⟩] weatherRemoved := by
    refine .snoc hactivated _ ?_ rfl
    rintro _ _ m ⟨name, tool, hget, hm⟩
    obtain ⟨-, rfl⟩ := get_weatherActive hget
    obtain rfl : m = keyFor "weather.test" := List.mem_singleton.mp hm
    -- the file names the secret, and no other tool declares the mapping
    refine ⟨fun hkept => absurd (by decide) hkept, fun ⟨other, _, hne, hother, _⟩ => ?_⟩
    exact absurd (get_weatherActive hother).1 hne
  have hboth := exact_runs_iff keyEnv exact_weatherInstalled
    [.activate "weather" ⟨none, none, .ok ()⟩, .remove "weather" ⟨none, none, none⟩] weatherRemoved
  exact ⟨hboth.1.mpr hclean, by decide, hboth.2 hclean⟩

/-- Two tools use one secret on different hosts; removing the first revokes the mapping of the second. -/
theorem removal_revokes_another :
    ∃ s, Runs (step keyEnv) (fun _ _ => True) weatherInstalled
        [.registerWasm "maps" (.ok ()) [keyFor "maps.test"], .activate "weather" ⟨none, none, .ok ()⟩,
         .remove "weather" ⟨none, none, none⟩] s ∧
      s.registry.get "maps" = some ⟨"maps", .wasm [keyFor "maps.test"]⟩ ∧
      s.registry.credentialRegistry = some [] ∧ ¬ Exact s.registry := by
  refine ⟨_, .snoc (.snoc (.snoc (.refl _) _ trivial rfl) _ trivial rfl) _ trivial rfl, ?_, ?_, ?_⟩
  · decide
  · decide
  · intro hexact
    have hdeclared := hexact [] (by decide) (keyFor "maps.test")
    exact absurd (hdeclared.mpr ⟨"maps", ⟨"maps", .wasm [keyFor "maps.test"]⟩, by decide, by decide⟩) (by simp)

end Steps

/-! ## The same operations beside others

`Extensions.Manager` takes as answers what is read from the tools directory here. With nobody else about, an operation
does there to the registry what it does here. -/

section Alone

open ExtensionManager

variable {t : Nat} {s : Shared} {name : String} {files : Files}

/-- What a program returns and leaves of the registry with nobody else about, its operations meeting one input. -/
def settle {α : Type} (t : Nat) (i : Input) : Prog Op Ans (Except ExtensionError α) → Shared →
    Option (ToolRegistry × Except ExtensionError Unit)
  | .ret a, s => some (s.registry, a.map fun _ => ())
  | .op o next, s => (perform t o i s).bind fun r => settle t i (next r.1) r.2

/-- The registry, and the files that the directory has. -/
def withFiles (s : Shared) (files : Files) : WasmTools := ⟨s.registry, files, s.hasRuntime⟩

/-- What an activation meets: what `load_from_files` reads, and whether the module compiles. -/
def loading (env : LoadEnv) (answers : LoadAnswers) (name : String) (files : Files) : Input :=
  if name = "" ∨ '/' ∈ name.toList ∨ '\\' ∈ name.toList then
    { failure := some (WasmLoadError.invalidName name).message }
  else
    match answers.wasmRead, loadCapabilities env answers name (files (capsFile name)) with
    | some e, _ => { failure := some (WasmLoadError.io e).message }
    | none, .error e => { failure := some e.message }
    | none, .ok credentials =>
      { credentials, prepared := answers.prepared.mapError fun e => (WasmLoadError.compilation e).message }

variable (env : LoadEnv)

/-- **Activating a WASM tool.** -/
theorem settle_activateWasmTool (hfile : (files (wasmFile name)).isSome = decide (name ∈ s.wasmTools))
    (answers : LoadAnswers) :
    settle t (loading env answers name files) (ExtensionManager.activateWasmTool env.displayPath name) s =
      some ((activateWasmTool env answers name (withFiles s files)).map (·.registry) id) := by
  unfold activateWasmTool loadFromFiles loading withFiles
  by_cases hhas : s.registry.has name = true
  · simp [ExtensionManager.activateWasmTool, Bind.bind, Pure.pure, Prog.bind, perf, settle, perform, hhas, Except.map]
  by_cases hruntime : s.hasRuntime = true
  · by_cases hin : name ∈ s.wasmTools
    · obtain ⟨bytes, hbytes⟩ := Option.isSome_iff_exists.mp (hfile.trans (decide_eq_true hin))
      simp only [ExtensionManager.activateWasmTool, Bind.bind, Pure.pure, Prog.bind, perf, settle, perform, hhas, hruntime,
        hin, hbytes, Option.bind_some, Bool.not_true, decide_true, Bool.false_eq_true, if_false, if_true]
      by_cases hbad : name = "" ∨ '/' ∈ name.toList ∨ '\\' ∈ name.toList
      · simp [settle, hbad, Input.answer, Except.map]
      · simp only [hbad, if_false]
        cases answers.wasmRead with
        | some e => rfl
        | none =>
          cases loadCapabilities env answers name (files (capsFile name)) with
          | error e => rfl
          | ok credentials =>
            cases answers.prepared with
            | error e => rfl
            | ok _ =>
              -- what is left is `register_wasm`, which goes by the name and the credentials
              by_cases hbuiltin : name ∈ s.registry.builtinNames <;> cases credentials <;>
                simp [registerWasm, register, Bind.bind, Pure.pure, Prog.bind, perf, settle, perform, Input.answer,
                  Except.mapError, Shared.insertTool, Shared.offer, ToolRegistry.registerWasm, ToolRegistry.register,
                  hbuiltin, Except.map]
    · have hnone : files (wasmFile name) = none := Option.isNone_iff_eq_none.mp
        (Option.isSome_eq_false_iff.mp (hfile.trans (decide_eq_false hin)))
      simp [ExtensionManager.activateWasmTool, Bind.bind, Pure.pure, Prog.bind, perf, settle, perform, hhas, hruntime, hin,
        hnone, Except.map]
  · simp [ExtensionManager.activateWasmTool, Bind.bind, Pure.pure, Prog.bind, perf, settle, perform, hhas, hruntime,
      Except.map]

/-- **Removing a WASM tool.** -/
theorem settle_removeWasmTool (hfile : (files (wasmFile name)).isSome = decide (name ∈ s.wasmTools))
    (answers : RemoveAnswers) :
    settle t { failure := answers.wasmDelete, secretNames := revokes env answers name (withFiles s files) }
        (ExtensionManager.removeWasmTool name) s =
      some ((removeWasmTool env answers name (withFiles s files)).map (·.registry) id) := by
  have hpair : (removeWasmTool env answers name (withFiles s files)).map (·.registry) id =
    ((removeWasmTool env answers name (withFiles s files)).1.registry,
      (removeWasmTool env answers name (withFiles s files)).2) := rfl
  have hcreds : (s.registry.unregister name).credentialRegistry = s.registry.credentialRegistry := rfl
  rw [hpair, removeWasmTool_registry]
  unfold removeWasmTool
  by_cases hin : name ∈ s.wasmTools
  · obtain ⟨bytes, hbytes⟩ := Option.isSome_iff_exists.mp (hfile.trans (decide_eq_true hin))
    cases answers.wasmDelete <;> cases answers.capsDelete <;>
      simp [ExtensionManager.removeWasmTool, deleteModule, Bind.bind, Pure.pure, Prog.bind, perf, settle, perform,
        Shared.unregister, Shared.look, Shared.setFile, withFiles, hin, hbytes, hcreds, Except.map]
  · have hnone : files (wasmFile name) = none := Option.isNone_iff_eq_none.mp
      (Option.isSome_eq_false_iff.mp (hfile.trans (decide_eq_false hin)))
    cases answers.capsDelete <;>
      simp [ExtensionManager.removeWasmTool, deleteModule, Bind.bind, Pure.pure, Prog.bind, perf, settle, perform,
        Shared.unregister, Shared.look, withFiles, hin, hnone, hcreds, Except.map]

end Alone
end Freeclawdia.Extensions
