import Freeclawdia.Agent.Env
import Freeclawdia.Rust.Str

/-!
# `Skills.Attenuation` — trust-based tool filtering

`attenuate_tools` (`src/skills/attenuation.rs`): the lowest trust of the active skills sets a ceiling, and the tools
above it are taken out of the list that is offered to the model. The agentic loop offers the filtered list in every
iteration (`Env.withSkills`); the skills are chosen anew from the text of each message that runs the loop.
-/

namespace Freeclawdia

open Rust

/-- Trust state for a skill; `Installed < Trusted`. -/
inductive SkillTrust
  | installed
  | trusted
deriving DecidableEq

instance : Min SkillTrust := ⟨fun a b => if a = .installed then a else b⟩

/-- An active skill, as far as attenuation reads it. -/
structure LoadedSkill where
  trust : SkillTrust

/-- Tools that are always safe. -/
def READ_ONLY_TOOLS : List String :=
  ["memory_search", "memory_read", "memory_tree", "time", "echo", "json", "skill_list", "skill_search"]

/-- Result of tool attenuation. -/
structure AttenuationResult where
  tools : List ToolDefinition
  minTrust : SkillTrust
  explanation : String
  removedTools : List String

/-- Filter tool definitions based on the trust level of active skills. -/
def attenuateTools (tools : List ToolDefinition) (activeSkills : List LoadedSkill) : AttenuationResult :=
  if activeSkills.isEmpty then ⟨tools, .trusted, "No skills active, all tools available", []⟩
  else
    match (activeSkills.map (·.trust)).min?.getD .trusted with
    | .trusted => ⟨tools, .trusted, "All active skills are trusted (full trust), all tools available", []⟩
    | .installed =>
      let kept := tools.filter fun tool => READ_ONLY_TOOLS.contains tool.name
      let removed := (tools.filter fun tool => !READ_ONLY_TOOLS.contains tool.name).map (·.name)
      ⟨kept, .installed, "Installed skill present: restricted to read-only tools, removed " ++
        toString removed.length ++ " tool(s): " ++ join ", " removed, removed⟩

/-- The surroundings of a loop that runs with the given skills active: the list offered is attenuated, and the system
    prompt carries the skills' texts. -/
def Env.withSkills {W : Type} (env : Env W) (activeSkills : List LoadedSkill)
    (systemPrompt : List ToolDefinition → String) : Env W :=
  { env with
    toolDefinitions := fun w =>
      if activeSkills.isEmpty then env.toolDefinitions w
      else (attenuateTools (env.toolDefinitions w) activeSkills).tools
    systemPrompt }

/-! ## The ceiling -/

/-- At least one active skill is only installed. -/
def HasInstalled (activeSkills : List LoadedSkill) : Prop := ∃ skill ∈ activeSkills, skill.trust = .installed

instance (activeSkills : List LoadedSkill) : Decidable (HasInstalled activeSkills) :=
  inferInstanceAs (Decidable (∃ skill ∈ activeSkills, skill.trust = .installed))

variable {activeSkills : List LoadedSkill}

theorem HasInstalled.isEmpty_eq (h : HasInstalled activeSkills) : activeSkills.isEmpty = false := by
  obtain ⟨skill, hmem, _⟩ := h
  cases activeSkills with
  | nil => cases hmem
  | cons s ss => rfl

theorem minTrust_of_hasInstalled (h : HasInstalled activeSkills) :
    (activeSkills.map (·.trust)).min?.getD .trusted = .installed := by
  obtain ⟨skill, hmem, htrust⟩ := h
  have hfold : ∀ (trusts : List SkillTrust) (t : SkillTrust), t = .installed ∨ .installed ∈ trusts →
      trusts.foldl min t = .installed := by
    intro trusts
    induction trusts with
    | nil => exact fun t ht => ht.resolve_right List.not_mem_nil
    | cons u us ih =>
      intro t ht
      refine ih _ ?_
      show (if t = .installed then t else u) = .installed ∨ _
      by_cases hlow : t = .installed
      · exact Or.inl (by rw [if_pos hlow]; exact hlow)
      · rw [if_neg hlow]
        rcases List.mem_cons.mp (ht.resolve_left hlow) with hu | hus
        · exact Or.inl hu.symm
        · exact Or.inr hus
  have hin : .installed ∈ activeSkills.map (·.trust) := List.mem_map.mpr ⟨skill, hmem, htrust⟩
  cases htrusts : activeSkills.map (·.trust) with
  | nil =>
    rw [htrusts] at hin
    cases hin
  | cons t ts =>
    rw [htrusts] at hin
    show ts.foldl min t = .installed
    exact hfold ts t ((List.mem_cons.mp hin).imp Eq.symm id)

/-- **With an installed skill, the read-only tools are what is left.** -/
theorem attenuateTools_of_hasInstalled (h : HasInstalled activeSkills) (tools : List ToolDefinition) :
    (attenuateTools tools activeSkills).tools = tools.filter fun tool => READ_ONLY_TOOLS.contains tool.name := by
  unfold attenuateTools
  rw [h.isEmpty_eq, minTrust_of_hasInstalled h]
  rfl

/-- Whichever installed skills are active, the list offered at a moment is the same. -/
theorem toolDefinitions_withSkills {W : Type} (env : Env W) {skills : List LoadedSkill} (h : HasInstalled skills)
    (prompt : List ToolDefinition → String) (w : W) : (env.withSkills skills prompt).toolDefinitions w
      = (env.toolDefinitions w).filter fun tool => READ_ONLY_TOOLS.contains tool.name := by
  show (if skills.isEmpty then _ else (attenuateTools (env.toolDefinitions w) skills).tools) = _
  rw [h.isEmpty_eq, attenuateTools_of_hasInstalled h]
  rfl

end Freeclawdia
