import Freeclawdia.Lib.Interleave
import Freeclawdia.Rust.Utf8
import Freeclawdia.Skills.Attenuation
import Freeclawdia.Skills.Directories
import Freeclawdia.Skills.Parser

/-!
# `Skills.Registry` — loading, installing and removing skills (`skills/registry.rs`, `tools/builtin/skill_tools.rs`)

A reload loads every `SKILL.md` of the configured directories again; the trust of a skill is that of its directory. An
install checks the name under the lock of the registry, writes the file without it, reads it back and validates it, and
adds the skill under the lock again; a removal deletes the file in between likewise. The calls are programs whose
operations are what is done under the lock at one time and the single system calls.

The fields of the shared state after `skills` are bookkeeping for statements.
-/

namespace Freeclawdia.Skills

open Rust

/-! ## Skills and errors -/

/-- Where a skill was loaded from. -/
inductive SkillSource
  | workspace (path : Place)
  | user (path : Place)
  | bundled (path : Place)

def SkillSource.path : SkillSource → Place
  | workspace path => path
  | user path => path
  | bundled path => path

/-- A fully loaded skill, without what is computed from its manifest and its prompt. -/
structure LoadedSkill where
  manifest : SkillManifest
  promptContent : String
  trust : SkillTrust
  source : SkillSource

def LoadedSkill.name (s : LoadedSkill) : String := s.manifest.name

inductive SkillRegistryError
  | notFound (name : String)
  | readError (path reason : String)
  | parseError (name reason : String)
  | fileTooLarge (name : String) (size max : Nat)
  | symlinkDetected (path : String)
  | gatingFailed (name reason : String)
  | tokenBudgetExceeded (name : String) (approxTokens declared : UInt64)
  | alreadyExists (name : String)
  | cannotRemove (name reason : String)
  | writeError (path reason : String)

def SkillRegistryError.text : SkillRegistryError → String
  | notFound name => "Skill not found: " ++ name
  | readError path reason => "Failed to read skill file " ++ path ++ ": " ++ reason
  | parseError name reason => "Failed to parse SKILL.md for '" ++ name ++ "': " ++ reason
  | fileTooLarge name size max =>
    "Skill file too large for '" ++ name ++ "': " ++ toString size ++ " bytes (max " ++ toString max ++ " bytes)"
  | symlinkDetected path => "Symlink detected in skills directory: " ++ path
  | gatingFailed name reason => "Skill '" ++ name ++ "' failed gating: " ++ reason
  | tokenBudgetExceeded name approxTokens declared =>
    "Skill '" ++ name ++ "' prompt exceeds token budget: ~" ++ toString approxTokens ++
      " tokens but declares max_context_tokens=" ++ toString declared
  | alreadyExists name => "Skill '" ++ name ++ "' already exists"
  | cannotRemove name reason => "Cannot remove skill '" ++ name ++ "': " ++ reason
  | writeError path reason => "Failed to write skill file " ++ path ++ ": " ++ reason

/-- The directories that are configured: three different ones. -/
structure Dirs where
  workspaceDir : Option String := none
  userDir : String
  installedDir : Option String := none

def Dirs.text (dirs : Dirs) : Root → String
  | .workspace => dirs.workspaceDir.getD ""
  | .user => dirs.userDir
  | .installed => dirs.installedDir.getD ""
  | .elsewhere => ""

def Dirs.dirText (dirs : Dirs) : Place → String
  | .sub root name => dirs.text root ++ "/" ++ name
  | .flat root => dirs.text root

def Dirs.mdText (dirs : Dirs) (p : Place) : String := dirs.dirText p ++ "/" ++ SKILL_MD

/-- The directory where new registry installs should be written. -/
def Dirs.installTargetDir (dirs : Dirs) : Root := if dirs.installedDir.isSome then .installed else .user

/-! ## Loading -/

section Load

variable (dirs : Dirs) (yaml : Yaml)

/-- What the bytes of a file say: their size, their encoding (the position an error names is left out), and the parts of
    the text. -/
def parseSkillFile (path : String) (rawBytes : List UInt8) : Except SkillRegistryError ParsedSkill :=
  if rawBytes.length > MAX_PROMPT_FILE_SIZE then .error (.fileTooLarge path rawBytes.length MAX_PROMPT_FILE_SIZE)
  else
    match fromUtf8 rawBytes with
    | none => .error (.readError path "Invalid UTF-8")
    | some rawContent =>
      match parseSkillMd yaml (normalizeLineEndings rawContent) with
      | .error (.invalidName name) => .error (.parseError name (SkillParseError.invalidName name).text)
      | .error e => .error (.parseError path e.text)
      | .ok parsed => .ok parsed

/-- About four bytes to a token. -/
def approxTokens (promptContent : String) : UInt64 := UInt64.ofNat (byteLen promptContent / 4)

/-- What comes after gating: the token budget. -/
def finishLoad (parsed : ParsedSkill) (trust : SkillTrust) (source : SkillSource) :
    Except SkillRegistryError LoadedSkill :=
  let declared := parsed.manifest.activation.maxContextTokens
  if declared > 0 && approxTokens parsed.promptContent > declared * 2 then
    .error (.tokenBudgetExceeded parsed.manifest.name (approxTokens parsed.promptContent) declared)
  else .ok ⟨parsed.manifest, parsed.promptContent, trust, source⟩

def gatingError (parsed : ParsedSkill) (failures : List String) : SkillRegistryError :=
  .gatingFailed parsed.manifest.name (join "; " failures)

/-- The failures of the requirements a manifest declares. -/
def gate (env : Environment) (parsed : ParsedSkill) : List String :=
  match parsed.manifest.requirements with
  | none => []
  | some requirements => checkRequirements env requirements

/-- Load and validate a single `SKILL.md` file from disk. -/
def loadAndValidateSkill (env : Environment) (fs : Fs) (p : Place) (trust : SkillTrust) (source : SkillSource) :
    Except SkillRegistryError LoadedSkill :=
  match fs.lstat p with
  | .error e => .error (.readError (dirs.mdText p) (osError e))
  | .ok true => .error (.symlinkDetected (dirs.mdText p))
  | .ok false =>
    match fs.read p with
    | .error e => .error (.readError (dirs.mdText p) (osError e))
    | .ok rawBytes =>
      match parseSkillFile yaml (dirs.mdText p) rawBytes with
      | .error e => .error e
      | .ok parsed =>
        if gate env parsed ≠ [] then .error (gatingError parsed (gate env parsed))
        else finishLoad parsed trust source

/-! ## Discovery -/

def MAX_DISCOVERED_SKILLS : Nat := 100

/-- The loop over the entries of a directory: a skill directory or the flat file counts, and is loaded if it can be. The
    names are those of the entries in the order of the directory; there may be others among them. -/
def discoverLoop (env : Environment) (fs : Fs) (trust : SkillTrust) (makeSource : Place → SkillSource) (root : Root) :
    (count : Nat) → List String → List LoadedSkill
  | _, [] => []
  | count, name :: rest =>
    if count ≥ MAX_DISCOVERED_SKILLS then []
    else
      match fs root name with
      | none => discoverLoop env fs trust makeSource root count rest
      | some (.link _ _) => discoverLoop env fs trust makeSource root count rest
      | some (.dir _ _) =>
        if fs.exists_ (.sub root name) then
          match loadAndValidateSkill dirs yaml env fs (.sub root name) trust (makeSource (.sub root name)) with
          | .ok skill => skill :: discoverLoop env fs trust makeSource root (count + 1) rest
          | .error _ => discoverLoop env fs trust makeSource root (count + 1) rest
        else discoverLoop env fs trust makeSource root count rest
      | some (.file _) =>
        if name = SKILL_MD then
          match loadAndValidateSkill dirs yaml env fs (.flat root) trust (makeSource (.flat root)) with
          | .ok skill => skill :: discoverLoop env fs trust makeSource root (count + 1) rest
          | .error _ => discoverLoop env fs trust makeSource root (count + 1) rest
        else discoverLoop env fs trust makeSource root count rest

/-- The order of the entries of each directory. -/
abbrev Order := Root → List String

/-- Discover skills from a single directory. -/
def discoverFromDir (order : Order) (env : Environment) (fs : Fs) (root : Root) (trust : SkillTrust)
    (makeSource : Place → SkillSource) : List LoadedSkill :=
  discoverLoop dirs yaml env fs trust makeSource root 0 (order root)

/-- Skills whose name has been seen are passed over. -/
def addUnseen (skills : List LoadedSkill) : List LoadedSkill → List LoadedSkill
  | [] => skills
  | skill :: rest =>
    if skills.any fun s => s.name = skill.name then addUnseen skills rest else addUnseen (skills ++ [skill]) rest

/-- Discover and load skills from all configured directories: what a reload comes to. -/
def discoverAll (order : Order) (env : Environment) (fs : Fs) : List LoadedSkill :=
  let workspace :=
    if dirs.workspaceDir.isSome then discoverFromDir dirs yaml order env fs .workspace .trusted .workspace else []
  let user := discoverFromDir dirs yaml order env fs .user .trusted .user
  let installed :=
    if dirs.installedDir.isSome then discoverFromDir dirs yaml order env fs .installed .installed .user else []
  addUnseen (addUnseen (addUnseen [] workspace) user) installed

end Load

/-! ## The shared state -/

structure Shared where
  fs : Fs
  skills : List LoadedSkill
  /-- Who has made the directory of a place and not committed. -/
  pending : List (Nat × Place) := []
  /-- Who is to remove a place and has not ended. -/
  removing : List (Nat × Place) := []
  /-- Who has deleted the file of a place and not ended. -/
  deleted : List (Nat × Place) := []
  /-- The places an install wrote to. -/
  written : List Place := []

inductive Op
  | has (name : String)
  | createDirAll (root : Root) (name : String)
  | write (root : Root) (name : String) (bytes : List UInt8)
  | lstat (p : Place)
  | read (p : Place)
  | checkRequirements (requirements : GatingRequirements)
  | commitInstall (name : String) (skill : LoadedSkill)
  | validateRemove (name : String)
  | tryExists (p : Place)
  | removeFile (p : Place)
  | removeDir (p : Place)
  | commitRemove (name : String) (p : Place)

abbrev Ans : Op → Type
  | .has _ => Bool
  | .createDirAll _ _ => Except Errno Unit
  | .write _ _ _ => Except Errno Unit
  | .lstat _ => Except Errno Bool
  | .read _ => Except Errno (List UInt8)
  | .checkRequirements _ => List String
  | .commitInstall _ _ => Except SkillRegistryError Unit
  | .validateRemove _ => Except SkillRegistryError Place
  | .tryExists _ => Bool
  | .removeFile _ => Except Errno Unit
  | .removeDir _ => Unit
  | .commitRemove _ _ => Except SkillRegistryError Unit

/-- Validate that a skill can be removed: where it is. -/
def validateRemoval (skills : List LoadedSkill) (name : String) : Except SkillRegistryError Place :=
  match skills.find? fun s => s.name = name with
  | none => .error (.notFound name)
  | some skill =>
    match skill.source with
    | .user path => .ok path
    | .workspace _ => .error (.cannotRemove name "workspace skills cannot be removed via this interface")
    | .bundled _ => .error (.cannotRemove name "bundled skills cannot be removed")

/-- What an operation answers and leaves behind; the environment is that of the moment. -/
def perform (t : Nat) : (o : Op) → Environment → Shared → Option (Ans o × Shared)
  | .has name, _, s => some (s.skills.any fun skill => skill.name = name, s)
  | .createDirAll root name, _, s =>
    match s.fs.createDirAll root name with
    | .error e => some (.error e, s)
    | .ok fs => some (.ok (), { s with fs, pending := (t, .sub root name) :: s.pending })
  | .write root name bytes, _, s =>
    match s.fs.write root name bytes with
    | .error e => some (.error e, { s with pending := s.pending.filter (· ≠ (t, .sub root name)) })
    | .ok fs => some (.ok (), { s with fs, written := .sub root name :: s.written })
  | .lstat p, _, s => some (s.fs.lstat p, s)
  | .read p, _, s => some (s.fs.read p, s)
  | .checkRequirements requirements, env, s => some (Skills.checkRequirements env requirements, s)
  | .commitInstall name skill, _, s =>
    -- Another task may have installed between prepare and commit.
    if s.skills.any fun skill => skill.name = name then some (.error (.alreadyExists name), s)
    else some (.ok (), { s with skills := s.skills ++ [skill], pending := s.pending.filter (· ≠ (t, skill.source.path)) })
  | .validateRemove name, _, s =>
    match validateRemoval s.skills name with
    | .error e => some (.error e, s)
    | .ok p => some (.ok p, { s with removing := (t, p) :: s.removing })
  | .tryExists p, _, s => some (s.fs.exists_ p, s)
  | .removeFile p, _, s =>
    match s.fs.removeFile p with
    | .error e => some (.error e, { s with removing := s.removing.filter (· ≠ (t, p)) })
    | .ok fs => some (.ok (), { s with fs, deleted := (t, p) :: s.deleted })
  | .removeDir p, _, s => some ((), { s with fs := s.fs.removeDir p })
  | .commitRemove name p, _, s =>
    let done := { s with removing := s.removing.filter (· ≠ (t, p)), deleted := s.deleted.filter (· ≠ (t, p)) }
    if s.skills.any fun skill => skill.name = name then
      some (.ok (), { done with skills := s.skills.eraseP fun skill => skill.name = name })
    else some (.error (.notFound name), done)

/-! ## Installation -/

section Calls

variable (dirs : Dirs) (yaml : Yaml)

/-- `load_and_validate_skill`, as what it does one after the other. -/
def loadFromDisk (p : Place) (trust : SkillTrust) (source : SkillSource) :
    Prog Op Ans (Except SkillRegistryError LoadedSkill) := do
  match ← perf (Op.lstat p) with
  | .error e => pure (.error (.readError (dirs.mdText p) (osError e)))
  | .ok true => pure (.error (.symlinkDetected (dirs.mdText p)))
  | .ok false =>
    match ← perf (Op.read p) with
    | .error e => pure (.error (.readError (dirs.mdText p) (osError e)))
    | .ok rawBytes =>
      match parseSkillFile yaml (dirs.mdText p) rawBytes with
      | .error e => pure (.error e)
      | .ok parsed =>
        match parsed.manifest.requirements with
        | none => pure (finishLoad parsed trust source)
        | some requirements =>
          let failures ← perf (Op.checkRequirements requirements)
          if failures ≠ [] then pure (.error (gatingError parsed failures))
          else pure (finishLoad parsed trust source)

/-- Perform the disk I/O and loading for a skill install. -/
def prepareInstallToDisk (root : Root) (skillName normalizedContent : String) :
    Prog Op Ans (Except SkillRegistryError LoadedSkill) := do
  match ← perf (Op.createDirAll root skillName) with
  | .error e => pure (.error (.writeError (dirs.dirText (.sub root skillName)) (osError e)))
  | .ok () =>
    match ← perf (Op.write root skillName (encodeUtf8 normalizedContent.toList)) with
    | .error e => pure (.error (.writeError (dirs.mdText (.sub root skillName)) (osError e)))
    | .ok () => loadFromDisk dirs yaml (.sub root skillName) .installed (.user (.sub root skillName))

/-- Write, load and commit: what both ways to install do once the name is free. -/
def installTo (root : Root) (skillName normalizedContent : String) : Prog Op Ans (Except SkillRegistryError String) := do
  match ← prepareInstallToDisk dirs yaml root skillName normalizedContent with
  | .error e => pure (.error e)
  | .ok skill =>
    match ← perf (Op.commitInstall skill.name skill) with
    | .error e => pure (.error e)
    | .ok () => pure (.ok skill.name)

/-- Install a skill at runtime from `SKILL.md` content. The registry is borrowed meanwhile, which only takes
    interleavings away. -/
def installSkill (content : String) : Prog Op Ans (Except SkillRegistryError String) :=
  let normalized := normalizeLineEndings content
  match parseSkillMd yaml normalized with
  | .error (.invalidName name) => pure (.error (.parseError name (SkillParseError.invalidName name).text))
  | .error e => pure (.error (.parseError "(install)" e.text))
  | .ok parsed => do
      if ← perf (Op.has parsed.manifest.name) then pure (.error (.alreadyExists parsed.manifest.name))
      else installTo dirs yaml .user parsed.manifest.name normalized

/-- An error of the registry as one of a tool. -/
def toToolError {α : Type} : Except SkillRegistryError α → Except Tools.ToolError α
  | .error e => .error (.executionFailed e.text)
  | .ok a => .ok a

/-- The tool that installs a skill; fetching the content may have failed. -/
def skillInstall (content : Except Tools.ToolError String) : Prog Op Ans (Except Tools.ToolError String) :=
  match content with
  | .error e => pure (.error e)
  | .ok content =>
    let normalized := normalizeLineEndings content
    match parseSkillMd yaml normalized with
    | .error e => pure (.error (.executionFailed e.text))
    | .ok parsed => do
        if ← perf (Op.has parsed.manifest.name) then
          pure (.error (.executionFailed ("Skill '" ++ parsed.manifest.name ++ "' already exists")))
        else
          let r ← installTo dirs yaml dirs.installTargetDir parsed.manifest.name normalized
          pure (toToolError r)

/-! ## Removal -/

/-- Remove a skill's files from disk. -/
def deleteSkillFiles (p : Place) : Prog Op Ans (Except SkillRegistryError Unit) := do
  if ← perf (Op.tryExists p) then
    match ← perf (Op.removeFile p) with
    | .error e => pure (.error (.writeError (dirs.mdText p) (osError e)))
    | .ok () =>
      perf (Op.removeDir p)
      pure (.ok ())
  else pure (.ok ())

/-- Remove a skill by name. -/
def removeSkill (name : String) : Prog Op Ans (Except SkillRegistryError Unit) := do
  match ← perf (Op.validateRemove name) with
  | .error e => pure (.error e)
  | .ok p =>
    match ← deleteSkillFiles dirs p with
    | .error e => pure (.error e)
    | .ok () => perf (Op.commitRemove name p)

/-- The tool that removes a skill. -/
def skillRemove (name : String) : Prog Op Ans (Except Tools.ToolError Unit) := do
  let r ← removeSkill dirs name
  pure (toToolError r)

/-! ## The machine -/

inductive Call
  | installSkill (content : String)
  | skillInstall (content : Except Tools.ToolError String)
  | removeSkill (name : String)
  | skillRemove (name : String)

abbrev Out : Call → Type
  | .installSkill _ => Except SkillRegistryError String
  | .skillInstall _ => Except Tools.ToolError String
  | .removeSkill _ => Except SkillRegistryError Unit
  | .skillRemove _ => Except Tools.ToolError Unit

def body : (c : Call) → Prog Op Ans (Out c)
  | .installSkill content => installSkill dirs yaml content
  | .skillInstall content => skillInstall dirs yaml content
  | .removeSkill name => removeSkill dirs name
  | .skillRemove name => skillRemove dirs name

/-- Any number of calls at once. -/
def machine : Machine where
  Shared := Shared
  Op := Op
  Ans := Ans
  Input := Environment
  Call := Call
  Out := Out
  body := body dirs yaml
  perform := perform

/-- The registry after the skills were discovered. -/
def loaded (order : Order) (env : Environment) (fs : Fs) : Shared := { fs, skills := discoverAll dirs yaml order env fs }

end Calls

end Freeclawdia.Skills
