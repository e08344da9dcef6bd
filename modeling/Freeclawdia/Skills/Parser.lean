import Freeclawdia.Rust.Str

/-!
# `Skills.Parser` — the texts of skills (`skills/mod.rs`, `skills/parser.rs`, `skills/gating.rs`)

A `SKILL.md` is a YAML frontmatter between two lines of dashes and a prompt after it. Reading YAML is left to a
parameter; what is around it, the name, the limits and the requirements are checked here.
-/

namespace Freeclawdia.Skills

open Rust

/-! ## Manifests -/

/-- Requirements that must be satisfied for a skill to load. -/
structure GatingRequirements where
  bins : List String := []
  env : List String := []
  config : List String := []

/-- OpenClaw-specific metadata. -/
structure OpenClawMeta where
  requires : GatingRequirements := {}

structure SkillMetadata where
  openclaw : Option OpenClawMeta := none

/-- Activation criteria. -/
structure ActivationCriteria where
  keywords : List String := []
  patterns : List String := []
  tags : List String := []
  maxContextTokens : UInt64 := 2000

structure SkillManifest where
  name : String
  version : String := "0.0.0"
  description : String := ""
  activation : ActivationCriteria := {}
  metadata : Option SkillMetadata := none

def MAX_KEYWORDS_PER_SKILL : Nat := 20

def MAX_PATTERNS_PER_SKILL : Nat := 5

def MAX_TAGS_PER_SKILL : Nat := 10

def MIN_KEYWORD_TAG_LENGTH : Nat := 3

/-- Maximum file size (64 KiB). -/
def MAX_PROMPT_FILE_SIZE : Nat := 64 * 1024

/-- Enforce limits on keywords, patterns and tags. -/
def ActivationCriteria.enforceLimits (a : ActivationCriteria) : ActivationCriteria :=
  { a with
    keywords := (a.keywords.filter fun k => byteLen k ≥ MIN_KEYWORD_TAG_LENGTH).take MAX_KEYWORDS_PER_SKILL
    patterns := a.patterns.take MAX_PATTERNS_PER_SKILL
    tags := (a.tags.filter fun t => byteLen t ≥ MIN_KEYWORD_TAG_LENGTH).take MAX_TAGS_PER_SKILL }

def isAsciiAlphanumeric (c : Char) : Bool :=
  ('a' ≤ c && c ≤ 'z') || ('A' ≤ c && c ≤ 'Z') || ('0' ≤ c && c ≤ '9')

/-- The pattern for skill names: `^[a-zA-Z0-9][a-zA-Z0-9._-]{0,63}$`. -/
def validateSkillName (name : String) : Bool :=
  match name.toList with
  | [] => false
  | c :: rest =>
    isAsciiAlphanumeric c && rest.length ≤ 63 &&
      rest.all fun c => isAsciiAlphanumeric c || c == '.' || c == '_' || c == '-'

/-- Normalize line endings to line feeds. -/
def normalizeLineEndings (content : String) : String := replaceAll (replaceAll content "\r\n" "\n") "\r" "\n"

/-! ## Parsing -/

inductive SkillParseError
  | missingFrontmatter
  | invalidYaml (reason : String)
  | emptyPrompt
  | invalidName (name : String)

def SkillParseError.text : SkillParseError → String
  | missingFrontmatter => "Missing YAML frontmatter delimiters (expected `---` at start of file)"
  | invalidYaml reason => "Invalid YAML frontmatter: " ++ reason
  | emptyPrompt => "Prompt body is empty (no content after frontmatter)"
  | invalidName name => "Invalid skill name '" ++ name ++ "': must match [a-zA-Z0-9][a-zA-Z0-9._-]\x7b0,63\x7d"

structure ParsedSkill where
  manifest : SkillManifest
  promptContent : String

/-- How the YAML of a manifest is read. -/
abbrev Yaml := String → Except String SkillManifest

/-- Find the position of a closing delimiter on its own line, in bytes. -/
def findClosingDelimiter : (pos : Nat) → List String → Option Nat
  | _, [] => none
  | pos, line :: rest =>
    if trim line = "---" then some pos else findClosingDelimiter (pos + byteLen line + 1) rest

/-- What is before a position in bytes, and what is after it. -/
def splitAtByte : Nat → List Char → List Char × List Char
  | _, [] => ([], [])
  | n, c :: cs =>
    if n = 0 then ([], c :: cs)
    else
      let (before, after) := splitAtByte (n - lenUtf8 c) cs
      (c :: before, after)

/-- What follows the first line feed. -/
def afterLineFeed (cs : List Char) : Option (List Char) :=
  match cs.dropWhile (· ≠ '\n') with
  | [] => none
  | _ :: rest => some rest

/-- Parse a `SKILL.md` file from its raw content string. -/
def parseSkillMd (yaml : Yaml) (content : String) : Except SkillParseError ParsedSkill := do
  let content := (stripPrefix content "\uFEFF").getD content
  let trimmed := content.toList.dropWhile fun c => c = '\n' || c = '\r'
  if !"---".toList.isPrefixOf trimmed then throw .missingFrontmatter
  let some afterFirstLine := afterLineFeed (trimmed.drop 3) | throw .missingFrontmatter
  let some yamlEnd := findClosingDelimiter 0 (lines (String.ofList afterFirstLine)) | throw .missingFrontmatter
  let (yamlStr, afterYaml) := splitAtByte yamlEnd afterFirstLine
  match yaml (String.ofList yamlStr) with
  | .error reason => throw (.invalidYaml reason)
  | .ok manifest =>
    if !validateSkillName manifest.name then throw (.invalidName manifest.name)
    let promptContent := String.ofList (((afterLineFeed afterYaml).getD []).dropWhile (· = '\n'))
    if (trim promptContent).isEmpty then throw .emptyPrompt
    return { manifest := { manifest with activation := manifest.activation.enforceLimits }, promptContent }

-- What is proved about installs holds of every parser, so that it is never unfolded.
attribute [irreducible] parseSkillMd

/-! ## Gating -/

/-- What a skill may require: which binaries are on the path, which variables are set and which files there are. -/
structure Environment where
  binaryExists : String → Bool
  variableSet : String → Bool
  pathExists : String → Bool

/-- Check whether gating requirements are satisfied: the failures. -/
def checkRequirements (env : Environment) (requirements : GatingRequirements) : List String :=
  ((requirements.bins.filter fun bin => !env.binaryExists bin).map ("required binary not found: " ++ ·)) ++
  ((requirements.env.filter fun var => !env.variableSet var).map ("required env var not set: " ++ ·)) ++
  ((requirements.config.filter fun path => !env.pathExists path).map ("required config not found: " ++ ·))

/-- The requirements a manifest declares. -/
def SkillManifest.requirements (m : SkillManifest) : Option GatingRequirements :=
  (m.metadata.bind SkillMetadata.openclaw).map OpenClawMeta.requires

end Freeclawdia.Skills
