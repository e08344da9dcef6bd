import Freeclawdia.Rust.Path
import Freeclawdia.Tools.Tool

/-!
# `Tools.Builtin.File` — the file tools

`tools/builtin/path_utils.rs`, and what `WriteFileTool::execute` (`tools/builtin/file.rs`) does to the file
tree with a validated path. `validate_path` compares one value with the sandbox and returns another: what it
returns is the canonical path of an existing path and the lexically normalised path otherwise; what it compares
is the canonical path, or the canonical path of the nearest existing ancestor with the rest appended.
-/

namespace Freeclawdia

open Rust

/-- Keep a component, drop `.`, and let `..` drop the normal component before it. -/
def pushLexical (components : List Component) : Component → List Component
  | .parentDir =>
    match components.getLast? with
    | some (.normal _) => components.dropLast
    | _ => components
  | .curDir => components
  | other => components ++ [other]

/-- Resolve `.` and `..` components lexically (no filesystem access). -/
def normalizeLexical (path : Path) : Path := .ofComponents (path.components.foldl pushLexical [])

/-- Check for null bytes and URL-encoded traversal only. -/
def isPathSafeMinimal (path : String) : Bool :=
  if path.toList.contains (Char.ofNat 0) then false
  else
    let lower := toLowercase path
    !(contains lower "%2e" || contains lower "%2f" || contains lower "%5c")

/-- Resolve to an absolute path. -/
def resolvePath (os : Os) (path : Path) (baseDir : Option Path) : Path :=
  if path.absolute then (os.canonicalize path).getD (normalizeLexical path)
  else
    match baseDir with
    | some base => (os.canonicalize (base.join path)).getD (normalizeLexical (base.join path))
    | none => normalizeLexical ((os.currentDir.getD (.ofString ".")).join path)

/-- Walk up to the nearest existing ancestor, canonicalize it, then re-append the tail. The components of the
    ancestor are given last first. -/
def nearestAncestor (os : Os) (resolved : Path) : List Component → List String → Path
  | up, tail =>
    let ancestor := Path.ofComponents up.reverse
    if os.pathExists ancestor then
      tail.foldl (fun result part => result.join ⟨false, [part]⟩) ((os.canonicalize ancestor).getD ancestor)
    else
      match up with
      | [] => resolved
      | .rootDir :: _ => resolved
      | .normal name :: above => nearestAncestor os resolved above (name :: tail)
      | _ :: above => nearestAncestor os resolved above tail

/-- The path that is compared with the sandbox. -/
def checkPath (os : Os) (resolved : Path) : Path :=
  if os.pathExists resolved then (os.canonicalize resolved).getD resolved
  else nearestAncestor os resolved resolved.components.reverse []

/-- Validate that a path is safe (no traversal attacks). -/
def validatePath (os : Os) (pathStr : String) (baseDir : Option Path) : Except Tools.ToolError Path :=
  if !isPathSafeMinimal pathStr then
    .error (.notAuthorized ("Path contains forbidden characters or sequences: " ++ pathStr))
  else
    let resolved := resolvePath os (.ofString pathStr) baseDir
    match baseDir with
    | none => .ok resolved
    | some base =>
      let baseCanonical := (os.canonicalize base).getD (normalizeLexical base)
      if !(checkPath os resolved).startsWith baseCanonical then
        .error (.notAuthorized ("Path escapes sandbox: " ++ pathStr))
      else .ok resolved

/-! ## Writing a file -/

/-- `fs::create_dir_all(parent)`, for an absolute path. -/
def createParents (os : Os) (path : Path) : Effect :=
  match path.parent with
  | some parent => os.tree.createDirAll os.maxLinks parent.parts.reverse
  | none => ⟨os.tree, [], .ok ()⟩

/-- What `write_file` does to the tree with a validated absolute path: create the parents, then write. The
    locations it created or wrote are returned also when it fails on the way. -/
def writeTouches (os : Os) (path : Path) : List Loc :=
  let parents := createParents os path
  match parents.result with
  | .error _ => parents.touched
  | .ok _ =>
    match parents.tree.openCreate os.maxLinks [] path.parts with
    | .ok loc => parents.touched ++ [loc]
    | .error _ => parents.touched

/-! ## The `read_file` tool

`tools/builtin/file.rs`: a file is read whole, and then a range of its lines is shown. What panics is `none`. -/

namespace ReadFileTool

/-- Maximum file size for reading (1MB). -/
def MAX_READ_SIZE : Nat := 1024 * 1024

/-- What `fs::metadata` and `fs::read_to_string` answer. -/
structure FileReads where
  metadataLen : Path → Except String Nat
  readToString : Path → Except String String

variable (overflowChecks : Bool)

/-- `usize` addition. An overflow panics when overflows are checked, and wraps otherwise. -/
def addUsize (a b : Nat) : Option Nat :=
  if a + b < 2 ^ 64 then some (a + b) else if overflowChecks then none else some ((a + b) % 2 ^ 64)

/-- `&lines[start..stop]`. -/
def sliceLines (lines : List String) (start stop : Nat) : Option (List String) :=
  if start ≤ stop ∧ stop ≤ lines.length then some ((lines.drop start).take (stop - start)) else none

/-- `{:>6}`. -/
def padNumber (n : Nat) : String := String.ofList (List.replicate (6 - (toString n).length) ' ') ++ toString n

/-- `{:>6}│ {}`. -/
def lineText (number : Nat) (line : String) : String := padNumber number ++ "│ " ++ line

def offsetOf (params : Json) : Nat := ((params.get "offset").bind Json.asU64).getD 0

def limitOf (params : Json) : Option Nat := (params.get "limit").bind Json.asU64

/-- The first part of `execute`: the path and the text of the file. -/
def readText (os : Os) (files : FileReads) (baseDir : Option Path) (params : Json) :
    Except Tools.ToolError (Path × String) := do
  let pathStr ← requireStr params "path"
  let path ← validatePath os pathStr baseDir
  match files.metadataLen path with
  | .error e => .error (.executionFailed ("Cannot access file: " ++ e))
  | .ok len =>
    if MAX_READ_SIZE < len then
      .error (.executionFailed ("File too large (" ++ toString len ++ " bytes). Maximum is " ++ toString MAX_READ_SIZE ++
        " bytes. Use offset/limit for partial reads."))
    else
      match files.readToString path with
      | .error e => .error (.executionFailed ("Failed to read file: " ++ e))
      | .ok content => .ok (path, content)

/-- `end_line`. -/
def endLineOf (startLine totalLines : Nat) : (limit : Option Nat) → Option Nat
  | some lim => (addUsize overflowChecks startLine lim).map fun stop => min stop totalLines
  | none => some totalLines

/-- The second part of `execute`: apply offset and limit. -/
def showLines (offset : Nat) (limit : Option Nat) (path : Path) (content : String) :
    Option Json := do
  let lines := Rust.lines content
  let totalLines := lines.length
  let startLine := if 0 < offset then offset - 1 else 0
  let endLine ← endLineOf overflowChecks startLine totalLines limit
  let selected ← sliceLines lines startLine endLine
  return .object
    [("content", .string (join "\n" (selected.zipIdx.map fun p => lineText (startLine + p.2 + 1) p.1))),
     ("total_lines", .number (.posInt totalLines)),
     ("lines_shown", .number (.posInt (endLine - startLine))),
     ("path", .string path.display)]

/-- `ReadFileTool::execute`. -/
def execute (os : Os) (files : FileReads) (baseDir : Option Path) (params : Json) :
    Option (Except Tools.ToolError Json) :=
  match readText os files baseDir params with
  | .error e => some (.error e)
  | .ok (path, content) => (showLines overflowChecks (offsetOf params) (limitOf params) path content).map .ok

end ReadFileTool
end Freeclawdia
