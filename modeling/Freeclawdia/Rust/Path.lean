import Freeclawdia.Lib.FileTree
import Freeclawdia.Rust.Str

/-!
# `Rust.Path` — `std::path` on Unix, and the `std::fs` calls over a file tree

The lexical side (`components`, `join`, `parent`, `file_name`, `starts_with`) never looks at the tree; the
other side (`canonicalize`, `exists`, `create_dir_all`, `write`) asks the kernel, which walks the path with all
its links.
-/

namespace Freeclawdia

open Rust

/-! ## Paths as text -/

/-- `std::path::Component`, without the Windows prefixes. -/
inductive Component
  | rootDir
  | curDir
  | parentDir
  | normal (name : String)
  deriving DecidableEq

/-- The text of a component after the root. -/
def Component.text : Component → String
  | .rootDir => ""
  | .curDir => "."
  | .parentDir => ".."
  | .normal name => name

namespace Path

/-- Cut a character list at every slash. -/
def piecesOf : List Char → List Char → List (List Char)
  | piece, [] => [piece]
  | piece, c :: cs => if c = '/' then piece :: piecesOf [] cs else piecesOf (piece ++ [c]) cs

/-- `PathBuf::from`. -/
def ofString (s : String) : Path :=
  ⟨startsWith s "/", (piecesOf [] s.toList).map String.ofList⟩

/-- The component of a piece; empty pieces and `.` give none. -/
def componentOf (part : String) : Option Component :=
  if part = "" ∨ part = "." then none else if part = ".." then some .parentDir else some (.normal part)

/-- `Path::components`. A leading `.` of a relative path is kept. -/
def components (p : Path) : List Component :=
  if p.absolute then .rootDir :: p.parts.filterMap componentOf
  else if p.parts.head? = some "." then .curDir :: p.parts.filterMap componentOf
  else p.parts.filterMap componentOf

/-- Collect components into a path. -/
def ofComponents (cs : List Component) : Path :=
  ⟨cs.head? = some .rootDir, (cs.filter fun c => c ≠ .rootDir).map Component.text⟩

/-- `Path::join`: an absolute path replaces the base. -/
def join (base p : Path) : Path := if p.absolute then p else ⟨base.absolute, base.parts ++ p.parts⟩

/-- `Path::display`, of a path without empty parts. -/
def display (p : Path) : String := (if p.absolute then "/" else "") ++ Rust.join "/" p.parts

/-- `Path::parent`. -/
def parent (p : Path) : Option Path :=
  match p.components.reverse with
  | [] => none
  | .rootDir :: _ => none
  | _ :: up => some (ofComponents up.reverse)

/-- `Path::starts_with`, component by component. -/
def startsWith (p base : Path) : Bool := base.components.isPrefixOf p.components

end Path

/-! ## The operating system -/

/-- The tree as a process sees it. -/
structure Os where
  tree : FileTree
  /-- How many links the kernel follows in one path. -/
  maxLinks : Nat
  /-- Where relative paths start, and what `std::env::current_dir` returns. -/
  cwd : Loc
  currentDir : Option Path

namespace Os

variable (os : Os)

/-- Resolve a path, following every link. -/
def resolve (p : Path) : Outcome := os.tree.walk os.maxLinks (if p.absolute then [] else os.cwd) p.parts

/-- The location a path leads to. -/
def reach (p : Path) : Option Loc :=
  match os.resolve p with
  | .found loc _ => some loc
  | _ => none

/-- `Path::canonicalize`. -/
def canonicalize (p : Path) : Option Path := (os.reach p).map fun loc => ⟨true, loc⟩

/-- `Path::exists`. -/
def pathExists (p : Path) : Bool := (os.reach p).isSome

end Os

/-- What a sequence of calls left behind: the tree, the locations created or written, and the result. -/
structure Effect where
  tree : FileTree
  touched : List Loc
  result : Except Errno Unit

namespace FileTree

/-- `Path::is_dir`, on the pieces of an absolute path, last first. -/
def isDir (t : FileTree) (budget : Nat) (up : List String) : Bool :=
  match t.walk budget [] up.reverse with
  | .found loc _ => decide (t.node loc = some .dir)
  | _ => false

/-- `fs::create_dir_all`, on the pieces of an absolute path, last first. -/
def createDirAll (t : FileTree) (budget : Nat) : List String → Effect
  | [] => ⟨t, [], .ok ()⟩
  | name :: up =>
    match t.mkdir budget (name :: up) with
    | .ok (t', loc) => ⟨t', [loc], .ok ()⟩
    | .error .notFound =>
      let above := t.createDirAll budget up
      match above.result with
      | .error _ => above
      | .ok _ =>
        match above.tree.mkdir budget (name :: up) with
        | .ok (t', loc) => ⟨t', above.touched ++ [loc], .ok ()⟩
        | .error e =>
          if above.tree.isDir budget (name :: up) then above else { above with result := .error e }
    | .error e => if t.isDir budget (name :: up) then ⟨t, [], .ok ()⟩ else ⟨t, [], .error e⟩

end FileTree
end Freeclawdia
