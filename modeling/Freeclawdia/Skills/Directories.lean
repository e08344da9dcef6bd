import Freeclawdia.Lib.FileTree

/-!
# `Skills.Directories` — the directories skills are read from and written to

Three directories hold skills: that of the workspace, that of the user, and that of installed skills. An entry of one of
them is a file, a link or a directory; in the directory of a skill only the `SKILL.md` matters, and whether there is
anything else. Links lead to entries of these directories, or of directories elsewhere.
-/

namespace Freeclawdia.Skills

/-- The directories; what is in no directory of skills is `elsewhere`. -/
inductive Root
  | workspace
  | user
  | installed
  | elsewhere
deriving DecidableEq

/-- What the name `SKILL.md` stands for in the directory of a skill. A link leads to the `SKILL.md` of an entry. -/
inductive Md
  | file (bytes : List UInt8)
  | link (root : Root) (name : String)
  | dir
deriving DecidableEq

/-- An entry of a directory; `others` says whether a directory holds something else than a `SKILL.md`. -/
inductive Entry
  | file (bytes : List UInt8)
  | link (root : Root) (name : String)
  | dir (md : Option Md) (others : Bool)
deriving DecidableEq

/-- The entries of the directories. -/
abbrev Fs := Root → String → Option Entry

/-- Where a skill is: in an entry of a directory, or flat in the directory itself. -/
inductive Place
  | sub (root : Root) (name : String)
  | flat (root : Root)
deriving DecidableEq

def Place.root : Place → Root
  | sub root _ => root
  | flat root => root

/-- Where a path leads. -/
inductive Dest
  | here (root : Root) (name : String)
  | fails (e : Errno)

def SKILL_MD : String := "SKILL.md"

/-- How many links are followed on one path. -/
def MAX_LINKS : Nat := 40

/-- `Display` of an error of the operating system. -/
def osError : Errno → String
  | .notFound => "No such file or directory (os error 2)"
  | .alreadyExists => "File exists (os error 17)"
  | .notADirectory => "Not a directory (os error 20)"
  | .isADirectory => "Is a directory (os error 21)"
  | .tooManyLinks => "Too many levels of symbolic links (os error 40)"

namespace Fs

variable (fs : Fs)

/-- Change one entry. -/
def set (root : Root) (name : String) (e : Option Entry) : Fs :=
  fun root' name' => if root' = root ∧ name' = name then e else fs root' name'

/-- The directory an entry is or leads to. -/
def dirAt : (links : Nat) → Root → String → Dest
  | 0, _, _ => .fails .tooManyLinks
  | links + 1, root, name =>
    match fs root name with
    | none => .fails .notFound
    | some (.file _) => .fails .notADirectory
    | some (.link root' name') => dirAt links root' name'
    | some (.dir _ _) => .here root name

/-- What `SKILL.md` is in the directory of an entry. -/
def md (root : Root) (name : String) : Option Md :=
  match fs root name with
  | some (.dir md _) => md
  | _ => none

/-- Where the `SKILL.md` of an entry is read and written, all links followed. -/
def fileAt : (links : Nat) → Root → String → Dest
  | 0, _, _ => .fails .tooManyLinks
  | links + 1, root, name =>
    match fs.dirAt (links + 1) root name with
    | .fails e => .fails e
    | .here root name =>
      match fs.md root name with
      | some (.link root' name') => fileAt links root' name'
      | some .dir => .fails .isADirectory
      | _ => .here root name

/-! ## System calls -/

/-- `create_dir_all` of an entry. -/
def createDirAll (root : Root) (name : String) : Except Errno Fs :=
  match fs root name with
  | none => .ok (fs.set root name (some (.dir none false)))
  | some (.dir _ _) => .ok fs
  | some (.file _) => .error .alreadyExists
  | some (.link _ _) =>
    match fs.dirAt MAX_LINKS root name with
    | .here _ _ => .ok fs
    | .fails _ => .error .alreadyExists

/-- `write` of the `SKILL.md` of an entry. -/
def write (root : Root) (name : String) (bytes : List UInt8) : Except Errno Fs :=
  match fs.fileAt MAX_LINKS root name with
  | .fails e => .error e
  | .here root name =>
    match fs root name with
    | some (.dir _ others) => .ok (fs.set root name (some (.dir (some (.file bytes)) others)))
    | _ => .error .notFound

/-- `symlink_metadata` of the `SKILL.md` of a place: is it a link? -/
def lstat : Place → Except Errno Bool
  | .sub root name =>
    match fs.dirAt MAX_LINKS root name with
    | .fails e => .error e
    | .here root name =>
      match fs.md root name with
      | none => .error .notFound
      | some (.link _ _) => .ok true
      | some _ => .ok false
  | .flat root =>
    match fs root SKILL_MD with
    | none => .error .notFound
    | some (.link _ _) => .ok true
    | some _ => .ok false

/-- `read` of the `SKILL.md` of a place. In the flat layout it is read only after `lstat` said that it is no link. -/
def read : Place → Except Errno (List UInt8)
  | .sub root name =>
    match fs.fileAt MAX_LINKS root name with
    | .fails e => .error e
    | .here root name =>
      match fs.md root name with
      | some (.file bytes) => .ok bytes
      | _ => .error .notFound
  | .flat root =>
    match fs root SKILL_MD with
    | some (.file bytes) => .ok bytes
    | some (.dir _ _) => .error .isADirectory
    | _ => .error .notFound

/-- `try_exists` of the `SKILL.md` of a place. -/
def exists_ : Place → Bool
  | .sub root name =>
    match fs.fileAt MAX_LINKS root name with
    | .fails e => e = .isADirectory
    | .here root name => (fs.md root name).isSome
  | .flat root =>
    match fs root SKILL_MD with
    | none => false
    | some (.link root' name') =>
      match fs.dirAt MAX_LINKS root' name' with
      | .fails e => e = .notADirectory
      | .here _ _ => true
    | some _ => true

/-- `remove_file` of the `SKILL.md` of a place. -/
def removeFile : Place → Except Errno Fs
  | .sub root name =>
    match fs.dirAt MAX_LINKS root name with
    | .fails e => .error e
    | .here root name =>
      match fs root name with
      | some (.dir (some .dir) _) => .error .isADirectory
      | some (.dir (some _) others) => .ok (fs.set root name (some (.dir none others)))
      | _ => .error .notFound
  | .flat root =>
    match fs root SKILL_MD with
    | none => .error .notFound
    | some (.dir _ _) => .error .isADirectory
    | some _ => .ok (fs.set root SKILL_MD none)

/-- `remove_dir` of a place, which fails without consequences when the directory is not empty. An empty directory of
    skills and one that is not there list alike. -/
def removeDir : Place → Fs
  | .sub root name =>
    match fs root name with
    | some (.dir none false) => fs.set root name none
    | _ => fs
  | .flat _ => fs

end Fs

end Freeclawdia.Skills
