import Mathlib.Data.List.Infix

/-!
# `Lib.FileTree` — file trees with symbolic links, and how the kernel walks a path

A tree maps **locations** (the names from the root down) to directories, files and symbolic links; only a
directory has entries. A path is walked piece by piece from a directory; a link met on the way is replaced by
the pieces of its target, at most `budget` times in one walk. A walk finds a location, or ends at the one
missing entry of an existing directory (where a creating call would put it), or fails.

The rules about walks: a walk of `xs ++ ys` is a walk of `xs` followed by a walk of `ys`, a location is found
at itself, and a walk that finds something still finds it after entries are added.
-/

namespace Freeclawdia

/-- A textual path: whether it starts at the root, and the pieces between its slashes. -/
structure Path where
  absolute : Bool
  parts : List String
  deriving DecidableEq

/-- Names from the root down, without links, `.` and `..`. -/
abbrev Loc := List String

/-- What a location holds. -/
inductive Node
  | dir
  | file
  | symlink (target : Path)
  deriving DecidableEq

/-- A name that a directory entry can have. -/
def EntryName (name : String) : Prop := name ≠ "" ∧ name ≠ "." ∧ name ≠ ".."

instance (name : String) : Decidable (EntryName name) :=
  inferInstanceAs (Decidable (name ≠ "" ∧ name ≠ "." ∧ name ≠ ".."))

/-- A file tree. -/
structure FileTree where
  node : Loc → Option Node
  root : node [] = some .dir
  parent : ∀ loc name, node (loc ++ [name]) ≠ none → node loc = some .dir
  names : ∀ loc name, node (loc ++ [name]) ≠ none → EntryName name

/-- Why a system call fails. -/
inductive Errno
  | notFound
  | alreadyExists
  | notADirectory
  | isADirectory
  | tooManyLinks
  deriving DecidableEq

/-- How a walk ends. `found` says how many more links the walk could have followed. -/
inductive Outcome
  | found (loc : Loc) (budget : Nat)
  | missing (dir : Loc) (name : String)
  | failed (e : Errno)
  deriving DecidableEq

namespace FileTree

/-- Walk the pieces, leaving a link to `expand`. -/
def walkWith (t : FileTree) (expand : Loc → List String → Outcome) (budget : Nat) :
    Loc → List String → Outcome
  | loc, [] => .found loc budget
  | loc, name :: rest =>
    if t.node loc ≠ some .dir then .failed .notADirectory
    else if name = "" ∨ name = "." then walkWith t expand budget loc rest
    else if name = ".." then walkWith t expand budget loc.dropLast rest
    else
      match t.node (loc ++ [name]) with
      | none => if rest = [] then .missing loc name else .failed .notFound
      | some (.symlink target) => expand (if target.absolute then [] else loc) (target.parts ++ rest)
      | some _ => walkWith t expand budget (loc ++ [name]) rest

/-- Walk the pieces from a location, following at most `budget` links. -/
def walk (t : FileTree) : Nat → Loc → List String → Outcome
  | 0 => walkWith t (fun _ _ => .failed .tooManyLinks) 0
  | budget + 1 => walkWith t (walk t budget) (budget + 1)

/-- What a walk does with a link. -/
def follow (t : FileTree) : Nat → Loc → List String → Outcome
  | 0 => fun _ _ => .failed .tooManyLinks
  | budget + 1 => walk t budget

variable (t : FileTree)

/-! ## One piece of a walk -/

theorem walk_eq (n : Nat) : t.walk n = t.walkWith (t.follow n) n := by
  cases n with
  | zero => rfl
  | succ n => rfl

@[simp] theorem walk_nil (n : Nat) (loc : Loc) : t.walk n loc [] = .found loc n := by
  rw [walk_eq]
  rfl

theorem walk_cons (n : Nat) (loc : Loc) (name : String) (rest : List String) : t.walk n loc (name :: rest) =
      if t.node loc ≠ some .dir then .failed .notADirectory else if name = "" ∨ name = "." then t.walk n loc rest
      else if name = ".." then t.walk n loc.dropLast rest else
        match t.node (loc ++ [name]) with
        | none => if rest = [] then .missing loc name else .failed .notFound
        | some (.symlink target) => t.follow n (if target.absolute then [] else loc) (target.parts ++ rest)
        | some _ => t.walk n (loc ++ [name]) rest := by
  rw [walk_eq]
  rfl

variable {t} {loc : Loc} {n : Nat} {name : String} {rest : List String}

theorem walk_entry (hdir : t.node loc = some .dir) (hname : EntryName name) : t.walk n loc (name :: rest) =
      match t.node (loc ++ [name]) with
      | none => if rest = [] then .missing loc name else .failed .notFound
      | some (.symlink target) => t.follow n (if target.absolute then [] else loc) (target.parts ++ rest)
      | some _ => t.walk n (loc ++ [name]) rest := by
  obtain ⟨hne, hdot, hdots⟩ := hname
  rw [walk_cons]
  simp [hdir, hne, hdot, hdots]

/-- A walk past something that is no directory fails. -/
theorem walk_notADirectory (hdir : t.node loc ≠ some .dir) : t.walk n loc (name :: rest) = .failed .notADirectory := by
  rw [walk_cons, if_pos hdir]

/-! ## Walks compose -/

/-- Go on with `ys` after a walk. -/
def resume (t : FileTree) (ys : List String) : Outcome → Outcome
  | .found loc n => t.walk n loc ys
  | .missing dir name => if ys = [] then .missing dir name else .failed .notFound
  | .failed e => .failed e

/-- Induction on the pieces; what happens at a link is given. -/
theorem walk_append_of_follow {ys : List String}
    (hfollow : ∀ loc zs, t.follow n loc (zs ++ ys) = t.resume ys (t.follow n loc zs)) (xs : List String) :
    ∀ loc, t.walk n loc (xs ++ ys) = t.resume ys (t.walk n loc xs) := by
  induction xs with
  | nil =>
    intro loc
    rw [List.nil_append, walk_nil]
    rfl
  | cons x xs ih =>
    intro loc
    rw [List.cons_append, walk_cons, walk_cons]
    by_cases hdir : t.node loc ≠ some .dir
    · rw [if_pos hdir, if_pos hdir]
      rfl
    · rw [if_neg hdir, if_neg hdir]
      by_cases hdot : x = "" ∨ x = "."
      · rw [if_pos hdot, if_pos hdot]
        exact ih loc
      · rw [if_neg hdot, if_neg hdot]
        by_cases hdots : x = ".."
        · rw [if_pos hdots, if_pos hdots]
          exact ih loc.dropLast
        · rw [if_neg hdots, if_neg hdots]
          cases t.node (loc ++ [x]) with
          | none =>
            by_cases hxs : xs = []
            · simp [hxs, resume]
            · simp [hxs, resume]
          | some node =>
            cases node with
            | symlink target =>
              show t.follow n _ (target.parts ++ (xs ++ ys)) = t.resume ys (t.follow n _ (target.parts ++ xs))
              rw [← List.append_assoc]
              exact hfollow _ _
            | dir => exact ih (loc ++ [x])
            | file => exact ih (loc ++ [x])

/-- **Composition** of walks: the links met use up the budget, so the induction is on it. -/
theorem walk_append (t : FileTree) (n : Nat) (loc : Loc) (xs ys : List String) :
    t.walk n loc (xs ++ ys) = t.resume ys (t.walk n loc xs) := by
  induction n generalizing loc xs with
  | zero => exact walk_append_of_follow (fun _ _ => rfl) xs loc
  | succ n ih =>
    have hfollow : ∀ loc zs, t.follow (n + 1) loc (zs ++ ys) = t.resume ys (t.follow (n + 1) loc zs) :=
      fun loc zs => ih loc zs
    exact walk_append_of_follow hfollow xs loc

variable {xs : List String} {x : String}

/-- What precedes a piece that was walked was found, and is a directory. -/
theorem found_of_walk_snoc (h : ∀ e, t.walk n loc (xs ++ [x]) ≠ .failed e) :
    ∃ loc' m, t.walk n loc xs = .found loc' m ∧ t.node loc' = some .dir := by
  rw [walk_append] at h
  cases hw : t.walk n loc xs with
  | missing dir name =>
    rw [hw] at h
    exact absurd rfl (h .notFound)
  | failed e =>
    rw [hw] at h
    exact absurd rfl (h e)
  | found loc' m =>
    rw [hw] at h
    refine ⟨loc', m, rfl, ?_⟩
    by_contra hdir
    exact h .notADirectory (walk_notADirectory hdir)

/-! ## What is found -/

/-- A directory or a file, not a link. -/
def Solid (t : FileTree) (loc : Loc) : Prop := t.node loc = some .dir ∨ t.node loc = some .file

theorem Solid.ne_none (h : t.Solid loc) : t.node loc ≠ none := by
  rcases h with h | h <;> simp [h]

theorem solid_root : t.Solid [] := Or.inl t.root

/-- Everything above an entry is a directory. -/
theorem node_above (more : List String) (hmore : more ≠ []) (h : t.node (loc ++ more) ≠ none) :
    t.node loc = some .dir := by
  induction more using List.reverseRecOn with
  | nil => exact absurd rfl hmore
  | append_singleton more x ih =>
    rw [← List.append_assoc] at h
    have hup := t.parent _ _ h
    by_cases hempty : more = []
    · rw [hempty, List.append_nil] at hup
      exact hup
    · apply ih hempty
      rw [hup]
      simp

variable {loc' : Loc}

theorem Solid.above (hsolid : t.Solid loc') (h : loc <+: loc') : t.Solid loc := by
  obtain ⟨more, rfl⟩ := h
  by_cases hmore : more = []
  · rw [hmore, List.append_nil] at hsolid
    exact hsolid
  · exact Or.inl (node_above more hmore hsolid.ne_none)

/-- A directory's parent is a directory. -/
theorem node_dropLast (h : t.node loc = some .dir) : t.node loc.dropLast = some .dir := by
  induction loc using List.reverseRecOn with
  | nil => exact h
  | append_singleton loc x _ =>
    rw [List.dropLast_concat]
    apply t.parent loc x
    rw [h]
    simp

theorem solid_of_follow (hfollow : ∀ loc zs loc' m, t.Solid loc → t.follow n loc zs = .found loc' m → t.Solid loc')
    (xs : List String) : ∀ loc loc' m, t.Solid loc → t.walk n loc xs = .found loc' m → t.Solid loc' := by
  induction xs with
  | nil =>
    intro loc loc' m hsolid h
    rw [walk_nil] at h
    injection h with h _
    rw [← h]
    exact hsolid
  | cons x xs ih =>
    intro loc loc' m hsolid h
    rw [walk_cons] at h
    by_cases hdir : t.node loc ≠ some .dir
    · rw [if_pos hdir] at h
      cases h
    · rw [if_neg hdir] at h
      rw [not_not] at hdir
      by_cases hdot : x = "" ∨ x = "."
      · rw [if_pos hdot] at h
        exact ih loc loc' m hsolid h
      · rw [if_neg hdot] at h
        by_cases hdots : x = ".."
        · rw [if_pos hdots] at h
          exact ih loc.dropLast loc' m (Or.inl (node_dropLast hdir)) h
        · rw [if_neg hdots] at h
          cases hnode : t.node (loc ++ [x]) with
          | none =>
            rw [hnode] at h
            by_cases hxs : xs = [] <;> simp [hxs] at h
          | some node =>
            rw [hnode] at h
            cases node with
            | symlink target =>
              -- the walk goes on at the root or in this directory
              refine hfollow _ _ loc' m ?_ h
              by_cases habs : target.absolute = true
              · rw [if_pos habs]
                exact solid_root
              · rw [if_neg habs]
                exact hsolid
            | dir => exact ih _ loc' m (Or.inl hnode) h
            | file => exact ih _ loc' m (Or.inr hnode) h

variable {m : Nat}

/-- A walk finds directories and files, never a link. -/
theorem solid_of_walk (hsolid : t.Solid loc) (h : t.walk n loc xs = .found loc' m) : t.Solid loc' := by
  induction n generalizing loc xs loc' m with
  | zero => exact solid_of_follow (fun _ _ _ _ _ h => by cases h) xs loc loc' m hsolid h
  | succ n ih =>
    have hfollow : ∀ loc zs loc' m, t.Solid loc → t.follow (n + 1) loc zs = .found loc' m → t.Solid loc' :=
      fun _ _ _ _ hs h => ih hs h
    exact solid_of_follow hfollow xs loc loc' m hsolid h

/-- One step down to something that is no link. -/
theorem walk_down (h : t.Solid (loc ++ [x])) : t.walk n loc [x] = .found (loc ++ [x]) n := by
  have hdir := t.parent loc x h.ne_none
  rw [walk_entry hdir (t.names loc x h.ne_none)]
  rcases h with h | h <;> simp [h]

/-- **A location is found at itself.** -/
theorem walk_location (h : t.Solid loc) : t.walk n [] loc = .found loc n := by
  induction loc using List.reverseRecOn with
  | nil => exact walk_nil t n []
  | append_singleton loc x ih =>
    rw [walk_append, ih (h.above (List.prefix_append loc [x]))]
    exact walk_down h

/-! ## Adding entries -/

/-- `t'` has what `t` has, and perhaps more. -/
def Extends (t' t : FileTree) : Prop := ∀ loc node, t.node loc = some node → t'.node loc = some node

variable {t' : FileTree}

theorem Extends.trans {t t'' : FileTree} (h : Extends t'' t') (h' : Extends t' t) : Extends t'' t :=
  fun loc node hn => h loc node (h' loc node hn)

theorem extends_of_follow (hext : Extends t' t)
    (hfollow : ∀ loc zs loc' m, t.follow n loc zs = .found loc' m → t'.follow n loc zs = .found loc' m)
    (xs : List String) :
    ∀ loc loc' m, t.walk n loc xs = .found loc' m → t'.walk n loc xs = .found loc' m := by
  induction xs with
  | nil =>
    intro loc loc' m h
    rw [walk_nil] at h ⊢
    exact h
  | cons x xs ih =>
    intro loc loc' m h
    rw [walk_cons] at h ⊢
    by_cases hdir : t.node loc ≠ some .dir
    · rw [if_pos hdir] at h
      cases h
    · rw [if_neg hdir] at h
      rw [not_not] at hdir
      rw [if_neg (not_not.mpr (hext _ _ hdir))]
      by_cases hdot : x = "" ∨ x = "."
      · rw [if_pos hdot] at h ⊢
        exact ih _ _ _ h
      · rw [if_neg hdot] at h ⊢
        by_cases hdots : x = ".."
        · rw [if_pos hdots] at h ⊢
          exact ih _ _ _ h
        · rw [if_neg hdots] at h ⊢
          cases hnode : t.node (loc ++ [x]) with
          | none =>
            rw [hnode] at h
            by_cases hxs : xs = [] <;> simp [hxs] at h
          | some node =>
            rw [hnode] at h
            rw [hext _ _ hnode]
            cases node with
            | symlink target => exact hfollow _ _ _ _ h
            | dir => exact ih _ _ _ h
            | file => exact ih _ _ _ h

/-- What a walk finds is still found when entries are added. -/
theorem walk_extends (hext : Extends t' t) (h : t.walk n loc xs = .found loc' m) :
    t'.walk n loc xs = .found loc' m := by
  induction n generalizing loc xs loc' m with
  | zero => exact extends_of_follow hext (fun _ _ _ _ h => by cases h) xs loc loc' m h
  | succ n ih =>
    have hfollow : ∀ loc zs loc' m, t.follow (n + 1) loc zs = .found loc' m →
        t'.follow (n + 1) loc zs = .found loc' m := fun _ _ _ _ h => ih h
    exact extends_of_follow hext hfollow xs loc loc' m h

/-- A new, empty directory. -/
def insertDir (t : FileTree) (loc : Loc) (name : String) (hdir : t.node loc = some .dir)
    (hname : EntryName name) : FileTree where
  node l := if l = loc ++ [name] then some .dir else t.node l
  root := by
    split
    · rfl
    · exact t.root
  parent := by
    intro l x h
    by_cases hx : l ++ [x] = loc ++ [name]
    · obtain ⟨rfl, _⟩ := List.append_inj' hx rfl
      split
      · rfl
      · exact hdir
    · rw [if_neg hx] at h
      split
      · rfl
      · exact t.parent l x h
  names := by
    intro l x h
    by_cases hx : l ++ [x] = loc ++ [name]
    · obtain ⟨_, hname'⟩ := List.append_inj' hx rfl
      injection hname' with hname' _
      rw [hname']
      exact hname
    · rw [if_neg hx] at h
      exact t.names l x h

theorem insertDir_extends (hdir : t.node loc = some .dir) (hname : EntryName name)
    (hfree : t.node (loc ++ [name]) = none) :
    Extends (t.insertDir loc name hdir hname) t := by
  intro l node h
  have hne : l ≠ loc ++ [name] := by
    intro heq
    rw [heq, hfree] at h
    cases h
  show (if l = loc ++ [name] then some Node.dir else t.node l) = some node
  rw [if_neg hne]
  exact h

/-! ## System calls -/

/-- `mkdir`, on the pieces of an absolute path, last first. The last piece is not followed: a link there is an
    entry that exists. -/
def mkdir (t : FileTree) (budget : Nat) : List String → Except Errno (FileTree × Loc)
  | [] => .error .alreadyExists
  | name :: up =>
    match t.walk budget [] up.reverse with
    | .found loc _ =>
      if hdir : t.node loc = some .dir then
        if hname : EntryName name then
          if t.node (loc ++ [name]) = none then .ok (t.insertDir loc name hdir hname, loc ++ [name])
          else .error .alreadyExists
        else .error .alreadyExists
      else .error .notADirectory
    | .missing .. => .error .notFound
    | .failed e => .error e

/-- `open` for writing with `O_CREAT`: the file that is written, found or created. A link in the last place is
    followed, also to a place where nothing is yet. -/
def openCreate (t : FileTree) (budget : Nat) (start : Loc) (parts : List String) : Except Errno Loc :=
  match t.walk budget start parts with
  | .found loc _ => if t.node loc = some .dir then .error .isADirectory else .ok loc
  | .missing dir name => .ok (dir ++ [name])
  | .failed e => .error e

end FileTree
end Freeclawdia
