import Freeclawdia.Tools.Builtin.File

/-!
# `Correctness.PathSandbox` — where a validated path can lead

`validate_path` never lets the operating system leave the sandbox through anything that **exists**: an existing
path is compared by its canonical form, and below the nearest existing ancestor nothing exists that could lead
elsewhere. Except a link: a dangling one does not "exist" either, but a file that is created through it is
created at its target.

Everything is about absolute paths without `.` and `..` (`Plain`), since that is what validation returns.
-/

namespace Freeclawdia.PathSandbox

/-! ## Plain paths -/

/-- Absolute, and made of entry names only. -/
def Plain (p : Path) : Prop := p.absolute = true ∧ ∀ name ∈ p.parts, EntryName name

/-- The components of a plain path. -/
def plainComponents (names : List String) : List Component := .rootDir :: names.map .normal

variable {names : List String}

theorem components_plain (h : ∀ name ∈ names, EntryName name) :
    (⟨true, names⟩ : Path).components = plainComponents names := by
  have hparts : names.filterMap Path.componentOf = names.map Component.normal := by
    rw [← List.filterMap_eq_map]
    apply List.filterMap_congr
    intro name hname
    obtain ⟨hne, hdot, hdots⟩ := h name hname
    simp [Path.componentOf, hne, hdot, hdots]
  simp [Path.components, plainComponents, hparts]

theorem ofComponents_plain (names : List String) : Path.ofComponents (plainComponents names) = ⟨true, names⟩ := by
  simp [Path.ofComponents, plainComponents, List.filter_map, Function.comp_def, Component.text]

theorem plainComponents_snoc (names : List String) (name : String) :
    (plainComponents (names ++ [name])).reverse = .normal name :: (plainComponents names).reverse := by
  simp [plainComponents]

theorem parent_plain {name : String} (h : ∀ x ∈ names ++ [name], EntryName x) :
    (⟨true, names ++ [name]⟩ : Path).parent = some ⟨true, names⟩ := by
  unfold Path.parent
  rw [components_plain h, plainComponents_snoc]
  simp [ofComponents_plain]

theorem startsWith_plain {xs ys : List String} (hx : ∀ x ∈ xs, EntryName x) (hy : ∀ y ∈ ys, EntryName y) :
    (⟨true, xs⟩ : Path).startsWith ⟨true, ys⟩ = true ↔ ys <+: xs := by
  unfold Path.startsWith
  rw [components_plain hx, components_plain hy, List.isPrefixOf_iff_prefix]
  unfold plainComponents
  rw [List.cons_prefix_cons]
  constructor
  · rintro ⟨-, hpre⟩
    exact (List.prefix_map_iff_of_injective (fun a b h => by injection h)).mp hpre
  · intro hpre
    exact ⟨rfl, hpre.map _⟩

/-- One component onto a plain list: it stays plain. -/
theorem pushLexical_plain (h : ∀ x ∈ names, EntryName x) {c : Component}
    (hc : ∀ x, c = .normal x → EntryName x) (hroot : c ≠ .rootDir) :
    ∃ names', pushLexical (plainComponents names) c = plainComponents names' ∧ ∀ x ∈ names', EntryName x := by
  cases c with
  | rootDir => exact absurd rfl hroot
  | curDir => exact ⟨names, rfl, h⟩
  | normal x =>
    refine ⟨names ++ [x], by simp [pushLexical, plainComponents], ?_⟩
    intro y hy
    rcases List.mem_append.mp hy with hy | hy
    · exact h y hy
    · rw [List.mem_singleton.mp hy]
      exact hc x rfl
  | parentDir =>
    -- at the root `..` is dropped
    induction names using List.reverseRecOn with
    | nil => exact ⟨[], rfl, by simp⟩
    | append_singleton names x _ =>
      refine ⟨names, ?_, fun y hy => h y (List.mem_append_left _ hy)⟩
      simp [pushLexical, plainComponents, List.getLast?_cons, List.dropLast_cons_of_ne_nil]

theorem foldl_pushLexical_plain {cs : List Component} (hcs : ∀ c ∈ cs, c ≠ .rootDir ∧ ∀ x, c = .normal x → EntryName x) :
    ∀ {names : List String}, (∀ x ∈ names, EntryName x) →
      ∃ names', cs.foldl pushLexical (plainComponents names) = plainComponents names' ∧ ∀ x ∈ names', EntryName x := by
  induction cs with
  | nil =>
    intro names h
    exact ⟨names, rfl, h⟩
  | cons c cs ih =>
    intro names h
    obtain ⟨hroot, hc⟩ := hcs c List.mem_cons_self
    obtain ⟨names', heq, h'⟩ := pushLexical_plain h hc hroot
    rw [List.foldl_cons, heq]
    exact ih (fun d hd => hcs d (List.mem_cons_of_mem c hd)) h'

theorem componentOf_entry {part : String} {c : Component} (h : Path.componentOf part = some c) :
    c ≠ .rootDir ∧ ∀ x, c = .normal x → EntryName x := by
  unfold Path.componentOf at h
  split_ifs at h with hdot hdots
  · injection h with h
    subst h
    simp
  · injection h with h
    subst h
    rw [not_or] at hdot
    simp only [ne_eq, reduceCtorEq, not_false_eq_true, Component.normal.injEq, forall_eq', true_and]
    exact ⟨hdot.1, hdot.2, hdots⟩

/-- **Lexical normalisation** of an absolute path is plain. -/
theorem normalizeLexical_plain {p : Path} (habs : p.absolute = true) : Plain (normalizeLexical p) := by
  have hcs : p.components = .rootDir :: p.parts.filterMap Path.componentOf := by simp [Path.components, habs]
  have hentries : ∀ c ∈ p.parts.filterMap Path.componentOf, c ≠ .rootDir ∧ ∀ x, c = .normal x → EntryName x := by
    intro c hc
    obtain ⟨part, _, hpart⟩ := List.mem_filterMap.mp hc
    exact componentOf_entry hpart
  have hnil : ∀ x ∈ ([] : List String), EntryName x := by simp
  obtain ⟨names, heq, hnames⟩ := foldl_pushLexical_plain hentries hnil
  have hnorm : normalizeLexical p = ⟨true, names⟩ := by
    unfold normalizeLexical
    rw [hcs, List.foldl_cons]
    show Path.ofComponents ((p.parts.filterMap Path.componentOf).foldl pushLexical (plainComponents [])) = _
    rw [heq, ofComponents_plain]
  rw [hnorm]
  exact ⟨rfl, hnames⟩

/-- Locations have entry names. -/
theorem entryNames_of_node {t : FileTree} {loc : Loc} (h : t.node loc ≠ none) : ∀ name ∈ loc, EntryName name := by
  induction loc using List.reverseRecOn with
  | nil => simp
  | append_singleton loc x ih =>
    have hup : t.node loc ≠ none := by simp [t.parent loc x h]
    intro name hname
    rcases List.mem_append.mp hname with hmem | hmem
    · exact ih hup name hmem
    · rw [List.mem_singleton.mp hmem]
      exact t.names loc x h

/-! ## Absolute paths and the kernel -/

section Kernel

variable (os : Os)

/-- The walk of an absolute path. -/
def walkRoot (names : List String) : Outcome := os.tree.walk os.maxLinks [] names

variable {os} {names : List String} {loc : Loc}

theorem reach_eq_some :
    os.reach ⟨true, names⟩ = some loc ↔ ∃ m, walkRoot os names = .found loc m := by
  have hres : os.resolve ⟨true, names⟩ = walkRoot os names := rfl
  unfold Os.reach
  rw [hres]
  cases walkRoot os names with
  | found loc' m => simp
  | missing dir name => simp
  | failed e => simp

theorem pathExists_iff :
    os.pathExists ⟨true, names⟩ = true ↔ ∃ loc m, walkRoot os names = .found loc m := by
  unfold Os.pathExists
  rw [Option.isSome_iff_exists]
  simp only [reach_eq_some]

theorem solid_of_reach {p : Path} (hcwd : p.absolute = true) (h : os.reach p = some loc) :
    os.tree.Solid loc := by
  obtain ⟨abs, names⟩ := p
  simp only at hcwd
  subst hcwd
  obtain ⟨m, hm⟩ := reach_eq_some.mp h
  exact FileTree.solid_of_walk FileTree.solid_root hm

/-- What canonicalization returns is plain, and canonical already. -/
theorem canonical_plain {p : Path} (habs : p.absolute = true) (h : os.reach p = some loc) :
    Plain ⟨true, loc⟩ ∧ walkRoot os loc = .found loc os.maxLinks := by
  have hsolid := solid_of_reach habs h
  exact ⟨⟨rfl, entryNames_of_node hsolid.ne_none⟩, FileTree.walk_location hsolid⟩

/-! ## The nearest existing ancestor -/

variable (os)

/-- `above` is the part of the path that leads somewhere, to `loc`; already the first name of `tail` does not. -/
structure Nearest (names above tail : List String) (loc : Loc) (m : Nat) : Prop where
  split : names = above ++ tail
  found : walkRoot os above = .found loc m
  beyond : ∀ name rest, tail = name :: rest → ∀ loc' m', walkRoot os (above ++ [name]) ≠ .found loc' m'

variable {os}

theorem foldl_join (tail : List String) (names : List String) :
    tail.foldl (fun (result : Path) part => result.join ⟨false, [part]⟩) ⟨true, names⟩ = ⟨true, names ++ tail⟩ := by
  induction tail generalizing names with
  | nil => simp
  | cons x xs ih =>
    rw [List.foldl_cons]
    show xs.foldl _ (⟨true, names ++ [x]⟩ : Path) = _
    rw [ih, List.append_assoc]
    rfl

/-- Where the ancestor exists, the loop ends there. -/
theorem nearestAncestor_found {resolved : Path} {names tail : List String} {m : Nat}
    (h : walkRoot os names = .found loc m) :
    nearestAncestor os resolved (plainComponents names).reverse tail = ⟨true, loc ++ tail⟩ := by
  have hexists : os.pathExists ⟨true, names⟩ = true := pathExists_iff.mpr ⟨loc, m, h⟩
  have hcanon : os.canonicalize ⟨true, names⟩ = some ⟨true, loc⟩ := by simp [Os.canonicalize, reach_eq_some.mpr ⟨m, h⟩]
  unfold nearestAncestor
  rw [List.reverse_reverse, ofComponents_plain]
  simp only [hexists, hcanon, if_true, Option.getD_some]
  exact foldl_join tail loc

/-- Where it does not, the loop goes one level up. -/
theorem nearestAncestor_up {resolved : Path} {names tail : List String} {x : String}
    (h : ∀ loc m, walkRoot os (names ++ [x]) ≠ .found loc m) :
    nearestAncestor os resolved (plainComponents (names ++ [x])).reverse tail =
      nearestAncestor os resolved (plainComponents names).reverse (x :: tail) := by
  have hno : os.pathExists ⟨true, names ++ [x]⟩ = false := by
    rw [← Bool.not_eq_true, pathExists_iff]
    rintro ⟨loc, m, hw⟩
    exact h loc m hw
  rw [plainComponents_snoc]
  conv_lhs => unfold nearestAncestor
  rw [← plainComponents_snoc, List.reverse_reverse, ofComponents_plain]
  simp only [hno, Bool.false_eq_true, if_false]
  rw [plainComponents_snoc]

/-- The loop, from the last name up. The root always exists. -/
theorem nearestAncestor_spec {resolved : Path} (names : List String) :
    ∀ tail, (∀ name rest, tail = name :: rest → ∀ loc m, walkRoot os (names ++ [name]) ≠ .found loc m) →
      ∃ above mid loc m, names = above ++ mid ∧ Nearest os (names ++ tail) above (mid ++ tail) loc m ∧
        nearestAncestor os resolved (plainComponents names).reverse tail = ⟨true, loc ++ (mid ++ tail)⟩ := by
  induction names using List.reverseRecOn with
  | nil =>
    intro tail hbeyond
    have hroot : walkRoot os [] = .found [] os.maxLinks := FileTree.walk_nil _ _ _
    exact ⟨[], [], [], os.maxLinks, rfl, ⟨rfl, hroot, hbeyond⟩, nearestAncestor_found hroot⟩
  | append_singleton names x ih =>
    intro tail hbeyond
    by_cases hfound : ∃ loc m, walkRoot os (names ++ [x]) = .found loc m
    · obtain ⟨loc, m, hfound⟩ := hfound
      exact ⟨names ++ [x], [], loc, m, (List.append_nil _).symm, ⟨rfl, hfound, hbeyond⟩,
        nearestAncestor_found hfound⟩
    · -- one level up, with `x` in front of the tail
      have hstep := @nearestAncestor_up os resolved names tail x fun loc m h => hfound ⟨loc, m, h⟩
      have hnext : ∀ name rest, x :: tail = name :: rest →
          ∀ loc m, walkRoot os (names ++ [name]) ≠ .found loc m := by
        intro name rest heq loc m hw
        injection heq with hx _
        rw [← hx] at hw
        exact hfound ⟨loc, m, hw⟩
      obtain ⟨above, mid, loc, m, hsplit, hnear, hres⟩ := ih (x :: tail) hnext
      refine ⟨above, mid ++ [x], loc, m, ?_, ?_, ?_⟩
      · rw [hsplit, List.append_assoc]
      · simpa using hnear
      · rw [hstep, hres]
        simp

/-- **What is compared with the sandbox**: the location of the nearest existing ancestor, with the rest of the
    path appended. -/
theorem checkPath_spec (h : ∀ x ∈ names, EntryName x) :
    ∃ above tail loc m, Nearest os names above tail loc m ∧ checkPath os ⟨true, names⟩ = ⟨true, loc ++ tail⟩ := by
  by_cases hfound : ∃ loc m, walkRoot os names = .found loc m
  · obtain ⟨loc, m, hfound⟩ := hfound
    refine ⟨names, [], loc, m, ⟨(List.append_nil _).symm, hfound, by simp⟩, ?_⟩
    have hexists : os.pathExists ⟨true, names⟩ = true := pathExists_iff.mpr ⟨loc, m, hfound⟩
    simp [checkPath, hexists, Os.canonicalize, reach_eq_some.mpr ⟨m, hfound⟩]
  · have hno : os.pathExists ⟨true, names⟩ = false := by
      rw [← Bool.not_eq_true, pathExists_iff]
      exact hfound
    have hnil : ∀ name rest, ([] : List String) = name :: rest →
        ∀ loc m, walkRoot os (names ++ [name]) ≠ .found loc m := by simp
    obtain ⟨above, mid, loc, m, _, hnear, hres⟩ := @nearestAncestor_spec os ⟨true, names⟩ names [] hnil
    refine ⟨above, mid, loc, m, by simpa using hnear, ?_⟩
    unfold checkPath
    rw [hno, components_plain h]
    simpa using hres

/-- A sandbox that contains the compared path contains the ancestor: the sandbox exists, so it does not start
    beyond what exists. -/
theorem ancestor_inside {names above tail : List String} {loc base : Loc} {m : Nat}
    (h : Nearest os names above tail loc m) (hbase : os.tree.Solid base) (hin : base <+: loc ++ tail) :
    base <+: loc := by
  rcases le_or_gt base.length loc.length with hlen | hlen
  · exact List.prefix_of_prefix_length_le hin (List.prefix_append loc tail) hlen
  · exfalso
    cases tail with
    | nil =>
      rw [List.append_nil] at hin
      have := hin.length_le
      omega
    | cons name rest =>
      -- the first missing name would be a name on the way to the sandbox
      have hstep : loc ++ [name] <+: base := by
        apply List.prefix_of_prefix_length_le _ hin
        · simp only [List.length_append, List.length_singleton]
          omega
        · exact ⟨rest, by simp⟩
      refine h.beyond name rest rfl (loc ++ [name]) m ?_
      unfold walkRoot
      rw [FileTree.walk_append]
      have hfound : os.tree.walk os.maxLinks [] above = .found loc m := h.found
      rw [hfound]
      exact FileTree.walk_down (hbase.above hstep)

end Kernel

/-! ## Creating the parents -/

section Parents

variable {t : FileTree} {b : Nat}

/-- `mkdir`, with the pieces in order. -/
theorem mkdir_snoc (t : FileTree) (b : Nat) (names : List String) (name : String) :
    t.mkdir b (names ++ [name]).reverse =
      match t.walk b [] names with
      | .found loc _ =>
        if hdir : t.node loc = some .dir then
          if hname : EntryName name then
            if t.node (loc ++ [name]) = none then .ok (t.insertDir loc name hdir hname, loc ++ [name])
            else .error .alreadyExists else .error .alreadyExists else .error .notADirectory
      | .missing .. => .error .notFound
      | .failed e => .error e := by
  have hrev : (names ++ [name]).reverse = name :: names.reverse := by simp
  have hnames : names.reverse.reverse = names := List.reverse_reverse names
  rw [hrev]
  conv_rhs => rw [← hnames]
  rfl

/-- `create_dir_all`, with the pieces in order. -/
theorem createDirAll_snoc (t : FileTree) (b : Nat) (names : List String) (name : String) :
    t.createDirAll b (names ++ [name]).reverse =
      match t.mkdir b (names ++ [name]).reverse with
      | .ok (t', loc) => ⟨t', [loc], .ok ()⟩
      | .error .notFound =>
        let above := t.createDirAll b names.reverse
        match above.result with
        | .error _ => above
        | .ok _ =>
          match above.tree.mkdir b (names ++ [name]).reverse with
          | .ok (t', loc) => ⟨t', above.touched ++ [loc], .ok ()⟩
          | .error e =>
            if above.tree.isDir b (names ++ [name]).reverse then above else { above with result := .error e }
      | .error e => if t.isDir b (names ++ [name]).reverse then ⟨t, [], .ok ()⟩ else ⟨t, [], .error e⟩ := by
  have hrev : (names ++ [name]).reverse = name :: names.reverse := by simp
  rw [hrev]
  rfl

variable {names : List String} {name : String}

/-- Nothing is found beyond a name that is not found. -/
theorem not_found_beyond
    (h : ∀ loc m, t.walk b [] (names ++ [name]) ≠ .found loc m) (rest : List String) :
    ∀ loc m, t.walk b [] (names ++ name :: rest) ≠ .found loc m := by
  intro loc m hw
  rw [List.append_cons, FileTree.walk_append] at hw
  cases hn : t.walk b [] (names ++ [name]) with
  | found loc' m' => exact h loc' m' hn
  | missing dir x =>
    rw [hn] at hw
    by_cases hrest : rest = [] <;> simp [FileTree.resume, hrest] at hw
  | failed e =>
    rw [hn] at hw
    cases hw

theorem isDir_eq_false (h : ∀ loc m, t.walk b [] names ≠ .found loc m) :
    t.isDir b names.reverse = false := by
  unfold FileTree.isDir
  rw [List.reverse_reverse]
  cases hw : t.walk b [] names with
  | found loc m => exact absurd hw (h loc m)
  | missing dir x => rfl
  | failed e => rfl

variable {loc : Loc} {m : Nat}

theorem isDir_found (h : t.walk b [] names = .found loc m) :
    t.isDir b names.reverse = decide (t.node loc = some .dir) := by
  unfold FileTree.isDir
  rw [List.reverse_reverse, h]

/-- `mkdir` of what exists. -/
theorem mkdir_existing (h : t.walk b [] names = .found loc m) :
    t.mkdir b names.reverse = .error .alreadyExists := by
  induction names using List.reverseRecOn with
  | nil => rfl
  | append_singleton names x _ =>
    have hok : ∀ e, t.walk b [] (names ++ [x]) ≠ .failed e := by simp [h]
    obtain ⟨dir, m', hup, hdir⟩ := FileTree.found_of_walk_snoc hok
    rw [mkdir_snoc, hup]
    by_cases hname : EntryName x
    · have htaken : t.node (dir ++ [x]) ≠ none := by
        -- a free name would have been missed by the walk
        intro hfree
        rw [FileTree.walk_append, hup] at h
        simp [FileTree.resume, FileTree.walk_entry hdir hname, hfree] at h
      simp [hdir, hname, htaken]
    · simp [hdir, hname]

/-- Creating what exists as a directory does nothing; what exists otherwise is an error. -/
theorem createDirAll_existing (h : t.walk b [] names = .found loc m) :
    t.createDirAll b names.reverse = ⟨t, [], if t.node loc = some .dir then .ok () else .error .alreadyExists⟩ := by
  induction names using List.reverseRecOn with
  | nil =>
    rw [FileTree.walk_nil] at h
    injection h with h _
    simp [FileTree.createDirAll, ← h, t.root]
  | append_singleton names x _ =>
    have hmk := mkdir_existing h
    have hisdir := isDir_found h
    rw [createDirAll_snoc, hmk]
    by_cases hdir : t.node loc = some .dir
    · simp only [hisdir, hdir, decide_true, if_true]
    · simp only [hisdir, hdir, decide_false, Bool.false_eq_true, if_false]

/-- Below a file nothing is created. -/
theorem createDirAll_under_file {names tail : List String}
    (h : t.walk b [] names = .found loc m) (hfile : t.node loc ≠ some .dir) (htail : tail ≠ []) :
    t.createDirAll b (names ++ tail).reverse = ⟨t, [], .error .notADirectory⟩ := by
  induction tail using List.reverseRecOn with
  | nil => exact absurd rfl htail
  | append_singleton tail x _ =>
    have hstuck : ∀ y ys, t.walk b [] (names ++ y :: ys) = .failed .notADirectory := by
      intro y ys
      rw [FileTree.walk_append, h]
      exact FileTree.walk_notADirectory hfile
    have hmk : t.mkdir b (names ++ tail ++ [x]).reverse = .error .notADirectory := by
      rw [mkdir_snoc]
      cases tail with
      | nil => simp [h, hfile]
      | cons y ys => simp [hstuck]
    have hnot : t.isDir b (names ++ tail ++ [x]).reverse = false := by
      apply isDir_eq_false
      intro loc' m'
      cases tail with
      | nil => simp [hstuck]
      | cons y ys => simp [hstuck]
    rw [← List.append_assoc, createDirAll_snoc, hmk]
    simp only [hnot, Bool.false_eq_true, if_false]

/-- A dangling link is not replaced, and nothing is created through it. -/
theorem createDirAll_at_link
    (h : t.walk b [] names = .found loc m) (hdir : t.node loc = some .dir) (htaken : t.node (loc ++ [name]) ≠ none)
    (hbeyond : ∀ loc' m', t.walk b [] (names ++ [name]) ≠ .found loc' m') (rest : List String) :
    ∃ e, t.createDirAll b (names ++ name :: rest).reverse = ⟨t, [], .error e⟩ := by
  induction rest using List.reverseRecOn with
  | nil =>
    have hnot := isDir_eq_false hbeyond
    have hname : EntryName name := t.names loc name htaken
    have hmk : t.mkdir b (names ++ [name]).reverse = .error .alreadyExists := by
      rw [mkdir_snoc, h]
      simp [hdir, hname, htaken]
    refine ⟨.alreadyExists, ?_⟩
    rw [createDirAll_snoc, hmk]
    simp only [hnot, Bool.false_eq_true, if_false]
  | append_singleton rest x ih =>
    obtain ⟨e, habove⟩ := ih
    have hnot := isDir_eq_false (not_found_beyond hbeyond (rest ++ [x]))
    have hup := not_found_beyond hbeyond rest
    have hassoc : names ++ name :: (rest ++ [x]) = names ++ name :: rest ++ [x] := by simp
    rw [hassoc] at hnot ⊢
    rw [createDirAll_snoc, mkdir_snoc]
    cases hw : t.walk b [] (names ++ name :: rest) with
    | found loc' m' => exact absurd hw (hup loc' m')
    | missing dir y =>
      refine ⟨e, ?_⟩
      simp only [habove]
    | failed e' =>
      -- "not found" sends the call one level up; any other failure ends it
      cases e' with
      | notFound => exact ⟨e, by simp only [habove]⟩
      | alreadyExists => exact ⟨.alreadyExists, by simp only [hnot, Bool.false_eq_true, if_false]⟩
      | notADirectory => exact ⟨.notADirectory, by simp only [hnot, Bool.false_eq_true, if_false]⟩
      | isADirectory => exact ⟨.isADirectory, by simp only [hnot, Bool.false_eq_true, if_false]⟩
      | tooManyLinks => exact ⟨.tooManyLinks, by simp only [hnot, Bool.false_eq_true, if_false]⟩

/-- What creating directories below `loc` leaves: a chain of new directories. -/
structure Created (t : FileTree) (b : Nat) (names tail : List String) (loc : Loc) (m : Nat) (e : Effect) : Prop where
  ok : e.result = .ok ()
  inside : ∀ l ∈ e.touched, loc <+: l
  kept : FileTree.Extends e.tree t
  found : e.tree.walk b [] (names ++ tail) = .found (loc ++ tail) m
  dir : e.tree.node (loc ++ tail) = some .dir
  empty : ∀ x, e.tree.node (loc ++ tail ++ [x]) = none

/-- `mkdir` of a free name in a directory. -/
theorem mkdir_free (h : t.walk b [] names = .found loc m)
    (hdir : t.node loc = some .dir) (hname : EntryName name) (hfree : t.node (loc ++ [name]) = none) :
    t.mkdir b (names ++ [name]).reverse = .ok (t.insertDir loc name hdir hname, loc ++ [name]) := by
  rw [mkdir_snoc, h]
  simp [hdir, hname, hfree]

/-- The new directory is there, and empty. -/
theorem insertDir_found
    (h : t.walk b [] names = .found loc m) (hdir : t.node loc = some .dir) (hname : EntryName name)
    (hfree : t.node (loc ++ [name]) = none) :
    (t.insertDir loc name hdir hname).walk b [] (names ++ [name]) = .found (loc ++ [name]) m ∧
    (t.insertDir loc name hdir hname).node (loc ++ [name]) = some .dir ∧
    ∀ x, (t.insertDir loc name hdir hname).node (loc ++ [name] ++ [x]) = none := by
  have hnode : (t.insertDir loc name hdir hname).node (loc ++ [name]) = some .dir := by simp [FileTree.insertDir]
  refine ⟨?_, hnode, ?_⟩
  · rw [FileTree.walk_append, FileTree.walk_extends (FileTree.insertDir_extends hdir hname hfree) h]
    exact FileTree.walk_down (Or.inl hnode)
  · intro x
    have hold : t.node (loc ++ [name] ++ [x]) = none := by
      by_contra hsome
      have := t.parent _ _ hsome
      rw [hfree] at this
      cases this
    simpa [FileTree.insertDir] using hold

/-- Below a directory where the first name is free, all the directories are created, one below the other. -/
theorem createDirAll_free
    (h : t.walk b [] names = .found loc m) (hdir : t.node loc = some .dir) (hfree : t.node (loc ++ [name]) = none)
    (rest : List String) (hnames : ∀ x ∈ name :: rest, EntryName x) :
    Created t b names (name :: rest) loc m (t.createDirAll b (names ++ name :: rest).reverse) := by
  induction rest using List.reverseRecOn with
  | nil =>
    have hname := hnames name List.mem_cons_self
    have hmk := mkdir_free h hdir hname hfree
    obtain ⟨hfound, hnode, hempty⟩ := insertDir_found h hdir hname hfree
    have heff : t.createDirAll b (names ++ [name]).reverse =
        ⟨t.insertDir loc name hdir hname, [loc ++ [name]], .ok ()⟩ := by
      rw [createDirAll_snoc, hmk]
    rw [heff]
    exact ⟨rfl, by simp, FileTree.insertDir_extends hdir hname hfree, hfound, hnode, hempty⟩
  | append_singleton rest x ih =>
    have hup := ih fun y hy => hnames y (by
      rcases List.mem_cons.mp hy with hy | hy
      · rw [hy]; exact List.mem_cons_self
      · exact List.mem_cons_of_mem _ (List.mem_append_left _ hy))
    have hx : EntryName x := hnames x (by simp)
    have hname : EntryName name := hnames name List.mem_cons_self
    have hassoc : names ++ name :: (rest ++ [x]) = names ++ name :: rest ++ [x] := by simp
    -- the first `mkdir` does not find the parent
    have hmiss : t.mkdir b (names ++ name :: rest ++ [x]).reverse = .error .notFound := by
      rw [mkdir_snoc, FileTree.walk_append, h]
      by_cases hrest : rest = []
      · simp [FileTree.resume, FileTree.walk_entry hdir hname, hfree, hrest]
      · simp [FileTree.resume, FileTree.walk_entry hdir hname, hfree, hrest]
    have hmk := mkdir_free hup.found hup.dir hx (hup.empty x)
    obtain ⟨hfound, hnode, hempty⟩ := insertDir_found hup.found hup.dir hx (hup.empty x)
    have heff : t.createDirAll b (names ++ name :: (rest ++ [x])).reverse =
        ⟨(t.createDirAll b (names ++ name :: rest).reverse).tree.insertDir (loc ++ name :: rest) x hup.dir hx,
          (t.createDirAll b (names ++ name :: rest).reverse).touched ++ [loc ++ name :: rest ++ [x]], .ok ()⟩ := by
      rw [hassoc, createDirAll_snoc]
      simp only [hmiss, hup.ok, hmk]
    rw [heff]
    refine ⟨rfl, ?_, (FileTree.insertDir_extends hup.dir hx (hup.empty x)).trans hup.kept, ?_, ?_, ?_⟩
    · intro l hl
      rcases List.mem_append.mp hl with hl | hl
      · exact hup.inside l hl
      · rw [List.mem_singleton.mp hl, List.append_assoc]
        exact List.prefix_append _ _
    · simpa using hfound
    · simpa using hnode
    · intro y
      simpa using hempty y

end Parents

/-! ## Writing through a validated path -/

section Writing

variable {os : Os} {names above tail : List String} {loc : Loc} {m : Nat}

theorem createParents_snoc {name : String} (h : ∀ x ∈ names ++ [name], EntryName x) :
    createParents os ⟨true, names ++ [name]⟩ = os.tree.createDirAll os.maxLinks names.reverse := by
  unfold createParents
  rw [parent_plain h]

theorem writeTouches_error {p : Path} {t : FileTree} {e : Errno}
    (h : createParents os p = ⟨t, [], .error e⟩) : writeTouches os p = [] := by
  unfold writeTouches
  rw [h]

theorem writeTouches_ok {p : Path} {t : FileTree} {ls : List Loc} (h : createParents os p = ⟨t, ls, .ok ()⟩) :
    writeTouches os p =
      match t.openCreate os.maxLinks [] p.parts with
      | .ok l => ls ++ [l]
      | .error _ => ls := by
  cases hopen : t.openCreate os.maxLinks [] p.parts with
  | ok l => simp only [writeTouches, h, hopen]
  | error e => simp only [writeTouches, h, hopen]

/-- Writing what exists writes what is found, and creates nothing. -/
theorem writeTouches_found (hnames : ∀ x ∈ names, EntryName x) (h : walkRoot os names = .found loc m) :
    ∀ l ∈ writeTouches os ⟨true, names⟩, l = loc := by
  have hopen : ∀ l, os.tree.openCreate os.maxLinks [] names = .ok l → l = loc := by
    intro l hl
    have hw : os.tree.walk os.maxLinks [] names = .found loc m := h
    unfold FileTree.openCreate at hl
    rw [hw] at hl
    by_cases hdir : os.tree.node loc = some .dir
    · simp [hdir] at hl
    · simp [hdir] at hl
      exact hl.symm
  have hparents : createParents os ⟨true, names⟩ = ⟨os.tree, [], .ok ()⟩ := by
    induction names using List.reverseRecOn with
    | nil => rfl
    | append_singleton names x _ =>
      have hok : ∀ e, os.tree.walk os.maxLinks [] (names ++ [x]) ≠ .failed e := by
        intro e he
        have hw : os.tree.walk os.maxLinks [] (names ++ [x]) = .found loc m := h
        rw [he] at hw
        cases hw
      obtain ⟨dir, m', hup, hdir⟩ := FileTree.found_of_walk_snoc hok
      rw [createParents_snoc hnames, createDirAll_existing hup, if_pos hdir]
  rw [writeTouches_ok hparents]
  intro l hl
  cases ho : os.tree.openCreate os.maxLinks [] names with
  | error e => simp [ho] at hl
  | ok l' =>
    simp [ho] at hl
    rw [hl]
    exact hopen l' ho

/-- The last name is missing: the file is created where the walk ends. With a free name that is in the directory;
    with a link it is wherever the link leads. -/
theorem writeTouches_last {name : String} (hnames : ∀ x ∈ above ++ [name], EntryName x)
    (h : Nearest os (above ++ [name]) above [name] loc m) :
    ∀ l ∈ writeTouches os ⟨true, above ++ [name]⟩, l = loc ++ [name] ∨
      ((∃ target, os.tree.node (loc ++ [name]) = some (.symlink target)) ∧
        ∃ out x, walkRoot os (above ++ [name]) = .missing out x ∧ l = out ++ [x]) := by
  have hup : os.tree.walk os.maxLinks [] above = .found loc m := h.found
  have hname : EntryName name := hnames name (by simp)
  have hbeyond := h.beyond name [] rfl
  by_cases hdir : os.tree.node loc = some .dir
  · have hparents : createParents os ⟨true, above ++ [name]⟩ = ⟨os.tree, [], .ok ()⟩ := by
      rw [createParents_snoc hnames, createDirAll_existing hup, if_pos hdir]
    rw [writeTouches_ok hparents]
    intro l hl
    unfold FileTree.openCreate at hl
    have hcases : os.tree.walk os.maxLinks [] (above ++ [name]) = os.tree.walk m loc [name] := by
      rw [FileTree.walk_append, hup]
      rfl
    cases hnode : os.tree.node (loc ++ [name]) with
    | none =>
      left
      simpa [hcases, FileTree.walk_entry hdir hname, hnode] using hl
    | some node =>
      cases node with
      | dir => exact absurd (hcases.trans (FileTree.walk_down (Or.inl hnode))) (hbeyond (loc ++ [name]) m)
      | file => exact absurd (hcases.trans (FileTree.walk_down (Or.inr hnode))) (hbeyond (loc ++ [name]) m)
      | symlink target =>
        right
        refine ⟨⟨target, rfl⟩, ?_⟩
        cases hw : os.tree.walk os.maxLinks [] (above ++ [name]) with
        | found loc' m' => exact absurd hw (hbeyond loc' m')
        | failed e => simp [hw] at hl
        | missing out x =>
          refine ⟨out, x, hw, ?_⟩
          simpa [hw] using hl
  · have hparents : createParents os ⟨true, above ++ [name]⟩ = ⟨os.tree, [], .error .alreadyExists⟩ := by
      rw [createParents_snoc hnames, createDirAll_existing hup, if_neg hdir]
    rw [writeTouches_error hparents]
    simp

/-- More than one name is missing: directories and the file are created below the ancestor, or nothing is. -/
theorem writeTouches_chain {name last : String} {rest : List String}
    (hnames : ∀ x ∈ above ++ name :: rest ++ [last], EntryName x)
    (h : Nearest os (above ++ name :: rest ++ [last]) above (name :: rest ++ [last]) loc m) :
    ∀ l ∈ writeTouches os ⟨true, above ++ name :: rest ++ [last]⟩, loc <+: l := by
  have hup : os.tree.walk os.maxLinks [] above = .found loc m := h.found
  have hbeyond := h.beyond name (rest ++ [last]) rfl
  by_cases hdir : os.tree.node loc = some .dir
  · by_cases hfree : os.tree.node (loc ++ [name]) = none
    · have hchain : ∀ x ∈ name :: rest, EntryName x := fun x hx => hnames x (by
        rw [List.append_assoc]
        exact List.mem_append_right _ (List.mem_append_left _ hx))
      have hcreated := createDirAll_free hup hdir hfree rest hchain
      rw [← createParents_snoc hnames] at hcreated
      generalize hc : createParents os ⟨true, above ++ name :: rest ++ [last]⟩ = eff at hcreated
      obtain ⟨t', ls, res⟩ := eff
      have hok : res = .ok () := hcreated.ok
      rw [hok] at hc
      rw [writeTouches_ok hc]
      have hlast : EntryName last := hnames last (by simp)
      have hdirs : t'.node (loc ++ name :: rest) = some .dir := hcreated.dir
      have hempty : t'.node (loc ++ name :: rest ++ [last]) = none := hcreated.empty last
      have hfound : t'.walk os.maxLinks [] (above ++ name :: rest) = .found (loc ++ name :: rest) m := hcreated.found
      have hwalk : t'.walk os.maxLinks [] (above ++ name :: rest ++ [last]) = .missing (loc ++ name :: rest) last := by
        rw [FileTree.walk_append, hfound]
        simp only [FileTree.resume]
        rw [FileTree.walk_entry hdirs hlast, hempty]
        rfl
      intro l hl
      unfold FileTree.openCreate at hl
      simp only [hwalk] at hl
      rcases List.mem_append.mp hl with hl | hl
      · exact hcreated.inside l hl
      · rw [List.mem_singleton.mp hl, List.append_assoc]
        exact List.prefix_append _ _
    · obtain ⟨e, heff⟩ := createDirAll_at_link hup hdir hfree hbeyond rest
      rw [← createParents_snoc hnames] at heff
      rw [writeTouches_error heff]
      simp
  · have heff := createDirAll_under_file hup hdir (List.cons_ne_nil name rest)
    rw [← createParents_snoc hnames] at heff
    rw [writeTouches_error heff]
    simp

end Writing

/-! ## Containment -/

/-- What the file tools reach by following the path, and what `write_file` creates or writes through it, lies
    inside the sandbox. -/
structure Confined (os : Os) (base : Loc) (p : Path) : Prop where
  reached : ∀ loc, os.reach p = some loc → base <+: loc
  written : ∀ loc ∈ writeTouches os p, base <+: loc

/-- The path, with `.` and `..` resolved lexically, names a link inside the sandbox that dangles: followed, it ends
    at a missing entry of a directory outside. -/
def DanglesOut (os : Os) (base : Loc) (p : Path) : Prop :=
  ∃ dir name loc target out x, (normalizeLexical p).parts = dir ++ [name] ∧ os.reach ⟨true, dir⟩ = some loc ∧
    base <+: loc ∧ os.tree.node (loc ++ [name]) = some (.symlink target) ∧
    os.resolve (normalizeLexical p) = .missing out x ∧ ¬ base <+: out ++ [x]

section Containment

variable {os : Os} {base : Path} {baseLoc : Loc} {pathStr : String}

theorem join_absolute (habs : base.absolute = true) (p : Path) : (base.join p).absolute = true := by
  unfold Path.join
  by_cases h : p.absolute = true
  · simp [h]
  · simp [h, habs]

/-- With a sandbox, an absolute path and a relative one are resolved by the same rule. -/
theorem resolvePath_eq (path : Path) :
    resolvePath os path (some base) = (os.canonicalize (base.join path)).getD (normalizeLexical (base.join path)) := by
  unfold resolvePath Path.join
  by_cases h : path.absolute = true
  · simp [h]
  · simp [h]

/-- Where the path resolves to something, that is the resolved path; otherwise it is the lexical one. -/
theorem resolvePath_cases (habs : base.absolute = true) (path : Path) :
    (∃ loc, os.canonicalize (base.join path) = some ⟨true, loc⟩ ∧ resolvePath os path (some base) = ⟨true, loc⟩ ∧
      (∀ x ∈ loc, EntryName x) ∧ walkRoot os loc = .found loc os.maxLinks) ∨
    (os.canonicalize (base.join path) = none ∧ ∃ names, normalizeLexical (base.join path) = ⟨true, names⟩ ∧
      resolvePath os path (some base) = ⟨true, names⟩ ∧ ∀ x ∈ names, EntryName x) := by
  rw [resolvePath_eq]
  cases hreach : os.reach (base.join path) with
  | some loc =>
    left
    obtain ⟨hplain, hwalk⟩ := canonical_plain (join_absolute habs path) hreach
    have hcanon : os.canonicalize (base.join path) = some ⟨true, loc⟩ := by simp [Os.canonicalize, hreach]
    exact ⟨loc, hcanon, by rw [hcanon]; rfl, hplain.2, hwalk⟩
  | none =>
    right
    have hcanon : os.canonicalize (base.join path) = none := by simp [Os.canonicalize, hreach]
    obtain ⟨habs', hnames⟩ := normalizeLexical_plain (join_absolute habs path)
    generalize hp : normalizeLexical (base.join path) = p at habs' hnames
    obtain ⟨abs, names⟩ := p
    simp only at habs' hnames
    subst habs'
    exact ⟨hcanon, names, rfl, by rw [hcanon]; rfl, hnames⟩

/-- When validation accepts. -/
theorem validatePath_ok_iff (hbase : os.reach base = some baseLoc) {p : Path} :
    validatePath os pathStr (some base) = .ok p ↔
      isPathSafeMinimal pathStr = true ∧ p = resolvePath os (.ofString pathStr) (some base) ∧
        (checkPath os p).startsWith ⟨true, baseLoc⟩ = true := by
  have hcanon : os.canonicalize base = some ⟨true, baseLoc⟩ := by simp [Os.canonicalize, hbase]
  unfold validatePath
  simp only [hcanon, Option.getD_some]
  by_cases hsafe : isPathSafeMinimal pathStr = true
  · by_cases hin : (checkPath os (resolvePath os (.ofString pathStr) (some base))).startsWith ⟨true, baseLoc⟩ = true
    · simp only [hsafe, hin, Bool.not_true, Bool.false_eq_true, if_false, Except.ok.injEq, true_and]
      constructor
      · rintro rfl
        exact ⟨rfl, hin⟩
      · rintro ⟨rfl, _⟩
        rfl
    · simp only [hsafe, hin, Bool.not_true, Bool.not_false, Bool.false_eq_true, if_false, if_true, reduceCtorEq,
        true_and, false_iff, not_and]
      rintro rfl
      exact hin
  · simp [hsafe]

variable {names : List String} {loc : Loc} {m : Nat}

/-- Everything found by a plain path that passed the check is inside. -/
theorem confined_of_found (hnames : ∀ x ∈ names, EntryName x)
    (h : walkRoot os names = .found loc m) (hin : baseLoc <+: loc) : Confined os baseLoc ⟨true, names⟩ where
  reached := by
    intro l hl
    obtain ⟨m', hm'⟩ := reach_eq_some.mp hl
    rw [h] at hm'
    injection hm' with hloc _
    rw [← hloc]
    exact hin
  written := by
    intro l hl
    rw [writeTouches_found hnames h l hl]
    exact hin

/-- **The last step of the argument**: beyond the nearest existing ancestor only a link in the last place leads
    out. -/
theorem confined_of_missing {names above tail : List String}
    (hnames : ∀ x ∈ names, EntryName x) (h : Nearest os names above tail loc m) (htail : tail ≠ [])
    (hin : baseLoc <+: loc)
    (hlink : ∀ name target out x, tail = [name] → os.tree.node (loc ++ [name]) = some (.symlink target) →
      walkRoot os names = .missing out x → baseLoc <+: out ++ [x]) : Confined os baseLoc ⟨true, names⟩ := by
  obtain ⟨name, rest, rfl⟩ := List.exists_cons_of_ne_nil htail
  have hsplit := h.split
  subst hsplit
  constructor
  · intro l hl
    obtain ⟨m', hm'⟩ := reach_eq_some.mp hl
    exact absurd hm' (not_found_beyond (h.beyond name rest rfl) rest l m')
  · intro l hl
    induction rest using List.reverseRecOn with
    | nil =>
      rcases writeTouches_last hnames h l hl with rfl | ⟨⟨target, htarget⟩, out, x, hout, rfl⟩
      · exact hin.trans (List.prefix_append _ _)
      · exact hlink name target out x rfl htarget hout
    | append_singleton rest last _ =>
      have hassoc : above ++ name :: (rest ++ [last]) = above ++ name :: rest ++ [last] := by simp
      rw [hassoc] at hnames hl h
      exact hin.trans (writeTouches_chain hnames h l hl)

theorem confined_of_nearest {names above tail : List String}
    (hnames : ∀ x ∈ names, EntryName x) (h : Nearest os names above tail loc m) (hin : baseLoc <+: loc)
    (hlink : ∀ name target out x, tail = [name] → os.tree.node (loc ++ [name]) = some (.symlink target) →
      walkRoot os names = .missing out x → baseLoc <+: out ++ [x]) : Confined os baseLoc ⟨true, names⟩ := by
  by_cases htail : tail = []
  · have hfound := h.found
    have hsplit := h.split
    rw [htail, List.append_nil] at hsplit
    rw [← hsplit] at hfound
    exact confined_of_found hnames hfound hin
  · exact confined_of_missing hnames h htail hin hlink

/-- The check puts the nearest existing ancestor inside the sandbox. -/
theorem nearest_inside (hnames : ∀ x ∈ names, EntryName x) (hsolid : os.tree.Solid baseLoc)
    (hcheck : (checkPath os ⟨true, names⟩).startsWith ⟨true, baseLoc⟩ = true) :
    ∃ above tail loc m, Nearest os names above tail loc m ∧ baseLoc <+: loc := by
  obtain ⟨above, tail, loc, m, hnear, hchk⟩ := @checkPath_spec os names hnames
  refine ⟨above, tail, loc, m, hnear, ?_⟩
  have hloc : os.tree.Solid loc := FileTree.solid_of_walk FileTree.solid_root hnear.found
  have hentries : ∀ x ∈ loc ++ tail, EntryName x := by
    intro x hx
    rcases List.mem_append.mp hx with hx | hx
    · exact entryNames_of_node hloc.ne_none x hx
    · apply hnames
      rw [hnear.split]
      exact List.mem_append_right _ hx
  rw [hchk, startsWith_plain hentries (entryNames_of_node hsolid.ne_none)] at hcheck
  exact ancestor_inside hnear hsolid hcheck

/-- A dangling link of the sandbox passes the check. -/
theorem checkPath_link {dir : List String} {name : String} (hnames : ∀ x ∈ dir ++ [name], EntryName x)
    (hdir : os.reach ⟨true, dir⟩ = some loc) (h : ∀ l m, walkRoot os (dir ++ [name]) ≠ .found l m) :
    checkPath os ⟨true, dir ++ [name]⟩ = ⟨true, loc ++ [name]⟩ := by
  obtain ⟨m, hm⟩ := reach_eq_some.mp hdir
  have hno : os.pathExists ⟨true, dir ++ [name]⟩ = false := by
    rw [← Bool.not_eq_true, pathExists_iff]
    rintro ⟨l, k, hw⟩
    exact h l k hw
  unfold checkPath
  rw [hno, components_plain hnames]
  simp only [Bool.false_eq_true, if_false]
  rw [nearestAncestor_up h, nearestAncestor_found hm]

/-- Writing to a dangling link creates its target. -/
theorem writeTouches_link {dir : List String} {name : String} {out : Loc} {x : String}
    (hnames : ∀ y ∈ dir ++ [name], EntryName y) (h : walkRoot os (dir ++ [name]) = .missing out x) :
    out ++ [x] ∈ writeTouches os ⟨true, dir ++ [name]⟩ := by
  have hwalk : os.tree.walk os.maxLinks [] (dir ++ [name]) = .missing out x := h
  have hok : ∀ e, os.tree.walk os.maxLinks [] (dir ++ [name]) ≠ .failed e := by simp [hwalk]
  obtain ⟨loc', m, hup, hnode⟩ := FileTree.found_of_walk_snoc hok
  have hparents : createParents os ⟨true, dir ++ [name]⟩ = ⟨os.tree, [], .ok ()⟩ := by
    rw [createParents_snoc hnames, createDirAll_existing hup, if_pos hnode]
  rw [writeTouches_ok hparents]
  simp [FileTree.openCreate, hwalk]

/-- **Sandbox containment.** A validated path confines the file tools exactly unless it names, lexically, a
    dangling link of the sandbox whose target is outside. -/
theorem validatePath_confines_iff (os : Os) (base : Path) (baseLoc : Loc) (pathStr : String)
    (habs : base.absolute = true) (hbase : os.reach base = some baseLoc) :
    (∀ p, validatePath os pathStr (some base) = .ok p → Confined os baseLoc p) ↔
      ¬ (isPathSafeMinimal pathStr = true ∧ os.canonicalize (base.join (.ofString pathStr)) = none ∧
        DanglesOut os baseLoc (base.join (.ofString pathStr))) := by
  have hsolid : os.tree.Solid baseLoc := solid_of_reach habs hbase
  have hbnames : ∀ x ∈ baseLoc, EntryName x := entryNames_of_node hsolid.ne_none
  have hcases := @resolvePath_cases os base habs (.ofString pathStr)
  constructor
  · rintro hconf ⟨hsafe, hcanon, dir, name, loc, target, out, x, hparts, hdir, hin, hlink, hres, hout⟩
    rcases hcases with ⟨l, hl, _⟩ | ⟨_, names, hnorm, hresolved, hnames⟩
    · rw [hcanon] at hl
      cases hl
    · rw [hnorm] at hparts hres
      simp only at hparts
      subst hparts
      have hwalk : walkRoot os (dir ++ [name]) = .missing out x := hres
      have hbeyond : ∀ l k, walkRoot os (dir ++ [name]) ≠ .found l k := by simp [hwalk]
      have hloc : ∀ y ∈ loc ++ [name], EntryName y := by
        have hlinkname : os.tree.node (loc ++ [name]) ≠ none := by simp [hlink]
        exact entryNames_of_node hlinkname
      -- what is compared is the link itself, which is inside
      have hok : validatePath os pathStr (some base) = .ok ⟨true, dir ++ [name]⟩ := by
        rw [validatePath_ok_iff hbase, checkPath_link hnames hdir hbeyond, startsWith_plain hloc hbnames]
        exact ⟨hsafe, hresolved.symm, hin.trans (List.prefix_append _ _)⟩
      exact hout ((hconf _ hok).written _ (writeTouches_link hnames hwalk))
  · intro hno p hok
    obtain ⟨hsafe, hp, hcheck⟩ := (validatePath_ok_iff hbase).mp hok
    rcases hcases with ⟨names, hcanon, hresolved, hnames, hwalk⟩ | ⟨hcanon, names, hnorm, hresolved, hnames⟩
    · -- the path exists: it is its own canonical form
      rw [hresolved] at hp
      subst hp
      obtain ⟨above, tail, loc, m, hnear, hin⟩ := nearest_inside hnames hsolid hcheck
      apply confined_of_nearest hnames hnear hin
      intro name target out x _ _ hout
      rw [hwalk] at hout
      cases hout
    · rw [hresolved] at hp
      subst hp
      obtain ⟨above, tail, loc, m, hnear, hin⟩ := nearest_inside hnames hsolid hcheck
      apply confined_of_nearest hnames hnear hin
      intro name target out x htail hlink hout
      by_contra houtside
      refine hno ⟨hsafe, hcanon, above, name, loc, target, out, x, ?_, ?_, hin, hlink, ?_, houtside⟩
      · rw [hnorm, hnear.split, htail]
      · exact reach_eq_some.mpr ⟨m, hnear.found⟩
      · rw [hnorm]
        exact hout

end Containment

/-! ## A link out of the sandbox -/

/-- The entries of a small tree: a sandbox with a file and a link, and a directory beside it. -/
def linkEntries : List (Loc × Node) :=
  [([], .dir), (["base"], .dir), (["base", "notes"], .file),
    (["base", "link"], .symlink ⟨true, ["outside", "new"]⟩), (["outside"], .dir)]

theorem linkEntries_mem {loc : Loc} (h : (linkEntries.find? fun e => e.1 = loc).map (·.2) ≠ none) :
    loc ∈ linkEntries.map (·.1) := by
  cases he : linkEntries.find? fun e => e.1 = loc with
  | none => simp [he] at h
  | some e =>
    have hloc : e.1 = loc := by simpa using List.find?_some he
    rw [← hloc]
    exact List.mem_map_of_mem (List.mem_of_find?_eq_some he)

/-- Every entry is in a directory of the tree, under an entry name. -/
theorem linkEntries_parent : ∀ l ∈ linkEntries.map (·.1), l = [] ∨
    ((linkEntries.find? fun e => e.1 = l.dropLast).map (·.2) = some .dir ∧ EntryName (l.getLast?.getD "")) := by
  decide

def linkTree : FileTree where
  node loc := (linkEntries.find? fun e => e.1 = loc).map (·.2)
  root := by decide
  parent := by
    intro loc name h
    rcases linkEntries_parent _ (linkEntries_mem h) with hnil | ⟨hdir, _⟩
    · simp at hnil
    · rw [List.dropLast_concat] at hdir
      exact hdir
  names := by
    intro loc name h
    rcases linkEntries_parent _ (linkEntries_mem h) with hnil | ⟨_, hname⟩
    · simp at hnil
    · simpa using hname

def linkOs : Os := ⟨linkTree, 40, [], none⟩

/-- **A dangling link leads out.** `link` is accepted, and writing it creates a file outside the sandbox. -/
theorem validatePath_escapes_through_link :
    ¬ ∀ (os : Os) (base : Path) (baseLoc : Loc) (pathStr : String), base.absolute = true →
        os.reach base = some baseLoc → ∀ p, validatePath os pathStr (some base) = .ok p → Confined os baseLoc p := by
  intro h
  have hconf := h linkOs ⟨true, ["base"]⟩ ["base"] "link" rfl (by decide) ⟨true, ["base", "link"]⟩
    (by decide)
  have hout : ["base"] <+: ["outside", "new"] := hconf.written _ (by decide)
  revert hout
  decide

/-- Writing the file that is there stays inside. -/
theorem validatePath_confines_notes : Confined linkOs ["base"] ⟨true, ["base", "notes"]⟩ := by
  refine (validatePath_confines_iff linkOs ⟨true, ["base"]⟩ ["base"] "notes" rfl (by decide)).mpr ?_ _
    (by decide)
  rintro ⟨_, hcanon, _⟩
  revert hcanon
  decide

end Freeclawdia.PathSandbox
