import Freeclawdia.Correctness.StoreOps

/-!
# `Correctness.Listings` — what a directory listing says about the documents

An entry is an aggregate over all rows whose path goes through one child of the directory. A file entry is
backed by a document directly in the directory (`file_of_entry`), and a document directly in the directory with
nothing below its own path has a file entry (`entry_of_file`).
-/

namespace Freeclawdia.Memory

open Rust

variable {dir name path : String}

/-- The path of a child of the directory. -/
def Direct (dir path : String) : Prop := ∃ child, path = dir ++ child ∧ child ≠ "" ∧ '/' ∉ child.toList

/-! ## Text -/

variable {rest : String}

theorem stripPrefix_eq_some_iff {s pre : String} : stripPrefix s pre = some rest ↔ s = pre ++ rest := by
  unfold stripPrefix startsWith
  constructor
  · intro h
    split at h
    next hpre =>
      obtain ⟨tail, htail⟩ := List.isPrefixOf_iff_prefix.mp hpre
      have hrest : rest = String.ofList tail := by
        rw [← htail, List.drop_left] at h
        exact (Option.some.inj h).symm
      rw [← String.toList_inj, String.toList_append, hrest, String.toList_ofList, htail]
    next => cases h
  · rintro rfl
    rw [String.toList_append]
    have hpre : pre.toList.isPrefixOf (pre.toList ++ rest.toList) = true :=
      List.isPrefixOf_iff_prefix.mpr (List.prefix_append _ _)
    rw [if_pos hpre, List.drop_left, String.ofList_toList]

theorem relativePath_eq_some_iff : relativePath dir path = some rest ↔ path = dir ++ rest := by
  unfold relativePath
  split
  next hdir => rw [hdir, String.empty_append, Option.some.injEq]
  next => exact stripPrefix_eq_some_iff

theorem like_cons (p : Char) (ps cs : List Char) : like (p :: ps) cs =
    if p = '%' then cs.tails.any (fun rest => like ps rest) else
      match cs with
      | [] => false
      | c :: cs => (p == '_' || p.toLower == c.toLower) && like ps cs := rfl

theorem like_append (p : List Char) (rest : List Char) : like (p ++ ['%']) (p ++ rest) = true := by
  induction p with
  | nil =>
    rw [List.nil_append, List.nil_append, like_cons, if_pos rfl, List.any_eq_true]
    exact ⟨[], (List.mem_tails _ _).mpr List.nil_suffix, rfl⟩
  | cons c p ih =>
    rw [List.cons_append, List.cons_append, like_cons]
    split
    next =>
      -- A wildcard of the directory's own name matches itself.
      rw [List.any_eq_true]
      exact ⟨p ++ rest, (List.mem_tails _ _).mpr (List.suffix_cons c _), ih⟩
    next => simp [ih]

/-! ## The entries -/

variable {n : String} {e : WorkspaceEntry} {entries : List (String × WorkspaceEntry)}

variable {modify : WorkspaceEntry → WorkspaceEntry}

theorem mem_upsertEntry {fresh : WorkspaceEntry}
    (h : (n, e) ∈ upsertEntry name modify fresh entries) :
    (n, e) ∈ entries ∨ n = name ∧ ((∃ old, (name, old) ∈ entries ∧ e = modify old) ∨ e = fresh) := by
  induction entries with
  | nil =>
    rw [upsertEntry, List.mem_singleton, Prod.mk.injEq] at h
    exact .inr ⟨h.1, .inr h.2⟩
  | cons first rest ih =>
    obtain ⟨m, old⟩ := first
    rw [upsertEntry] at h
    split at h
    next hm =>
      subst hm
      rcases List.mem_cons.mp h with h | h
      · rw [Prod.mk.injEq] at h
        exact .inr ⟨h.1, .inl ⟨old, List.mem_cons_self, h.2⟩⟩
      · exact .inl (List.mem_cons_of_mem _ h)
    next =>
      rcases List.mem_cons.mp h with h | h
      · exact .inl (by rw [h]; exact List.mem_cons_self)
      · rcases ih h with h | ⟨hn, ⟨old', hold, he⟩ | he⟩
        · exact .inl (List.mem_cons_of_mem _ h)
        · exact .inr ⟨hn, .inl ⟨old', List.mem_cons_of_mem _ hold, he⟩⟩
        · exact .inr ⟨hn, .inr he⟩

/-- An entry that is there with what modifications keep. -/
theorem exists_upsertEntry {P : WorkspaceEntry → Prop}
    (hkeep : ∀ e, P e → P (modify e)) (fresh : WorkspaceEntry) (h : ∃ e, (n, e) ∈ entries ∧ P e) :
    ∃ e, (n, e) ∈ upsertEntry name modify fresh entries ∧ P e := by
  obtain ⟨e, he, hP⟩ := h
  induction entries with
  | nil => cases he
  | cons first rest ih =>
    obtain ⟨m, old⟩ := first
    rw [upsertEntry]
    rcases List.mem_cons.mp he with heq | he
    · obtain ⟨rfl, rfl⟩ := Prod.mk.inj heq
      split
      · exact ⟨modify e, List.mem_cons_self, hkeep e hP⟩
      · exact ⟨e, List.mem_cons_self, hP⟩
    · split
      · exact ⟨e, List.mem_cons_of_mem _ he, hP⟩
      · obtain ⟨e', he', hP'⟩ := ih he
        exact ⟨e', List.mem_cons_of_mem _ he', hP'⟩

theorem upsertEntry_exists {P : WorkspaceEntry → Prop} {fresh : WorkspaceEntry}
    (hmodify : ∀ e, P (modify e)) (hfresh : P fresh) (entries : List (String × WorkspaceEntry)) :
    ∃ e, (name, e) ∈ upsertEntry name modify fresh entries ∧ P e := by
  induction entries with
  | nil => exact ⟨fresh, List.mem_singleton.mpr rfl, hfresh⟩
  | cons first rest ih =>
    obtain ⟨m, old⟩ := first
    rw [upsertEntry]
    split
    next hm => exact ⟨modify old, by rw [hm]; exact List.mem_cons_self, hmodify old⟩
    next =>
      obtain ⟨e, he, hP⟩ := ih
      exact ⟨e, List.mem_cons_of_mem _ he, hP⟩

theorem names_upsertEntry (modify : WorkspaceEntry → WorkspaceEntry) (fresh : WorkspaceEntry)
    (entries : List (String × WorkspaceEntry)) : (upsertEntry name modify fresh entries).map Prod.fst =
      if name ∈ entries.map Prod.fst then entries.map Prod.fst else entries.map Prod.fst ++ [name] := by
  induction entries with
  | nil => rfl
  | cons first rest ih =>
    obtain ⟨m, old⟩ := first
    rw [upsertEntry]
    split
    next hm => simp [hm]
    next hm =>
      simp only [List.map_cons, ih, List.mem_cons, Ne.symm hm, false_or]
      split
      · rfl
      · rfl

/-- What the entry of a child says, given the rows it was made of. -/
structure Backed (dir : String) (rows : List ListedRow) (n : String) (e : WorkspaceEntry) : Prop where
  path : e.path = dir ++ n
  name : n ≠ "" ∧ '/' ∉ n.toList
  file : e.isDirectory = false → ∃ r ∈ rows, r.path = dir ++ n ∧ r.updatedAt = e.updatedAt
  directory : e.isDirectory = true → ∃ r ∈ rows, ∃ rest, r.path = dir ++ n ++ "/" ++ rest

variable {rows : List ListedRow}

theorem Backed.mono {rows' : List ListedRow} (h : Backed dir rows n e) (hsub : rows ⊆ rows') : Backed dir rows' n e := by
  refine ⟨h.path, h.name, ?_, ?_⟩
  · intro hfile
    obtain ⟨r, hr, hrow⟩ := h.file hfile
    exact ⟨r, hsub hr, hrow⟩
  · intro hdirectory
    obtain ⟨r, hr, hrow⟩ := h.directory hdirectory
    exact ⟨r, hsub hr, hrow⟩

theorem childName_spec (relative : String) : '/' ∉ (childName relative).toList ∧
    ('/' ∉ relative.toList → childName relative = relative) ∧
    ('/' ∈ relative.toList → ∃ rest, relative = childName relative ++ "/" ++ rest) := by
  have hparts := List.takeWhile_append_dropWhile (p := (· ≠ '/')) (l := relative.toList)
  refine ⟨?_, ?_, ?_⟩
  · intro hmem
    rw [childName, String.toList_ofList] at hmem
    simpa using List.mem_takeWhile_imp hmem
  · intro hnone
    rw [childName, List.takeWhile_eq_self_iff.mpr, String.ofList_toList]
    intro c hc
    simp only [ne_eq, decide_not, Bool.not_eq_true', decide_eq_false_iff_not]
    rintro rfl
    exact hnone hc
  · intro hsome
    cases hdrop : relative.toList.dropWhile (· ≠ '/') with
    | nil =>
      have hall := List.dropWhile_eq_nil_iff.mp hdrop '/' hsome
      simp at hall
    | cons c rest =>
      have hc : c = '/' := by
        have hhead := head?_dropWhile (· ≠ '/') relative.toList c (by rw [hdrop]; rfl)
        simpa using hhead
      refine ⟨String.ofList rest, ?_⟩
      rw [← String.toList_inj, childName]
      simp only [String.toList_append, String.toList_ofList]
      rw [hdrop, hc] at hparts
      rw [List.append_assoc]
      exact hparts.symm

theorem merge_path (e : WorkspaceEntry) (isDir : Bool) (updatedAt : Option Int) :
    (e.merge isDir updatedAt).path = e.path := by
  have hsame : (if isDir then { e with isDirectory := true, contentPreview := none } else e).path = e.path := by
    cases isDir <;> rfl
  unfold WorkspaceEntry.merge
  simp only
  split
  · split <;> exact hsame
  · exact hsame

theorem merge_isDirectory (e : WorkspaceEntry) (isDir : Bool) (updatedAt : Option Int) :
    (e.merge isDir updatedAt).isDirectory = (isDir || e.isDirectory) := by
  have hflag : (if isDir then { e with isDirectory := true, contentPreview := none } else e).isDirectory
      = (isDir || e.isDirectory) := by cases isDir <;> rfl
  unfold WorkspaceEntry.merge
  simp only
  split
  · split <;> exact hflag
  · exact hflag

theorem merge_updatedAt (e : WorkspaceEntry) (isDir : Bool) (updatedAt : Option Int) :
    (e.merge isDir updatedAt).updatedAt = e.updatedAt ∨ (e.merge isDir updatedAt).updatedAt = updatedAt := by
  have hsame : (if isDir then { e with isDirectory := true, contentPreview := none } else e).updatedAt
      = e.updatedAt := by cases isDir <;> rfl
  unfold WorkspaceEntry.merge
  simp only
  split
  next existing new hexisting =>
    split
    · exact .inr rfl
    · exact .inl hsame
  next => exact .inl hsame

/-- One row more. -/
theorem backed_addRow (h : ∀ n e, (n, e) ∈ entries → Backed dir rows n e) (row : ListedRow)
    (hmem : (n, e) ∈ addRow dir entries row) : Backed dir (rows ++ [row]) n e := by
  have hold : ∀ n e, (n, e) ∈ entries → Backed dir (rows ++ [row]) n e :=
    fun n e he => (h n e he).mono (List.subset_append_left rows [row])
  have hrow : row ∈ rows ++ [row] := List.mem_append_right _ (List.mem_singleton.mpr rfl)
  unfold addRow at hmem
  split at hmem
  next => exact hold n e hmem
  next relative hrelative =>
    rw [relativePath_eq_some_iff] at hrelative
    obtain ⟨hslash, hwhole, hbelow⟩ := childName_spec relative
    split at hmem
    next => exact hold n e hmem
    next hname =>
      -- What the row itself says about its child.
      have hfile : ¬ '/' ∈ relative.toList → row.path = dir ++ childName relative := by
        intro hnone
        rw [hwhole hnone, hrelative]
      have hdirectory : '/' ∈ relative.toList → ∃ rest, row.path = dir ++ childName relative ++ "/" ++ rest := by
        intro hsome
        obtain ⟨rest, hrest⟩ := hbelow hsome
        refine ⟨rest, ?_⟩
        rw [hrelative]
        conv_lhs => rw [hrest]
        simp only [String.append_assoc]
      rcases mem_upsertEntry hmem with hkept | ⟨rfl, ⟨old, hmem', rfl⟩ | rfl⟩
      · exact hold n e hkept
      · obtain ⟨hpath, -, hfile', hdirectory'⟩ := hold _ old hmem'
        refine ⟨by rw [merge_path, hpath], ⟨hname, hslash⟩, ?_, ?_⟩
        · intro hfalse
          rw [merge_isDirectory, Bool.or_eq_false_iff] at hfalse
          rcases merge_updatedAt old (decide ('/' ∈ relative.toList)) row.updatedAt with hkept | hnew
          · rw [hkept]
            exact hfile' hfalse.2
          · rw [hnew]
            exact ⟨row, hrow, hfile (of_decide_eq_false hfalse.1), rfl⟩
        · intro htrue
          rw [merge_isDirectory, Bool.or_eq_true] at htrue
          rcases htrue with htrue | htrue
          · exact ⟨row, hrow, hdirectory (of_decide_eq_true htrue)⟩
          · exact hdirectory' htrue
      · refine ⟨rfl, ⟨hname, hslash⟩, ?_, ?_⟩
        · intro hfalse
          exact ⟨row, hrow, hfile (of_decide_eq_false hfalse), rfl⟩
        · intro htrue
          exact ⟨row, hrow, hdirectory (of_decide_eq_true htrue)⟩

theorem backed_foldl (rows : List ListedRow) (h : (n, e) ∈ rows.foldl (addRow dir) []) : Backed dir rows n e := by
  induction rows using List.reverseRecOn generalizing n e with
  | nil => cases h
  | append_singleton rows row ih =>
    rw [List.foldl_append] at h
    exact backed_addRow (fun n e he => ih he) row h

variable {row : ListedRow}

/-- Every row below the directory has an entry, a directory if the row is further down. -/
theorem entry_of_row (rows : List ListedRow) (hrow : row ∈ rows) (hpath : row.path = dir ++ rest)
    (hname : childName rest ≠ "") : ∃ e, (childName rest, e) ∈ rows.foldl (addRow dir) [] ∧
      ('/' ∈ rest.toList → e.isDirectory = true) := by
  induction rows using List.reverseRecOn with
  | nil => cases hrow
  | append_singleton rows last ih =>
    rw [List.foldl_append]
    show ∃ e, (childName rest, e) ∈ addRow dir (rows.foldl (addRow dir) []) last ∧ _
    unfold addRow
    rcases List.mem_append.mp hrow with hold | hlast
    · split
      · exact ih hold
      · split
        · exact ih hold
        · refine exists_upsertEntry (fun e he hbelow => ?_) _ (ih hold)
          rw [merge_isDirectory, he hbelow, Bool.or_true]
    · rw [← List.mem_singleton.mp hlast, relativePath_eq_some_iff.mpr hpath]
      simp only [if_neg hname]
      refine upsertEntry_exists (fun e hbelow => ?_) (fun hbelow => decide_eq_true hbelow) _
      rw [merge_isDirectory, decide_eq_true hbelow, Bool.true_or]

theorem mem_entriesOf : e ∈ entriesOf dir rows ↔ ∃ n, (n, e) ∈ rows.foldl (addRow dir) [] := by
  simp [entriesOf]

/-! ## Listing the documents of one user -/

/-- The row of a document in a listing. -/
def listedRow (d : DocumentRow) : ListedRow :=
  ⟨d.path, d.updatedAt, some (String.ofList (d.content.toList.take 200))⟩

/-- The rows that are selected for a directory. -/
def rowsBelow (db : Db) (w : Workspace) (dir : String) : List ListedRow :=
  ((db.owned w.userId w.agentId).filter fun d => dir ++ "%" == "%" || like (dir ++ "%").toList d.path.toList).map listedRow

variable {db : Db} {w : Workspace}

theorem mem_rowsBelow (h : row ∈ rowsBelow db w dir) : ∃ d ∈ db.owned w.userId w.agentId, row = listedRow d := by
  obtain ⟨d, hd, rfl⟩ := List.mem_map.mp h
  exact ⟨d, List.mem_of_mem_filter hd, rfl⟩

variable {d : DocumentRow}

theorem listedRow_mem (hd : d ∈ db.owned w.userId w.agentId) (hpath : d.path = dir ++ rest) :
    listedRow d ∈ rowsBelow db w dir := by
  apply List.mem_map_of_mem
  rw [List.mem_filter]
  refine ⟨hd, ?_⟩
  have hlike : like (dir ++ "%").toList d.path.toList = true := by
    rw [hpath, String.toList_append, String.toList_append]
    exact like_append dir.toList rest.toList
  rw [hlike, Bool.or_true]

/-- **A file entry is a document** directly in the directory, with its own time. -/
theorem file_of_entry (he : e ∈ entriesOf dir (rowsBelow db w dir)) (hfile : e.isDirectory = false) :
    ∃ d ∈ db.owned w.userId w.agentId, d.path = e.path ∧ d.updatedAt = e.updatedAt ∧ Direct dir d.path := by
  obtain ⟨n, hn⟩ := mem_entriesOf.mp he
  have hbacked := backed_foldl _ hn
  obtain ⟨row, hrow, hpath, hupdated⟩ := hbacked.file hfile
  obtain ⟨d, hd, rfl⟩ := mem_rowsBelow hrow
  exact ⟨d, hd, hpath.trans hbacked.path.symm, hupdated, n, hpath, hbacked.name⟩

/-- **A document directly in the directory has a file entry**, unless there are documents below its path. -/
theorem entry_of_file (hd : d ∈ db.owned w.userId w.agentId) (hdirect : Direct dir d.path)
    (hbelow : ∀ d' ∈ db.owned w.userId w.agentId, ∀ rest, d'.path ≠ d.path ++ "/" ++ rest)
    (honly : ∀ d' ∈ db.owned w.userId w.agentId, d'.path = d.path → d' = d) :
    ∃ e ∈ entriesOf dir (rowsBelow db w dir), e.path = d.path ∧ e.isDirectory = false ∧ e.updatedAt = d.updatedAt := by
  obtain ⟨child, hpath, hname, hslash⟩ := hdirect
  have hwhole := (childName_spec child).2.1 hslash
  obtain ⟨e, he, -⟩ := entry_of_row _ (listedRow_mem hd hpath) hpath (by rw [hwhole]; exact hname)
  rw [hwhole] at he
  have hbacked := backed_foldl _ he
  have hfile : e.isDirectory = false := by
    rw [← Bool.not_eq_true]
    intro hdirectory
    obtain ⟨row, hrow, rest, hrest⟩ := hbacked.directory hdirectory
    obtain ⟨d', hd', rfl⟩ := mem_rowsBelow hrow
    exact hbelow d' hd' rest (by rw [hpath]; exact hrest)
  obtain ⟨row, hrow, hrowpath, hupdated⟩ := hbacked.file hfile
  obtain ⟨d', hd', rfl⟩ := mem_rowsBelow hrow
  have hsame : d' = d := honly d' hd' (hrowpath.trans hpath.symm)
  refine ⟨e, mem_entriesOf.mpr ⟨child, he⟩, hbacked.path.trans hpath.symm, hfile, ?_⟩
  rw [← hupdated, hsame]
  rfl

/-! ## The whole listing -/

/-- The entries of a directory are those of its children, each once and in order; an entry is a directory exactly if a
document is below it. -/
structure Lists (docs : List DocumentRow) (dir : String) (entries : List WorkspaceEntry) : Prop where
  sorted : entries.Pairwise fun a b => a.path ≤ b.path ∧ a.path ≠ b.path
  children : ∀ path, (∃ e ∈ entries, e.path = path) ↔ ∃ d ∈ docs, ∃ rest, d.path = dir ++ rest ∧ childName rest ≠ "" ∧
    path = dir ++ childName rest
  directories : ∀ e ∈ entries, (e.isDirectory = true ↔ ∃ d ∈ docs, ∃ rest, d.path = e.path ++ "/" ++ rest)

theorem nodup_names (dir : String) (rows : List ListedRow) : ((rows.foldl (addRow dir) []).map Prod.fst).Nodup := by
  induction rows using List.reverseRecOn with
  | nil => exact List.nodup_nil
  | append_singleton rows row ih =>
    rw [List.foldl_append]
    show ((addRow dir (rows.foldl (addRow dir) []) row).map Prod.fst).Nodup
    unfold addRow
    split
    · exact ih
    · split
      · exact ih
      · rw [names_upsertEntry]
        split
        next => exact ih
        next hnew => exact List.nodup_append.mpr ⟨ih, List.nodup_singleton _, by
          rintro a ha b hb rfl
          exact hnew (List.mem_singleton.mp hb ▸ ha)⟩

theorem childName_below {name : String} (h : '/' ∉ name.toList) (rest : String) :
    childName (name ++ "/" ++ rest) = name := by
  have hall : ∀ c ∈ name.toList, decide (c ≠ '/') = true := fun c hc => decide_eq_true fun heq => h (heq ▸ hc)
  rw [childName, String.toList_append, String.toList_append, List.append_assoc, List.takeWhile_append_of_pos hall]
  show String.ofList (name.toList ++ []) = name
  rw [List.append_nil, String.ofList_toList]

/-- **A listing is exact**, whatever the names: the wildcards of `LIKE` select more rows, none of which has a child. -/
theorem lists_entriesOf (db : Db) (w : Workspace) (dir : String) :
    Lists (db.owned w.userId w.agentId) dir (entriesOf dir (rowsBelow db w dir)) := by
  have hnodup := nodup_names dir (rowsBelow db w dir)
  have hbacked : ∀ n e, (n, e) ∈ (rowsBelow db w dir).foldl (addRow dir) [] → Backed dir (rowsBelow db w dir) n e :=
    fun n e he => backed_foldl _ he
  have hentry : ∀ d ∈ db.owned w.userId w.agentId, ∀ rest, d.path = dir ++ rest → childName rest ≠ "" →
      ∃ e, (childName rest, e) ∈ (rowsBelow db w dir).foldl (addRow dir) [] ∧
        ('/' ∈ rest.toList → e.isDirectory = true) :=
    fun d hd rest hpath hname => entry_of_row _ (listedRow_mem hd hpath) hpath hname
  -- sorted by path, distinct, and each entry and each document in turn
  constructor
  case sorted =>
    unfold entriesOf
    generalize (rowsBelow db w dir).foldl (addRow dir) [] = made at hnodup hbacked
    have hpaths : (made.map Prod.snd).Pairwise fun a b => a.path ≠ b.path := by
      rw [List.pairwise_map]
      refine (List.pairwise_map.mp hnodup).imp_of_mem fun {a b} ha hb hne heq => hne ?_
      rw [(hbacked a.1 a.2 ha).path, (hbacked b.1 b.2 hb).path] at heq
      exact (String.append_right_inj dir).mp heq
    have hsorted := List.pairwise_insertionSort (fun a b : WorkspaceEntry => a.path ≤ b.path) (made.map Prod.snd)
    have hapart := hpaths.perm (List.perm_insertionSort (fun a b : WorkspaceEntry => a.path ≤ b.path) _).symm
      fun {a b} hne heq => hne heq.symm
    exact hsorted.and hapart
  case children =>
    intro path
    constructor
    · rintro ⟨e, he, rfl⟩
      obtain ⟨n, hn⟩ := mem_entriesOf.mp he
      have hb := hbacked n e hn
      have hwhole := (childName_spec n).2.1 hb.name.2
      cases hkind : e.isDirectory with
      | false =>
        obtain ⟨row, hrow, hpath, -⟩ := hb.file hkind
        obtain ⟨d, hd, rfl⟩ := mem_rowsBelow hrow
        exact ⟨d, hd, n, hpath, by rw [hwhole]; exact hb.name.1, by rw [hwhole]; exact hb.path⟩
      | true =>
        obtain ⟨row, hrow, rest, hpath⟩ := hb.directory hkind
        obtain ⟨d, hd, rfl⟩ := mem_rowsBelow hrow
        have hchild := childName_below hb.name.2 rest
        exact ⟨d, hd, n ++ "/" ++ rest, by rw [← String.append_assoc, ← String.append_assoc]; exact hpath,
          by rw [hchild]; exact hb.name.1, by rw [hchild]; exact hb.path⟩
    · rintro ⟨d, hd, rest, hpath, hname, rfl⟩
      obtain ⟨e, he, -⟩ := hentry d hd rest hpath hname
      exact ⟨e, mem_entriesOf.mpr ⟨_, he⟩, (hbacked _ e he).path⟩
  case directories =>
    intro e he
    obtain ⟨n, hn⟩ := mem_entriesOf.mp he
    have hb := hbacked n e hn
    constructor
    · intro hkind
      obtain ⟨row, hrow, rest, hpath⟩ := hb.directory hkind
      obtain ⟨d, hd, rfl⟩ := mem_rowsBelow hrow
      exact ⟨d, hd, rest, by rw [hb.path]; exact hpath⟩
    · rintro ⟨d, hd, rest, hpath⟩
      have hchild := childName_below hb.name.2 rest
      obtain ⟨e', he', hkind⟩ := hentry d hd (n ++ "/" ++ rest)
        (by rw [hpath, hb.path, String.append_assoc, String.append_assoc, String.append_assoc])
        (by rw [hchild]; exact hb.name.1)
      rw [hchild] at he'
      have hsame : ((n, e) : String × WorkspaceEntry) = (n, e') := List.inj_on_of_nodup_map hnodup hn he' rfl
      rw [(Prod.mk.inj hsame).2]
      exact hkind (by simp)

/-- The directory of a listing, with a slash at its end. -/
def slashed (directory : String) : String :=
  if directory ≠ "" ∧ ¬ endsWith directory "/" then directory ++ "/" else directory

/-- **Listing a directory** changes nothing, and tells exactly which documents are in it and below it, unless its
    statement fails. -/
theorem listings_are_exact (db : Db) (w : Workspace) (directory : String) (failure : Option SqlError) :
    Prog.Ensures Db.perform (fun i => i.failure = failure) (fun r db' => db' = db ∧
      match failure with
      | some e => r = .error (.searchFailed (e.text "List directory"))
      | none => ∃ entries, r = .ok entries ∧
        Lists (db.owned w.userId w.agentId) (slashed (normalizeDirectory directory)) entries)
      (w.list directory).run db := by
  unfold Workspace.list listDirectory
  have hpattern : ∀ dir : String, (if dir = "" then "%" else dir ++ "%") = dir ++ "%" := by
    intro dir
    split
    next h => rw [h, String.empty_append]
    next => rfl
  dsimp only
  rw [hpattern]
  cases failure with
  | some e =>
    refine Prog.ensures_op fun i hfails => ?_
    have hperform : ∀ o, Db.perform o i db = (.error e, db) := fun o => by simp only [Db.perform, hfails]
    rw [hperform]
    exact Prog.ensures_ret ⟨rfl, rfl⟩
  | none =>
    refine Prog.Ensures.bindE (Q := fun r db' => db' = db ∧ r = .ok (rowsBelow db w (slashed (normalizeDirectory
      directory)))) ?_ ?_ ?_
    · apply statement_smooth (o := .selectLike w.userId w.agentId (slashed (normalizeDirectory directory) ++ "%"))
      exact fun i => ⟨_, db, rfl, rfl, rfl⟩
    · rintro rows _ ⟨rfl, hrows⟩
      obtain rfl := Except.ok.inj hrows
      exact Prog.ensures_ret ⟨rfl, _, rfl, lists_entriesOf _ w _⟩
    · rintro e db' ⟨-, herror⟩
      cases herror

end Freeclawdia.Memory
