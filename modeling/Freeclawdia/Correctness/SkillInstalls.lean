import Freeclawdia.Lib.Phases
import Freeclawdia.Skills.Registry

/-!
# `Correctness.SkillInstalls` — what an install leaves behind

An install writes before it validates. In runs whose steps are `Orderly` (an install comes to its directory in the
installed directory when no `SKILL.md` is there and nobody else is at work on it, and what it has written passes gating)
an install that fails is without consequences for a reload, no install touches the file of a loaded skill, and nothing
an install wrote is ever loaded as trusted.

The calls go through phases (`installing`): an install has checked the name, made the directory, written the file; a
removal has validated the name and deleted the file. That a failed install is as none is a statement about the run
without its steps (`Phases.Sound.without`).
-/

namespace Freeclawdia.Skills

open Rust

variable {dirs : Dirs} {yaml : Yaml} {order : Order} {env : Environment} {fs fs' : Fs} {root : Root} {name n m : String}
  {p q : Place} {bytes : List UInt8} {t u : Nat} {s s' : Shared} {a b : LoadedSkill}

/-! ## Entries -/

/-- The entry a place is in. -/
def Place.entry : Place → Root × String
  | .sub root name => (root, name)
  | .flat root => (root, SKILL_MD)

/-- Where an install writes. -/
def spot (name : String) : Place := .sub .installed name

/-- The `SKILL.md` of a place. -/
def Fs.mdOf (fs : Fs) : Place → Option Md
  | .sub root name => fs.md root name
  | .flat root =>
    match fs root SKILL_MD with
    | some (.file bytes) => some (.file bytes)
    | some (.link root name) => some (.link root name)
    | _ => none

/-- An entry that is no link and has none for its `SKILL.md`. -/
def Plain : Option Entry → Prop
  | some (.link _ _) => False
  | some (.dir (some (.link _ _)) _) => False
  | some (.dir (some .dir) _) => False
  | _ => True

/-- A directory without a `SKILL.md`, or nothing. -/
def Vacant (e : Option Entry) : Prop := e = none ∨ ∃ others, e = some (.dir none others)

variable {e : Option Entry}

theorem Vacant.plain (h : Vacant e) : Plain e := by
  rcases h with rfl | ⟨others, rfl⟩ <;> exact True.intro

theorem set_self (fs : Fs) (root : Root) (name : String) (e : Option Entry) : fs.set root name e root name = e :=
  if_pos ⟨rfl, rfl⟩

theorem set_other (fs : Fs) {root root' : Root} {name name' : String} (e : Option Entry)
    (hne : (root', name') ≠ (root, name)) : fs.set root name e root' name' = fs root' name' :=
  if_neg fun h => hne (by rw [h.1, h.2])

/-- What a place holds is a matter of its entry. -/
theorem mdOf_congr (h : fs' p.entry.1 p.entry.2 = fs p.entry.1 p.entry.2) : fs'.mdOf p = fs.mdOf p := by
  cases p with
  | sub root name =>
    change fs' root name = fs root name at h
    simp only [Fs.mdOf, Fs.md, h]
  | flat root =>
    change fs' root SKILL_MD = fs root SKILL_MD at h
    simp only [Fs.mdOf, h]

theorem mdOf_vacant (h : Vacant (fs p.entry.1 p.entry.2)) : fs.mdOf p = none := by
  cases p with
  | sub root name =>
    change Vacant (fs root name) at h
    rcases h with h | ⟨others, h⟩ <;> simp only [Fs.mdOf, Fs.md, h]
  | flat root =>
    change Vacant (fs root SKILL_MD) at h
    rcases h with h | ⟨others, h⟩ <;> simp only [Fs.mdOf, h]

variable {others : Bool}

theorem dirAt_dir {md : Option Md} (h : fs root name = some (.dir md others)) (links : Nat) :
    fs.dirAt (links + 1) root name = .here root name := by
  simp only [Fs.dirAt, h]

theorem md_dir {md : Option Md} (h : fs root name = some (.dir md others)) : fs.md root name = md := by
  simp only [Fs.md, h]

/-! ## System calls on plain entries -/

theorem set_eq_self (h : fs root name = e) : fs.set root name e = fs := by
  funext root' name'
  by_cases heq : (root', name') = (root, name)
  · obtain ⟨rfl, rfl⟩ := Prod.mk.inj heq
    rw [set_self, h]
  · exact set_other fs e heq

theorem createDirAll_vacant (h : Vacant (fs root name)) : ∃ others, ∀ fs' : Fs, fs' root name = fs root name →
      fs'.createDirAll root name = .ok (fs'.set root name (some (.dir none others))) := by
  rcases h with h | ⟨others, h⟩
  · exact ⟨false, fun fs' heq => by simp only [Fs.createDirAll, heq, h]⟩
  · exact ⟨others, fun fs' heq => by rw [set_eq_self (heq.trans h)]; simp only [Fs.createDirAll, heq, h]⟩

theorem write_made (h : fs root name = some (.dir none others)) (bytes : List UInt8) :
    fs.write root name bytes = .ok (fs.set root name (some (.dir (some (.file bytes)) others))) := by
  simp only [Fs.write, MAX_LINKS, Fs.fileAt, dirAt_dir h, md_dir h, h]

theorem lstat_file (h : fs root name = some (.dir (some (.file bytes)) others)) :
    fs.lstat (.sub root name) = .ok false := by
  simp only [Fs.lstat, MAX_LINKS, dirAt_dir h, md_dir h]

theorem read_file (h : fs root name = some (.dir (some (.file bytes)) others)) :
    fs.read (.sub root name) = .ok bytes := by
  simp only [Fs.read, MAX_LINKS, Fs.fileAt, dirAt_dir h, md_dir h]

/-- On plain entries the calls of a removal are a matter of the entry. -/
theorem exists_congr (hplain : Plain (fs p.entry.1 p.entry.2))
    (h : fs' p.entry.1 p.entry.2 = fs p.entry.1 p.entry.2) : fs'.exists_ p = fs.exists_ p := by
  cases p with
  | sub root name =>
    change fs' root name = fs root name at h
    change Plain (fs root name) at hplain
    cases he : fs root name with
    | none => simp only [Fs.exists_, MAX_LINKS, Fs.fileAt, Fs.dirAt, h, he]
    | some e =>
      rw [he] at h hplain
      cases e with
      | file bytes => simp only [Fs.exists_, MAX_LINKS, Fs.fileAt, Fs.dirAt, h, he]
      | link root' name' => exact hplain.elim
      | dir md others =>
        cases md with
        | none => simp only [Fs.exists_, MAX_LINKS, Fs.fileAt, dirAt_dir h, dirAt_dir he, md_dir h, md_dir he]
        | some md =>
          cases md with
          | file bytes => simp only [Fs.exists_, MAX_LINKS, Fs.fileAt, dirAt_dir h, dirAt_dir he, md_dir h, md_dir he]
          | link root' name' => exact hplain.elim
          | dir => exact hplain.elim
  | flat root =>
    change fs' root SKILL_MD = fs root SKILL_MD at h
    change Plain (fs root SKILL_MD) at hplain
    cases he : fs root SKILL_MD with
    | none => simp only [Fs.exists_, h, he]
    | some e =>
      rw [he] at h hplain
      cases e with
      | link root' name' => exact hplain.elim
      | _ => simp only [Fs.exists_, h, he]

/-- A file that is removed was there, and its entry is vacant then. -/
theorem removeFile_eq (hplain : Plain (fs p.entry.1 p.entry.2)) :
    (∃ bytes e, fs.mdOf p = some (.file bytes) ∧ Vacant e ∧ ∀ fs' : Fs, fs' p.entry.1 p.entry.2 = fs p.entry.1 p.entry.2 →
      fs'.removeFile p = .ok (fs'.set p.entry.1 p.entry.2 e)) ∨
    ∃ err, ∀ fs' : Fs, fs' p.entry.1 p.entry.2 = fs p.entry.1 p.entry.2 → fs'.removeFile p = .error err := by
  cases p with
  | sub root name =>
    change Plain (fs root name) at hplain
    change (∃ bytes e, fs.md root name = some (.file bytes) ∧ Vacant e ∧ ∀ fs' : Fs, fs' root name = fs root name →
      fs'.removeFile (.sub root name) = .ok (fs'.set root name e)) ∨
      ∃ err, ∀ fs' : Fs, fs' root name = fs root name → fs'.removeFile (.sub root name) = .error err
    cases he : fs root name with
    | none => exact .inr ⟨.notFound, fun fs' h => by simp only [Fs.removeFile, MAX_LINKS, Fs.dirAt, h]⟩
    | some e =>
      rw [he] at hplain
      cases e with
      | file bytes => exact .inr ⟨.notADirectory, fun fs' h => by simp only [Fs.removeFile, MAX_LINKS, Fs.dirAt, h]⟩
      | link root' name' => exact hplain.elim
      | dir md others =>
        cases md with
        | none => exact .inr ⟨.notFound, fun fs' h => by simp only [Fs.removeFile, MAX_LINKS, dirAt_dir h, h]⟩
        | some md =>
          cases md with
          | file bytes =>
            refine .inl ⟨bytes, some (.dir none others), md_dir he, .inr ⟨others, rfl⟩, fun fs' h => ?_⟩
            simp only [Fs.removeFile, MAX_LINKS, dirAt_dir h, h]
          | link root' name' => exact hplain.elim
          | dir => exact hplain.elim
  | flat root =>
    change Plain (fs root SKILL_MD) at hplain
    change (∃ bytes e, fs.mdOf (.flat root) = some (.file bytes) ∧ Vacant e ∧ ∀ fs' : Fs,
      fs' root SKILL_MD = fs root SKILL_MD → fs'.removeFile (.flat root) = .ok (fs'.set root SKILL_MD e)) ∨
      ∃ err, ∀ fs' : Fs, fs' root SKILL_MD = fs root SKILL_MD → fs'.removeFile (.flat root) = .error err
    cases he : fs root SKILL_MD with
    | none => exact .inr ⟨.notFound, fun fs' h => by simp only [Fs.removeFile, h]⟩
    | some e =>
      rw [he] at hplain
      cases e with
      | file bytes =>
        exact .inl ⟨bytes, none, by simp only [Fs.mdOf, he], .inl rfl, fun fs' h => by simp only [Fs.removeFile, h]⟩
      | link root' name' => exact hplain.elim
      | dir md others => exact .inr ⟨.isADirectory, fun fs' h => by simp only [Fs.removeFile, h]⟩

/-- A directory that is removed was vacant; everything else stays. -/
theorem removeDir_eq (fs : Fs) (p : Place) : (∃ others, fs p.entry.1 p.entry.2 = some (.dir none others) ∧
      ∀ fs' : Fs, fs' p.entry.1 p.entry.2 = fs p.entry.1 p.entry.2 → fs'.removeDir p = fs'.set p.entry.1 p.entry.2 none) ∨
      ∀ fs' : Fs, fs' p.entry.1 p.entry.2 = fs p.entry.1 p.entry.2 → fs'.removeDir p = fs' := by
  cases p with
  | sub root name =>
    change (∃ others, fs root name = some (.dir none others) ∧ ∀ fs' : Fs, fs' root name = fs root name →
      fs'.removeDir (.sub root name) = fs'.set root name none) ∨
      ∀ fs' : Fs, fs' root name = fs root name → fs'.removeDir (.sub root name) = fs'
    by_cases he : fs root name = some (.dir none false)
    · exact .inl ⟨false, he, fun fs' heq => by simp only [Fs.removeDir, heq, he]⟩
    · refine .inr fun fs' heq => ?_
      simp only [Fs.removeDir, heq]
  | flat root => exact .inr fun _ _ => rfl

theorem mdOf_same_entry (hne : p ≠ q) (hentry : p.entry = q.entry) (h : fs.mdOf p = some (.file bytes)) :
    ∀ content, fs.mdOf q ≠ some (.file content) := by
  intro content hq
  cases p with
  | sub root name =>
    cases q with
    | sub root' name' => exact hne (congrArg (fun e => Place.sub e.1 e.2) hentry)
    | flat root' =>
      obtain ⟨rfl, rfl⟩ := Prod.mk.inj hentry
      change fs.md root SKILL_MD = _ at h
      simp only [Fs.md, Fs.mdOf] at h hq
      split at h
      next he =>
        rw [he] at hq
        cases hq
      next => cases h
  | flat root =>
    cases q with
    | flat root' => exact hne (by rw [show root = root' from (Prod.mk.inj hentry).1])
    | sub root' name' =>
      obtain ⟨rfl, rfl⟩ := Prod.mk.inj hentry
      change fs.md root SKILL_MD = _ at hq
      simp only [Fs.md, Fs.mdOf] at h hq
      split at hq
      next he =>
        rw [he] at h
        cases h
      next => cases hq

/-! ## What is asked of a run -/

/-- An install comes to its directory in the installed directory when nothing, or a directory without a `SKILL.md`, is
    there, and when nobody else is at work on it; what it has written passes gating. -/
def Orderly (_ : Nat) (o : Op) (env : Environment) (s : Shared) : Prop :=
  match o with
  | .createDirAll root name =>
    root = .installed ∧ Vacant (s.fs .installed name) ∧ (∀ u p, (u, p) ∈ s.removing → p.entry ≠ (.installed, name)) ∧
      ∀ u, (u, spot name) ∉ s.pending
  | .checkRequirements requirements => checkRequirements env requirements = []
  | _ => True

/-! ## The phases of a call -/

inductive Phase
  | idle
  | checked (name : String)
  | made (name : String)
  | wrote (name : String) (bytes : List UInt8)
  | removing (name : String) (p : Place)
  | removed (name : String) (p : Place)
  | done

/-- The operations of a phase. -/
def Phase.Pre : Phase → Op → Prop
  | .idle, .has _ => True
  | .idle, .validateRemove _ => True
  | .checked n, .createDirAll _ name => name = n
  | .made n, .write root name _ => root = .installed ∧ name = n
  | .wrote n _, .lstat p => p = spot n
  | .wrote n _, .read p => p = spot n
  | .wrote _ _, .checkRequirements _ => True
  | .wrote n _, .commitInstall name skill => name = n ∧ skill.name = n ∧ skill.source = .user (spot n)
  | .removing _ p, .tryExists q => q = p
  | .removing _ p, .removeFile q => q = p
  | .removed _ p, .removeDir q => q = p
  | .removing n p, .commitRemove name q => name = n ∧ q = p
  | .removed n p, .commitRemove name q => name = n ∧ q = p
  | _, _ => False

/-- The answers there can be. -/
def Phase.Can : Phase → (o : Op) → Ans o → Prop
  | .checked _, .createDirAll root _, a => root = .installed ∧ a = .ok ()
  | .made _, .write _ _ _, a => a = .ok ()
  | .wrote _ _, .lstat _, a => a = .ok false
  | .wrote _ bytes, .read _, a => a = .ok bytes
  | .wrote _ _, .checkRequirements _, a => a = []
  | .wrote _ _, .commitInstall _ _, a => a = .ok ()
  | _, _, _ => True

def Phase.next : Phase → (o : Op) → Ans o → Phase
  | .idle, .has name, a => if a then .idle else .checked name
  | .idle, .validateRemove name, a =>
    match a with
    | .ok p => .removing name p
    | .error _ => .done
  | .checked n, .createDirAll _ _, _ => .made n
  | .made n, .write _ _ bytes, _ => .wrote n bytes
  | .wrote _ _, .commitInstall _ _, _ => .done
  | .removing n p, .removeFile _, a =>
    match a with
    | .ok _ => .removed n p
    | .error _ => .done
  | _, .commitRemove _ _, _ => .done
  | k, _, _ => k

/-- The directories and the removals a task is at work on. -/
structure Holding (t : Nat) (pending removing : Option Place) (s : Shared) : Prop where
  pending : ∀ p, (t, p) ∈ s.pending ↔ pending = some p
  removing : ∀ p, (t, p) ∈ s.removing ↔ removing = some p

/-- A skill of this name comes from an install. -/
def FromInstall (name : String) (s : Shared) : Prop := ∀ a ∈ s.skills, a.name = name → a.source = .user (spot name)

/-- What a phase means. -/
def Phase.In (t : Nat) : Phase → Shared → Prop
  | .idle, s => Holding t none none s
  | .checked n, s => Holding t none none s ∧ FromInstall n s
  | .made n, s => Holding t (some (spot n)) none s ∧ FromInstall n s ∧
    ∃ others, s.fs .installed n = some (.dir none others)
  | .wrote n bytes, s =>
    Holding t (some (spot n)) none s ∧ FromInstall n s ∧
      ∃ others, s.fs .installed n = some (.dir (some (.file bytes)) others)
  | .removing n p, s =>
    Holding t none (some p) s ∧ (t, p) ∉ s.deleted ∧ ∀ a ∈ s.skills, a.source = .user p → a.name = n
  | .removed n p, s =>
    Holding t none (some p) s ∧ (t, p) ∈ s.deleted ∧ ∀ a ∈ s.skills, a.source = .user p → a.name = n
  | .done, s => Holding t none none s

/-- How the books, the registry and the directories agree. -/
structure Inv (s : Shared) : Prop where
  names : s.skills.Pairwise fun a b => a.name ≠ b.name
  sources : ∀ a ∈ s.skills, ∀ b ∈ s.skills, ∀ p, a.source = .user p → b.source = .user p → a.name = b.name
  roots : ∀ a ∈ s.skills, (∃ p, a.source = .workspace p ∧ p.root = .workspace) ∨ ∃ p, a.source = .user p
  files : ∀ a ∈ s.skills, ∀ p, a.source = .user p →
    (∃ bytes, s.fs.mdOf p = some (.file bytes)) ∨ ∃ t, (t, p) ∈ s.deleted
  plain : ∀ a ∈ s.skills, ∀ p, a.source = .user p → Plain (s.fs p.entry.1 p.entry.2)
  removingPlain : ∀ t p, (t, p) ∈ s.removing → Plain (s.fs p.entry.1 p.entry.2)
  deletedRemoving : ∀ t p, (t, p) ∈ s.deleted → (t, p) ∈ s.removing
  spots : ∀ t p, (t, p) ∈ s.pending → ∃ name, p = spot name
  unique : ∀ t u p, (t, p) ∈ s.pending → (u, p) ∈ s.pending → t = u
  freeOfSkills : ∀ t p, (t, p) ∈ s.pending → ∀ a ∈ s.skills, ∀ q, a.source = .user q → q.entry ≠ p.entry
  freeOfRemovals : ∀ t p u q, (t, p) ∈ s.pending → (u, q) ∈ s.removing → q.entry ≠ p.entry
  written : ∀ p ∈ s.written, p.root = .installed

/-- What the bytes of a file would be loaded as, requirements apart. -/
def Readable (yaml : Yaml) (bytes : List UInt8) : Prop :=
  ∃ parsed, parseSkillFile yaml "" bytes = .ok parsed ∧ ∃ skill,
    finishLoad parsed .installed (.user (.flat .user)) = .ok skill

/-- How a call can end. -/
def Phase.Fin (yaml : Yaml) : (c : Call) → Phase → Out c → Prop
  | .installSkill _, k, out => ∀ e, out = .error e → k = .idle ∨ ∃ n bytes, k = .wrote n bytes ∧ ¬Readable yaml bytes
  | .skillInstall _, k, out => ∀ e, out = .error e → k = .idle ∨ ∃ n bytes, k = .wrote n bytes ∧ ¬Readable yaml bytes
  | _, _, _ => True

def installing (dirs : Dirs) (yaml : Yaml) : Phases (machine dirs yaml) where
  Phase := Phase
  first := .idle
  Pre := Phase.Pre
  Can := Phase.Can
  next := Phase.next
  Fin := Phase.Fin yaml
  Inv := Inv
  In := Phase.In
  Allowed := Orderly

/-! ## Line endings -/

/-- A pattern whose first character does not occur is not replaced. -/
theorem replaceFrom_absent {c : Char} {pat target : List Char} {text : List Char} (h : c ∉ text) :
    replaceFrom (c :: pat) target 0 text = text := by
  induction text with
  | nil => rfl
  | cons d text ih =>
    have hd : c ≠ d := fun heq => h (heq ▸ List.mem_cons_self ..)
    have hpre : (c :: pat).isPrefixOf (d :: text) = false := by simp [List.isPrefixOf, hd]
    simp only [replaceFrom, hpre, Bool.false_eq_true, if_false]
    rw [ih fun hmem => h (List.mem_cons_of_mem _ hmem)]

/-- A character that was replaced is gone. -/
theorem not_mem_replaceFrom {c : Char} {target : List Char} (hc : c ∉ target) (text : List Char) :
    c ∉ replaceFrom [c] target 0 text := by
  induction text with
  | nil => exact List.not_mem_nil
  | cons d text ih =>
    by_cases hd : c = d
    · subst hd
      have hpre : [c].isPrefixOf (c :: text) = true := by simp [List.isPrefixOf]
      simp only [replaceFrom, hpre, if_true, List.length_singleton, Nat.sub_self]
      exact fun hmem => (List.mem_append.mp hmem).elim hc ih
    · have hpre : [c].isPrefixOf (d :: text) = false := by simp [List.isPrefixOf, hd]
      simp only [replaceFrom, hpre, Bool.false_eq_true, if_false]
      exact fun hmem => (List.mem_cons.mp hmem).elim hd ih

theorem normalizeLineEndings_idem (content : String) :
    normalizeLineEndings (normalizeLineEndings content) = normalizeLineEndings content := by
  have hgone : '\r' ∉ (normalizeLineEndings content).toList := by
    unfold normalizeLineEndings
    rw [show (replaceAll (replaceAll content "\r\n" "\n") "\r" "\n").toList =
      replaceFrom ['\r'] ['\n'] 0 (replaceAll content "\r\n" "\n").toList by rw [replaceAll, String.toList_ofList]; rfl]
    exact not_mem_replaceFrom (by decide) _
  generalize normalizeLineEndings content = text at *
  have hpair : replaceAll text "\r\n" "\n" = text := by
    rw [replaceAll, show "\r\n".toList = '\r' :: ['\n'] from rfl, replaceFrom_absent hgone, String.ofList_toList]
  rw [normalizeLineEndings, hpair, replaceAll, show "\r".toList = '\r' :: [] from rfl, replaceFrom_absent hgone,
    String.ofList_toList]

/-! ## Reading back -/

variable {skill : LoadedSkill} {parsed : ParsedSkill} {source : SkillSource} {trust : SkillTrust}

theorem finishLoad_eq (h : finishLoad parsed trust source = .ok skill) :
    skill = ⟨parsed.manifest, parsed.promptContent, trust, source⟩ := by
  simp only [finishLoad] at h
  split at h
  · cases h
  · cases h
    rfl

/-- Whether the budget is kept has nothing to do with the trust and the source. -/
theorem finishLoad_ok {trust' : SkillTrust} {source' : SkillSource} (h : finishLoad parsed trust source = .ok skill) :
    ∃ skill', finishLoad parsed trust' source' = .ok skill' := by
  simp only [finishLoad] at h ⊢
  split at h
  · cases h
  next hbudget =>
    rw [if_neg hbudget]
    exact ⟨_, rfl⟩

variable {path : String}

/-- The path only shows in errors. -/
theorem parseSkillFile_ok {path' : String} (h : parseSkillFile yaml path bytes = .ok parsed) :
    parseSkillFile yaml path' bytes = .ok parsed := by
  simp only [parseSkillFile] at h ⊢
  split at h
  · cases h
  next hsize =>
    rw [if_neg hsize]
    split at h
    · cases h
    · split at h
      · cases h
      · cases h
      · exact h

theorem readable_of (hparsed : parseSkillFile yaml path bytes = .ok parsed)
    (hskill : finishLoad parsed trust source = .ok skill) : Readable yaml bytes :=
  ⟨parsed, parseSkillFile_ok hparsed, finishLoad_ok hskill⟩

variable {first : ParsedSkill} {content : String}

/-- What an install wrote is read as what it parsed. -/
theorem parseSkillFile_written (hfirst : parseSkillMd yaml (normalizeLineEndings content) = .ok first)
    (h : parseSkillFile yaml path (encodeUtf8 (normalizeLineEndings content).toList) = .ok parsed) : parsed = first := by
  simp only [parseSkillFile, fromUtf8_eq_some_iff.mpr rfl, normalizeLineEndings_idem, hfirst] at h
  split at h
  · cases h
  · exact (Except.ok.inj h).symm

/-! ## The programs follow the phases -/

variable {o : Op} {k : Phase}

theorem follows_perf {Q : Phase → Ans o → Prop} (hpre : k.Pre o) (h : ∀ a, k.Can o a → Q (k.next o a) a) :
    (installing dirs yaml).Follows Q k (perf o) :=
  Phases.follows_op hpre fun a hcan => Phases.follows_ret (h a hcan)

/-- What an install wrote is loaded, or cannot be read. -/
def Loads (yaml : Yaml) (path : String) (bytes : List UInt8) (source : SkillSource) :
    Except SkillRegistryError LoadedSkill → Prop
  | .error _ => ¬Readable yaml bytes
  | .ok skill => skill.source = source ∧
      ∃ parsed, parseSkillFile yaml path bytes = .ok parsed ∧ skill.name = parsed.manifest.name

theorem loads_error {e e' : SkillRegistryError} (h : parseSkillFile yaml path bytes = .error e) :
    Loads yaml path bytes source (.error e') := by
  rintro ⟨parsed, hread, -⟩
  rw [parseSkillFile_ok hread] at h
  cases h

theorem loads_finish (source : SkillSource) (h : parseSkillFile yaml path bytes = .ok parsed) :
    Loads yaml path bytes source (finishLoad parsed .installed source) := by
  cases hfinish : finishLoad parsed .installed source with
  | error e =>
    rintro ⟨parsed', hread, skill, hskill⟩
    rw [parseSkillFile_ok hread] at h
    cases h
    obtain ⟨skill', hskill'⟩ : ∃ skill', finishLoad parsed .installed source = .ok skill' := finishLoad_ok hskill
    rw [hskill'] at hfinish
    cases hfinish
  | ok skill =>
    rw [finishLoad_eq hfinish]
    exact ⟨rfl, parsed, h, rfl⟩

theorem follows_loadFromDisk {path : Place} (hpath : path = spot n) (source : SkillSource) :
    (installing dirs yaml).Follows (fun (k : Phase) (r : Except SkillRegistryError LoadedSkill) =>
        k = .wrote n bytes ∧ Loads yaml (dirs.mdText path) bytes source r)
      (.wrote n bytes) (loadFromDisk dirs yaml path .installed source) := by
  unfold loadFromDisk
  refine (follows_perf (k := .wrote n bytes) (o := .lstat path) (Q := fun k a => k = .wrote n bytes ∧ a = .ok false) hpath
    fun a hcan => ⟨rfl, hcan⟩).bind ?_
  rintro k a ⟨rfl, rfl⟩
  refine (follows_perf (k := .wrote n bytes) (o := .read path) (Q := fun k a => k = .wrote n bytes ∧ a = .ok bytes) hpath
    fun a hcan => ⟨rfl, hcan⟩).bind ?_
  rintro k a ⟨rfl, rfl⟩
  dsimp only
  cases hparsed : parseSkillFile yaml (dirs.mdText path) bytes with
  | error e => exact Phases.follows_ret ⟨rfl, loads_error hparsed⟩
  | ok parsed =>
    dsimp only
    cases hreq : parsed.manifest.requirements with
    | none => exact Phases.follows_ret ⟨rfl, loads_finish source hparsed⟩
    | some requirements =>
      refine (follows_perf (k := .wrote n bytes) (o := .checkRequirements requirements)
        (Q := fun k a => k = .wrote n bytes ∧ a = []) True.intro fun a hcan => ⟨rfl, hcan⟩).bind ?_
      rintro k a ⟨rfl, rfl⟩
      exact Phases.follows_ret ⟨rfl, loads_finish source hparsed⟩

/-- Once the name is free, an install comes to its end, or what it wrote cannot be read. -/
theorem follows_installTo (hfirst : parseSkillMd yaml (normalizeLineEndings content) = .ok first) (root : Root) :
    (installing dirs yaml).Follows (fun (k : Phase) (r : Except SkillRegistryError String) =>
        ∀ e, r = .error e → ∃ n bytes, k = .wrote n bytes ∧ ¬Readable yaml bytes)
      (.checked first.manifest.name) (installTo dirs yaml root first.manifest.name (normalizeLineEndings content)) := by
  unfold installTo
  refine Phases.Follows.bind (Q := fun (k : Phase) (r : Except SkillRegistryError LoadedSkill) =>
    k = .wrote first.manifest.name (encodeUtf8 (normalizeLineEndings content).toList) ∧
      Loads yaml (dirs.mdText (spot first.manifest.name)) (encodeUtf8 (normalizeLineEndings content).toList)
        (.user (spot first.manifest.name)) r) ?_ ?_
  · unfold prepareInstallToDisk
    refine (follows_perf (k := .checked first.manifest.name) (o := .createDirAll root first.manifest.name)
      (Q := fun k a => k = .made first.manifest.name ∧ root = .installed ∧ a = .ok ()) rfl
      fun a hcan => ⟨rfl, hcan⟩).bind ?_
    rintro k a ⟨rfl, rfl, rfl⟩
    dsimp only
    refine (follows_perf (k := .made first.manifest.name)
      (o := .write .installed first.manifest.name (encodeUtf8 (normalizeLineEndings content).toList))
      (Q := fun k a => k = .wrote first.manifest.name (encodeUtf8 (normalizeLineEndings content).toList) ∧ a = .ok ())
      ⟨rfl, rfl⟩ fun a hcan => ⟨rfl, hcan⟩).bind ?_
    rintro k a ⟨rfl, rfl⟩
    exact follows_loadFromDisk rfl _
  · rintro k r ⟨rfl, hloads⟩
    cases r with
    | error e => exact Phases.follows_ret fun _ _ => ⟨_, _, rfl, hloads⟩
    | ok skill =>
      obtain ⟨hsource, parsed, hparsed, hname⟩ := hloads
      have hsame : skill.name = first.manifest.name := by rw [hname, parseSkillFile_written hfirst hparsed]
      dsimp only
      rw [hsame]
      refine (follows_perf (k := .wrote first.manifest.name _) (o := .commitInstall first.manifest.name skill)
        (Q := fun k a => a = .ok ()) ⟨rfl, hsame, hsource⟩ fun a hcan => hcan).bind ?_
      rintro k a rfl
      exact Phases.follows_ret nofun

theorem follows_removeSkill (name : String) :
    (installing dirs yaml).Follows (fun _ _ => True) .idle (removeSkill dirs name) := by
  unfold removeSkill
  refine (follows_perf (k := .idle) (o := .validateRemove name)
    (Q := fun k a => ∀ p, a = .ok p → k = .removing name p) True.intro fun a _ => ?_).bind fun k a hk => ?_
  · rintro p rfl
    rfl
  cases a with
  | error e => exact Phases.follows_ret True.intro
  | ok p =>
    obtain rfl := hk p rfl
    dsimp only
    refine Phases.Follows.bind (Q := fun (k : Phase) (r : Except SkillRegistryError Unit) =>
      r = .ok () → k = .removing name p ∨ k = .removed name p) ?_ fun k r hk => ?_
    · unfold deleteSkillFiles
      refine (follows_perf (k := .removing name p) (o := .tryExists p) (Q := fun k _ => k = .removing name p) rfl
        fun _ _ => rfl).bind ?_
      rintro k there rfl
      cases there with
      | false => exact Phases.follows_ret fun _ => .inl rfl
      | true =>
        refine (follows_perf (k := .removing name p) (o := .removeFile p)
          (Q := fun k a => a = .ok () → k = .removed name p) rfl fun a _ h => by rw [h]; rfl).bind fun k a hk => ?_
        cases a with
        | error e => exact Phases.follows_ret nofun
        | ok u =>
          obtain rfl := hk rfl
          refine (follows_perf (k := .removed name p) (o := .removeDir p) (Q := fun k _ => k = .removed name p) rfl
            fun _ _ => rfl).bind ?_
          rintro k - rfl
          exact Phases.follows_ret fun _ => .inr rfl
    · cases r with
      | error e => exact Phases.follows_ret True.intro
      | ok u =>
        rcases hk rfl with rfl | rfl
        · exact follows_perf (k := .removing name p) (o := .commitRemove name p) ⟨rfl, rfl⟩ fun _ _ => True.intro
        · exact follows_perf (k := .removed name p) (o := .commitRemove name p) ⟨rfl, rfl⟩ fun _ _ => True.intro

theorem follows_has (name : String) : (installing dirs yaml).Follows
    (fun (k : Phase) (found : Bool) => k = if found then .idle else .checked name) .idle (perf (Op.has name)) :=
  follows_perf (k := .idle) (o := .has name) True.intro fun _ _ => rfl

/-- An install that fails has not begun, or has written what cannot be read. -/
def Harmless (yaml : Yaml) {ε : Type} (k : Phase) (r : Except ε String) : Prop :=
  ∀ e, r = .error e → k = .idle ∨ ∃ n bytes, k = .wrote n bytes ∧ ¬Readable yaml bytes

theorem installSkill_ok (h : parseSkillMd yaml (normalizeLineEndings content) = .ok first) :
    installSkill dirs yaml content = perf (Op.has first.manifest.name) >>= fun found =>
      if found = true then .ret (.error (.alreadyExists first.manifest.name))
      else installTo dirs yaml .user first.manifest.name (normalizeLineEndings content) := by
  simp only [installSkill, h]
  rfl

theorem installSkill_error {e : SkillParseError} (h : parseSkillMd yaml (normalizeLineEndings content) = .error e) :
    ∃ e', installSkill dirs yaml content = .ret (.error e') := by
  simp only [installSkill, h]
  cases e <;> exact ⟨_, rfl⟩

theorem follows_installSkill (content : String) :
    (installing dirs yaml).Follows (Harmless yaml) .idle (installSkill dirs yaml content) := by
  cases hparse : parseSkillMd yaml (normalizeLineEndings content) with
  | error e =>
    obtain ⟨e', heq⟩ := (installSkill_error hparse : ∃ e', installSkill dirs yaml content = .ret (.error e'))
    rw [heq]
    exact Phases.follows_ret fun _ _ => .inl rfl
  | ok first =>
    rw [installSkill_ok hparse]
    refine (follows_has first.manifest.name).bind ?_
    rintro k found rfl
    cases found with
    | true => exact Phases.follows_ret fun _ _ => .inl rfl
    | false => exact (follows_installTo hparse .user).mono fun k r h e he => .inr (h e he)

theorem skillInstall_ok (h : parseSkillMd yaml (normalizeLineEndings content) = .ok first) :
    skillInstall dirs yaml (.ok content) = perf (Op.has first.manifest.name) >>= fun found =>
      if found = true then
        .ret (.error (.executionFailed ("Skill '" ++ first.manifest.name ++ "' already exists"))) else
        installTo dirs yaml dirs.installTargetDir first.manifest.name (normalizeLineEndings content) >>= fun r =>
          .ret (toToolError r) := by
  simp only [skillInstall, h]
  rfl

theorem skillInstall_error {e : SkillParseError} (h : parseSkillMd yaml (normalizeLineEndings content) = .error e) :
    skillInstall dirs yaml (.ok content) = .ret (.error (.executionFailed e.text)) := by
  simp only [skillInstall, h]
  rfl

theorem follows_skillInstall (content : Except Tools.ToolError String) :
    (installing dirs yaml).Follows (Harmless yaml) .idle (skillInstall dirs yaml content) := by
  cases content with
  | error e => exact Phases.follows_ret fun _ _ => .inl rfl
  | ok content =>
    cases hparse : parseSkillMd yaml (normalizeLineEndings content) with
    | error e =>
      rw [skillInstall_error hparse]
      exact Phases.follows_ret fun _ _ => .inl rfl
    | ok first =>
      rw [skillInstall_ok hparse]
      refine (follows_has first.manifest.name).bind ?_
      rintro k found rfl
      cases found with
      | true => exact Phases.follows_ret fun _ _ => .inl rfl
      | false =>
        refine (follows_installTo hparse dirs.installTargetDir).bind fun k r h => ?_
        refine Phases.follows_ret fun e he => .inr ?_
        cases r with
        | error e' => exact h e' rfl
        | ok name => cases he

theorem follows_body (c : Call) : (installing dirs yaml).Follows (Phase.Fin yaml c) .idle (body dirs yaml c) := by
  cases c with
  | installSkill content => exact follows_installSkill content
  | skillInstall content => exact follows_skillInstall content
  | removeSkill name => exact follows_removeSkill name
  | skillRemove name => exact (follows_removeSkill name).bind fun k r _ => Phases.follows_ret True.intro

/-! ## What an operation changes -/

/-- What the others see of an operation of task `t`. -/
structure Frame (t : Nat) (s s' : Shared) : Prop where
  pending : ∀ u, u ≠ t → ∀ p, (u, p) ∈ s'.pending ↔ (u, p) ∈ s.pending
  removing : ∀ u, u ≠ t → ∀ p, (u, p) ∈ s'.removing ↔ (u, p) ∈ s.removing
  deleted : ∀ u, u ≠ t → ∀ p, (u, p) ∈ s'.deleted ↔ (u, p) ∈ s.deleted
  skills : ∀ a ∈ s'.skills, a ∈ s.skills ∨ ∃ n, a.source = .user (spot n) ∧ a.name = n ∧ (t, spot n) ∈ s.pending
  fs : ∀ u, u ≠ t → ∀ n, (u, spot n) ∈ s.pending → s'.fs .installed n = s.fs .installed n

theorem Frame.refl (t : Nat) (s : Shared) : Frame t s s :=
  ⟨fun _ _ _ => Iff.rfl, fun _ _ _ => Iff.rfl, fun _ _ _ => Iff.rfl, fun _ h => .inl h, fun _ _ _ _ => rfl⟩

theorem Frame.holding (hf : Frame t s s') (hne : u ≠ t) {pend rem : Option Place} (h : Holding u pend rem s) :
    Holding u pend rem s' :=
  ⟨fun p => (hf.pending u hne p).trans (h.pending p), fun p => (hf.removing u hne p).trans (h.removing p)⟩

theorem Frame.fromInstall (hf : Frame t s s') (h : FromInstall n s) : FromInstall n s' := by
  intro a ha hname
  rcases hf.skills a ha with ha | ⟨m, hsource, hm, -⟩
  · exact h a ha hname
  · rw [hsource, ← hm, hname]

/-- The others stay in their phases. -/
theorem Frame.stays (hf : Frame t s s') (hinv : Inv s) (hne : u ≠ t) (h : k.In u s) : k.In u s' := by
  have hnamed : ∀ {n p}, (u, p) ∈ s.removing → (∀ a ∈ s.skills, a.source = .user p → a.name = n) →
      ∀ a ∈ s'.skills, a.source = .user p → a.name = n := by
    intro n p hremoving hall a ha hsource
    rcases hf.skills a ha with ha | ⟨m, hsource', -, hpending⟩
    · exact hall a ha hsource
    · rw [hsource] at hsource'
      cases hsource'
      exact absurd rfl (hinv.freeOfRemovals t (spot m) u (spot m) hpending hremoving)
  cases k with
  | idle => exact hf.holding hne h
  | checked n => exact ⟨hf.holding hne h.1, hf.fromInstall h.2⟩
  | made n =>
    obtain ⟨hholding, hfrom, others, he⟩ := h
    have hkept := hf.fs u hne n ((hholding.pending _).mpr rfl)
    exact ⟨hf.holding hne hholding, hf.fromInstall hfrom, others, hkept.trans he⟩
  | wrote n bytes =>
    obtain ⟨hholding, hfrom, others, he⟩ := h
    have hkept := hf.fs u hne n ((hholding.pending _).mpr rfl)
    exact ⟨hf.holding hne hholding, hf.fromInstall hfrom, others, hkept.trans he⟩
  | removing n p =>
    obtain ⟨hholding, hdeleted, hall⟩ := h
    exact ⟨hf.holding hne hholding, fun hmem => hdeleted ((hf.deleted u hne p).mp hmem),
      hnamed ((hholding.removing p).mpr rfl) hall⟩
  | removed n p =>
    obtain ⟨hholding, hdeleted, hall⟩ := h
    exact ⟨hf.holding hne hholding, (hf.deleted u hne p).mpr hdeleted, hnamed ((hholding.removing p).mpr rfl) hall⟩
  | done => exact hf.holding hne h

/-- An operation moves its task to a phase, and keeps what is kept. -/
structure Moves (t : Nat) (k : Phase) (s s' : Shared) : Prop where
  inv : Inv s'
  phase : k.In t s'
  frame : Frame t s s'

theorem Moves.refl (hinv : Inv s) (h : k.In t s) : Moves t k s s := ⟨hinv, h, Frame.refl t s⟩

/-- An entry that is changed where no loaded skill is, to one that is plain. -/
theorem Inv.setEntry (hinv : Inv s) {fs : Fs} {r : Root × String}
    (hother : ∀ root name, (root, name) ≠ r → fs root name = s.fs root name) (hplain : Plain (fs r.1 r.2))
    (hfiles : ∀ a ∈ s.skills, ∀ p, a.source = .user p → p.entry = r →
      ∀ bytes, s.fs.mdOf p = some (.file bytes) → fs.mdOf p = some (.file bytes) ∨ ∃ t, (t, p) ∈ s.deleted) :
    Inv { s with fs } := by
  have hkept : ∀ p : Place, Plain (s.fs p.entry.1 p.entry.2) → Plain (fs p.entry.1 p.entry.2) := by
    intro p hwas
    by_cases hentry : p.entry = r
    · rw [hentry]
      exact hplain
    · rw [hother p.entry.1 p.entry.2 hentry]
      exact hwas
  refine { hinv with
    files := fun a ha p hsource => ?_
    plain := fun a ha p hsource => hkept p (hinv.plain a ha p hsource)
    removingPlain := fun t p hmem => hkept p (hinv.removingPlain t p hmem) }
  rcases hinv.files a ha p hsource with ⟨bytes, hfile⟩ | hdeleted
  · by_cases hentry : p.entry = r
    · exact (hfiles a ha p hsource hentry bytes hfile).imp (fun h => ⟨bytes, h⟩) id
    · refine .inl ⟨bytes, ?_⟩
      rw [← hfile]
      exact mdOf_congr (hother p.entry.1 p.entry.2 hentry)
  · exact .inr hdeleted

/-- The directory is made, and the install is at work on it. -/
theorem moves_createDirAll (hinv : Inv s) (hin : (Phase.checked n).In t s)
    (horderly : Orderly t (.createDirAll root n) env s) :
    root = .installed ∧ ∃ others, s.fs.createDirAll root n = .ok (s.fs.set .installed n (some (.dir none others))) ∧
      Moves t (.made n) s
        { s with fs := s.fs.set .installed n (some (.dir none others)), pending := (t, spot n) :: s.pending } := by
  obtain ⟨rfl, hvacant, hremovals, hinstalls⟩ := horderly
  obtain ⟨others, hok⟩ := createDirAll_vacant hvacant
  -- Nothing loaded is there: its file would be.
  have hfree : ∀ a ∈ s.skills, ∀ q, a.source = .user q → q.entry ≠ (.installed, n) := by
    intro a ha q hsource hentry
    have hnone : s.fs.mdOf q = none := mdOf_vacant (by rw [hentry]; exact hvacant)
    rcases hinv.files a ha q hsource with ⟨bytes, hfile⟩ | ⟨u, hdeleted⟩
    · rw [hnone] at hfile
      cases hfile
    · exact hremovals u q (hinv.deletedRemoving u q hdeleted) hentry
  have hset : Inv { s with fs := s.fs.set .installed n (some (.dir none others)) } := by
    refine hinv.setEntry (r := (.installed, n)) (fun _ _ hne => set_other _ _ hne) ?_ fun a ha p hsource hentry =>
      absurd hentry (hfree a ha p hsource)
    rw [set_self]
    exact True.intro
  refine ⟨rfl, others, hok s.fs rfl, ?_, ⟨⟨fun p => ?_, hin.1.removing⟩, hin.2, others, set_self ..⟩, ?_⟩
  · refine { hset with spots := ?_, unique := ?_, freeOfSkills := ?_, freeOfRemovals := ?_ }
    · intro u p hmem
      rcases List.mem_cons.mp hmem with heq | hmem
      · exact ⟨n, (Prod.mk.inj heq).2⟩
      · exact hinv.spots u p hmem
    · intro u v p hu hv
      rcases List.mem_cons.mp hu with hu | hu <;> rcases List.mem_cons.mp hv with hv | hv
      · rw [(Prod.mk.inj hu).1, (Prod.mk.inj hv).1]
      · exact absurd ((Prod.mk.inj hu).2 ▸ hv) (hinstalls v)
      · exact absurd ((Prod.mk.inj hv).2 ▸ hu) (hinstalls u)
      · exact hinv.unique u v p hu hv
    · intro u p hmem a ha q hsource
      rcases List.mem_cons.mp hmem with heq | hmem
      · rw [(Prod.mk.inj heq).2]
        exact hfree a ha q hsource
      · exact hinv.freeOfSkills u p hmem a ha q hsource
    · intro u p v q hmem hremoving
      rcases List.mem_cons.mp hmem with heq | hmem
      · rw [(Prod.mk.inj heq).2]
        exact hremovals v q hremoving
      · exact hinv.freeOfRemovals u p v q hmem hremoving
  · simp [hin.1.pending, eq_comm]
  · refine ⟨fun u hne p => ?_, fun _ _ _ => Iff.rfl, fun _ _ _ => Iff.rfl, fun _ h => .inl h, fun u hne m hmem => ?_⟩
    · simp [hne]
    · refine set_other _ _ fun heq => ?_
      rw [(Prod.mk.inj heq).2] at hmem
      exact hinstalls u hmem

/-- The file is written where only this install is at work. -/
theorem moves_write (hinv : Inv s) (hin : (Phase.made n).In t s) (bytes : List UInt8) :
    ∃ others, s.fs.write .installed n bytes = .ok (s.fs.set .installed n (some (.dir (some (.file bytes)) others))) ∧
      Moves t (.wrote n bytes) s { s with
          fs := s.fs.set .installed n (some (.dir (some (.file bytes)) others))
          written := spot n :: s.written } := by
  obtain ⟨hholding, hfrom, others, he⟩ := hin
  have hmem : (t, spot n) ∈ s.pending := (hholding.pending _).mpr rfl
  have hset : Inv { s with fs := s.fs.set .installed n (some (.dir (some (.file bytes)) others)) } := by
    refine hinv.setEntry (r := (.installed, n)) (fun _ _ hne => set_other _ _ hne) ?_ fun a ha p hsource hentry =>
      absurd hentry (hinv.freeOfSkills t (spot n) hmem a ha p hsource)
    show Plain (Fs.set _ _ _ _ .installed n)
    rw [set_self]
    exact True.intro
  refine ⟨others, write_made he bytes, { hset with written := ?_ }, ⟨⟨hholding.pending, hholding.removing⟩, hfrom, others,
    set_self ..⟩, ?_⟩
  · intro p hp
    rcases List.mem_cons.mp hp with rfl | hp
    · rfl
    · exact hinv.written p hp
  · refine ⟨fun _ _ _ => Iff.rfl, fun _ _ _ => Iff.rfl, fun _ _ _ => Iff.rfl, fun _ h => .inl h, fun u hne m hu => ?_⟩
    refine set_other _ _ fun heq => hne ?_
    rw [(Prod.mk.inj heq).2] at hu
    exact hinv.unique u t (spot n) hu hmem

/-- What a task is no more at work on. -/
theorem released {pairs : List (Nat × Place)} (h : ∀ p, (t, p) ∈ pairs ↔ some q = some p) (p : Place) :
    (t, p) ∈ pairs.filter (· ≠ (t, q)) ↔ none = some p := by
  rw [List.mem_filter, h p]
  constructor
  · rintro ⟨heq, hne⟩
    cases heq
    simp at hne
  · nofun

/-- At its commit the name of an install is free, and its file is what the new skill was loaded from. -/
theorem moves_commitInstall (hinv : Inv s) (hin : (Phase.wrote n bytes).In t s) (hname : skill.name = n)
    (hsource : skill.source = .user (spot n)) : (s.skills.any fun a => a.name = n) = false ∧
      Moves t .done s { s with skills := s.skills ++ [skill], pending := s.pending.filter (· ≠ (t, spot n)) } := by
  obtain ⟨hholding, hfrom, others, he⟩ := hin
  have hmem : (t, spot n) ∈ s.pending := (hholding.pending _).mpr rfl
  have hfree : ∀ a ∈ s.skills, a.name ≠ n := fun a ha heq =>
    hinv.freeOfSkills t (spot n) hmem a ha (spot n) (hfrom a ha heq) rfl
  have hnew : ∀ a ∈ s.skills ++ [skill], a ∈ s.skills ∨ a = skill := fun a ha =>
    (List.mem_append.mp ha).imp id List.mem_singleton.mp
  have hspot : ∀ {p}, skill.source = .user p → p = spot n := by
    intro p hp
    rw [hsource] at hp
    cases hp
    rfl
  have hkept : ∀ u p, (u, p) ∈ s.pending.filter (· ≠ (t, spot n)) → (u, p) ∈ s.pending ∧ p ≠ spot n := by
    intro u p hu
    obtain ⟨hu, hne⟩ := List.mem_filter.mp hu
    refine ⟨hu, ?_⟩
    rintro rfl
    rw [hinv.unique u t _ hu hmem] at hne
    simp at hne
  refine ⟨by simpa using hfree, ?_, ⟨fun p => ?_, hholding.removing⟩, ?_⟩
  · constructor
    case names =>
      refine List.pairwise_append.mpr ⟨hinv.names, List.pairwise_singleton .., fun a ha b hb => ?_⟩
      rw [List.mem_singleton.mp hb, hname]
      exact hfree a ha
    case sources =>
      intro a ha b hb p hap hbp
      rcases hnew a ha with ha' | ha' <;> rcases hnew b hb with hb' | hb'
      · exact hinv.sources a ha' b hb' p hap hbp
      · rw [hb'] at hbp
        exact absurd (by rw [hspot hbp]) (hinv.freeOfSkills t (spot n) hmem a ha' p hap)
      · rw [ha'] at hap
        exact absurd (by rw [hspot hap]) (hinv.freeOfSkills t (spot n) hmem b hb' p hbp)
      · rw [ha', hb']
    case roots =>
      intro a ha
      rcases hnew a ha with ha | rfl
      · exact hinv.roots a ha
      · exact .inr ⟨_, hsource⟩
    case files =>
      intro a ha p hp
      rcases hnew a ha with ha | rfl
      · exact hinv.files a ha p hp
      · rw [hspot hp]
        exact .inl ⟨bytes, md_dir he⟩
    case plain =>
      intro a ha p hp
      rcases hnew a ha with ha | rfl
      · exact hinv.plain a ha p hp
      · rw [hspot hp]
        show Plain (s.fs .installed n)
        rw [he]
        exact True.intro
    case removingPlain => exact hinv.removingPlain
    case deletedRemoving => exact hinv.deletedRemoving
    case spots => exact fun u p hu => hinv.spots u p (hkept u p hu).1
    case unique => exact fun u v p hu hv => hinv.unique u v p (hkept u p hu).1 (hkept v p hv).1
    case freeOfSkills =>
      intro u p hu a ha q hq
      rcases hnew a ha with ha | rfl
      · exact hinv.freeOfSkills u p (hkept u p hu).1 a ha q hq
      · obtain ⟨m, rfl⟩ := hinv.spots u p (hkept u p hu).1
        rw [hspot hq]
        intro heq
        exact (hkept u _ hu).2 (by rw [(Prod.mk.inj heq).2])
    case freeOfRemovals => exact fun u p v q hu hv => hinv.freeOfRemovals u p v q (hkept u p hu).1 hv
    case written => exact hinv.written
  · exact released hholding.pending p
  · refine ⟨fun u hne p => by simp [hne], fun _ _ _ => Iff.rfl, fun _ _ _ => Iff.rfl, fun a ha => ?_, fun _ _ _ _ => rfl⟩
    rcases hnew a ha with ha | rfl
    · exact .inl ha
    · exact .inr ⟨n, hsource, hname, hmem⟩

variable {skills : List LoadedSkill}

/-- Where a removal is validated, the skill of that name is. -/
theorem validateRemoval_ok (h : validateRemoval skills n = .ok p) : ∃ a ∈ skills, a.name = n ∧ a.source = .user p := by
  unfold validateRemoval at h
  split at h
  · cases h
  next a ha =>
    split at h
    next path hsource =>
      cases h
      exact ⟨a, List.mem_of_find?_eq_some ha, by simpa using List.find?_some ha, hsource⟩
    · cases h
    · cases h

theorem moves_validateRemove (hinv : Inv s) (hin : Phase.idle.In t s) (hok : validateRemoval s.skills n = .ok p) :
    Moves t (.removing n p) s { s with removing := (t, p) :: s.removing } := by
  obtain ⟨a, ha, hname, hsource⟩ := validateRemoval_ok hok
  have hidle : Holding t none none s := hin
  refine ⟨{ hinv with removingPlain := ?_, deletedRemoving := ?_, freeOfRemovals := ?_ },
    ⟨⟨hidle.pending, fun q => ?_⟩, fun hdeleted => ?_, fun b hb hq => ?_⟩, ?_⟩
  · intro u q hmem
    rcases List.mem_cons.mp hmem with heq | hmem
    · rw [(Prod.mk.inj heq).2]
      exact hinv.plain a ha p hsource
    · exact hinv.removingPlain u q hmem
  · exact fun u q hmem => List.mem_cons_of_mem _ (hinv.deletedRemoving u q hmem)
  · intro u q v q' hpending hmem
    rcases List.mem_cons.mp hmem with heq | hmem
    · rw [(Prod.mk.inj heq).2]
      exact hinv.freeOfSkills u q hpending a ha p hsource
    · exact hinv.freeOfRemovals u q v q' hpending hmem
  · simp [hidle.removing, eq_comm]
  · have := (hidle.removing p).mp (hinv.deletedRemoving t p hdeleted)
    cases this
  · rw [← hname]
    exact hinv.sources b hb a ha p hq hsource
  · exact ⟨fun _ _ _ => Iff.rfl, fun u hne q => by simp [hne], fun _ _ _ => Iff.rfl, fun _ h => .inl h, fun _ _ _ _ => rfl⟩

/-- The entry of a removal is none that another task writes to. -/
theorem removal_apart (hinv : Inv s) (hmem : (t, p) ∈ s.removing) {u : Nat} (hpending : (u, spot n) ∈ s.pending) :
    (Root.installed, n) ≠ p.entry := fun heq => hinv.freeOfRemovals u (spot n) t p hpending hmem heq.symm

/-- The file of a removal is deleted; the files of other places stay. -/
theorem moves_removeFile (hinv : Inv s) (hin : (Phase.removing n p).In t s) (hfile : s.fs.mdOf p = some (.file bytes))
    (hvacant : Vacant e) : Moves t (.removed n p) s
      { s with fs := s.fs.set p.entry.1 p.entry.2 e, deleted := (t, p) :: s.deleted } := by
  obtain ⟨hholding, -, hnamed⟩ := hin
  have hmem : (t, p) ∈ s.removing := (hholding.removing p).mpr rfl
  have hplain : Plain (s.fs.set p.entry.1 p.entry.2 e p.entry.1 p.entry.2) := by
    rw [set_self]
    exact hvacant.plain
  have hbooks : Inv { s with deleted := (t, p) :: s.deleted } := by
    refine { hinv with files := fun a ha q hq => ?_, deletedRemoving := fun u q hu => ?_ }
    · exact (hinv.files a ha q hq).imp id fun ⟨u, hu⟩ => ⟨u, List.mem_cons_of_mem _ hu⟩
    · rcases List.mem_cons.mp hu with heq | hu
      · rw [(Prod.mk.inj heq).1, (Prod.mk.inj heq).2]
        exact hmem
      · exact hinv.deletedRemoving u q hu
  refine ⟨hbooks.setEntry (r := p.entry) (fun _ _ hne => set_other _ _ hne) hplain ?_,
    ⟨⟨hholding.pending, hholding.removing⟩, List.mem_cons_self .., hnamed⟩, ?_⟩
  · intro a ha q hq hentry content hcontent
    by_cases hpq : p = q
    · exact .inr ⟨t, hpq ▸ List.mem_cons_self ..⟩
    · exact absurd hcontent (mdOf_same_entry hpq hentry.symm hfile content)
  · refine ⟨fun _ _ _ => Iff.rfl, fun _ _ _ => Iff.rfl, fun u hne q => by simp [hne], fun _ h => .inl h,
    fun u _ m hu => ?_⟩
    exact set_other _ _ (removal_apart hinv hmem hu)

theorem moves_removeFile_fails (hinv : Inv s) (hin : (Phase.removing n p).In t s) :
    Moves t .done s { s with removing := s.removing.filter (· ≠ (t, p)) } := by
  obtain ⟨hholding, hdeleted, -⟩ := hin
  have hkept : ∀ u q, (u, q) ∈ s.removing.filter (· ≠ (t, p)) → (u, q) ∈ s.removing :=
    fun u q h => (List.mem_filter.mp h).1
  refine ⟨{ hinv with removingPlain := ?_, deletedRemoving := ?_, freeOfRemovals := ?_ },
    ⟨hholding.pending, fun q => ?_⟩, ?_⟩
  · exact fun u q h => hinv.removingPlain u q (hkept u q h)
  · intro u q hu
    refine List.mem_filter.mpr ⟨hinv.deletedRemoving u q hu, ?_⟩
    have hne : (u, q) ≠ (t, p) := fun heq => hdeleted (heq ▸ hu)
    exact decide_eq_true hne
  · exact fun u q v q' hu hv => hinv.freeOfRemovals u q v q' hu (hkept v q' hv)
  · exact released hholding.removing q
  · exact ⟨fun _ _ _ => Iff.rfl, fun u hne q => by simp [hne], fun _ _ _ => Iff.rfl, fun _ h => .inl h, fun _ _ _ _ => rfl⟩

/-- A directory that is removed held nothing. -/
theorem moves_removeDir (hinv : Inv s) (hin : (Phase.removed n p).In t s) :
    Moves t (.removed n p) s { s with fs := s.fs.removeDir p } := by
  obtain ⟨hholding, hdeleted, hnamed⟩ := hin
  have hmem : (t, p) ∈ s.removing := (hholding.removing p).mpr rfl
  rcases removeDir_eq s.fs p with ⟨others, he, heq⟩ | heq
  · rw [heq s.fs rfl]
    refine ⟨hinv.setEntry (r := p.entry) (fun _ _ hne => set_other _ _ hne) ?_ ?_,
      ⟨⟨hholding.pending, hholding.removing⟩, hdeleted, hnamed⟩, ?_⟩
    · rw [set_self]
      exact True.intro
    · intro a ha q hq hentry content hcontent
      have hnone : s.fs.mdOf q = none := mdOf_vacant (by rw [hentry]; exact .inr ⟨others, he⟩)
      rw [hnone] at hcontent
      cases hcontent
    · refine ⟨fun _ _ _ => Iff.rfl, fun _ _ _ => Iff.rfl, fun _ _ _ => Iff.rfl, fun _ h => .inl h, fun u _ m hu => ?_⟩
      exact set_other _ _ (removal_apart hinv hmem hu)
  · rw [heq s.fs rfl]
    exact Moves.refl hinv ⟨hholding, hdeleted, hnamed⟩

/-- The end of a removal: no skill of the name is left, so none that was loaded from the place. -/
theorem moves_commitRemove (hinv : Inv s) (hin : k.In t s) (hk : k = .removing n p ∨ k = .removed n p)
    (hsub : skills.Sublist s.skills) (hgone : ∀ a ∈ skills, a.name ≠ n) : Moves t .done s
      { s with
        skills
        removing := s.removing.filter (· ≠ (t, p))
        deleted := s.deleted.filter (· ≠ (t, p)) } := by
  have hboth : Holding t none (some p) s ∧ ∀ a ∈ s.skills, a.source = .user p → a.name = n := by
    rcases hk with rfl | rfl
    · exact ⟨hin.1, hin.2.2⟩
    · exact ⟨hin.1, hin.2.2⟩
  obtain ⟨hholding, hnamed⟩ := hboth
  have hold : ∀ a ∈ skills, a ∈ s.skills := fun a ha => hsub.subset ha
  refine ⟨?_, ⟨hholding.pending, fun q => ?_⟩, ?_⟩
  · constructor
    case names => exact hinv.names.sublist hsub
    case sources => exact fun a ha b hb => hinv.sources a (hold a ha) b (hold b hb)
    case roots => exact fun a ha => hinv.roots a (hold a ha)
    case files =>
      intro a ha q hq
      refine (hinv.files a (hold a ha) q hq).imp id fun ⟨u, hu⟩ => ⟨u, List.mem_filter.mpr ⟨hu, ?_⟩⟩
      have hne : (u, q) ≠ (t, p) := by
        intro heq
        rw [(Prod.mk.inj heq).2] at hq
        exact hgone a ha (hnamed a (hold a ha) hq)
      exact decide_eq_true hne
    case plain => exact fun a ha => hinv.plain a (hold a ha)
    case removingPlain => exact fun u q h => hinv.removingPlain u q (List.mem_filter.mp h).1
    case deletedRemoving =>
      intro u q hu
      obtain ⟨hu, hne⟩ := List.mem_filter.mp hu
      exact List.mem_filter.mpr ⟨hinv.deletedRemoving u q hu, hne⟩
    case spots => exact hinv.spots
    case unique => exact hinv.unique
    case freeOfSkills => exact fun u q hu a ha => hinv.freeOfSkills u q hu a (hold a ha)
    case freeOfRemovals => exact fun u q v q' hu hv => hinv.freeOfRemovals u q v q' hu (List.mem_filter.mp hv).1
    case written => exact hinv.written
  · exact released hholding.removing q
  · exact ⟨fun _ _ _ => Iff.rfl, fun u hne q => by simp [hne], fun u hne q => by simp [hne], fun a h => .inl (hold a h),
      fun _ _ _ _ => rfl⟩

/-- With names that differ, none is left where the first one is erased. -/
theorem name_gone (hnames : skills.Pairwise fun a b => a.name ≠ b.name) (n : String) :
    ∀ a ∈ skills.eraseP (fun a => a.name = n), a.name ≠ n := by
  induction skills with
  | nil => exact fun a ha => absurd ha List.not_mem_nil
  | cons b skills ih =>
    obtain ⟨hb, hrest⟩ := List.pairwise_cons.mp hnames
    intro a ha
    by_cases hn : b.name = n
    · rw [List.eraseP_cons_of_pos (by simpa using hn)] at ha
      exact fun heq => hb a ha (hn.trans heq.symm)
    · rw [List.eraseP_cons_of_neg (by simpa using hn)] at ha
      rcases List.mem_cons.mp ha with rfl | ha
      · exact hn
      · exact ih hrest a ha

theorem moves_endRemoval (hinv : Inv s) (hin : k.In t s) (hk : k = .removing n p ∨ k = .removed n p)
    {a : Except SkillRegistryError Unit} (hop : perform t (.commitRemove n p) env s = some (a, s')) :
    Moves t .done s s' := by
  simp only [perform] at hop
  split at hop
  · cases hop
    exact moves_commitRemove hinv hin hk List.eraseP_sublist (name_gone hinv.names n)
  next hnone =>
    cases hop
    refine moves_commitRemove hinv hin hk (List.Sublist.refl _) fun a ha hname => hnone ?_
    exact List.any_eq_true.mpr ⟨a, ha, decide_eq_true hname⟩

/-- **One operation** of a call in a phase: the answers there can be, and the phase after it. -/
theorem moves_perform {a : Ans o} (hinv : Inv s) (hin : k.In t s) (hpre : k.Pre o) (horderly : Orderly t o env s)
    (hop : perform t o env s = some (a, s')) : k.Can o a ∧ Moves t (k.next o a) s s' := by
  cases k with
  | idle =>
    cases o with
    | has name =>
      cases hop
      refine ⟨True.intro, ?_⟩
      by_cases hfound : (s.skills.any fun skill => skill.name = name) = true
      · have hnext : Phase.next .idle (.has name) (s.skills.any fun skill => skill.name = name) = .idle := if_pos hfound
        rw [hnext]
        exact Moves.refl hinv hin
      · have hnext : Phase.next .idle (.has name) (s.skills.any fun skill => skill.name = name) = .checked name :=
          if_neg hfound
        rw [hnext]
        refine Moves.refl hinv ⟨hin, fun a ha hname => absurd ?_ hfound⟩
        exact List.any_eq_true.mpr ⟨a, ha, decide_eq_true hname⟩
    | validateRemove name =>
      simp only [perform] at hop
      split at hop
      · cases hop
        exact ⟨True.intro, Moves.refl hinv hin⟩
      next p hok =>
        cases hop
        exact ⟨True.intro, moves_validateRemove hinv hin hok⟩
    | _ => exact hpre.elim
  | checked n =>
    cases o with
    | createDirAll root name =>
      obtain rfl : name = n := hpre
      obtain ⟨rfl, others, hok, hmoves⟩ := moves_createDirAll hinv hin horderly
      simp only [perform, hok] at hop
      cases hop
      exact ⟨⟨rfl, rfl⟩, hmoves⟩
    | _ => exact hpre.elim
  | made n =>
    cases o with
    | write root name bytes =>
      obtain ⟨rfl, rfl⟩ := hpre
      obtain ⟨others, hok, hmoves⟩ := moves_write hinv hin bytes
      simp only [perform, hok] at hop
      cases hop
      exact ⟨rfl, hmoves⟩
    | _ => exact hpre.elim
  | wrote n bytes =>
    obtain ⟨others, he⟩ := hin.2.2
    cases o with
    | lstat p =>
      obtain rfl : p = spot n := hpre
      cases hop
      exact ⟨lstat_file he, Moves.refl hinv hin⟩
    | read p =>
      obtain rfl : p = spot n := hpre
      cases hop
      exact ⟨read_file he, Moves.refl hinv hin⟩
    | checkRequirements requirements =>
      cases hop
      exact ⟨horderly, Moves.refl hinv hin⟩
    | commitInstall name skill =>
      obtain ⟨rfl, hname, hsource⟩ := hpre
      obtain ⟨hfree, hmoves⟩ := moves_commitInstall hinv hin hname hsource
      have hpath : skill.source.path = spot name := by rw [hsource]; rfl
      simp only [perform, hfree, hpath] at hop
      cases hop
      exact ⟨rfl, hmoves⟩
    | _ => exact hpre.elim
  | removing n p =>
    have hplain := hinv.removingPlain t p ((hin.1.removing p).mpr rfl)
    cases o with
    | tryExists q =>
      obtain rfl : q = p := hpre
      cases hop
      exact ⟨True.intro, Moves.refl hinv hin⟩
    | removeFile q =>
      obtain rfl : q = p := hpre
      rcases removeFile_eq hplain with ⟨bytes, e, hfile, hvacant, hok⟩ | ⟨err, herr⟩
      · simp only [perform, hok s.fs rfl] at hop
        cases hop
        exact ⟨True.intro, moves_removeFile hinv hin hfile hvacant⟩
      · simp only [perform, herr s.fs rfl] at hop
        cases hop
        exact ⟨True.intro, moves_removeFile_fails hinv hin⟩
    | commitRemove name q =>
      obtain ⟨rfl, rfl⟩ := hpre
      exact ⟨True.intro, moves_endRemoval hinv hin (.inl rfl) hop⟩
    | _ => exact hpre.elim
  | removed n p =>
    cases o with
    | removeDir q =>
      obtain rfl : q = p := hpre
      cases hop
      exact ⟨True.intro, moves_removeDir hinv hin⟩
    | commitRemove name q =>
      obtain ⟨rfl, rfl⟩ := hpre
      exact ⟨True.intro, moves_endRemoval hinv hin (.inr rfl) hop⟩
    | _ => exact hpre.elim
  | done => cases o <;> exact hpre.elim

theorem installing_sound : (installing dirs yaml).Sound where
  own hinv hin hpre horderly hop :=
    have h := moves_perform hinv hin hpre horderly hop
    ⟨h.1, h.2.inv, h.2.phase⟩
  others hne hinv hin hpre horderly hop hu := (moves_perform hinv hin hpre horderly hop).2.frame.stays hinv hne hu

/-! ## Without one of the installs -/

/-- The states with and without a task that is at work on this name, if any: nothing it did is there. -/
structure Without (own : Option String) (s s' : Shared) : Prop where
  skills : s'.skills = s.skills
  fs : ∀ r : Root × String, (∀ n, own = some n → r ≠ (.installed, n)) → s'.fs r.1 r.2 = s.fs r.1 r.2
  vacant : ∀ n, own = some n → Vacant (s'.fs .installed n)

/-- What relates the states with and without an install that may still fail. -/
def Phase.Rel : Phase → Shared → Shared → Prop
  | .idle, s, s' => Without none s s'
  | .checked _, s, s' => Without none s s'
  | .made n, s, s' => Without (some n) s s'
  | .wrote n _, s, s' => Without (some n) s s'
  | _, _, _ => False

/-- The calls that are no failing install. -/
def Phase.Exit (yaml : Yaml) : Phase → Prop
  | .wrote _ bytes => Readable yaml bytes
  | .removing _ _ => True
  | .removed _ _ => True
  | .done => True
  | _ => False

theorem exit_next {a : Ans o} (h : k.Exit yaml) (hpre : k.Pre o) : (k.next o a).Exit yaml := by
  cases k with
  | wrote n bytes =>
    cases o with
    | lstat p => exact h
    | read p => exact h
    | checkRequirements requirements => exact h
    | commitInstall name skill => exact True.intro
    | _ => exact hpre.elim
  | removing n p =>
    cases o with
    | tryExists q => exact True.intro
    | removeFile q => cases a <;> exact True.intro
    | commitRemove name q => exact True.intro
    | _ => exact hpre.elim
  | removed n p =>
    cases o with
    | removeDir q => exact True.intro
    | commitRemove name q => exact True.intro
    | _ => exact hpre.elim
  | idle => exact h.elim
  | checked n => exact h.elim
  | made n => exact h.elim
  | done => cases o <;> exact hpre.elim

variable {s₂ : Shared}

/-- Its own operations keep an install apart from the state without it, until it commits. -/
theorem rel_own {a : Ans o} (hinv : Inv s) (hin : k.In t s) (hpre : k.Pre o) (horderly : Orderly t o env s)
    (hop : perform t o env s = some (a, s')) (hrel : k.Rel s s₂) : (k.next o a).Rel s' s₂ ∨ (k.next o a).Exit yaml := by
  cases k with
  | idle =>
    cases o with
    | has name =>
      cases hop
      refine .inl ?_
      simp only [Phase.next]
      split <;> exact hrel
    | validateRemove name => cases a <;> exact .inr True.intro
    | _ => exact hpre.elim
  | checked n =>
    cases o with
    | createDirAll root name =>
      obtain rfl : name = n := hpre
      have hvacant : Vacant (s.fs .installed name) := horderly.2.1
      obtain ⟨rfl, others, hok, -⟩ := moves_createDirAll hinv hin horderly
      simp only [perform, hok] at hop
      cases hop
      refine .inl ⟨hrel.skills, fun r hr => ?_, fun m hm => ?_⟩
      · exact (hrel.fs r nofun).trans (set_other s.fs _ (hr name rfl)).symm
      · cases hm
        rw [hrel.fs (.installed, name) nofun]
        exact hvacant
    | _ => exact hpre.elim
  | made n =>
    cases o with
    | write root name bytes =>
      obtain ⟨rfl, rfl⟩ := hpre
      obtain ⟨others, hok, -⟩ := moves_write hinv hin bytes
      simp only [perform, hok] at hop
      cases hop
      refine .inl ⟨hrel.skills, fun r hr => ?_, hrel.vacant⟩
      exact (hrel.fs r hr).trans (set_other s.fs _ (hr name rfl)).symm
    | _ => exact hpre.elim
  | wrote n bytes =>
    cases o with
    | lstat p =>
      cases hop
      exact .inl hrel
    | read p =>
      cases hop
      exact .inl hrel
    | checkRequirements requirements =>
      cases hop
      exact .inl hrel
    | commitInstall name skill => exact .inr True.intro
    | _ => exact hpre.elim
  | removing n p => exact hrel.elim
  | removed n p => exact hrel.elim
  | done => exact hrel.elim

variable {own : Option String}

/-- An entry that is changed likewise in both states. -/
theorem Without.set (h : Without own s s') {r : Root × String} (hr : ∀ n, own = some n → r ≠ (.installed, n))
    (e : Option Entry) {s₁ : Shared} (hskills : s₁.skills = s.skills) (hskills' : s₂.skills = s'.skills)
    (hfs : s₁.fs = s.fs.set r.1 r.2 e) (hfs' : s₂.fs = s'.fs.set r.1 r.2 e) : Without own s₁ s₂ where
  skills := by rw [hskills, hskills', h.skills]
  fs r' hr' := by
    rw [hfs, hfs']
    by_cases heq : r' = r
    · rw [heq, set_self, set_self]
    · rw [set_other _ _ heq, set_other _ _ heq]
      exact h.fs r' hr'
  vacant n hn := by
    rw [hfs', set_other _ _ (Ne.symm (hr n hn))]
    exact h.vacant n hn

theorem commitRemove_without {a : Except SkillRegistryError Unit}
    (hop : perform u (.commitRemove n p) env s = some (a, s'))
    (hrel : Without own s s₂) : ∃ s₂', perform u (.commitRemove n p) env s₂ = some (a, s₂') ∧ Without own s' s₂' := by
  simp only [perform, hrel.skills] at hop ⊢
  by_cases hfound : (s.skills.any fun skill => skill.name = n) = true
  · rw [if_pos hfound] at hop ⊢
    cases hop
    exact ⟨_, rfl, rfl, hrel.fs, hrel.vacant⟩
  · rw [if_neg hfound] at hop ⊢
    cases hop
    exact ⟨_, rfl, rfl, hrel.fs, hrel.vacant⟩

/-- The other operations get the same answers without the install. -/
theorem perform_without {ku : Phase} {a : Ans o} (hne : u ≠ t) (hinv : Inv s)
    (hown : ∀ n, own = some n → (t, spot n) ∈ s.pending) (hin : ku.In u s) (hpre : ku.Pre o) (horderly : Orderly u o env s)
    (hop : perform u o env s = some (a, s')) (hrel : Without own s s₂) :
    ∃ s₂', perform u o env s₂ = some (a, s₂') ∧ Without own s' s₂' := by
  -- no other task has the directory of the install pending, nor removes what is in it
  have hspot : ∀ {m}, (u, spot m) ∈ s.pending → ∀ n, own = some n →
    ((Root.installed, m) : Root × String) ≠ (.installed, n) := by
    intro m hm n hn heq
    obtain rfl := (Prod.mk.inj heq).2
    exact hne (hinv.unique u t (spot m) hm (hown m hn))
  have hplace : ∀ {p}, (u, p) ∈ s.removing → ∀ n, own = some n → p.entry ≠ (.installed, n) :=
    fun hp n hn => hinv.freeOfRemovals t (spot n) u _ (hown n hn) hp
  cases ku with
  | idle =>
    cases o with
    | has name =>
      cases hop
      exact ⟨s₂, by simp only [perform, hrel.skills], hrel⟩
    | validateRemove name =>
      simp only [perform, hrel.skills] at hop ⊢
      split at hop
      · cases hop
        exact ⟨s₂, rfl, hrel⟩
      · cases hop
        exact ⟨_, rfl, rfl, hrel.fs, hrel.vacant⟩
    | _ => exact hpre.elim
  | checked m =>
    cases o with
    | createDirAll root name =>
      obtain rfl : name = m := hpre
      obtain ⟨rfl, hvacant, -, hinstalls⟩ := horderly
      have hr : ∀ n, own = some n → ((Root.installed, name) : Root × String) ≠ (.installed, n) := by
        intro n hn heq
        obtain rfl := (Prod.mk.inj heq).2
        exact hinstalls t (hown name hn)
      obtain ⟨others, hok⟩ := createDirAll_vacant hvacant
      simp only [perform, hok s.fs rfl] at hop
      cases hop
      simp only [perform, hok s₂.fs (hrel.fs (.installed, name) hr)]
      exact ⟨_, rfl, hrel.set hr _ rfl rfl rfl rfl⟩
    | _ => exact hpre.elim
  | made m =>
    cases o with
    | write root name bytes =>
      obtain ⟨rfl, rfl⟩ := hpre
      obtain ⟨hholding, -, others, he⟩ := hin
      have hr := hspot ((hholding.pending _).mpr rfl)
      simp only [perform, write_made he] at hop
      cases hop
      simp only [perform, write_made ((hrel.fs (.installed, name) hr).trans he)]
      exact ⟨_, rfl, hrel.set hr _ rfl rfl rfl rfl⟩
    | _ => exact hpre.elim
  | wrote m bytes =>
    obtain ⟨hholding, -, others, he⟩ := hin
    have hr := hspot ((hholding.pending _).mpr rfl)
    have he₂ : s₂.fs .installed m = some (.dir (some (.file bytes)) others) := (hrel.fs (.installed, m) hr).trans he
    cases o with
    | lstat p =>
      obtain rfl : p = spot m := hpre
      cases hop
      refine ⟨s₂, ?_, hrel⟩
      simp only [perform, spot, lstat_file he, lstat_file he₂]
    | read p =>
      obtain rfl : p = spot m := hpre
      cases hop
      refine ⟨s₂, ?_, hrel⟩
      simp only [perform, spot, read_file he, read_file he₂]
    | checkRequirements requirements =>
      cases hop
      exact ⟨s₂, rfl, hrel⟩
    | commitInstall name skill =>
      simp only [perform, hrel.skills] at hop ⊢
      by_cases hfound : (s.skills.any fun skill => skill.name = name) = true
      · rw [if_pos hfound] at hop ⊢
        cases hop
        exact ⟨s₂, rfl, hrel⟩
      · rw [if_neg hfound] at hop ⊢
        cases hop
        exact ⟨_, rfl, rfl, hrel.fs, hrel.vacant⟩
    | _ => exact hpre.elim
  | removing m p =>
    have hmem : (u, p) ∈ s.removing := (hin.1.removing p).mpr rfl
    have hr := hplace hmem
    have hsame := hrel.fs p.entry hr
    cases o with
    | tryExists q =>
      obtain rfl : q = p := hpre
      cases hop
      refine ⟨s₂, ?_, hrel⟩
      simp only [perform, exists_congr (hinv.removingPlain u q hmem) hsame]
    | removeFile q =>
      obtain rfl : q = p := hpre
      rcases removeFile_eq (hinv.removingPlain u q hmem) with ⟨-, e, -, -, hok⟩ | ⟨err, herr⟩
      · simp only [perform, hok s.fs rfl] at hop
        cases hop
        simp only [perform, hok s₂.fs hsame]
        exact ⟨_, rfl, hrel.set hr e rfl rfl rfl rfl⟩
      · simp only [perform, herr s.fs rfl] at hop
        cases hop
        simp only [perform, herr s₂.fs hsame]
        exact ⟨_, rfl, hrel.skills, hrel.fs, hrel.vacant⟩
    | commitRemove name q => exact commitRemove_without hop hrel
    | _ => exact hpre.elim
  | removed m p =>
    have hmem : (u, p) ∈ s.removing := (hin.1.removing p).mpr rfl
    have hr := hplace hmem
    cases o with
    | removeDir q =>
      obtain rfl : q = p := hpre
      cases hop
      have hsame := hrel.fs q.entry hr
      rcases removeDir_eq s.fs q with ⟨-, -, heq⟩ | heq
      · exact ⟨_, rfl, hrel.set hr none rfl rfl (heq s.fs rfl) (heq s₂.fs hsame)⟩
      · refine ⟨_, rfl, hrel.skills, ?_, ?_⟩
        · rw [heq s.fs rfl, heq s₂.fs hsame]
          exact hrel.fs
        · rw [heq s₂.fs hsame]
          exact hrel.vacant
    | commitRemove name q => exact commitRemove_without hop hrel
    | _ => exact hpre.elim
  | done => cases o <;> exact hpre.elim

/-! ## What a reload finds -/

/-- What the bytes of a file are loaded as. -/
def loadBytes (yaml : Yaml) (env : Environment) (path : String) (bytes : List UInt8) (trust : SkillTrust)
    (source : SkillSource) : Option LoadedSkill :=
  match parseSkillFile yaml path bytes with
  | .error _ => none
  | .ok parsed => if gate env parsed ≠ [] then none else (finishLoad parsed trust source).toOption

theorem loadBytes_eq {a : LoadedSkill} (h : loadBytes yaml env path bytes trust source = some a) :
    a.trust = trust ∧ a.source = source := by
  simp only [loadBytes] at h
  split at h
  · cases h
  · split at h
    · cases h
    next parsed _ _ =>
      cases hfinish : finishLoad parsed trust source with
      | error e =>
        rw [hfinish] at h
        cases h
      | ok skill =>
        rw [hfinish] at h
        cases h
        rw [finishLoad_eq hfinish]
        exact ⟨rfl, rfl⟩

/-- What cannot be read is not loaded. -/
theorem loadBytes_unreadable (h : ¬Readable yaml bytes) : loadBytes yaml env path bytes trust source = none := by
  cases hload : loadBytes yaml env path bytes trust source with
  | none => rfl
  | some a =>
    simp only [loadBytes] at hload
    split at hload
    · cases hload
    next parsed hparsed =>
      split at hload
      · cases hload
      · cases hfinish : finishLoad parsed trust source with
        | error e =>
          rw [hfinish] at hload
          cases hload
        | ok skill => exact absurd (readable_of hparsed hfinish) h

section Discovery

variable (dirs : Dirs) (yaml : Yaml) (env : Environment) (trust : SkillTrust) (makeSource : Place → SkillSource)
    (root : Root)

/-- The skill an entry of a directory is loaded as. -/
def skillOf (name : String) : Option Entry → Option LoadedSkill
  | some (.dir (some (.file bytes)) _) =>
    loadBytes yaml env (dirs.mdText (.sub root name)) bytes trust (makeSource (.sub root name))
  | some (.file bytes) =>
    if name = SKILL_MD then loadBytes yaml env (dirs.mdText (.flat root)) bytes trust (makeSource (.flat root)) else none
  | _ => none

/-- Entries that may count towards the limit. -/
def counts (name : String) : Option Entry → Bool
  | some (.dir (some _) _) => true
  | some (.file _) => name = SKILL_MD
  | _ => false

variable {dirs yaml env trust makeSource root}

theorem skillOf_of_not_counts {e : Option Entry} (h : counts name e = false) :
    skillOf dirs yaml env trust makeSource root name e = none := by
  cases e with
  | none => rfl
  | some e =>
    cases e with
    | file bytes => exact if_neg (by simpa [counts] using h)
    | link root' name' => rfl
    | dir md others =>
      cases md with
      | none => rfl
      | some md => cases h

theorem toOption_load (p : Place) (source : SkillSource) (hlstat : fs.lstat p = .ok false)
    (hread : fs.read p = .ok bytes) :
    (loadAndValidateSkill dirs yaml env fs p trust source).toOption =
      loadBytes yaml env (dirs.mdText p) bytes trust source := by
  simp only [loadAndValidateSkill, hlstat, hread, loadBytes]
  cases parseSkillFile yaml (dirs.mdText p) bytes with
  | error e => rfl
  | ok parsed =>
    dsimp only
    split <;> rfl

/-- The directory of a skill is loaded as what its `SKILL.md` says. -/
theorem load_dir {md : Option Md} {others : Bool} (h : fs root name = some (.dir md others)) :
    (loadAndValidateSkill dirs yaml env fs (.sub root name) trust (makeSource (.sub root name))).toOption =
      skillOf dirs yaml env trust makeSource root name (fs root name) := by
  rw [h]
  cases md with
  | none => simp only [loadAndValidateSkill, Fs.lstat, MAX_LINKS, dirAt_dir h, md_dir h]; rfl
  | some md =>
    cases md with
    | file bytes => exact toOption_load _ _ (lstat_file h) (read_file h)
    | link root' name' => simp only [loadAndValidateSkill, Fs.lstat, MAX_LINKS, dirAt_dir h, md_dir h]; rfl
    | dir =>
      simp only [loadAndValidateSkill, Fs.lstat, Fs.read, Fs.fileAt, MAX_LINKS, dirAt_dir h, md_dir h]
      rfl

theorem exists_dir {others : Bool} (h : fs root name = some (.dir none others)) : fs.exists_ (.sub root name) = false := by
  simp only [Fs.exists_, MAX_LINKS, Fs.fileAt, dirAt_dir h, md_dir h]
  rfl

variable (dirs yaml env trust makeSource root) in
/-- One entry in the loop over a directory. -/
theorem discoverLoop_cons (fs : Fs) (name : String) (rest : List String) {count : Nat}
    (hcount : count < MAX_DISCOVERED_SKILLS) :
    ∃ count', count ≤ count' ∧ count' ≤ count + (if counts name (fs root name) then 1 else 0) ∧
      discoverLoop dirs yaml env fs trust makeSource root count (name :: rest) =
        (skillOf dirs yaml env trust makeSource root name (fs root name)).toList ++
          discoverLoop dirs yaml env fs trust makeSource root count' rest := by
  simp only [discoverLoop, if_neg (Nat.not_le.mpr hcount)]
  cases he : fs root name with
  | none => exact ⟨count, le_rfl, Nat.le_add_right .., rfl⟩
  | some e =>
    cases e with
    | link root' name' => exact ⟨count, le_rfl, Nat.le_add_right .., rfl⟩
    | file bytes =>
      by_cases hname : name = SKILL_MD
      · subst hname
        refine ⟨count + 1, Nat.le_succ _, le_rfl, ?_⟩
        have hload : (loadAndValidateSkill dirs yaml env fs (.flat root) trust (makeSource (.flat root))).toOption =
            skillOf dirs yaml env trust makeSource root SKILL_MD (some (.file bytes)) := by
          rw [toOption_load _ _ (by simp only [Fs.lstat, he])
            (by simp only [Fs.read, he] : fs.read (.flat root) = .ok bytes)]
          rfl
        rw [← hload]
        dsimp only
        rw [if_pos rfl]
        cases loadAndValidateSkill dirs yaml env fs (.flat root) trust (makeSource (.flat root)) <;> rfl
      · refine ⟨count, le_rfl, Nat.le_add_right .., ?_⟩
        dsimp only
        rw [if_neg hname, skillOf_of_not_counts (by simpa [counts] using hname)]
        rfl
    | dir md others =>
      have hload : (loadAndValidateSkill dirs yaml env fs (.sub root name) trust (makeSource (.sub root name))).toOption =
          skillOf dirs yaml env trust makeSource root name (some (.dir md others)) := by
        rw [load_dir he, he]
      rw [← hload]
      dsimp only
      cases hexists : fs.exists_ (.sub root name) with
      | true =>
        have hcounts : counts name (some (.dir md others)) = true := by
          cases md with
          | none =>
            rw [exists_dir he] at hexists
            cases hexists
          | some md => rfl
        refine ⟨count + 1, Nat.le_succ _, by rw [hcounts]; exact le_rfl, ?_⟩
        cases loadAndValidateSkill dirs yaml env fs (.sub root name) trust (makeSource (.sub root name)) <;> rfl
      | false =>
        refine ⟨count, le_rfl, Nat.le_add_right .., ?_⟩
        -- What does not exist is not loaded.
        cases md with
        | none =>
          rw [hload]
          rfl
        | some md =>
          cases md with
          | file bytes =>
            simp only [Fs.exists_, MAX_LINKS, Fs.fileAt, dirAt_dir he, md_dir he] at hexists
            cases hexists
          | link root' name' =>
            rw [hload]
            rfl
          | dir =>
            simp only [Fs.exists_, MAX_LINKS, Fs.fileAt, dirAt_dir he, md_dir he] at hexists
            cases hexists

/-- What is discovered in a directory is what one of its entries is loaded as. -/
theorem mem_discoverLoop {names : List String} {count : Nat}
    (h : a ∈ discoverLoop dirs yaml env fs trust makeSource root count names) :
    ∃ name, skillOf dirs yaml env trust makeSource root name (fs root name) = some a := by
  induction names generalizing count with
  | nil => cases h
  | cons name rest ih =>
    by_cases hcount : count < MAX_DISCOVERED_SKILLS
    · obtain ⟨count', -, -, heq⟩ := discoverLoop_cons dirs yaml env trust makeSource root fs name rest hcount
      rw [heq] at h
      rcases List.mem_append.mp h with h | h
      · exact ⟨name, Option.mem_toList.mp h⟩
      · exact ih h
    · simp only [discoverLoop, if_pos (Nat.not_lt.mp hcount)] at h
      cases h

/-- Below the limit everything is discovered. -/
theorem discoverLoop_eq {names : List String} {count : Nat}
    (h : count + names.countP (fun name => counts name (fs root name)) ≤ MAX_DISCOVERED_SKILLS) :
    discoverLoop dirs yaml env fs trust makeSource root count names =
      names.flatMap fun name => (skillOf dirs yaml env trust makeSource root name (fs root name)).toList := by
  induction names generalizing count with
  | nil => rfl
  | cons name rest ih =>
    rw [List.countP_cons] at h
    by_cases hcount : count < MAX_DISCOVERED_SKILLS
    · obtain ⟨count', -, hle, heq⟩ := discoverLoop_cons dirs yaml env trust makeSource root fs name rest hcount
      rw [heq, List.flatMap_cons, ih]
      omega
    · -- Nothing that counts is left.
      have hnone : (name :: rest).flatMap (fun name =>
          (skillOf dirs yaml env trust makeSource root name (fs root name)).toList) = [] := by
        refine List.flatMap_eq_nil_iff.mpr fun m hm => ?_
        rw [skillOf_of_not_counts]
        · rfl
        · have hzero : (name :: rest).countP (fun name => counts name (fs root name)) = 0 := by
            rw [List.countP_cons]
            omega
          exact Bool.not_eq_true _ ▸ List.countP_eq_zero.mp hzero m hm
      rw [hnone]
      simp only [discoverLoop, if_pos (Nat.not_lt.mp hcount)]

end Discovery

/-! ## The registry after discovery -/

theorem mem_addUnseen {rest : List LoadedSkill} (h : a ∈ addUnseen skills rest) : a ∈ skills ∨ a ∈ rest := by
  induction rest generalizing skills with
  | nil => exact .inl h
  | cons b rest ih =>
    simp only [addUnseen] at h
    split at h
    · exact (ih h).imp id (List.mem_cons_of_mem _)
    · rcases ih h with h | h
      · rcases List.mem_append.mp h with h | h
        · exact .inl h
        · exact .inr (List.mem_cons.mpr (.inl (List.mem_singleton.mp h)))
      · exact .inr (List.mem_cons_of_mem _ h)

theorem addUnseen_names {rest : List LoadedSkill} (h : skills.Pairwise fun a b => a.name ≠ b.name) :
    (addUnseen skills rest).Pairwise fun a b => a.name ≠ b.name := by
  induction rest generalizing skills with
  | nil => exact h
  | cons b rest ih =>
    simp only [addUnseen]
    split
    · exact ih h
    next hnew =>
      refine ih (List.pairwise_append.mpr ⟨h, List.pairwise_singleton .., fun a ha c hc heq => hnew ?_⟩)
      rw [List.mem_singleton.mp hc] at heq
      exact List.any_eq_true.mpr ⟨a, ha, decide_eq_true heq⟩

/-- A skill that a reload finds is what an entry is loaded as: of the workspace, of the user, or installed. -/
theorem mem_discoverAll (h : a ∈ discoverAll dirs yaml order env fs) :
    (∃ name, skillOf dirs yaml env .trusted .workspace .workspace name (fs .workspace name) = some a) ∨
    (∃ name, skillOf dirs yaml env .trusted .user .user name (fs .user name) = some a) ∨
    ∃ name, skillOf dirs yaml env .installed .user .installed name (fs .installed name) = some a := by
  rcases mem_addUnseen h with h | h
  · rcases mem_addUnseen h with h | h
    · rcases mem_addUnseen h with h | h
      · cases h
      · split at h
        · exact .inl (mem_discoverLoop h)
        · cases h
    · exact .inr (.inl (mem_discoverLoop h))
  · split at h
    · exact .inr (.inr (mem_discoverLoop h))
    · cases h

variable {makeSource : Place → SkillSource}

/-- Where a skill that was loaded from an entry is, and what is there. -/
theorem skillOf_eq (h : skillOf dirs yaml env trust makeSource root name (fs root name) = some a) :
    a.trust = trust ∧ ∃ p bytes, p.entry = (root, name) ∧ a.source = makeSource p ∧ fs.mdOf p = some (.file bytes) ∧
      Plain (fs root name) ∧ loadBytes yaml env (dirs.mdText p) bytes trust (makeSource p) = some a := by
  cases he : fs root name with
  | none =>
    rw [he] at h
    cases h
  | some e =>
    rw [he] at h
    cases e with
    | link root' name' => cases h
    | file bytes =>
      simp only [skillOf] at h
      split at h
      next hname =>
        subst hname
        obtain ⟨htrust, hsource⟩ := loadBytes_eq h
        exact ⟨htrust, .flat root, bytes, rfl, hsource, by simp only [Fs.mdOf, he], True.intro, h⟩
      next => cases h
    | dir md others =>
      cases md with
      | none => cases h
      | some md =>
        cases md with
        | link root' name' => cases h
        | dir => cases h
        | file bytes =>
          obtain ⟨htrust, hsource⟩ := loadBytes_eq h
          exact ⟨htrust, .sub root name, bytes, rfl, hsource, md_dir he, True.intro, h⟩

/-- The bytes of a place determine the name. -/
theorem loadBytes_name {trust' : SkillTrust} {source' : SkillSource}
    (ha : loadBytes yaml env path bytes trust source = some a)
    (hb : loadBytes yaml env path bytes trust' source' = some b) :
    a.name = b.name := by
  simp only [loadBytes] at ha hb
  split at ha
  · cases ha
  next parsed hparsed =>
    split at ha
    · cases ha
    next hgate =>
      simp only [hparsed, if_neg hgate] at hb
      cases hfinish : finishLoad parsed trust source with
      | error e =>
        rw [hfinish] at ha
        cases ha
      | ok skill =>
        cases hfinish' : finishLoad parsed trust' source' with
        | error e =>
          rw [hfinish'] at hb
          cases hb
        | ok skill' =>
          rw [hfinish] at ha
          rw [hfinish'] at hb
          cases ha
          cases hb
          rw [finishLoad_eq hfinish, finishLoad_eq hfinish']
          rfl

/-- A loaded skill is of the workspace, or can be removed and is what its place says. -/
theorem loaded_from (h : a ∈ discoverAll dirs yaml order env fs) :
    (∃ p, a.source = .workspace p ∧ p.root = .workspace) ∨
    ∃ p bytes trust, a.source = .user p ∧ fs.mdOf p = some (.file bytes) ∧ Plain (fs p.entry.1 p.entry.2) ∧
      loadBytes yaml env (dirs.mdText p) bytes trust (.user p) = some a := by
  rcases mem_discoverAll h with ⟨name, h⟩ | ⟨name, h⟩ | ⟨name, h⟩
  · obtain ⟨-, p, bytes, hentry, hsource, -⟩ := skillOf_eq h
    refine .inl ⟨p, hsource, ?_⟩
    cases p <;> exact (Prod.mk.inj hentry).1
  all_goals
    obtain ⟨-, p, bytes, hentry, hsource, hfile, hplain, hload⟩ := skillOf_eq h
    exact .inr ⟨p, bytes, _, hsource, hfile, by rw [hentry]; exact hplain, hload⟩

theorem inv_loaded : Inv (loaded dirs yaml order env fs) := by
  constructor
  case names => exact addUnseen_names (addUnseen_names (addUnseen_names List.Pairwise.nil))
  case sources =>
    intro a ha b hb p hap hbp
    rcases loaded_from ha with ⟨q, hq, -⟩ | ⟨q, bytes, trust, hq, hfile, -, hload⟩
    · rw [hap] at hq
      cases hq
    rcases loaded_from hb with ⟨q', hq', -⟩ | ⟨q', bytes', trust', hq', hfile', -, hload'⟩
    · rw [hbp] at hq'
      cases hq'
    rw [hap] at hq
    rw [hbp] at hq'
    cases hq
    cases hq'
    rw [hfile] at hfile'
    cases hfile'
    exact loadBytes_name hload hload'
  case roots =>
    intro a ha
    rcases loaded_from ha with ⟨q, hq, hroot⟩ | ⟨q, -, -, hq, -⟩
    · exact .inl ⟨q, hq, hroot⟩
    · exact .inr ⟨q, hq⟩
  case files =>
    intro a ha p hp
    rcases loaded_from ha with ⟨q, hq, -⟩ | ⟨q, bytes, -, hq, hfile, -⟩
    · rw [hp] at hq
      cases hq
    · rw [hp] at hq
      cases hq
      exact .inl ⟨bytes, hfile⟩
  case plain =>
    intro a ha p hp
    rcases loaded_from ha with ⟨q, hq, -⟩ | ⟨q, -, -, hq, -, hplain, -⟩
    · rw [hp] at hq
      cases hq
    · rw [hp] at hq
      cases hq
      exact hplain
  all_goals simp [loaded]

/-! ## Without the install a reload finds the same -/

/-- No directory has more skills than are discovered. -/
def Capped (order : Order) (fs : Fs) : Prop :=
  ∀ root, (order root).countP (fun name => counts name (fs root name)) ≤ MAX_DISCOVERED_SKILLS

/-- Directories that differ in entries that are loaded as nothing list the same. -/
theorem discoverFromDir_congr (hcapped : Capped order fs)
    (hsame : ∀ name, fs' root name = fs root name ∨ (counts name (fs' root name) = false ∧
      skillOf dirs yaml env trust makeSource root name (fs root name) = none)) :
    discoverFromDir dirs yaml order env fs' root trust makeSource =
      discoverFromDir dirs yaml order env fs root trust makeSource := by
  have hcapped' : (order root).countP (fun name => counts name (fs' root name)) ≤ MAX_DISCOVERED_SKILLS := by
    refine le_trans (List.countP_mono_left fun name _ hcounts => ?_) (hcapped root)
    rcases hsame name with heq | ⟨hnot, -⟩
    · rw [← heq]
      exact hcounts
    · rw [hnot] at hcounts
      cases hcounts
  unfold discoverFromDir
  rw [discoverLoop_eq (by simpa using hcapped'), discoverLoop_eq (by simpa using hcapped root)]
  refine List.flatMap_congr fun name _ => ?_
  rcases hsame name with heq | ⟨hnot, hnone⟩
  · rw [heq]
  · rw [hnone, skillOf_of_not_counts hnot]

theorem Vacant.not_counts (h : Vacant e) : counts name e = false := by
  rcases h with rfl | ⟨others, rfl⟩ <;> rfl

/-- Without an install whose file cannot be read, a reload finds the same. -/
theorem discoverAll_without (hwithout : Without own s s')
    (hbad : ∀ n, own = some n → ∃ bytes others, s.fs .installed n = some (.dir (some (.file bytes)) others) ∧
      ¬Readable yaml bytes)
    (hcapped : Capped order s.fs) : discoverAll dirs yaml order env s'.fs = discoverAll dirs yaml order env s.fs := by
  have hdir : ∀ root trust makeSource, discoverFromDir dirs yaml order env s'.fs root trust makeSource =
      discoverFromDir dirs yaml order env s.fs root trust makeSource := by
    intro root trust makeSource
    refine discoverFromDir_congr hcapped fun name => ?_
    by_cases hown : ∃ n, own = some n ∧ (root, name) = (Root.installed, n)
    · obtain ⟨n, hn, heq⟩ := hown
      obtain ⟨rfl, rfl⟩ := Prod.mk.inj heq
      obtain ⟨bytes, others, he, hunreadable⟩ := hbad name hn
      refine .inr ⟨(hwithout.vacant name hn).not_counts, ?_⟩
      rw [he]
      exact loadBytes_unreadable hunreadable
    · exact .inl (hwithout.fs (root, name) fun n hn heq => hown ⟨n, hn, heq⟩)
  simp only [discoverAll, hdir]

/-! ## What installs leave alone -/

def Call.IsInstall : Call → Prop
  | .installSkill _ => True
  | .skillInstall _ => True
  | _ => False

/-- The operations of installs. -/
def Op.Installs : Op → Prop
  | .validateRemove _ => False
  | .tryExists _ => False
  | .removeFile _ => False
  | .removeDir _ => False
  | .commitRemove _ _ => False
  | _ => True

theorem every_loadFromDisk (p : Place) (trust : SkillTrust) (source : SkillSource) :
    (loadFromDisk dirs yaml p trust source).Every Op.Installs := by
  unfold loadFromDisk
  refine (Prog.every_call True.intro).bind fun r => ?_
  rcases r with e | (_ | _)
  · exact Prog.every_ret
  · refine (Prog.every_call True.intro).bind fun r => ?_
    cases r with
    | error e => exact Prog.every_ret
    | ok bytes =>
      dsimp only
      cases parseSkillFile yaml (dirs.mdText p) bytes with
      | error e => exact Prog.every_ret
      | ok parsed =>
        dsimp only
        cases parsed.manifest.requirements with
        | none => exact Prog.every_ret
        | some requirements =>
          refine (Prog.every_call True.intro).bind fun failures => ?_
          split <;> exact Prog.every_ret
  · exact Prog.every_ret

theorem every_installTo (root : Root) (name content : String) :
    (installTo dirs yaml root name content).Every Op.Installs := by
  unfold installTo prepareInstallToDisk
  refine Prog.Every.bind ?_ fun r => ?_
  · refine (Prog.every_call True.intro).bind fun r => ?_
    cases r with
    | error e => exact Prog.every_ret
    | ok u =>
      refine (Prog.every_call True.intro).bind fun r => ?_
      cases r with
      | error e => exact Prog.every_ret
      | ok u => exact every_loadFromDisk _ _ _
  · cases r with
    | error e => exact Prog.every_ret
    | ok skill =>
      refine (Prog.every_call True.intro).bind fun r => ?_
      cases r <;> exact Prog.every_ret

theorem every_body (c : Call) : (body dirs yaml c).Every fun o => c.IsInstall → o.Installs := by
  have hmono : ∀ {α : Type} {p : Prog Op Ans α}, p.Every Op.Installs → p.Every fun o => c.IsInstall → o.Installs := by
    intro α p h
    induction p with
    | ret a => exact Prog.every_ret
    | op o rest ih => exact Prog.every_op (fun _ => h.head) fun a => ih a (h.tail a)
  cases c with
  | installSkill content =>
    refine hmono ?_
    cases hparse : parseSkillMd yaml (normalizeLineEndings content) with
    | error e =>
      obtain ⟨e', heq⟩ : ∃ e', installSkill dirs yaml content = .ret (.error e') := installSkill_error hparse
      show (installSkill dirs yaml content).Every _
      rw [heq]
      exact Prog.every_ret
    | ok first =>
      show (installSkill dirs yaml content).Every _
      rw [installSkill_ok hparse]
      refine (Prog.every_call True.intro).bind fun found => ?_
      split
      · exact Prog.every_ret
      · exact every_installTo _ _ _
  | skillInstall content =>
    refine hmono ?_
    cases content with
    | error e => exact Prog.every_ret
    | ok content =>
      cases hparse : parseSkillMd yaml (normalizeLineEndings content) with
      | error e =>
        show (skillInstall dirs yaml (.ok content)).Every _
        rw [skillInstall_error hparse]
        exact Prog.every_ret
      | ok first =>
        show (skillInstall dirs yaml (.ok content)).Every _
        rw [skillInstall_ok hparse]
        refine (Prog.every_call True.intro).bind fun found => ?_
        split
        · exact Prog.every_ret
        · exact (every_installTo _ _ _).bind fun r => Prog.every_ret
  | removeSkill name => exact Prog.every_of_forall (fun _ h => h.elim) _
  | skillRemove name => exact Prog.every_of_forall (fun _ h => h.elim) _

/-- An operation of an install changes no file of a loaded skill. -/
theorem install_keeps_files {ans : Ans o} (hinv : Inv s) (hin : k.In t s) (hpre : k.Pre o) (horderly : Orderly t o env s)
    (hop : perform t o env s = some (ans, s')) (hinstalls : o.Installs) (ha : a ∈ s.skills) :
    s'.fs.mdOf a.source.path = s.fs.mdOf a.source.path := by
  cases o with
  | createDirAll root name =>
    obtain ⟨rfl, hvacant, -⟩ := horderly
    obtain ⟨others, hok⟩ := createDirAll_vacant hvacant
    simp only [perform, hok s.fs rfl] at hop
    cases hop
    by_cases hentry : a.source.path.entry = (.installed, name)
    · have hbefore : s.fs.mdOf a.source.path = none := mdOf_vacant (by rw [hentry]; exact hvacant)
      have hafter : (s.fs.set .installed name (some (.dir none others))).mdOf a.source.path = none :=
        mdOf_vacant (by rw [hentry]; exact .inr ⟨others, set_self ..⟩)
      exact hafter.trans hbefore.symm
    · exact mdOf_congr (set_other s.fs _ hentry)
  | write root name bytes =>
    cases k with
    | made n =>
      obtain ⟨rfl, rfl⟩ := hpre
      obtain ⟨others, hok, -⟩ := moves_write hinv hin bytes
      simp only [perform, hok] at hop
      cases hop
      refine mdOf_congr (set_other s.fs _ ?_)
      rcases hinv.roots a ha with ⟨p, hsource, hroot⟩ | ⟨p, hsource⟩
      · -- A skill of the workspace is in another directory.
        rw [hsource]
        intro hentry
        have hinstalled : p.entry.1 = .installed := congrArg Prod.fst hentry
        cases p with
        | sub root' name' => cases hroot.symm.trans hinstalled
        | flat root' => cases hroot.symm.trans hinstalled
      · rw [hsource]
        exact hinv.freeOfSkills t (spot name) ((hin.1.pending _).mpr rfl) a ha p hsource
    | _ => exact hpre.elim
  | has name =>
    cases hop
    rfl
  | lstat p =>
    cases hop
    rfl
  | read p =>
    cases hop
    rfl
  | checkRequirements requirements =>
    cases hop
    rfl
  | commitInstall name skill =>
    simp only [perform] at hop
    split at hop <;> cases hop <;> rfl
  | _ => exact hinstalls.elim

/-! ## All runs -/

/-- A step of an install leaves the files of the loaded skills as they are. -/
def Unharmed (C : (machine dirs yaml).Config → (machine dirs yaml).Label → Prop)
    (cfg : (machine dirs yaml).Config) : Prop :=
  ∀ l cfg', C cfg l → (machine dirs yaml).step cfg l = some cfg' →
    (∃ task : (machine dirs yaml).Task, cfg.tasks l.task = some task ∧ Call.IsInstall task.call) →
    ∀ a ∈ cfg.shared.skills, cfg'.shared.fs.mdOf a.source.path = cfg.shared.fs.mdOf a.source.path

/-- An install of a task returned an error. -/
def Failed (t : Nat) (cfg : (machine dirs yaml).Config) : Prop :=
  (∃ content e, cfg.Returned t (.installSkill content) (.error e)) ∨
    ∃ content e, cfg.Returned t (.skillInstall content) (.error e)

/-- After an install that failed everything is as without it: the others can take the same steps, have the same registry
    then, and a reload finds the same skills. -/
def AllOrNothing (s : Shared) (ls : List (machine dirs yaml).Label) (cfg : (machine dirs yaml).Config) : Prop :=
  ∀ t, Failed t cfg → ∃ cfg', Runs (machine dirs yaml).step (fun _ _ => True) ((machine dirs yaml).initial s)
    (Machine.others t ls) cfg' ∧ cfg'.shared.skills = cfg.shared.skills ∧
    ∀ order env, Capped order cfg.shared.fs →
      discoverAll dirs yaml order env cfg'.shared.fs = discoverAll dirs yaml order env cfg.shared.fs

/-- What a reload trusts was not written by an install. -/
def NeverTrusted (cfg : (machine dirs yaml).Config) : Prop :=
  ∀ order env, ∀ a ∈ discoverAll dirs yaml order env cfg.shared.fs, a.trust = .trusted → a.source.path ∉ cfg.shared.written

/-- To the operations of the others the states with and without an install that may still fail are the same. -/
theorem rel_others {ku : Phase} {ans : Ans o} (hne : u ≠ t) (hinv : Inv s) (hin : k.In t s) (hu : ku.In u s)
    (hpre : ku.Pre o) (horderly : Orderly u o env s) (hop : perform u o env s = some (ans, s')) (hrel : k.Rel s s₂) :
    ∃ s₂', perform u o env s₂ = some (ans, s₂') ∧ k.Rel s' s₂' := by
  have hnone : ∀ n, (none : Option String) = some n → (t, spot n) ∈ s.pending := nofun
  cases k with
  | idle => exact perform_without hne hinv hnone hu hpre horderly hop hrel
  | checked n => exact perform_without hne hinv hnone hu hpre horderly hop hrel
  | made n =>
    refine perform_without hne hinv (fun m hm => ?_) hu hpre horderly hop hrel
    cases hm
    exact (hin.1.pending _).mpr rfl
  | wrote n bytes =>
    refine perform_without hne hinv (fun m hm => ?_) hu hpre horderly hop hrel
    cases hm
    exact (hin.1.pending _).mpr rfl
  | removing n p => exact hrel.elim
  | removed n p => exact hrel.elim
  | done => exact hrel.elim

/-- Where a skill is that was loaded from a directory. -/
theorem skillOf_root (hpath : ∀ p, (makeSource p).path = p)
    (h : skillOf dirs yaml env trust makeSource root name (fs root name) = some a) : a.source.path.root = root := by
  obtain ⟨-, p, bytes, hentry, hsource, -⟩ := skillOf_eq h
  rw [hsource, hpath]
  cases p <;> exact (Prod.mk.inj hentry).1

/-- **Installs are all or nothing and keep their trust**, in every state an orderly run comes to. -/
theorem installs_all_or_nothing {ls : List (machine dirs yaml).Label} {cfg : (machine dirs yaml).Config}
    (run : Runs (machine dirs yaml).step ((machine dirs yaml).StepsMeet Orderly)
      ((machine dirs yaml).initial (loaded dirs yaml order env fs)) ls cfg) :
    Unharmed ((machine dirs yaml).StepsMeet Orderly) cfg ∧ AllOrNothing (loaded dirs yaml order env fs) ls cfg ∧
      NeverTrusted cfg := by
  have hsound : (installing dirs yaml).Sound := installing_sound
  have hfirst : ∀ t, (installing dirs yaml).In t (installing dirs yaml).first (loaded dirs yaml order env fs) :=
    fun t => ⟨fun p => by simp [loaded], fun p => by simp [loaded]⟩
  have hallowed : ∀ {cfg : (machine dirs yaml).Config} {t i c o rest},
    (machine dirs yaml).StepsMeet Orderly cfg (.step t i) →
      cfg.tasks t = some ⟨c, .op o rest⟩ → (installing dirs yaml).Allowed t o i cfg.shared :=
    fun hmeets htask => hmeets _ _ _ htask
  have hgood := hsound.run run inv_loaded hfirst follows_body hallowed
  have hinv : Inv cfg.shared := hgood.inv
  -- the three parts in turn; a failed install is left out of the run by `Sound.without`
  refine ⟨fun l cfg' hmeets hstep ⟨task, htask, hinstall⟩ a ha => ?_, fun t hfailed => ?_, fun order env a ha htrust => ?_⟩
  · have hobeys : Machine.Obeys (fun c o => Call.IsInstall c → Op.Installs o) cfg :=
      run.invariant (P := fun _ cfg => Machine.Obeys (fun c o => Call.IsInstall c → Op.Installs o) cfg)
        (by intro _ _ h; cases h)
        fun h _ hstep => Machine.Obeys.step (φ := fun c o => Call.IsInstall c → Op.Installs o) h every_body hstep
    rcases Machine.step_cases hstep with ⟨u, c, rfl, hnone, rfl⟩ | ⟨u, i, c, o, rest, r, s', rfl, hmoving, hop, rfl⟩
    · rfl
    · obtain ⟨k, hat⟩ := hgood.at_ u
      have hsame : task = ⟨c, .op o rest⟩ := Option.some.inj (htask.symm.trans hmoving)
      subst hsame
      exact install_keeps_files hinv hat.1 (hat.pre hmoving) (hmeets _ _ _ hmoving) hop
        ((hobeys u _ hmoving).head hinstall) ha
  · obtain ⟨k, hat, hcases⟩ := hsound.without run inv_loaded hfirst follows_body hallowed t (Phase.Exit yaml) Phase.Rel
      (⟨rfl, fun _ _ => rfl, nofun⟩ : Without none _ _) exit_next
      (fun hinv hin hpre horderly hop hrel => rel_own hinv hin hpre horderly hop hrel)
      (fun hne hinv hin hu hpre horderly hop hrel => rel_others hne hinv hin hu hpre horderly hop hrel)
    have hend : k = .idle ∨ ∃ n bytes, k = .wrote n bytes ∧ ¬Readable yaml bytes := by
      rcases hfailed with ⟨content, e, hret⟩ | ⟨content, e, hret⟩
      · exact hat.fin hret e rfl
      · exact hat.fin hret e rfl
    rcases hend with rfl | ⟨n, bytes, rfl, hunreadable⟩
    · obtain ⟨s', run', hrel⟩ := hcases.resolve_left id
      exact ⟨_, run', Without.skills hrel, fun order env hcapped => discoverAll_without hrel nofun hcapped⟩
    · obtain ⟨s', run', hrel⟩ := hcases.resolve_left hunreadable
      refine ⟨_, run', Without.skills hrel, fun order env hcapped => discoverAll_without hrel ?_ hcapped⟩
      intro m hm
      cases hm
      obtain ⟨others, he⟩ := hat.1.2.2
      exact ⟨bytes, others, he, hunreadable⟩
  · intro hwritten
    have hinstalled := hinv.written _ hwritten
    rcases mem_discoverAll ha with ⟨name, h⟩ | ⟨name, h⟩ | ⟨name, h⟩
    · cases hinstalled.symm.trans (skillOf_root (fun _ => rfl) h)
    · cases hinstalled.symm.trans (skillOf_root (fun _ => rfl) h)
    · rw [(skillOf_eq h).1] at htrust
      cases htrust

/-! ## Runs -/

/-- `Orderly`, computed. -/
def orderly (_ : Nat) (o : Op) (env : Environment) (s : Shared) : Bool :=
  match o with
  | .createDirAll root name =>
    root = .installed &&
      (match s.fs .installed name with
        | none => true
        | some (.dir none _) => true
        | _ => false) &&
      s.removing.all (fun r => r.2.entry ≠ (.installed, name)) && s.pending.all fun r => r.2 ≠ spot name
  | .checkRequirements requirements => checkRequirements env requirements = []
  | _ => true

theorem orderly_sound (t : Nat) (o : Op) (env : Environment) (s : Shared) (h : orderly t o env s = true) :
    Orderly t o env s := by
  cases o with
  | createDirAll root name =>
    simp only [orderly, Bool.and_eq_true, decide_eq_true_eq, List.all_eq_true] at h
    obtain ⟨⟨⟨hroot, hvacant⟩, hremoving⟩, hpending⟩ := h
    refine ⟨hroot, ?_, fun u p hmem => by simpa using hremoving _ hmem, fun u hmem => by simpa using hpending _ hmem⟩
    split at hvacant
    next he => exact .inl he
    next others he => exact .inr ⟨others, he⟩
    next => cases hvacant
  | checkRequirements requirements => simpa [orderly, Orderly] using h
  | _ => exact True.intro

def home : Dirs := { userDir := "~/.ironclaw/skills", installedDir := some "~/.ironclaw/installed_skills" }

/-- What three manifests are read as. -/
def someYaml : Yaml := fun text =>
  if text = "name: foo\n" then .ok { name := "foo" }
  else if text = "name: bar\n" then .ok { name := "bar" }
  else if text = "name: gated\nmetadata:\n  openclaw:\n    requires:\n      env: [TOKEN]\n" then
    .ok { name := "gated", metadata := some { openclaw := some { requires := { env := ["TOKEN"] } } } }
  else .error "unexpected"

def foo : String := "---\nname: foo\n---\nDo it.\n"

def bar : String := "---\nname: bar\n---\nDo that.\n"

def gated : String := "---\nname: gated\nmetadata:\n  openclaw:\n    requires:\n      env: [TOKEN]\n---\nDo it.\n"

/-- Nothing a skill may require is there. -/
def bare : Environment := ⟨fun _ => false, fun _ => false, fun _ => false⟩

/-- All variables are set. -/
def equipped : Environment := ⟨fun _ => false, fun _ => true, fun _ => false⟩

def listing : Order := fun _ => ["foo", "gated"]

def emptyFs : Fs := fun _ _ => none

/-- The skill `bar` is in the directory `foo`. -/
def misnamed : Fs := emptyFs.set .installed "foo" (some (.dir (some (.file (encodeUtf8 bar.toList))) false))

/-- What a task does next, `n` times. -/
def steps (t n : Nat) : List (machine home someYaml).Label := List.replicate n (.step t bare)

/-- The names and the trust of what a reload finds. -/
def found (env : Environment) (fs : Fs) : List (String × SkillTrust) :=
  (discoverAll home someYaml listing env fs).map fun a => (a.name, a.trust)

/-- The task is an install that has failed. -/
def installFailed (t : Nat) (cfg : (machine home someYaml).Config) : Bool :=
  match cfg.tasks t with
  | some ⟨.skillInstall _, .ret (.error _)⟩ => true
  | _ => false

theorem failed_of_installFailed {cfg : (machine home someYaml).Config} (h : installFailed t cfg = true) :
    Failed t cfg := by
  unfold installFailed at h
  split at h
  next content e htask => exact .inr ⟨content, e, htask⟩
  next => cases h

/-- `foo` is installed, and a second install of it is refused. -/
def twoInstalls : List (machine home someYaml).Label :=
  .start 0 (.skillInstall (.ok foo)) :: steps 0 6 ++ .start 1 (.skillInstall (.ok foo)) :: steps 1 1

theorem install_then_reload : ∃ cfg, Runs (machine home someYaml).step ((machine home someYaml).StepsMeet Orderly)
    ((machine home someYaml).initial (loaded home someYaml listing bare emptyFs)) twoInstalls cfg ∧
    found bare cfg.shared.fs = [("foo", .installed)] ∧ Failed 1 cfg ∧
    Unharmed ((machine home someYaml).StepsMeet Orderly) cfg ∧
    AllOrNothing (loaded home someYaml listing bare emptyFs) twoInstalls cfg ∧
    NeverTrusted cfg := by
  have hcomputed : (twoInstalls.foldlM
      (fun cfg l => if Machine.stepsMeet orderly cfg l then (machine home someYaml).step cfg l else none)
      ((machine home someYaml).initial (loaded home someYaml listing bare emptyFs))).map
        (fun cfg => (found bare cfg.shared.fs, installFailed 1 cfg)) = some ([("foo", .installed)], true) := by
    decide +kernel
  obtain ⟨cfg, hls, hseen⟩ := Option.map_eq_some_iff.mp hcomputed
  obtain ⟨hfound, hfailed⟩ := Prod.mk.inj hseen
  have run := Runs.of_checked (C := (machine home someYaml).StepsMeet Orderly) (Machine.stepsMeet_sound orderly_sound) hls
  exact ⟨cfg, run, hfound, failed_of_installFailed hfailed, installs_all_or_nothing run⟩

/-- The first task is an install. -/
def isInstall (cfg : (machine home someYaml).Config) : Bool :=
  (cfg.tasks 0).any fun task => match task.call with | .skillInstall _ => true | _ => false

/-- The directory of a skill need not have its name: an install writes over the file of another skill. A file that fails
    gating stays, and is loaded when the environment has changed. What the convenience method installs is trusted. -/
theorem installs_leave_traces :
    (∃ cfg, Runs (machine home someYaml).step (fun _ _ => True)
      ((machine home someYaml).initial (loaded home someYaml listing bare misnamed))
      (.start 0 (.skillInstall (.ok foo)) :: steps 0 2) cfg ∧ ¬Unharmed (fun _ _ => True) cfg) ∧
    (∃ cfg, Runs (machine home someYaml).step (fun _ _ => True)
      ((machine home someYaml).initial (loaded home someYaml listing bare emptyFs))
      (.start 0 (.skillInstall (.ok gated)) :: steps 0 6) cfg ∧
      ¬AllOrNothing (loaded home someYaml listing bare emptyFs) (.start 0 (.skillInstall (.ok gated)) :: steps 0 6) cfg) ∧
    ∃ cfg, Runs (machine home someYaml).step (fun _ _ => True)
      ((machine home someYaml).initial (loaded home someYaml listing bare emptyFs))
      (.start 0 (.installSkill foo) :: steps 0 6) cfg ∧ ¬NeverTrusted cfg := by
  refine ⟨?_, ?_, ?_⟩
  · have hcomputed : ((.start 0 (.skillInstall (.ok foo)) :: steps 0 2).foldlM (machine home someYaml).step
        ((machine home someYaml).initial (loaded home someYaml listing bare misnamed))).map
          (fun cfg => (cfg.shared.skills.map fun a => a.source.path, cfg.shared.fs.mdOf (spot "foo"),
            ((machine home someYaml).step cfg (.step 0 bare)).map fun cfg => cfg.shared.fs.mdOf (spot "foo"),
            isInstall cfg)) =
          some ([spot "foo"], some (.file (encodeUtf8 bar.toList)),
            some (some (.file (encodeUtf8 foo.toList))), true) := by
      decide +kernel
    obtain ⟨cfg, hls, hseen⟩ := Option.map_eq_some_iff.mp hcomputed
    obtain ⟨hskills, hrest⟩ := Prod.mk.inj hseen
    obtain ⟨hbefore, hrest⟩ := Prod.mk.inj hrest
    obtain ⟨hafter, hcall⟩ := Prod.mk.inj hrest
    obtain ⟨cfg', hstep, hmd⟩ := Option.map_eq_some_iff.mp hafter
    obtain ⟨task, htask, hinstall⟩ := (Option.any_eq_true _ _).mp hcall
    obtain ⟨a, ha, hpath⟩ := List.mem_map.mp (hskills ▸ List.mem_singleton.mpr rfl : spot "foo" ∈ cfg.shared.skills.map _)
    refine ⟨cfg, Runs.of_foldlM hls, fun hunharmed => ?_⟩
    have hsame := hunharmed (.step 0 bare) cfg' True.intro hstep ⟨task, htask, ?_⟩ a ha
    · rw [hpath, hmd, hbefore] at hsame
      revert hsame
      decide
    · split at hinstall
      next hskill =>
        rw [hskill]
        exact True.intro
      next => cases hinstall
  · have hcomputed : ((.start 0 (.skillInstall (.ok gated)) :: steps 0 6).foldlM (machine home someYaml).step
        ((machine home someYaml).initial (loaded home someYaml listing bare emptyFs))).map
          (fun cfg => (installFailed 0 cfg, found equipped cfg.shared.fs)) = some (true, [("gated", .installed)]) := by
      decide +kernel
    obtain ⟨cfg, hls, hseen⟩ := Option.map_eq_some_iff.mp hcomputed
    obtain ⟨hreturned, hfound⟩ := Prod.mk.inj hseen
    refine ⟨cfg, Runs.of_foldlM hls, fun hall => ?_⟩
    obtain ⟨cfg', run', -, hsame⟩ := hall 0 (failed_of_installFailed hreturned)
    -- Without the install nothing happens.
    obtain rfl := run'.eq_of_nil
    have hreload := hsame listing equipped fun root => le_trans (List.countP_le_length ..) (by cases root <;> decide)
    rw [found, ← hreload] at hfound
    revert hfound
    decide
  · have hcomputed : ((.start 0 (.installSkill foo) :: steps 0 6).foldlM (machine home someYaml).step
        ((machine home someYaml).initial (loaded home someYaml listing bare emptyFs))).map
          (fun cfg => ((discoverAll home someYaml listing bare cfg.shared.fs).map fun a => (a.trust, a.source.path),
            cfg.shared.written)) = some ([(.trusted, .sub .user "foo")], [.sub .user "foo"]) := by
      decide +kernel
    obtain ⟨cfg, hls, hseen⟩ := Option.map_eq_some_iff.mp hcomputed
    obtain ⟨hfound, hwritten⟩ := Prod.mk.inj hseen
    have hmem : (SkillTrust.trusted, Place.sub .user "foo") ∈
        (discoverAll home someYaml listing bare cfg.shared.fs).map fun a => (a.trust, a.source.path) := by
      rw [hfound]
      exact List.mem_singleton.mpr rfl
    obtain ⟨a, ha, heq⟩ := List.mem_map.mp hmem
    obtain ⟨htrust, hpath⟩ := Prod.mk.inj heq
    refine ⟨cfg, Runs.of_foldlM hls, fun hnever => hnever listing bare a ha htrust ?_⟩
    rw [hpath, hwritten]
    exact List.mem_singleton.mpr rfl

end Freeclawdia.Skills
