import Freeclawdia.Extensions.Install

/-!
# `Correctness.ExtensionInstall` — whose capabilities an installed module gets

Installing an extension writes its module and its capabilities one after the other, while the archive is still
being read. This module follows both files through the loop and says for which downloads, and for which
content of the directory before the call, the two files belong together afterwards.
-/

namespace Freeclawdia.Extensions

open Rust

/-! ## What an entry of the archive does to the directory -/

/-- The name the loop compares, for an entry that gets so far. -/
def entryName : Except String Entry → Option String
  | .error _ => none
  | .ok entry =>
    if maxEntrySize < entry.size then none
    else
      match entry.path with
      | .error _ => none
      | .ok path => some (Entry.filename path)

/-- The bytes read from an entry. -/
def entryData : Except String Entry → Except String (List UInt8)
  | .error e => .error e
  | .ok entry => entry.readToEnd

/-- The content an entry delivers for a file. -/
def contentFor (file : String) (entry : Except String Entry) : Option (List UInt8) :=
  if entryName entry = some file then (entryData entry).toOption else none

/-- What is left of it in the file. -/
def leftIn (file : String) (step : Step) : Option (List UInt8) :=
  (contentFor file step.1).bind (WriteFault.left step.2)

/-- The entry can be passed: it has a name, and if it is one of the two files, it can be read and written. -/
def Usable (name : String) (step : Step) : Prop :=
  entryName step.1 ≠ none ∧
    ∀ file, file = wasmFile name ∨ file = capsFile name → entryName step.1 = some file →
      ∃ data, entryData step.1 = .ok data ∧ WriteFault.error? step.2 data = none

/-- The two files of an extension are not the same one. -/
theorem wasmFile_ne_capsFile (name : String) : wasmFile name ≠ capsFile name := by
  intro h
  have htext : ".wasm" = ".capabilities.json" := by
    apply String.toList_inj.mp
    have hchars := congrArg String.toList h
    simp only [wasmFile, capsFile, String.toList_append] at hchars
    exact List.append_cancel_left hchars
  exact absurd htext (by decide)

variable (fault : Option WriteFault)

/-- After a write the file holds what was left in it, or what it held before. -/
theorem write_self (path : String) (data : List UInt8) (files : Files) :
    (write fault path data files).1 path = (WriteFault.left fault data).or (files path) := by
  unfold write
  cases WriteFault.left fault data with
  | none => simp
  | some content => simp

/-- A write touches no other file. -/
theorem write_other {path other : String} (h : other ≠ path) (data : List UInt8)
    (files : Files) : (write fault path data files).1 other = files other := by
  unfold write
  cases WriteFault.left fault data with
  | none => simp
  | some content => simp [Function.update_of_ne h]

theorem write_result (path : String) (data : List UInt8) (files : Files) :
    (write fault path data files).2 =
      match WriteFault.error? fault data with
      | none => .ok ()
      | some e => .error e := rfl

/-- The branch both files share: read the entry, then write it under `path`. -/
def saveEntry (entry : Entry) (fault : Option WriteFault) (path : String) (found : Bool) (files : Files) :
    Files × Except ExtensionError Bool :=
  match entry.readToEnd with
  | .error e => (files, .error (.installFailed e))
  | .ok data =>
    match write fault path data files with
    | (files, .error e) => (files, .error (.installFailed e))
    | (files, .ok _) => (files, .ok found)

/-- The loop body, by the name of the entry. -/
theorem extractEntry_eq (name : String) (step : Step) (files : Files) :
    (∃ e, entryName step.1 = none ∧ extractEntry name step files = (files, .error e)) ∨
      ∃ entry file, step.1 = .ok entry ∧ entryName step.1 = some file ∧ extractEntry name step files =
          if file = wasmFile name then saveEntry entry step.2 (wasmFile name) true files
          else if file = capsFile name then saveEntry entry step.2 (capsFile name) false files
          else (files, .ok false) := by
  obtain ⟨entry, fault⟩ := step
  unfold extractEntry entryName saveEntry
  cases entry with
  | error e => exact Or.inl ⟨_, rfl, rfl⟩
  | ok entry =>
    simp only
    by_cases hsize : maxEntrySize < entry.size
    · simp only [hsize, if_true]
      exact Or.inl ⟨_, trivial, rfl⟩
    · simp only [hsize, if_false]
      cases entry.path with
      | error e => exact Or.inl ⟨_, rfl, rfl⟩
      | ok path => exact Or.inr ⟨entry, _, rfl, rfl, rfl⟩

/-- Saving an entry: what the two outcomes leave. -/
theorem saveEntry_cases (entry : Entry) (fault : Option WriteFault) (path : String) (found : Bool) (files : Files) :
    (saveEntry entry fault path found files).1 path =
        (entry.readToEnd.toOption.bind (WriteFault.left fault)).or (files path) ∧
      (∀ other, other ≠ path → (saveEntry entry fault path found files).1 other = files other) ∧
      ((∃ data, entry.readToEnd = .ok data ∧ WriteFault.error? fault data = none) →
        (saveEntry entry fault path found files).2 = .ok found) ∧
      (¬ (∃ data, entry.readToEnd = .ok data ∧ WriteFault.error? fault data = none) →
        ∃ e, (saveEntry entry fault path found files).2 = .error e) := by
  unfold saveEntry
  cases hread : entry.readToEnd with
  | error e => simp [Except.toOption]
  | ok data =>
    have hself := write_self fault path data files
    have hother := fun other (h : other ≠ path) => write_other fault h data files
    have hresult := write_result fault path data files
    rcases hw : write fault path data files with ⟨after, outcome⟩
    rw [hw] at hself hresult
    simp only [hw] at hother
    cases herror : WriteFault.error? fault data with
    | none =>
      rw [herror] at hresult
      obtain rfl : outcome = .ok () := hresult
      simp only [hw]
      refine ⟨by simpa [Except.toOption] using hself, hother, fun _ => trivial, ?_⟩
      intro hnot
      exact absurd ⟨data, rfl, herror⟩ hnot
    | some e =>
      rw [herror] at hresult
      obtain rfl : outcome = .error e := hresult
      simp only [hw]
      refine ⟨by simpa [Except.toOption] using hself, hother, ?_, fun _ => ⟨_, rfl⟩⟩
      rintro ⟨data', hdata, hnone⟩
      obtain rfl : data = data' := Except.ok.inj hdata
      rw [herror] at hnone
      cases hnone

/-- One pass of the loop: each of the two files holds what the entry left in it, and the loop goes on exactly
past usable entries. -/
theorem extractEntry_spec (name : String) (step : Step) (files : Files) :
    (∀ file, file = wasmFile name ∨ file = capsFile name →
        (extractEntry name step files).1 file = (leftIn file step).or (files file)) ∧ (Usable name step →
        (extractEntry name step files).2 = .ok (decide (entryName step.1 = some (wasmFile name)))) ∧
      (¬ Usable name step → ∃ e, (extractEntry name step files).2 = .error e) := by
  rcases extractEntry_eq name step files with ⟨e, hname, heq⟩ | ⟨entry, file, hentry, hname, heq⟩
  · -- the entry fails before its name is compared
    rw [heq]
    refine ⟨?_, fun husable => absurd hname husable.1, fun _ => ⟨e, rfl⟩⟩
    intro file _
    simp [leftIn, contentFor, hname]
  · have hdata : entryData step.1 = entry.readToEnd := by rw [hentry, entryData]
    have hne := wasmFile_ne_capsFile name
    -- what is left in the file the entry is named after, and nothing in the other
    have hleft : leftIn file step = entry.readToEnd.toOption.bind (WriteFault.left step.2) := by
      simp [leftIn, contentFor, hname, hdata]
    have hnone : ∀ other, other ≠ file → leftIn other step = none := by
      intro other hother
      simp [leftIn, contentFor, hname, Ne.symm hother]
    rw [heq]
    by_cases hw : file = wasmFile name
    · obtain ⟨hself, hothers, hgood, hbad⟩ := saveEntry_cases entry step.2 (wasmFile name) true files
      simp only [hw, if_true]
      refine ⟨?_, ?_, ?_⟩
      · intro target htarget
        rcases htarget with rfl | rfl
        · rw [hself, ← hw, hleft]
        · rw [hothers _ (Ne.symm hne), hnone _ (hw ▸ Ne.symm hne)]
          rfl
      · intro husable
        obtain ⟨data, hread, herror⟩ := husable.2 file (Or.inl hw) hname
        rw [hgood ⟨data, hdata ▸ hread, herror⟩, hname, hw]
        simp
      · intro hunusable
        apply hbad
        rintro ⟨data, hread, herror⟩
        apply hunusable
        refine ⟨by simp [hname], ?_⟩
        intro target _ hnamed
        exact ⟨data, hdata ▸ hread, herror⟩
    · by_cases hc : file = capsFile name
      · obtain ⟨hself, hothers, hgood, hbad⟩ := saveEntry_cases entry step.2 (capsFile name) false files
        simp only [hc, Ne.symm hne, if_true, if_false]
        refine ⟨?_, ?_, ?_⟩
        · intro target htarget
          rcases htarget with rfl | rfl
          · rw [hothers _ hne, hnone _ (hc ▸ hne)]
            rfl
          · rw [hself, ← hc, hleft]
        · intro husable
          obtain ⟨data, hread, herror⟩ := husable.2 file (Or.inr hc) hname
          rw [hgood ⟨data, hdata ▸ hread, herror⟩, hname, hc]
          simp [Ne.symm hne]
        · intro hunusable
          apply hbad
          rintro ⟨data, hread, herror⟩
          apply hunusable
          refine ⟨by simp [hname], ?_⟩
          intro target _ hnamed
          exact ⟨data, hdata ▸ hread, herror⟩
      · -- an entry of another name is skipped
        simp only [hw, hc, if_false]
        refine ⟨?_, ?_, ?_⟩
        · intro target htarget
          have hother : target ≠ file := by
            rintro rfl
            exact htarget.elim hw hc
          rw [hnone target hother]
          rfl
        · intro _
          simp [hname, hw]
        · intro hunusable
          exfalso
          apply hunusable
          refine ⟨by simp [hname], ?_⟩
          intro target htarget hnamed
          rw [hname] at hnamed
          obtain rfl := Option.some.inj hnamed
          exact (htarget.elim hw hc).elim

/-! ## The whole archive -/

section Archive

variable (name : String)

open Classical in
/-- The entries the loop comes to: those up to the first it cannot pass, and that one. -/
noncomputable def handled : List Step → List Step
  | [] => []
  | step :: rest => if Usable name step then step :: handled rest else [step]

/-- What the last of some entries that touches a file leaves in it. -/
def lastLeft (file : String) (steps : List Step) : Option (List UInt8) := (steps.filterMap (leftIn file)).getLast?

theorem lastLeft_cons (file : String) (step : Step) (rest : List Step) :
    lastLeft file (step :: rest) = (lastLeft file rest).or (leftIn file step) := by
  unfold lastLeft
  cases h : leftIn file step with
  | none => simp [h]
  | some content =>
    rw [List.filterMap_cons_some h, List.getLast?_cons]
    cases (rest.filterMap (leftIn file)).getLast? with
    | none => rfl
    | some last => rfl

/-- **The loop.** Each of the two files ends up with the last content left in it; the loop gets to the end
exactly over usable entries, and then has found a module if one of them is named after it. -/
theorem extractEntries_spec (steps : List Step) (found : Bool) (files : Files) :
    (∀ file, file = wasmFile name ∨ file = capsFile name →
        (extractEntries name steps found files).1 file = (lastLeft file (handled name steps)).or (files file)) ∧
      ((∀ step ∈ steps, Usable name step) → (extractEntries name steps found files).2 =
          .ok (found || steps.any fun step => decide (entryName step.1 = some (wasmFile name)))) ∧
      (¬ (∀ step ∈ steps, Usable name step) → ∃ e, (extractEntries name steps found files).2 = .error e) := by
  induction steps generalizing found files with
  | nil =>
    refine ⟨?_, ?_, ?_⟩
    · intro file _
      rfl
    · intro _
      simp [extractEntries]
    · intro h
      exact absurd (by simp) h
  | cons step rest ih =>
    obtain ⟨hfiles, hgood, hbad⟩ := extractEntry_spec name step files
    unfold extractEntries
    rcases hstep : extractEntry name step files with ⟨after, outcome⟩
    rw [hstep] at hfiles hgood hbad
    by_cases husable : Usable name step
    · obtain rfl := hgood husable
      obtain ⟨ihFiles, ihGood, ihBad⟩ :=
        ih (found || decide (entryName step.1 = some (wasmFile name))) after
      refine ⟨?_, ?_, ?_⟩
      · intro file htarget
        have hentry : after file = (leftIn file step).or (files file) := hfiles file htarget
        rw [handled, if_pos husable, lastLeft_cons, Option.or_assoc, ← hentry]
        exact ihFiles file htarget
      · intro hall
        rw [ihGood fun s hs => hall s (List.mem_cons_of_mem _ hs), List.any_cons, Bool.or_assoc]
      · intro hnot
        apply ihBad
        intro hrest
        exact hnot (List.forall_mem_cons.mpr ⟨husable, hrest⟩)
    · obtain ⟨e, rfl⟩ := hbad husable
      refine ⟨?_, ?_, fun _ => ⟨e, rfl⟩⟩
      · intro file htarget
        rw [handled, if_neg husable, lastLeft_cons]
        exact hfiles file htarget
      · intro hall
        exact absurd (hall step (List.mem_cons_self)) husable

/-! ## The two files after an install -/

section Install

variable (env : Download) (name url : String) (capabilitiesUrl : Option String)

/-- The bytes of the download, where it brings any. -/
def downloaded : Option (List UInt8) :=
  match env.response with
  | .error _ => none
  | .ok response => response.body.toOption

/-- The contents for a file among the entries of the downloaded archive. -/
def archived (file : String) (bytes : List UInt8) : List (List UInt8) :=
  match env.untar bytes with
  | .error _ => []
  | .ok entries => entries.filterMap (contentFor file)

/-- The modules a download delivers: itself, or the entries of the archive with the module's name. -/
def modulesIn (bytes : List UInt8) : List (List UInt8) :=
  if isGzip bytes then archived env (wasmFile name) bytes else [bytes]

/-- The separate capabilities, when they arrive and the disk takes them. -/
def separateCapabilities : Option (List UInt8) :=
  (fetchCapabilities env capabilitiesUrl).filter fun capsBytes => (WriteFault.error? (env.disk 1) capsBytes).isNone

/-- The capabilities an install delivers: entries of the archive, or the separate file. -/
def capabilitiesIn (bytes : List UInt8) : List (List UInt8) :=
  if isGzip bytes then archived env (capsFile name) bytes else (separateCapabilities env capabilitiesUrl).toList

/-- A failed call leaves both files as they were; after a successful one the module is a module of this
download, and the capabilities are this install's, or none. -/
def InstallsItsOwn (before : Files) : Prop :=
  match downloadAndInstallWasm env name url capabilitiesUrl before with
  | (after, .error _) =>
    after (wasmFile name) = before (wasmFile name) ∧ after (capsFile name) = before (capsFile name)
  | (after, .ok _) =>
    ∃ bytes, downloaded env = some bytes ∧
      (∃ wasm ∈ modulesIn env name bytes, isModule wasm = true ∧ after (wasmFile name) = some wasm) ∧
      ((∃ caps ∈ capabilitiesIn env name capabilitiesUrl bytes, after (capsFile name) = some caps) ∨
        (capabilitiesIn env name capabilitiesUrl bytes = [] ∧ after (capsFile name) = none))

/-- Content left in a file changes nothing there. -/
def Harmless (content before : Option (List UInt8)) : Prop := content = none ∨ content = before

/-- For a bare module: if its write fails, nothing was left of it, or what was there before; if it goes
through, separate capabilities come and are written, or there were none and none were begun. -/
def BareClean (bytes : List UInt8) (before : Files) : Prop :=
  isModule bytes = true →
    if (WriteFault.error? (env.disk 0) bytes).isSome then
      Harmless (WriteFault.left (env.disk 0) bytes) (before (wasmFile name))
    else
      separateCapabilities env capabilitiesUrl ≠ none ∨
        (before (capsFile name) = none ∧
          (fetchCapabilities env capabilitiesUrl).bind (WriteFault.left (env.disk 1)) = none)

/-- For an archive: when an entry cannot be passed, the entries up to it leave nothing new in either file; when
all can, and none is the module, they leave no new capabilities; and otherwise the last module among them is
one, and some entry has capabilities or there were none. -/
def ArchiveClean (steps : List Step) (before : Files) : Prop :=
  ((∀ step ∈ steps, Usable name step) →
    match lastLeft (wasmFile name) steps with
    | none => Harmless (lastLeft (capsFile name) steps) (before (capsFile name))
    | some wasm =>
      isModule wasm = true ∧ (lastLeft (capsFile name) steps ≠ none ∨ before (capsFile name) = none)) ∧
  (¬ (∀ step ∈ steps, Usable name step) →
    Harmless (lastLeft (wasmFile name) (handled name steps)) (before (wasmFile name)) ∧
      Harmless (lastLeft (capsFile name) (handled name steps)) (before (capsFile name)))

/-- What an install needs to keep the two files together. -/
def InstallClean (before : Files) : Prop :=
  ∀ bytes, fetch env url = .ok bytes →
    if isGzip bytes then
      ∀ entries, env.untar bytes = .ok entries → ArchiveClean name (env.steps entries) before
    else BareClean env name capabilitiesUrl bytes before

variable {env name url capabilitiesUrl}

theorem harmless_iff (content before : Option (List UInt8)) : content.or before = before ↔ Harmless content before := by
  cases content with
  | none => simp [Harmless]
  | some c => simp [Harmless]

variable {bytes : List UInt8}

/-- What `fetch` lets through is the body of the response. -/
theorem downloaded_of_fetch (h : fetch env url = .ok bytes) : downloaded env = some bytes := by
  unfold fetch at h
  unfold downloaded
  split at h
  · cases hclient : env.client with
    | error e => simp [hclient] at h
    | ok _ =>
      cases hresponse : env.response with
      | error e => simp [hclient, hresponse] at h
      | ok response =>
        simp only [hclient, hresponse] at h ⊢
        split at h
        · split at h
          · cases h
          · cases hbody : response.body with
            | error e => simp [hbody] at h
            | ok data =>
              simp only [hbody] at h
              split at h
              · cases h
              · cases hdir : env.createDirAll with
                | error e => simp [hdir] at h
                | ok _ =>
                  simp only [hdir] at h
                  rw [Except.ok.inj h]
                  rfl
        · cases h
  · cases h

/-! ### A bare module -/

theorem separateCapabilities_eq_some {capsBytes : List UInt8}
    (h : fetchCapabilities env capabilitiesUrl = some capsBytes) : separateCapabilities env capabilitiesUrl =
      if WriteFault.error? (env.disk 1) capsBytes = none then some capsBytes else none := by
  unfold separateCapabilities
  rw [h]
  cases herror : WriteFault.error? (env.disk 1) capsBytes with
  | none => simp [Option.filter, herror]
  | some e => simp [Option.filter, herror]

theorem bare_iff {before : Files} (hfetch : fetch env url = .ok bytes) (hbare : isGzip bytes = false) :
    InstallsItsOwn env name url capabilitiesUrl before ↔ BareClean env name capabilitiesUrl bytes before := by
  have hdown := downloaded_of_fetch hfetch
  have hne := wasmFile_ne_capsFile name
  unfold InstallsItsOwn BareClean downloadAndInstallWasm installBare
  simp only [hfetch, hbare, Bool.false_eq_true, if_false]
  by_cases hmodule : isModule bytes = true
  · simp only [hmodule, if_true, true_imp_iff]
    have hself := write_self (env.disk 0) (wasmFile name) bytes before
    have hother := write_other (env.disk 0) (Ne.symm hne) bytes before
    have hresult := write_result (env.disk 0) (wasmFile name) bytes before
    rcases hw : write (env.disk 0) (wasmFile name) bytes before with ⟨after, outcome⟩
    rw [hw] at hself hother hresult
    simp only at hself hother hresult
    cases herror : WriteFault.error? (env.disk 0) bytes with
    | some e =>
      -- the module cannot be written: the call fails with whatever is left of it
      rw [herror] at hresult
      obtain rfl : outcome = .error e := hresult
      simp only [hself, hother, harmless_iff, and_true, Option.isSome_some, if_true]
    | none =>
      rw [herror] at hresult
      obtain rfl : outcome = .ok () := hresult
      have hwasm : after (wasmFile name) = some bytes := by
        rw [hself, WriteFault.left_of_error?_none herror]
        rfl
      simp only [Option.isSome_none, Bool.false_eq_true, if_false]
      cases hcaps : fetchCapabilities env capabilitiesUrl with
      | none =>
        -- no separate capabilities: the old ones stay
        have hsep : separateCapabilities env capabilitiesUrl = none := by simp [separateCapabilities, hcaps]
        simp [hdown, modulesIn, capabilitiesIn, hbare, hmodule, hwasm, hsep, hother]
      | some capsBytes =>
        have hsep := separateCapabilities_eq_some hcaps
        have hself' := write_self (env.disk 1) (capsFile name) capsBytes after
        have hother' := write_other (env.disk 1) hne capsBytes after
        simp only [hdown, modulesIn, capabilitiesIn, hbare, Bool.false_eq_true, if_false, hself', hother',
          hwasm, hother, Option.some.injEq, exists_eq_left', List.mem_singleton, hsep]
        cases hfault : WriteFault.error? (env.disk 1) capsBytes with
        | none => simp [hmodule, WriteFault.left_of_error?_none hfault]
        | some e => simp [hmodule, and_comm]
  · simp [hmodule]

/-! ### An archive -/

variable {name : String}

/-- Over usable entries the loop comes to all of them. -/
theorem handled_of_all {steps : List Step} (h : ∀ step ∈ steps, Usable name step) : handled name steps = steps := by
  induction steps with
  | nil => rfl
  | cons step rest ih =>
    obtain ⟨hstep, hrest⟩ := List.forall_mem_cons.mp h
    rw [handled, if_pos hstep, ih hrest]

variable {step : Step} {file : String}

/-- A usable entry leaves its whole content. -/
theorem leftIn_of_usable (h : Usable name step) (hfile : file = wasmFile name ∨ file = capsFile name) :
    leftIn file step = contentFor file step.1 := by
  unfold leftIn contentFor
  by_cases hname : entryName step.1 = some file
  · obtain ⟨data, hdata, herror⟩ := h.2 file hfile hname
    simp [hname, hdata, Except.toOption, WriteFault.left_of_error?_none herror]
  · simp [hname]

/-- A usable entry with the name of one of the files delivers something for it. -/
theorem contentFor_of_usable (h : Usable name step) (hfile : file = wasmFile name ∨ file = capsFile name) :
    (contentFor file step.1).isSome = decide (entryName step.1 = some file) := by
  unfold contentFor
  by_cases hname : entryName step.1 = some file
  · obtain ⟨data, hdata, _⟩ := h.2 file hfile hname
    simp [hname, hdata, Except.toOption]
  · simp [hname]

section Delivered

variable {env : Download} {name : String} {bytes : List UInt8} {entries : List (Except String Entry)}

theorem steps_fst (env : Download) (entries : List (Except String Entry)) :
    (env.steps entries).map Prod.fst = entries := by
  simp [Download.steps, List.map_map, Function.comp_def]

/-- Over usable entries, what is left last in a file is the last content the archive has for it. -/
theorem lastLeft_of_all {file : String} (hentries : env.untar bytes = .ok entries)
    (hall : ∀ step ∈ env.steps entries, Usable name step) (hfile : file = wasmFile name ∨ file = capsFile name) :
    lastLeft file (env.steps entries) = (archived env file bytes).getLast? := by
  have harchived : archived env file bytes = ((env.steps entries).map Prod.fst).filterMap (contentFor file) := by
    rw [steps_fst, archived, hentries]
  rw [harchived, List.filterMap_map, lastLeft]
  congr 1
  apply List.filterMap_congr
  intro step hstep
  exact leftIn_of_usable (hall step hstep) hfile

/-- Over usable entries, the loop has found a module exactly if something is left in its file. -/
theorem found_of_all (steps : List Step) (hall : ∀ step ∈ steps, Usable name step) :
    (steps.any fun step => decide (entryName step.1 = some (wasmFile name))) =
      (lastLeft (wasmFile name) steps).isSome := by
  induction steps with
  | nil => rfl
  | cons step rest ih =>
    obtain ⟨hstep, hrest⟩ := List.forall_mem_cons.mp hall
    rw [List.any_cons, ih hrest, lastLeft_cons, leftIn_of_usable hstep (Or.inl rfl),
      ← contentFor_of_usable hstep (Or.inl rfl)]
    cases lastLeft (wasmFile name) rest with
    | none => simp
    | some content => simp

end Delivered

section Archive

variable {env : Download} {name url : String} {capabilitiesUrl : Option String}

theorem archive_iff {bytes : List UInt8} {before : Files} (hfetch : fetch env url = .ok bytes)
    (hgzip : isGzip bytes = true) : InstallsItsOwn env name url capabilitiesUrl before ↔
      ∀ entries, env.untar bytes = .ok entries → ArchiveClean name (env.steps entries) before := by
  have hdown := downloaded_of_fetch hfetch
  unfold InstallsItsOwn downloadAndInstallWasm extractWasmTarGz
  simp only [hfetch, hgzip, if_true]
  cases hentries : env.untar bytes with
  | error e => simp
  | ok entries =>
    simp only [Except.ok.injEq, forall_eq']
    obtain ⟨hfiles, hgood, hbad⟩ := extractEntries_spec name (env.steps entries) false before
    have hwasm := hfiles (wasmFile name) (Or.inl rfl)
    have hcaps := hfiles (capsFile name) (Or.inr rfl)
    rcases hloop : extractEntries name (env.steps entries) false before with ⟨after, outcome⟩
    rw [hloop] at hwasm hcaps hgood hbad
    simp only at hwasm hcaps hgood hbad
    unfold ArchiveClean
    by_cases hall : ∀ step ∈ env.steps entries, Usable name step
    · have hlast : ∀ file, file = wasmFile name ∨ file = capsFile name →
          lastLeft file (env.steps entries) = (archived env file bytes).getLast? :=
        fun _ hfile => lastLeft_of_all hentries hall hfile
      have hresult := hgood hall
      rw [Bool.false_or, found_of_all _ hall] at hresult
      obtain rfl := hresult
      rw [handled_of_all hall] at hwasm hcaps
      simp only [eq_true hall, true_imp_iff, not_true, false_imp_iff, and_true]
      cases hleft : lastLeft (wasmFile name) (env.steps entries) with
      | none =>
        -- no entry is the module: the call fails, and the capabilities it wrote stay
        rw [hleft] at hwasm
        simp [hwasm, hcaps, harmless_iff]
      | some wasm =>
        have hmem : wasm ∈ archived env (wasmFile name) bytes := by
          rw [hlast _ (Or.inl rfl)] at hleft
          exact List.mem_of_getLast? hleft
        have hafter : after (wasmFile name) = some wasm := by
          rw [hwasm, hleft]
          rfl
        simp only [Option.isSome_some, if_true, hdown, modulesIn, capabilitiesIn, hgzip, hafter,
          Option.some.injEq, exists_eq_left', hcaps]
        have hmodule : (∃ m ∈ archived env (wasmFile name) bytes, isModule m = true ∧ wasm = m) ↔
            isModule wasm = true := by
          constructor
          · rintro ⟨m, _, hm, rfl⟩
            exact hm
          · intro hm
            exact ⟨wasm, hmem, hm, rfl⟩
        rw [hmodule]
        apply and_congr_right
        intro _
        rw [hlast _ (Or.inr rfl)]
        cases hdelivered : (archived env (capsFile name) bytes).getLast? with
        | none => simp [List.getLast?_eq_none_iff.mp hdelivered]
        | some caps =>
          have hin := List.mem_of_getLast? hdelivered
          simp [hin]
    · -- an entry cannot be passed: the call fails with what the entries so far have left
      obtain ⟨e, rfl⟩ := hbad hall
      simp only [eq_false hall, false_imp_iff, not_false_iff, true_imp_iff, true_and, hwasm, hcaps, harmless_iff]

/-- **Own capabilities.** An install keeps a module and its capabilities together exactly when it is clean. -/
theorem downloadAndInstallWasm_own_iff (env : Download) (name url : String) (capabilitiesUrl : Option String)
    (before : Files) :
    InstallsItsOwn env name url capabilitiesUrl before ↔ InstallClean env name url capabilitiesUrl before := by
  cases hfetch : fetch env url with
  | error e => simp [InstallsItsOwn, downloadAndInstallWasm, InstallClean, hfetch]
  | ok bytes =>
    unfold InstallClean
    simp only [hfetch, Except.ok.injEq, forall_eq']
    cases hgzip : isGzip bytes with
    | false => simpa using bare_iff hfetch hgzip
    | true => simpa using archive_iff hfetch hgzip

/-! ### Examples -/

/-- The eight bytes of an empty module, answered without a capabilities file. -/
def emptyModule : Download where
  client := .ok ()
  response := .ok ⟨200, "200 OK", some 8, .ok [0x00, 0x61, 0x73, 0x6d, 0x01, 0x00, 0x00, 0x00]⟩
  createDirAll := .ok ()
  untar := fun _ => .error "not an archive"
  capsResponse := .error "not requested"
  disk := fun _ => none

/-- A directory in which an earlier `weather` tool has left its capabilities. -/
def oldCapabilities : Files := fun file => if file = "weather.capabilities.json" then some [0x7b, 0x7d] else none

/-- Installing a bare module over an earlier extension keeps the earlier one's capabilities: the new module is
loaded with them. -/
theorem old_capabilities_stay :
    fetch emptyModule "https://example.com/weather.wasm" =
        .ok [0x00, 0x61, 0x73, 0x6d, 0x01, 0x00, 0x00, 0x00] ∧
      filesToLoad "weather" (downloadAndInstallWasm emptyModule "weather" "https://example.com/weather.wasm" none
        oldCapabilities).1 = some ([0x00, 0x61, 0x73, 0x6d, 0x01, 0x00, 0x00, 0x00], some [0x7b, 0x7d]) ∧
      ¬ InstallsItsOwn emptyModule "weather" "https://example.com/weather.wasm" none oldCapabilities := by
  have hfetch : fetch emptyModule "https://example.com/weather.wasm" =
      .ok [0x00, 0x61, 0x73, 0x6d, 0x01, 0x00, 0x00, 0x00] := by
    simp [fetch, emptyModule, Response.isSuccess, maxDownloadSize, startsWith, Option.filter]
  have hbare : isGzip [0x00, 0x61, 0x73, 0x6d, 0x01, 0x00, 0x00, 0x00] = false := by decide
  refine ⟨hfetch, ?_, ?_⟩
  · simp only [downloadAndInstallWasm, hfetch, hbare]
    rfl
  · rw [bare_iff hfetch hbare]
    intro hclean
    have h := hclean (by decide)
    simp [emptyModule, WriteFault.error?, separateCapabilities, fetchCapabilities] at h
    revert h
    decide

end Archive
end Install
end Archive
end Freeclawdia.Extensions
