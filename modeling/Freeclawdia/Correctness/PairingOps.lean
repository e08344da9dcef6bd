import Freeclawdia.Pairing.Store

/-!
# `Correctness.PairingOps` — what one file operation can do

The interleaving arguments about the pairing store never look inside `perform`: they use the four facts of
this file. An operation touches one file at most (`files_of_perform`); what is in a file afterwards was there
before or was just written (`items_of_perform`); the history grows by what the operation notes, under the
task's own name (`history_of_perform`); and the clock shows the operation's time.
-/

namespace Freeclawdia.Pairing

open Prog (every_call every_op every_ret)

variable {t t' : Nat} {o : FileOp} {i : Input} {s s' s'' : Disk} {f g : FileId}

/-! ## The disk's updates -/

@[simp] theorem tick_files (s : Disk) (n : Nat) : (s.tick n).files = s.files := rfl

@[simp] theorem tick_clock (s : Disk) (n : Nat) : (s.tick n).clock = n := rfl

@[simp] theorem tick_history (s : Disk) (n : Nat) : (s.tick n).history = s.history := rfl

@[simp] theorem setFile_history (s : Disk) (f : FileId) (st : FileState f.name.Item) :
    (s.setFile f st).history = s.history := rfl

@[simp] theorem setFile_files_self (s : Disk) (f : FileId) (st : FileState f.name.Item) :
    (s.setFile f st).files f = st := by
  simp [Disk.setFile]

theorem setFile_files_of_ne (s : Disk) (st : FileState f.name.Item) (h : g ≠ f) :
    (s.setFile f st).files g = s.files g := by
  simp [Disk.setFile, h]

@[simp] theorem record_files (s : Disk) (t : Nat) (key : String) (note : Option Note) :
    (s.record t key note).files = s.files := by cases note <;> rfl

theorem record_history (s : Disk) (t : Nat) (key : String) (note : Option Note) :
    (s.record t key note).history = s.history ++ (note.map (Event.mk t key s.clock)).toList := by
  cases note with
  | none => simp [Disk.record]
  | some note => rfl

/-! ## Operations -/

/-- The file an operation works on. -/
def FileOp.target : FileOp → Option FileId
  | .createDirAll f => some f
  | .openFile f _ _ _ => some f
  | .lockExclusive f => some f
  | .readToString f => some f
  | .setLenZero f _ => some f
  | .seek f => some f
  | .writeAll f _ _ => some f
  | .syncAll f => some f
  | .unlock f _ => some f
  | .close f => some f
  | .now => none
  | .generateUniqueCode _ => none

/-- What an operation notes when it succeeds. -/
def FileOp.note : FileOp → Option Note
  | .writeAll _ _ note => note
  | .unlock _ note => note
  | _ => none

/-! ## One lemma for each operation -/

theorem Input.outcome_of_fails (h : i.fails = true) : i.outcome = .error .other := by simp [Input.outcome, h]

theorem Input.outcome_of_ok (h : i.fails = false) : i.outcome = .ok () := by simp [Input.outcome, h]

variable {a : Except IoError Unit}

/-- Creating the directory, seeking and syncing change nothing. -/
theorem perform_plain
    (h : perform t (.createDirAll f) i s = some (a, s') ∨ perform t (.seek f) i s = some (a, s') ∨
      perform t (.syncAll f) i s = some (a, s')) :
    a = i.outcome ∧ s' = s.tick i.now := by
  rcases h with h | h | h
  all_goals
    cases h
    exact ⟨rfl, rfl⟩

variable {create truncate : Bool}

theorem perform_openFile {incoming : Option (List f.name.Item)}
    (h : perform t (.openFile f create truncate incoming) i s = some (a, s')) :
    (a = .error .other ∧ i.fails = true ∧ s' = s.tick i.now) ∨
    (a = .error .notFound ∧ s' = s.tick i.now ∧ create = false ∧ (s.files f).text = none) ∨
    (a = .ok () ∧ (create = true ∨ (s.files f).text ≠ none) ∧ s' = (s.tick i.now).setFile f { s.files f with
        text := some (if truncate then [] else s.items f),
        openers := (t, truncate) :: (s.files f).openers,
        incoming := if truncate ∨ (s.files f).text = none then incoming else (s.files f).incoming }) := by
  simp only [perform, performAt] at h
  split at h
  next hfails =>
    rw [Input.outcome_of_fails hfails] at h
    cases h
    exact .inl ⟨rfl, hfails, rfl⟩
  next =>
    simp only [performOpen, tick_files] at h
    split at h
    next hnone =>
      split at h
      next hcreate =>
        cases h
        refine .inr (.inr ⟨rfl, .inl hcreate, ?_⟩)
        simp [Disk.items, hnone]
      next hcreate =>
        cases h
        exact .inr (.inl ⟨rfl, rfl, by simpa using hcreate, hnone⟩)
    next items hsome =>
      cases h
      refine .inr (.inr ⟨rfl, .inr (by simp [hsome]), ?_⟩)
      cases truncate <;> simp [Disk.items, hsome]

theorem perform_lockExclusive (h : perform t (.lockExclusive f) i s = some (a, s')) :
    (a = .error .other ∧ i.fails = true ∧ s' = s.tick i.now) ∨ (a = .ok () ∧ (s.files f).holder = none ∧
      s' = (s.tick i.now).setFile f { s.files f with holder := some t }) := by
  simp only [perform, performAt] at h
  split at h
  next hfails =>
    rw [Input.outcome_of_fails hfails] at h
    cases h
    exact .inl ⟨rfl, hfails, rfl⟩
  next hfails =>
    split at h
    next hfree =>
      rw [Input.outcome_of_ok (by simpa using hfails)] at h
      cases h
      exact .inr ⟨rfl, hfree, rfl⟩
    next => cases h

theorem perform_readToString {a : Except IoError (List f.name.Item)}
    (h : perform t (.readToString f) i s = some (a, s')) : (a = .error .other ∧ i.fails = true ∧ s' = s.tick i.now) ∨
    (a = .error .notFound ∧ (s.files f).text = none ∧ s' = s.tick i.now) ∨
    (∃ items, a = .ok items ∧ (s.files f).text = some items ∧ s' = (s.tick i.now).setFile f { s.files f with
        seen := Function.update (s.files f).seen t (some items) }) := by
  simp only [perform, performAt] at h
  split at h
  next hfails =>
    cases h
    exact .inl ⟨rfl, hfails, rfl⟩
  next =>
    simp only [performRead, tick_files] at h
    split at h
    next hnone =>
      cases h
      exact .inr (.inl ⟨rfl, hnone, rfl⟩)
    next items hsome =>
      cases h
      exact .inr (.inr ⟨items, rfl, hsome, rfl⟩)

theorem perform_setLenZero {incoming : List f.name.Item} (h : perform t (.setLenZero f incoming) i s = some (a, s')) :
    (a = .error .other ∧ i.fails = true ∧ s' = s.tick i.now) ∨
    (a = .ok () ∧ s' = (s.tick i.now).setFile f { s.files f with text := some [], incoming := some incoming }) := by
  simp only [perform, performAt] at h
  split at h
  next hfails =>
    rw [Input.outcome_of_fails hfails] at h
    cases h
    exact .inl ⟨rfl, hfails, rfl⟩
  next hfails =>
    rw [Input.outcome_of_ok (by simpa using hfails)] at h
    cases h
    exact .inr ⟨rfl, rfl⟩

variable {note : Option Note}

theorem perform_writeAll {items : List f.name.Item} (h : perform t (.writeAll f items note) i s = some (a, s')) :
    (a = .error .other ∧ i.fails = true ∧
      s' = (s.tick i.now).setFile f { s.files f with text := some [], incoming := none }) ∨
    (a = .ok () ∧
      s' = ((s.tick i.now).setFile f { s.files f with text := some items, incoming := none }).record
        t f.key note) := by
  simp only [perform, performAt] at h
  split at h
  next hfails =>
    rw [Input.outcome_of_fails hfails] at h
    cases h
    exact .inl ⟨rfl, hfails, rfl⟩
  next hfails =>
    rw [Input.outcome_of_ok (by simpa using hfails)] at h
    cases h
    exact .inr ⟨rfl, rfl⟩

theorem perform_unlock (h : perform t (.unlock f note) i s = some (a, s')) :
    (a = .error .other ∧ i.fails = true ∧ s' = s.tick i.now) ∨ (a = .ok () ∧
      s' = ((s.tick i.now).setFile f { s.files f with holder := none }).record t f.key note) := by
  simp only [perform, performAt] at h
  split at h
  next hfails =>
    rw [Input.outcome_of_fails hfails] at h
    cases h
    exact .inl ⟨rfl, hfails, rfl⟩
  next hfails =>
    rw [Input.outcome_of_ok (by simpa using hfails)] at h
    cases h
    exact .inr ⟨rfl, rfl⟩

theorem perform_close {a : Unit} (h : perform t (.close f) i s = some (a, s')) :
    s' = (s.tick i.now).setFile f { s.files f with
      holder := if (s.files f).holder = some t then none else (s.files f).holder,
      openers := (s.files f).openers.filter fun o => o.1 ≠ t } := by
  cases h
  rfl

theorem perform_now {a : Nat} (h : perform t .now i s = some (a, s')) : a = i.now ∧ s' = s.tick i.now := by
  cases h
  exact ⟨rfl, rfl⟩

theorem perform_generateUniqueCode {existing : List String} {a : String}
    (h : perform t (.generateUniqueCode existing) i s = some (a, s')) :
    a = generateUniqueCode existing i.draws i.suffix ∧ s' = s.tick i.now := by
  obtain ⟨ha, hs⟩ := Prod.mk.injEq .. ▸ Option.some.inj h
  exact ⟨ha.symm, hs.symm⟩

/-! ## All operations at once -/

variable {a : Ans o}

/-- **The shape of a step**: the time, one file's new state, and perhaps a note. What is in that file now was
    there before, unless it was written. -/
theorem perform_shape (h : perform t o i s = some (a, s')) : s' = s.tick i.now ∨ ∃ f st, o.target = some f ∧
      (s' = (s.tick i.now).setFile f st ∨ s' = ((s.tick i.now).setFile f st).record t f.key o.note) ∧
      ((∀ x ∈ st.text.getD [], x ∈ s.items f) ∨ ∃ note, o = .writeAll f (st.text.getD []) note) := by
  cases o with
  | createDirAll f => exact .inl (perform_plain (.inl h)).2
  | seek f => exact .inl (perform_plain (.inr (.inl h))).2
  | syncAll f => exact .inl (perform_plain (.inr (.inr h))).2
  | now => exact .inl (perform_now h).2
  | generateUniqueCode existing => exact .inl (perform_generateUniqueCode h).2
  | openFile f create truncate incoming =>
    rcases perform_openFile h with ⟨-, -, rfl⟩ | ⟨-, rfl, -⟩ | ⟨-, -, rfl⟩
    · exact .inl rfl
    · exact .inl rfl
    · refine .inr ⟨f, _, rfl, .inl rfl, .inl ?_⟩
      intro x hx
      cases truncate with
      | true => simp at hx
      | false => simpa using hx
  | lockExclusive f =>
    rcases perform_lockExclusive h with ⟨-, -, rfl⟩ | ⟨-, -, rfl⟩
    · exact .inl rfl
    · exact .inr ⟨f, _, rfl, .inl rfl, .inl fun x hx => hx⟩
  | readToString f =>
    rcases perform_readToString h with ⟨-, -, rfl⟩ | ⟨-, -, rfl⟩ | ⟨items, -, -, rfl⟩
    · exact .inl rfl
    · exact .inl rfl
    · exact .inr ⟨f, _, rfl, .inl rfl, .inl fun x hx => hx⟩
  | setLenZero f incoming =>
    rcases perform_setLenZero h with ⟨-, -, rfl⟩ | ⟨-, rfl⟩
    · exact .inl rfl
    · exact .inr ⟨f, _, rfl, .inl rfl, .inl (by simp)⟩
  | writeAll f items note =>
    rcases perform_writeAll h with ⟨-, -, rfl⟩ | ⟨-, rfl⟩
    · exact .inr ⟨f, _, rfl, .inl rfl, .inl (by simp)⟩
    · exact .inr ⟨f, _, rfl, .inr rfl, .inr ⟨note, rfl⟩⟩
  | unlock f note =>
    rcases perform_unlock h with ⟨-, -, rfl⟩ | ⟨-, rfl⟩
    · exact .inl rfl
    · exact .inr ⟨f, _, rfl, .inr rfl, .inl fun x hx => hx⟩
  | close f =>
    obtain rfl := perform_close h
    exact .inr ⟨f, _, rfl, .inl rfl, .inl fun x hx => hx⟩

/-- **The frame**: a file that is not the operation's own stays as it is. -/
theorem files_of_perform (h : perform t o i s = some (a, s')) (hf : o.target ≠ some f) :
    s'.files f = s.files f := by
  rcases perform_shape h with rfl | ⟨g, st, hg, hs, -⟩
  · rfl
  · have hne : f ≠ g := by
      rintro rfl
      exact hf hg
    rcases hs with rfl | rfl
    · exact setFile_files_of_ne _ _ hne
    · rw [record_files]
      exact setFile_files_of_ne _ _ hne

/-- What is in a file was there before or was just written. -/
theorem items_of_perform (h : perform t o i s = some (a, s')) (f : FileId) :
    (∀ x ∈ s'.items f, x ∈ s.items f) ∨ ∃ note, o = .writeAll f (s'.items f) note := by
  by_cases hf : o.target = some f
  · rcases perform_shape h with rfl | ⟨g, st, hg, hs, hitems⟩
    · exact .inl fun x hx => hx
    · obtain rfl : g = f := by
        rw [hg] at hf
        exact Option.some.inj hf
      have hst : s'.items g = st.text.getD [] := by
        rcases hs with rfl | rfl
        · simp [Disk.items]
        · simp [Disk.items]
      rw [hst]
      exact hitems
  · have hsame : s'.items f = s.items f := by rw [Disk.items, files_of_perform h hf, Disk.items]
    exact .inl fun x hx => hsame ▸ hx

/-- The history grows by what the operation notes, under the task's own name. -/
theorem history_of_perform (h : perform t o i s = some (a, s')) :
    s'.history = s.history ∨ ∃ f note, o.target = some f ∧ o.note = some note ∧
      s'.history = s.history ++ [⟨t, f.key, i.now, note⟩] := by
  rcases perform_shape h with rfl | ⟨f, st, hf, rfl | rfl, -⟩
  · exact .inl rfl
  · exact .inl rfl
  · rw [record_history]
    cases hnote : o.note with
    | none => exact .inl (by simp)
    | some note => exact .inr ⟨f, note, hf, rfl, rfl⟩

/-! ## What other tasks leave alone -/

/-- The events of one task. -/
def Disk.eventsOf (s : Disk) (t : Nat) : List Event := s.history.filter fun ev => ev.task = t

/-- Between `s` and `s'` task `t` did nothing: the history has grown, but not by events of its own. -/
structure Since (t : Nat) (s s' : Disk) : Prop where
  grows : s.history <+: s'.history
  own : s'.eventsOf t = s.eventsOf t

theorem Since.refl (t : Nat) (s : Disk) : Since t s s := ⟨List.prefix_rfl, rfl⟩

theorem Since.trans (h : Since t s s') (h' : Since t s' s'') : Since t s s'' :=
  ⟨h.grows.trans h'.grows, h'.own.trans h.own⟩

theorem grows_of_perform (h : perform t o i s = some (a, s')) : s.history <+: s'.history := by
  rcases history_of_perform h with hhist | ⟨f, note, -, -, hhist⟩
  · rw [hhist]
  · rw [hhist]
    exact List.prefix_append ..

theorem since_of_perform (h : perform t o i s = some (a, s')) (hne : t' ≠ t) : Since t' s s' := by
  refine ⟨grows_of_perform h, ?_⟩
  rcases history_of_perform h with hhist | ⟨f, note, -, -, hhist⟩
  · rw [Disk.eventsOf, hhist, Disk.eventsOf]
  · rw [Disk.eventsOf, hhist, List.filter_append, Disk.eventsOf]
    simp [hne.symm]

/-- The requests a task has approved, with the keys of their channels. -/
def Disk.takenBy (s : Disk) (t : Nat) : List (String × PairingRequest) :=
  (s.eventsOf t).filterMap fun ev =>
    match ev.note with
    | .taken r => some (ev.key, r)
    | _ => none

theorem Since.takenBy (h : Since t s s') : s'.takenBy t = s.takenBy t := by rw [Disk.takenBy, h.own, Disk.takenBy]

variable {r : PairingRequest} {key : String}

theorem mem_history_of_takenBy (h : (key, r) ∈ s.takenBy t) :
    ∃ ev ∈ s.history, ev.task = t ∧ ev.key = key ∧ ev.note = .taken r := by
  obtain ⟨ev, hev, hnote⟩ := List.mem_filterMap.mp h
  obtain ⟨hmem, htask⟩ := List.mem_filter.mp hev
  refine ⟨ev, hmem, by simpa using htask, ?_⟩
  split at hnote
  next r' hr' =>
    cases hnote
    exact ⟨rfl, hr'⟩
  next => cases hnote

theorem mem_takenBy {ev : Event} (hev : ev ∈ s.history) (hr : ev.note = .taken r) :
    (ev.key, r) ∈ s.takenBy ev.task := by
  refine List.mem_filterMap.mpr ⟨ev, List.mem_filter.mpr ⟨hev, by simp⟩, ?_⟩
  rw [hr]

theorem takenBy_of_perform (h : perform t o i s = some (a, s')) (hquiet : ∀ r, o.note ≠ some (.taken r)) :
    s'.takenBy t = s.takenBy t := by
  rcases history_of_perform h with hhist | ⟨f, note, -, hnote, hhist⟩
  · rw [Disk.takenBy, Disk.eventsOf, hhist, Disk.takenBy, Disk.eventsOf]
  · rw [Disk.takenBy, Disk.eventsOf, hhist, List.filter_append, List.filterMap_append, Disk.takenBy,
      Disk.eventsOf]
    cases note with
    | taken r => exact absurd hnote (hquiet r)
    | created r => simp
    | mismatch => simp

theorem takenBy_record_taken : (s.record t key (some (.taken r))).takenBy t = s.takenBy t ++ [(key, r)] := by
  rw [Disk.takenBy, Disk.eventsOf, record_history, List.filter_append, List.filterMap_append, Disk.takenBy,
    Disk.eventsOf]
  simp

/-! ## Proof rules -/

section

variable {P : Outline machine} {α : Type}

theorem holds_op {Q : α → Disk → Prop} {next : Ans o → Prog FileOp Ans α}
    (h : ∀ s', P.Rely t s s' → P.Inv s' → ∀ (i : Input) (a : Ans o) s'', perform t o i s' = some (a, s'') →
      P.Allowed t o i s' → P.Move t s' s'' ∧ P.Holds t Q (next a) s'') : P.Holds t Q (.op o next) s :=
  Outline.holds_op h

theorem holds_inScope {Q Q' : Except PairingStoreError α → Disk → Prop} {x : StoreM α}
    (h : P.Holds t Q x.run s) (hclose : ∀ r s, Q r s → P.Holds t Q' (.op (.close f) fun _ => .ret r) s) :
    P.Holds t Q' (inScope f x).run s := h.bind hclose

theorem holds_keyOf {Q : Except PairingStoreError α → Disk → Prop} {channel : String} {x : String → StoreM α}
    (hok : ∀ key, safeChannelKey channel = .ok key → P.Holds t Q (x key).run s)
    (herr : ∀ e, safeChannelKey channel = .error e → Q (.error e) s) : P.Holds t Q (keyOf channel >>= x).run s := by
  show P.Holds t Q (ExceptT.run (ExceptT.mk (.ret (safeChannelKey channel)) >>= x)) s
  cases hkey : safeChannelKey channel with
  | error e => exact Outline.holds_ret (herr e hkey)
  | ok key => exact hok key hkey

end

/-! ## Which operations the functions use -/

/-- An operation on the channel's file of that name, or on none. -/
def Within (channel : String) (name : FileName) (o : FileOp) : Prop :=
  ∀ f, o.target = some f → f.name = name ∧ safeChannelKey channel = .ok f.key

variable {φ : FileOp → Prop}

theorem every_io {next : Ans o → Prog FileOp Ans (Except IoError Unit)} (h : φ o) (hnext : ∀ ans, (next ans).Every φ) :
    (io (.op o next)).run.Every φ :=
  every_op h fun ans => (hnext ans).bind fun _ => every_ret

theorem createDirAll_every (h : φ (.createDirAll f)) : (createDirAll f).run.Every φ :=
  every_io h fun _ => every_ret

theorem openFile_every {incoming : Option (List f.name.Item)} (h : φ (.openFile f create truncate incoming)) :
    (openFile f create truncate incoming).run.Every φ :=
  every_io h fun _ => every_ret

theorem lockExclusive_every (h : φ (.lockExclusive f)) : (lockExclusive f).run.Every φ :=
  every_io h fun _ => every_ret

theorem setLenZero_every {incoming : List f.name.Item} (h : φ (.setLenZero f incoming)) :
    (setLenZero f incoming).run.Every φ := every_io h fun _ => every_ret

theorem seek_every (h : φ (.seek f)) : (seek f).run.Every φ := every_io h fun _ => every_ret

theorem writeAll_every {items : List f.name.Item} (h : φ (.writeAll f items note)) :
    (writeAll f items note).run.Every φ := every_io h fun _ => every_ret

theorem syncAll_every (h : φ (.syncAll f)) : (syncAll f).run.Every φ :=
  every_io h fun _ => every_ret

theorem unlock_every (h : φ (.unlock f note)) : (unlock f note).run.Every φ := every_io h fun _ => every_ret

theorem now_every (h : φ .now) : now.run.Every φ := every_call h

variable {α : Type}

theorem close_every {r : α} (h : φ (.close f)) :
    (Prog.op (.close f) fun _ => .ret r : Prog FileOp Ans α).Every φ := every_call h

theorem every_inScope {x : StoreM α} (h : x.run.Every φ) (hclose : φ (.close f)) :
    (inScope f x).run.Every φ := h.bind fun _ => every_call hclose

variable {channel : String}

theorem every_keyOf {x : String → StoreM α} (h : ∀ key, safeChannelKey channel = .ok key → (x key).run.Every φ) :
    (keyOf channel >>= x).run.Every φ := by
  show Prog.Every φ (ExceptT.run (ExceptT.mk (.ret (safeChannelKey channel)) >>= x))
  cases hkey : safeChannelKey channel with
  | error e => exact every_ret
  | ok key => exact h key hkey

variable {name : FileName}

theorem within_of_target (hkey : safeChannelKey channel = .ok key) (h : o.target = some ⟨key, name⟩) :
    Within channel name o := by
  intro f hf
  obtain rfl : ⟨key, name⟩ = f := Option.some.inj (h ▸ hf)
  exact ⟨rfl, hkey⟩

theorem within_of_no_target (h : o.target = none) : Within channel name o := by
  intro f hf
  rw [h] at hf
  cases hf

section

variable {φ : FileOp → Prop} {channel key : String} {requests : List PairingRequest} {note : Option Note}

theorem writePairingFileLocked_every (hon : ∀ o : FileOp, o.target = some (pairingPath key) → o.note = none →
      (∀ items note', o ≠ .writeAll (pairingPath key) items note') → φ o)
    (hwrite : φ (.writeAll (pairingPath key) requests note)) :
    (writePairingFileLocked key requests note).run.Every φ := by
  unfold writePairingFileLocked
  refine .bindE (setLenZero_every (hon _ rfl rfl nofun)) fun _ => ?_
  refine .bindE (seek_every (hon _ rfl rfl nofun)) fun _ => ?_
  refine .bindE (writeAll_every hwrite) fun _ => ?_
  exact syncAll_every (hon _ rfl rfl nofun)

theorem fsWrite_every {items : List f.name.Item} (hon : ∀ o : FileOp, o.target = some f → o.note = none → φ o) :
    (fsWrite f items).run.Every φ := by
  unfold fsWrite
  refine .bindE (every_io (hon _ rfl rfl) fun _ => every_ret) fun _ => ?_
  exact every_io (hon _ rfl rfl) fun _ => every_ret

theorem writePairingFile_every (hon : ∀ o : FileOp, Within channel .pairing o → o.note = none →
      (∀ key items note, o = .writeAll (pairingPath key) items note → items = requests) → φ o) :
    (writePairingFile channel requests).run.Every φ := by
  unfold writePairingFile
  refine every_keyOf fun key hkey => ?_
  have hfile : ∀ o : FileOp, o.target = some (pairingPath key) → o.note = none →
      (∀ items note, o ≠ .writeAll (pairingPath key) items note) → φ o := by
    intro o ho hnote hne
    refine hon o (within_of_target hkey ho) hnote ?_
    rintro key' items note rfl
    obtain rfl : key' = key := by simpa [FileOp.target] using ho
    exact absurd rfl (hne items note)
  have hwrite : φ (.writeAll (pairingPath key) requests none) := by
    refine hon _ (within_of_target hkey rfl) rfl ?_
    rintro _ _ _ ⟨⟩
    rfl
  refine .bindE (openFile_every (hfile _ rfl rfl nofun)) fun _ => ?_
  refine every_inScope ?_ (hfile _ rfl rfl nofun)
  refine .bindE (lockExclusive_every (hfile _ rfl rfl nofun)) fun _ => ?_
  refine .bindE (writePairingFileLocked_every hfile hwrite) fun _ => ?_
  exact unlock_every (hfile _ rfl rfl nofun)

theorem listPending_every (hon : ∀ o : FileOp, Within channel .pairing o → o.note = none → φ o) :
    (listPending channel).run.Every φ := by
  unfold listPending
  refine every_keyOf fun key hkey => ?_
  refine .bindE (every_call (hon _ (within_of_target hkey rfl) rfl)) fun r => ?_
  split
  · exact every_ret
  · exact every_ret
  · refine .bindE (every_call (hon _ (within_of_no_target rfl) rfl)) fun nowSecs => ?_
    refine .bindE ?_ fun _ => every_ret
    unfold writeIfShorter
    split
    · exact writePairingFile_every fun o ho hnote _ => hon o ho hnote
    · exact every_ret

variable {id : String}

theorem upsertRequest_every {metadata : Option Rust.Json}
    (hon : ∀ o : FileOp, Within channel .pairing o → o.note = none → φ o)
    (hcreated : ∀ key requests req, safeChannelKey channel = .ok key →
      φ (.writeAll (pairingPath key) requests (some (.created req)))) :
    (upsertRequest channel id metadata).run.Every φ := by
  unfold upsertRequest
  refine every_keyOf fun key hkey => ?_
  have hfile : ∀ o : FileOp, o.target = some (pairingPath key) → o.note = none → φ o :=
    fun o ho => hon o (within_of_target hkey ho)
  have hnone : ∀ o : FileOp, o.target = none → o.note = none → φ o := fun o ho => hon o (within_of_no_target ho)
  have hunlock : (unlock (pairingPath key) none).run.Every φ := every_io (hfile _ rfl rfl) fun _ => every_ret
  refine .bindE (createDirAll_every (hfile _ rfl rfl)) fun _ => ?_
  refine .bindE (openFile_every (hfile _ rfl rfl)) fun _ => ?_
  refine every_inScope ?_ (hfile _ rfl rfl)
  refine .bindE (lockExclusive_every (hfile _ rfl rfl)) fun _ => ?_
  refine .bindE (every_call (hfile _ rfl rfl)) fun stored => ?_
  refine .bindE (every_call (hnone _ rfl rfl)) fun nowIso => ?_
  refine .bindE (every_call (hnone _ rfl rfl)) fun nowSecs => ?_
  split
  · exact .bindE hunlock fun _ => every_ret
  · dsimp only
    split
    · unfold refreshRequest keptCode
      refine .bindE ?_ fun code => ?_
      · split
        · exact every_call (hnone _ rfl rfl)
        · exact every_ret
      · refine .bindE (writePairingFileLocked_every (fun o ho hnote _ => hfile o ho hnote) (hfile _ rfl rfl)) fun _ => ?_
        exact .bindE hunlock fun _ => every_ret
    · unfold addRequest
      split
      · exact .bindE hunlock fun _ => every_ret
      · refine .bindE (every_call (hnone _ rfl rfl)) fun code => ?_
        refine .bindE (writePairingFileLocked_every (fun o ho hnote _ => hfile o ho hnote)
          (hcreated key _ _ hkey)) fun _ => ?_
        exact .bindE hunlock fun _ => every_ret

theorem isApproveRateLimited_every (hon : ∀ o : FileOp, Within channel .attempts o → o.note = none → φ o) :
    (isApproveRateLimited channel).run.Every φ := by
  unfold isApproveRateLimited
  refine every_keyOf fun key hkey => ?_
  refine .bindE (every_call (hon _ (within_of_target hkey rfl) rfl)) fun r => ?_
  split
  · exact every_ret
  · exact every_ret
  · exact .bindE (every_call (hon _ (within_of_no_target rfl) rfl)) fun _ => every_ret

theorem recordFailedApprove_every (hon : ∀ o : FileOp, Within channel .attempts o → o.note = none → φ o) :
    (recordFailedApprove channel).run.Every φ := by
  unfold recordFailedApprove
  refine every_keyOf fun key hkey => ?_
  have hfile : ∀ o : FileOp, o.target = some (approveAttemptsPath key) → o.note = none → φ o :=
    fun o ho => hon o (within_of_target hkey ho)
  refine .bindE (createDirAll_every (hfile _ rfl rfl)) fun _ => ?_
  refine .bindE (openFile_every (hfile _ rfl rfl)) fun _ => ?_
  refine every_inScope ?_ (hfile _ rfl rfl)
  refine .bindE (lockExclusive_every (hfile _ rfl rfl)) fun _ => ?_
  refine .bindE (every_call (hfile _ rfl rfl)) fun failedAt => ?_
  refine .bindE (every_call (hon _ (within_of_no_target rfl) rfl)) fun now => ?_
  refine .bindE (fsWrite_every hfile) fun _ => ?_
  exact every_io (hfile _ rfl rfl) fun _ => every_ret

theorem readAllowFrom_every (hread : ∀ key, safeChannelKey channel = .ok key → φ (.readToString (allowFromPath key))) :
    (readAllowFrom channel).run.Every φ := by
  unfold readAllowFrom
  refine every_keyOf fun key hkey => ?_
  refine .bindE (every_call (hread key hkey)) fun r => ?_
  rcases r with e | items
  · cases e <;> exact every_ret
  · exact every_ret

theorem isSenderAllowed_every {username : Option String}
    (hread : ∀ key, safeChannelKey channel = .ok key → φ (.readToString (allowFromPath key))) :
    (isSenderAllowed channel id username).run.Every φ :=
  Prog.Every.bindE (readAllowFrom_every hread) fun _ => every_ret

theorem addAllowFrom_every {entry : String} (hon : ∀ o : FileOp, Within channel .allowFrom o → o.note = none → φ o) :
    (addAllowFrom channel entry).run.Every φ := by
  unfold addAllowFrom
  dsimp only
  split
  · exact every_ret
  refine every_keyOf fun key hkey => ?_
  have hfile : ∀ o : FileOp, o.target = some (allowFromPath key) → o.note = none → φ o :=
    fun o ho => hon o (within_of_target hkey ho)
  refine .bindE (createDirAll_every (hfile _ rfl rfl)) fun _ => ?_
  refine .bindE (openFile_every (hfile _ rfl rfl)) fun _ => ?_
  refine every_inScope ?_ (hfile _ rfl rfl)
  refine .bindE (lockExclusive_every (hfile _ rfl rfl)) fun _ => ?_
  refine .bindE (every_call (hfile _ rfl rfl)) fun allowFrom => ?_
  split
  · exact unlock_every (hfile _ rfl rfl)
  · exact .bindE (fsWrite_every hfile) fun _ => unlock_every (hfile _ rfl rfl)

variable {code : String}

theorem approveCode_every (hon : ∀ (o : FileOp) (name : FileName), Within channel name o → o.note = none → φ o)
    (htaken : ∀ key requests r, safeChannelKey channel = .ok key →
      φ (.writeAll (pairingPath key) requests (some (.taken r))))
    (hmismatch : ∀ key, safeChannelKey channel = .ok key → φ (.unlock (pairingPath key) (some .mismatch))) :
    (approveCode channel code).run.Every φ := by
  unfold approveCode
  refine every_keyOf fun key hkey => ?_
  have hfile : ∀ o : FileOp, o.target = some (pairingPath key) → o.note = none → φ o :=
    fun o ho => hon o .pairing (within_of_target hkey ho)
  refine .bindE (every_call (hfile _ rfl rfl)) fun _ => ?_
  refine every_inScope ?_ (hfile _ rfl rfl)
  refine .bindE (lockExclusive_every (hfile _ rfl rfl)) fun _ => ?_
  refine .bindE (every_call (hfile _ rfl rfl)) fun stored => ?_
  refine .bindE (now_every (hon _ .pairing (within_of_no_target rfl) rfl)) fun nowSecs => ?_
  split
  · refine .bindE (writePairingFileLocked_every (fun o ho hnote _ => hfile o ho hnote) (htaken key _ _ hkey)) fun _ => ?_
    refine .bindE (unlock_every (hfile _ rfl rfl)) fun _ => ?_
    exact .bindE (addAllowFrom_every fun o => hon o .allowFrom) fun _ => every_ret
  · refine .bindE (unlock_every (hmismatch key hkey)) fun _ => ?_
    exact .bindE (recordFailedApprove_every fun o => hon o .attempts) fun _ => every_ret

theorem approve_every (hon : ∀ (o : FileOp) (name : FileName), Within channel name o → o.note = none → φ o)
    (htaken : ∀ key requests r, safeChannelKey channel = .ok key →
      φ (.writeAll (pairingPath key) requests (some (.taken r))))
    (hmismatch : ∀ key, safeChannelKey channel = .ok key → φ (.unlock (pairingPath key) (some .mismatch))) :
    (approve channel code).run.Every φ := by
  unfold approve
  split
  · exact every_ret
  · refine .bindE (isApproveRateLimited_every fun o => hon o .attempts) fun limited => ?_
    split
    · exact every_ret
    · exact approveCode_every hon htaken hmismatch

end

end Freeclawdia.Pairing
