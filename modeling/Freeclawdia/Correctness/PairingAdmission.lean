import Freeclawdia.Correctness.PairingOps

/-!
# `Correctness.PairingAdmission` — who gets onto the list, and who stays on it

Every entry of an allow list was put there by an `approve` that had taken the pending request with that id off
the same files (`admission`, an invariant of all interleavings, with failing operations). What the list is
then *compared* with is another matter: the sender's id, but also the name he has chosen for himself. Two channels
share their files when their names differ only in characters that file names must not have; a run without such
names (`Apart`) admits nobody for an approval on another channel.
-/

namespace Freeclawdia.Pairing

open Rust

variable {t : Nat} {o : FileOp} {i : Input} {s s' : Disk}

/-- An approval of a request with this id, up to surrounding space, has come far enough to take it off the
    pending ones. -/
def Approved (s : Disk) (key entry : String) : Prop :=
  ∃ ev ∈ s.history, ∃ r, ev.key = key ∧ ev.note = .taken r ∧ trim r.id = entry

variable {entry : String}

theorem Approved.mono {key : String} (h : Approved s key entry) (hgrows : s.history <+: s'.history) :
    Approved s' key entry := by
  obtain ⟨ev, hev, hr⟩ := h
  exact ⟨ev, hgrows.subset hev, hr⟩

/-- Everyone on a list has been approved. -/
def Listed (s : Disk) : Prop := ∀ key, ∀ entry ∈ s.items (allowFromPath key), Approved s key entry

/-- What a call that has returned has to show for it. -/
def AdmissionPost (t : Nat) : (c : Call) → Out c → Disk → Prop
  | .isSenderAllowed channel id username, out, s => out = .ok true →
      ∃ key entry, safeChannelKey channel = .ok key ∧ Approved s key entry ∧ allows [entry] id username = true
  | .approve _ _, out, s => ∀ x ∈ s.takenBy t, out = .ok (some x.2) ∨ ∃ e, out = .error e
  | _, _, _ => True

def admission : Outline machine where
  Inv := Listed
  Rely := Since
  Pre t s := s.takenBy t = []
  Allowed _ _ _ _ := True
  Post := AdmissionPost
  rely_refl := Since.refl
  rely_trans := Since.trans
  pre_stable h hsince := hsince.takenBy.trans h
  post_stable := by
    intro t c out s s' hpost hsince _
    cases c with
    | isSenderAllowed channel id username =>
      intro hout
      obtain ⟨key, entry, hkey, happroved, hallows⟩ := hpost hout
      exact ⟨key, entry, hkey, happroved.mono hsince.grows, hallows⟩
    | approve channel code =>
      intro x hx
      rw [hsince.takenBy] at hx
      exact hpost x hx
    | listPending channel => exact True.intro
    | upsertRequest channel id metadata => exact True.intro
    | readAllowFrom channel => exact True.intro

/-- A step may be anything but a write of someone who is not approved. -/
theorem admission_move {a : Ans o} (h : perform t o i s = some (a, s')) (hinv : Listed s)
    (hwrites : ∀ key items note, o = .writeAll (allowFromPath key) items note →
      ∀ entry ∈ items, Approved s' key entry) : admission.Move t s s' := by
  refine ⟨?_, fun t' hne => since_of_perform h hne⟩
  intro key entry hentry
  rcases items_of_perform h (allowFromPath key) with hold | ⟨note, hwrite⟩
  · exact (hinv key entry (hold entry hentry)).mono (grows_of_perform h)
  · exact hwrites key _ note hwrite entry hentry

/-- Operations that neither write a list nor approve. -/
def Quiet (o : FileOp) : Prop :=
  (∀ key items note, o ≠ .writeAll (allowFromPath key) items note) ∧ ∀ r, o.note ≠ some (.taken r)

theorem quiet_of_target {f : FileId} (hf : o.target = some f) (hname : f.name ≠ .allowFrom)
    (hnote : ∀ r, o.note ≠ some (.taken r)) : Quiet o := by
  refine ⟨?_, hnote⟩
  rintro key items note rfl
  obtain rfl : allowFromPath key = f := Option.some.inj hf
  exact hname rfl

variable {channel : String}

theorem quiet_of_within {name : FileName} (h : Within channel name o) (hname : name ≠ .allowFrom) (hnote : o.note = none) :
    Quiet o := by
  refine ⟨?_, by simp [hnote]⟩
  rintro key items note rfl
  exact hname (h (allowFromPath key) rfl).1.symm

variable {taken : List (String × PairingRequest)} {α : Type}

/-- A stretch of quiet operations approves nobody, and what is known of the past stays so. -/
theorem admission_quiet_past {p : Prog FileOp Ans α} {H : Disk → Prop}
    (hmono : ∀ {s s'}, H s → s.history <+: s'.history → H s') (hp : p.Every Quiet) (htaken : s.takenBy t = taken)
    (hpast : H s) : admission.Holds t (fun _ s => s.takenBy t = taken ∧ H s) p s := by
  refine Outline.holds_every (φ := Quiet) ?_ ?_ hp ⟨htaken, hpast⟩
  · rintro o i a s s' hquiet hinv ⟨htaken, hpast⟩ hperform -
    refine ⟨admission_move hperform hinv ?_, ?_, hmono hpast (grows_of_perform hperform)⟩
    · rintro key items note rfl
      exact absurd rfl (hquiet.1 key items note)
    · exact (takenBy_of_perform hperform hquiet.2).trans htaken
  · rintro s s' ⟨htaken, hpast⟩ hsince -
    exact ⟨hsince.takenBy.trans htaken, hmono hpast hsince.grows⟩

theorem admission_quiet {p : Prog FileOp Ans α} (hp : p.Every Quiet) (htaken : s.takenBy t = taken) :
    admission.Holds t (fun _ s => s.takenBy t = taken) p s :=
  (admission_quiet_past (H := fun _ => True) (fun _ _ => True.intro) hp htaken True.intro).mono fun _ _ h => h.1

/-! ## The functions -/

section

variable {channel key : String} {taken : List (String × PairingRequest)} {entries : List String}

theorem quiet_no_target (hf : o.target = none) (hnote : o.note = none) : Quiet o := by
  refine ⟨?_, by simp [hnote]⟩
  rintro key items note rfl
  cases hf

/-- An operation on an allow list that does not write it. -/
theorem quiet_list (hne : ∀ items note, o ≠ .writeAll (allowFromPath key) items note)
    (hf : o.target = some (allowFromPath key)) (hnote : o.note = none) : Quiet o := by
  refine ⟨?_, by simp [hnote]⟩
  rintro key' items note rfl
  obtain rfl : key' = key := by simpa [FileOp.target] using hf
  exact hne items note rfl

/-- Reading a list gives approved entries. -/
theorem admission_read (htaken : s.takenBy t = taken) {α : Type} {Q : α → Disk → Prop}
    {next : Except IoError (List String) → Prog FileOp Ans α}
    (hnext : ∀ r s, s.takenBy t = taken → (∀ list, r = .ok list → ∀ e ∈ list, Approved s key e) →
      admission.Holds t Q (next r) s) : admission.Holds t Q (.op (.readToString (allowFromPath key)) next) s := by
  refine holds_op fun s' (hsince : Since t s s') (hinv : Listed s') i a s'' hperform _ => ?_
  refine ⟨admission_move hperform hinv (by rintro _ _ _ ⟨⟩), hnext a s'' ?_ ?_⟩
  · rw [takenBy_of_perform hperform (by rintro r ⟨⟩), hsince.takenBy, htaken]
  · intro list hlist e he
    rcases perform_readToString hperform with ⟨rfl, -, -⟩ | ⟨rfl, -, -⟩ | ⟨items, rfl, htext, -⟩
    · cases hlist
    · cases hlist
    · cases hlist
      refine (hinv key e ?_).mono (grows_of_perform hperform)
      rw [Disk.items, htext]
      exact he

variable {list : List String}

/-- Writing approved entries. -/
theorem admission_write (htaken : s.takenBy t = taken) (happroved : ∀ e ∈ list, Approved s key e) :
    admission.Holds t (fun _ s => s.takenBy t = taken) (fsWrite (allowFromPath key) list).run s := by
  have hquiet : (setLenZero (allowFromPath key) list).run.Every Quiet :=
    setLenZero_every (quiet_list (by rintro _ _ ⟨⟩) rfl rfl)
  have hmono : ∀ {s s' : Disk}, (∀ e ∈ list, Approved s key e) → s.history <+: s'.history →
      ∀ e ∈ list, Approved s' key e := fun h hgrows e he => (h e he).mono hgrows
  unfold fsWrite
  refine (admission_quiet_past hmono hquiet htaken happroved).bindE (fun _ s h => ?_) fun _ _ h => h.1
  refine holds_op fun s' (hsince : Since t s s') (hinv : Listed s') i a s'' hperform _ => ?_
  refine ⟨admission_move hperform hinv ?_, Outline.holds_ret ?_⟩
  · rintro key' items note ⟨⟩ e he
    exact (h.2 e he).mono (hsince.grows.trans (grows_of_perform hperform))
  · rw [takenBy_of_perform hperform (by rintro r ⟨⟩), hsince.takenBy, h.1]

variable {r : PairingRequest}

/-- The entry is written only once its request has been taken. -/
theorem addAllowFrom_holds (hkey : safeChannelKey channel = .ok key) (htaken : s.takenBy t = [(key, r)]) :
    admission.Holds t (fun _ s => s.takenBy t = [(key, r)]) (addAllowFrom channel r.id).run s := by
  -- Every operation on the list but the write of it is quiet.
  have hlist : ∀ {o : FileOp}, o.target = some (allowFromPath key) → o.note = none →
      (∀ items note, o ≠ .writeAll (allowFromPath key) items note) → Quiet o :=
    fun hf hnote hne => quiet_list hne hf hnote
  have hcreate : (createDirAll (allowFromPath key)).run.Every Quiet :=
    createDirAll_every (hlist rfl rfl (by rintro _ _ ⟨⟩))
  have hopen : (openFile (allowFromPath key) true true (some [trim r.id])).run.Every Quiet :=
    openFile_every (hlist rfl rfl (by rintro _ _ ⟨⟩))
  have hlock : (lockExclusive (allowFromPath key)).run.Every Quiet :=
    lockExclusive_every (hlist rfl rfl (by rintro _ _ ⟨⟩))
  have hunlock : (unlock (allowFromPath key) none).run.Every Quiet :=
    unlock_every (hlist rfl rfl (by rintro _ _ ⟨⟩))
  unfold addAllowFrom
  dsimp only
  split
  · exact Outline.holds_ret htaken
  refine holds_keyOf (fun key' hkey' => ?_) fun e he => htaken
  obtain rfl : key = key' := Except.ok.inj (hkey.symm.trans hkey')
  refine (admission_quiet hcreate htaken).bindE (fun _ s htaken => ?_) fun _ _ h => h
  refine (admission_quiet hopen htaken).bindE (fun _ s htaken => ?_) fun _ _ h => h
  refine holds_inScope (Q := fun _ s => s.takenBy t = [(key, r)]) ?_
    fun res s htaken => admission_quiet (close_every (hlist rfl rfl (by rintro _ _ ⟨⟩))) htaken
  refine (admission_quiet hlock htaken).bindE (fun _ s htaken => ?_) fun _ _ h => h
  refine admission_read htaken fun res s htaken happroved => ?_
  have hread : ∀ e ∈ res.toOption.getD [], Approved s key e := by
    intro e he
    cases res with
    | error _ => cases he
    | ok list => exact happroved list rfl e he
  show admission.Holds t _ (ExceptT.run (if _ then _ else _)) s
  split
  · exact admission_quiet hunlock htaken
  · refine (admission_write htaken ?_).bindE (fun _ s htaken => admission_quiet hunlock htaken) fun _ _ h => h
    intro e he
    rcases List.mem_append.mp he with he | he
    · exact hread e he
    · obtain rfl := List.mem_singleton.mp he
      obtain ⟨ev, hev, -, hev_key, hnote⟩ := mem_history_of_takenBy (by rw [htaken]; exact List.mem_singleton.mpr rfl)
      exact ⟨ev, hev, r, hev_key, hnote, rfl⟩

/-- Writing the pending requests back without the one that is approved. -/
theorem take_holds {requests : List PairingRequest} (htaken : s.takenBy t = []) :
    admission.Holds t (fun out s => out = .ok () → s.takenBy t = [(key, r)])
      (writePairingFileLocked key requests (some (.taken r))).run s := by
  have hpairing : ∀ {o : FileOp}, o.target = some (pairingPath key) → o.note = none → Quiet o :=
    fun hf hnote => quiet_of_target hf (by simp) (by simp [hnote])
  unfold writePairingFileLocked
  refine (admission_quiet (setLenZero_every (hpairing rfl rfl)) htaken).bindE (fun _ s htaken => ?_) (by simp)
  refine (admission_quiet (seek_every (hpairing rfl rfl)) htaken).bindE (fun _ s htaken => ?_) (by simp)
  have hwrite : admission.Holds t (fun out s => out = .ok () → s.takenBy t = [(key, r)])
      (writeAll (pairingPath key) requests (some (.taken r))).run s := by
    refine holds_op fun s' (hsince : Since t s s') (hinv : Listed s') i a s'' hperform _ => ?_
    refine ⟨admission_move hperform hinv (by rintro _ _ _ ⟨⟩), Outline.holds_ret fun hok => ?_⟩
    rcases perform_writeAll hperform with ⟨rfl, -, -⟩ | ⟨-, rfl⟩
    · cases hok
    · rw [takenBy_record_taken]
      show s'.takenBy t ++ [(key, r)] = [(key, r)]
      rw [hsince.takenBy, htaken, List.nil_append]
  refine hwrite.bindE (fun _ s h => ?_) fun e s _ hok => by cases hok
  exact (admission_quiet (syncAll_every (hpairing rfl rfl)) (h rfl)).mono fun _ _ h _ => h

variable {code : String}

theorem approveCode_holds {given : String} (htaken : s.takenBy t = []) :
    admission.Holds t (AdmissionPost t (.approve channel given)) (approveCode channel code).run s := by
  unfold approveCode
  refine holds_keyOf (fun key hkey => ?_) fun e _ _ _ => .inr ⟨e, rfl⟩
  have hpairing : ∀ {o : FileOp}, o.target = some (pairingPath key) → (∀ r, o.note ≠ some (.taken r)) → Quiet o :=
    fun hf hnote => quiet_of_target hf (by simp) hnote
  have hopen : (openExisting (pairingPath key)).run.Every Quiet :=
    Prog.every_call (hpairing rfl (by rintro r ⟨⟩))
  have hread : (readOrEmpty (pairingPath key)).run.Every Quiet :=
    Prog.every_call (hpairing rfl (by rintro r ⟨⟩))
  have hlock := lockExclusive_every (φ := Quiet) (hpairing (o := .lockExclusive (pairingPath key)) rfl (by rintro r ⟨⟩))
  have hunlock : ∀ {note}, (∀ r, note ≠ some (.taken r)) → (unlock (pairingPath key) note).run.Every Quiet :=
    fun hnote => unlock_every (hpairing rfl hnote)
  refine (admission_quiet hopen htaken).bindE (fun _ s htaken => ?_) fun e _ _ _ _ => .inr ⟨e, rfl⟩
  refine holds_inScope (Q := AdmissionPost t (.approve channel given)) ?_ ?_
  · refine (admission_quiet hlock htaken).bindE (fun _ s htaken => ?_) fun e _ _ _ _ => .inr ⟨e, rfl⟩
    refine (admission_quiet hread htaken).bindE (fun stored s htaken => ?_) fun e _ _ _ _ => .inr ⟨e, rfl⟩
    refine (admission_quiet (now_every (quiet_no_target rfl rfl)) htaken).bindE (fun nowSecs s htaken => ?_)
      fun e _ _ _ _ => .inr ⟨e, rfl⟩
    split
    · refine (take_holds htaken).bindE (fun _ s htaken => ?_) fun e _ _ _ _ => .inr ⟨e, rfl⟩
      refine (admission_quiet (hunlock (by rintro r ⟨⟩)) (htaken rfl)).bindE (fun _ s htaken => ?_)
        fun e _ _ _ _ => .inr ⟨e, rfl⟩
      refine (addAllowFrom_holds hkey htaken).bindE (fun _ s htaken => ?_) fun e _ _ _ _ => .inr ⟨e, rfl⟩
      refine Outline.holds_ret fun x hx => ?_
      rw [htaken, List.mem_singleton] at hx
      subst hx
      exact .inl rfl
    · refine (admission_quiet (hunlock (by rintro r ⟨⟩)) htaken).bindE (fun _ s htaken => ?_)
        fun e _ _ _ _ => .inr ⟨e, rfl⟩
      have hrecord : (recordFailedApprove channel).run.Every Quiet :=
        recordFailedApprove_every fun o ho hnote => quiet_of_within ho (by simp) hnote
      refine (admission_quiet hrecord htaken).bindE (fun _ s htaken => ?_) fun e _ _ _ _ => .inr ⟨e, rfl⟩
      refine Outline.holds_ret fun x hx => ?_
      rw [htaken] at hx
      cases hx
  · intro out s hpost
    refine holds_op fun s' (hsince : Since t s s') (hinv : Listed s') i a s'' hperform _ => ?_
    refine ⟨admission_move hperform hinv (by rintro _ _ _ ⟨⟩), Outline.holds_ret fun x hx => hpost x ?_⟩
    rwa [takenBy_of_perform hperform (by rintro r ⟨⟩), hsince.takenBy] at hx

variable {username : Option String} {id : String}

theorem allows_of_mem (h : allows list id username = true) : ∃ e ∈ list, allows [e] id username = true := by
  unfold allows at h
  split at h
  next hid =>
    obtain ⟨e, he, hmatch⟩ := List.any_eq_true.mp hid
    exact ⟨e, he, by simp only [allows, List.any_cons, hmatch, Bool.true_or, if_true]⟩
  next =>
    cases username with
    | none => cases h
    | some u =>
      obtain ⟨e, he, hmatch⟩ := List.any_eq_true.mp h
      refine ⟨e, he, ?_⟩
      unfold allows
      split
      · rfl
      · exact List.any_eq_true.mpr ⟨e, List.mem_singleton.mpr rfl, hmatch⟩

theorem readAllowFrom_holds (htaken : s.takenBy t = []) : admission.Holds t (fun out s => ∀ list, out = .ok list →
        ∃ key, safeChannelKey channel = .ok key ∧ ∀ e ∈ list, Approved s key e) (readAllowFrom channel).run s := by
  unfold readAllowFrom
  refine holds_keyOf (fun key hkey => ?_) fun e _ list hout => by cases hout
  refine admission_read htaken fun res s _ happroved => ?_
  rcases res with e | items
  · cases e with
    | notFound =>
      refine Outline.holds_ret fun list hout => ?_
      cases hout
      exact ⟨key, hkey, by simp⟩
    | other => exact Outline.holds_ret fun list hout => by cases hout
  · refine Outline.holds_ret fun list hout => ?_
    cases hout
    exact ⟨key, hkey, happroved items rfl⟩

theorem isSenderAllowed_holds (htaken : s.takenBy t = []) :
    admission.Holds t (AdmissionPost t (.isSenderAllowed channel id username))
      (isSenderAllowed channel id username).run s := by
  unfold isSenderAllowed
  refine (readAllowFrom_holds htaken).bindE (fun list s h => ?_) fun e _ _ hout => by cases hout
  refine Outline.holds_ret fun hout => ?_
  obtain ⟨key, hkey, happroved⟩ := h list rfl
  have hallows : allows list id username = true := Except.ok.inj hout
  obtain ⟨e, he, hmatch⟩ := allows_of_mem hallows
  exact ⟨key, e, hkey, happroved e he, hmatch⟩

theorem approve_holds (htaken : s.takenBy t = []) :
    admission.Holds t (AdmissionPost t (.approve channel code)) (approve channel code).run s := by
  unfold approve
  split
  · refine Outline.holds_ret fun x hx => ?_
    rw [htaken] at hx
    cases hx
  · have hcheck : (isApproveRateLimited channel).run.Every Quiet :=
      isApproveRateLimited_every fun o ho hnote => quiet_of_within ho (by simp) hnote
    refine (admission_quiet hcheck htaken).bindE (fun limited s htaken => ?_) fun e _ _ _ _ => .inr ⟨e, rfl⟩
    split
    · exact Outline.holds_ret fun _ _ => .inr ⟨_, rfl⟩
    · exact approveCode_holds htaken

theorem admission_body (c : Call) (htaken : s.takenBy t = []) : admission.Holds t (AdmissionPost t c) (body c) s := by
  cases c with
  | isSenderAllowed channel id username => exact isSenderAllowed_holds htaken
  | approve channel code => exact approve_holds htaken
  | listPending channel =>
    have hquiet : (listPending channel).run.Every Quiet :=
      listPending_every fun o ho hnote => quiet_of_within ho (by simp) hnote
    exact (admission_quiet hquiet htaken).mono fun _ _ _ => True.intro
  | upsertRequest channel id metadata =>
    have hquiet : (upsertRequest channel id metadata).run.Every Quiet :=
      upsertRequest_every (fun o ho hnote => quiet_of_within ho (by simp) hnote)
        fun key requests req _ => quiet_of_target rfl (by simp) (by simp [FileOp.note])
    exact (admission_quiet hquiet htaken).mono fun _ _ _ => True.intro
  | readAllowFrom channel => exact (readAllowFrom_holds htaken).mono fun _ _ _ => True.intro

end

/-! ## All callers -/

/-- The operations of a call that approve a request: only `approve` has any, and they are on its channel. -/
def ApprovesOnly (c : Call) (o : FileOp) : Prop :=
  ∀ r, o.note = some (.taken r) → ∃ channel code, c = .approve channel code ∧
    ∀ f, o.target = some f → safeChannelKey channel = .ok f.key

theorem approvesOnly_of_note {c : Call} (h : ∀ r, o.note ≠ some (.taken r)) : ApprovesOnly c o :=
  fun r hr => absurd hr (h r)

theorem approvesOnly_body (c : Call) : (body c).Every (ApprovesOnly c) := by
  have hquiet : ∀ {channel : String} {name : FileName} (o : FileOp), Within channel name o → o.note = none →
      ApprovesOnly c o := fun o _ hnote => approvesOnly_of_note (by simp [hnote])
  cases c with
  | listPending channel => exact listPending_every hquiet
  | upsertRequest channel id metadata =>
    exact upsertRequest_every hquiet fun key requests req _ => approvesOnly_of_note (by simp [FileOp.note])
  | readAllowFrom channel => exact readAllowFrom_every fun key hkey => hquiet _ (within_of_target hkey rfl) rfl
  | isSenderAllowed channel id username =>
    exact isSenderAllowed_every fun key hkey => hquiet _ (within_of_target hkey rfl) rfl
  | approve channel code =>
    refine approve_every (fun o name => hquiet o) (fun key requests r hkey => ?_) fun key _ => ?_
    · intro r' _
      refine ⟨channel, code, rfl, fun f hf => ?_⟩
      obtain rfl : pairingPath key = f := Option.some.inj hf
      exact hkey
    · exact approvesOnly_of_note (by simp [FileOp.note])

/-- Whoever has taken a request is an `approve` on a channel with those files. -/
def Attributed (cfg : machine.Config) : Prop :=
  ∀ ev ∈ cfg.shared.history, ∀ r, ev.note = .taken r → ∃ channel code rest,
    cfg.tasks ev.task = some ⟨.approve channel code, rest⟩ ∧ safeChannelKey channel = .ok ev.key

variable {cfg : machine.Config} {ls : List machine.Label}

/-- **Approvals are calls of `approve`.** -/
theorem attributed_run {C : machine.Config → machine.Label → Prop}
    (run : Runs machine.step C (machine.initial Disk.empty) ls cfg) : Attributed cfg := by
  suffices h : Machine.Obeys ApprovesOnly cfg ∧ Attributed cfg from h.2
  refine run.invariant (P := fun _ cfg => Machine.Obeys ApprovesOnly cfg ∧ Attributed cfg)
    ⟨(by intro _ _ h; cases h), (by intro _ h; cases h)⟩ ?_
  rintro _ cfg cfg' l ⟨hobeys, hevents⟩ - hstep
  refine ⟨hobeys.step approvesOnly_body hstep, ?_⟩
  rcases Machine.step_cases hstep with ⟨t, c, -, hnone, rfl⟩ | ⟨t, i, c, o, next, a, s', -, htask, hperform, rfl⟩
  · intro ev hev r hr
    obtain ⟨channel, code, rest, htask, hkey⟩ := hevents ev hev r hr
    refine ⟨channel, code, rest, ?_, hkey⟩
    have hne : ev.task ≠ t := by
      rintro rfl
      rw [hnone] at htask
      cases htask
    exact (Function.update_of_ne hne _ _).trans htask
  · -- The events there were keep their tasks, which may have moved on; a new one is of the task that moved.
    intro ev hev r hr
    by_cases hold : ev ∈ cfg.shared.history
    · obtain ⟨channel, code, rest, htask', hkey⟩ := hevents ev hold r hr
      by_cases hmoved : ev.task = t
      · subst hmoved
        rw [htask] at htask'
        cases htask'
        exact ⟨channel, code, next a, Function.update_self .., hkey⟩
      · exact ⟨channel, code, rest, (Function.update_of_ne hmoved _ _).trans htask', hkey⟩
    · rcases history_of_perform hperform with hhist | ⟨f, note, hf, hnote, hhist⟩
      · exact absurd (hhist ▸ hev) hold
      · have hnew : ev = ⟨t, f.key, i.now, note⟩ := by
          have hev' : ev ∈ cfg.shared.history ++ [⟨t, f.key, i.now, note⟩] := hhist ▸ hev
          rcases List.mem_append.mp hev' with h | h
          · exact absurd h hold
          · exact List.mem_singleton.mp h
        subst hnew
        obtain ⟨channel, code, rfl, hkey⟩ := (hobeys t _ htask).head r (hnote.trans (congrArg some hr))
        exact ⟨channel, code, next a, Function.update_self .., hkey f hf⟩

/-- An entry of an allow list names a sender: it is his id, or it is the name he goes by, with or without
    the `@` and in any case. -/
def Names (entry id : String) (username : Option String) : Prop :=
  trim entry = trim id ∨ ∃ u, username = some u ∧ (toLowercase (trim entry) = toLowercase (trim u) ∨
    toLowercase (trim entry) = "@" ++ (stripPrefix (toLowercase (trim u)) "@").getD (toLowercase (trim u)))

variable {username : Option String} {id : String}

theorem names_of_allows (h : allows [entry] id username = true) : Names entry id username := by
  unfold allows at h
  split at h
  next hid => exact .inl (by simpa using hid)
  next =>
    cases username with
    | none => cases h
    | some u => exact .inr ⟨u, rfl, by simpa using h⟩

/-- Calls of the run use the same files only for the same channel. -/
def Apart (ls : List machine.Label) : Prop :=
  ∀ t c t' c', .start t c ∈ ls → .start t' c' ∈ ls → ∀ key, safeChannelKey c.channel = .ok key →
    safeChannelKey c'.channel = .ok key → toLowercase (trim c.channel) = toLowercase (trim c'.channel)

/-- **Only an approval admits a sender.** In every interleaving of any callers, with any operations failing:
    if a sender was found allowed, some `approve` on that channel has taken a pending request whose id names him;
    if that call has returned, it returned the request, or an error. -/
theorem admitted_only_after_approval {ls : List machine.Label} {cfg : machine.Config}
    (run : Runs machine.step (fun _ _ => True) (machine.initial Disk.empty) ls cfg) (hapart : Apart ls) {t : Nat}
    {channel id : String} {username : Option String}
    (hret : cfg.Returned t (.isSenderAllowed channel id username) (.ok true)) :
    ∃ t' channel' code rest r, cfg.tasks t' = some ⟨.approve channel' code, rest⟩ ∧
      toLowercase (trim channel') = toLowercase (trim channel) ∧
      (∃ key, (key, r) ∈ cfg.shared.takenBy t') ∧ Names (trim r.id) id username ∧
      ∀ out, rest = .ret out → out = .ok (some r) ∨ ∃ e, out = .error e := by
  have hgood : admission.Good cfg :=
    admission.run run (by intro _ _ h; cases h) (fun _ => rfl) (fun _ _ _ => True.intro)
      fun c _ hpre => admission_body c hpre
  obtain ⟨key, entry, hkey, ⟨ev, hev, r, rfl, hnote, rfl⟩, hallows⟩ := hgood.post hret rfl
  obtain ⟨channel', code, rest, htask, hkey'⟩ := attributed_run run ev hev r hnote
  have htaken := mem_takenBy hev hnote
  have hstarted := Machine.started_of_run run
  have hchannel := hapart _ _ _ _ (hstarted _ _ htask) (hstarted _ _ hret) ev.key hkey' hkey
  refine ⟨ev.task, channel', code, rest, r, htask, hchannel, ⟨ev.key, htaken⟩, names_of_allows hallows, ?_⟩
  rintro out rfl
  exact hgood.post htask (ev.key, r) htaken

/-! ## Runs in which nobody approved the sender -/

/-- An operation at time `now` that succeeds; every draw for a code is the same letter. -/
def Input.plain (now : Nat) (letter : Fin 32) : Input := ⟨now, false, fun _ _ => letter, 0⟩

/-- A call that runs alone, in `n` operations. -/
def alone (t : Nat) (c : Call) (n : Nat) (i : Input) : List machine.Label :=
  .start t c :: List.replicate n (.step t i)

/-- The channel, the code and the id of the request that task `t` returned as approved. -/
def approvedBy (cfg : machine.Config) (t : Nat) : Option (String × String × String) :=
  match cfg.tasks t with
  | some ⟨.approve channel code, .ret (.ok (some r))⟩ => some (channel, code, r.id)
  | _ => none

/-- The sender that task `t` was asked about, and its answer. -/
def answerOf (cfg : machine.Config) (t : Nat) : Option (String × String × Option String × Bool) :=
  match cfg.tasks t with
  | some ⟨.isSenderAllowed channel id username, .ret (.ok answer)⟩ => some (channel, id, username, answer)
  | _ => none

variable {t : Nat}

theorem returned_of_answerOf {answer : Bool}
    (h : answerOf cfg t = some (channel, id, username, answer)) :
    cfg.Returned t (.isSenderAllowed channel id username) (.ok answer) := by
  unfold answerOf at h
  split at h
  next htask =>
    cases h
    exact htask
  next => cases h

theorem returned_of_approvedBy {code : String} (h : approvedBy cfg t = some (channel, code, id)) :
    ∃ r, cfg.Returned t (.approve channel code) (.ok (some r)) ∧ r.id = id := by
  unfold approvedBy at h
  split at h
  next r htask =>
    cases h
    exact ⟨r, htask, rfl⟩
  next => cases h

/-- What the store does when the steps `ls` are taken from an empty directory. -/
def after (ls : List machine.Label) : Option machine.Config := ls.foldlM machine.step (machine.initial Disk.empty)

/-- Only an approval under the sender's own id, or under his name with an `@`, on a channel of the same name. -/
def AdmitsOwn (cfg : machine.Config) : Prop :=
  ∀ t channel id username, cfg.Returned t (.isSenderAllowed channel id username) (.ok true) →
    ∃ t' channel' code r, cfg.Returned t' (.approve channel' code) (.ok (some r)) ∧
      toLowercase (trim channel') = toLowercase (trim channel) ∧
      (trim r.id = trim id ∨ ∃ u, username = some u ∧
        toLowercase r.id = "@" ++ (stripPrefix (toLowercase (trim u)) "@").getD (toLowercase (trim u)))

/-- A sender asks to be paired under the id `123`, somebody takes the approval so far, and a sender writes. -/
def paired (approving : List machine.Label) (id : String) (username : Option String) : List machine.Label :=
  alone 0 (.upsertRequest "telegram" "123" none) 13 (.plain 5 3) ++
  .start 1 (.approve "telegram" "DDDDDDDD") :: approving ++
  alone 2 (.isSenderAllowed "telegram" id username) 1 (.plain 7 3)

/-- The approval returns, and a sender who calls himself `123` writes. -/
def sameName : List machine.Label := paired (List.replicate 19 (.step 1 (.plain 6 3))) "999" (some "123")

/-- The approval has written the list, and not returned. -/
def unfinished : List machine.Label := paired (List.replicate 16 (.step 1 (.plain 6 3))) "123" none

/-- The approval has written the list, and its lock cannot be released: it returns an error. -/
def failed : List machine.Label :=
  paired (List.replicate 16 (.step 1 (.plain 6 3)) ++ .step 1 { Input.plain 6 3 with fails := true } ::
    List.replicate 2 (.step 1 (.plain 6 3))) "123" none

/-- A sender is approved on the channel `a/b`, and writes on the channel `a:b`. -/
def sameFiles : List machine.Label :=
  alone 0 (.upsertRequest "a/b" "123" none) 13 (.plain 5 3) ++
  alone 1 (.approve "a/b" "DDDDDDDD") 19 (.plain 6 3) ++
  alone 2 (.isSenderAllowed "a:b" "123" none) 1 (.plain 7 3)

/-- The one approval of a run is what it has returned, and that does not admit the sender. -/
theorem not_admitsOwn (hls : after ls = some cfg)
    (hstart : ∀ t c, .start t c ∈ ls → t = 1 ∨ ∀ channel code, c ≠ .approve channel code)
    (hallowed : answerOf cfg 2 = some (channel, id, username, true))
    (hwrong : ∀ channel' code approved, approvedBy cfg 1 = some (channel', code, approved) →
      toLowercase (trim channel') = toLowercase (trim channel) → ¬(trim approved = trim id ∨ ∃ u, username = some u ∧
        toLowercase approved = "@" ++ (stripPrefix (toLowercase (trim u)) "@").getD (toLowercase (trim u)))) :
    ¬AdmitsOwn cfg := by
  intro hown
  obtain ⟨t', channel', code, r, hret, hchannel, hmatch⟩ := hown 2 channel id username
    (returned_of_answerOf hallowed)
  have hstarted := Machine.started_of_run (Runs.of_foldlM hls) t' _ hret
  rcases hstart t' _ hstarted with rfl | hne
  · have hgiven : approvedBy cfg 1 = some (channel', code, r.id) := by
      have htask : cfg.tasks 1 = some ⟨.approve channel' code, .ret (.ok (some r))⟩ := hret
      simp only [approvedBy, htask]
    exact hwrong channel' code r.id hgiven hchannel hmatch
  · exact hne channel' code rfl

/-- A run that ends in a state with a given property, computed. -/
theorem observed {P : machine.Config → Prop} [DecidablePred P]
    (h : ((after ls).map fun cfg => decide (P cfg)) = some true) : ∃ cfg, after ls = some cfg ∧ P cfg := by
  obtain ⟨cfg, hls, hP⟩ := Option.map_eq_some_iff.mp h
  exact ⟨cfg, hls, of_decide_eq_true hP⟩

theorem sameName_run : ∃ cfg, after sameName = some cfg ∧ approvedBy cfg 1 = some ("telegram", "DDDDDDDD", "123") ∧
    answerOf cfg 2 = some ("telegram", "999", some "123", true) := observed (by decide +kernel)

/-- The calls of such a run, in order. -/
theorem started_paired {approving : List machine.Label} (happroving : ∀ t c, .start t c ∉ approving) {t : Nat} {c : Call}
    (h : .start t c ∈ paired approving id username) : (t = 1 ∨ ∀ channel code, c ≠ .approve channel code) ∧
      c.channel = "telegram" := by
  simp only [paired, alone, List.mem_append, List.mem_cons, List.mem_replicate, Machine.Label.start.injEq,
    reduceCtorEq, and_false, or_false, happroving] at h
  rcases h with (⟨-, rfl⟩ | ⟨rfl, rfl⟩) | ⟨-, rfl⟩
  · exact ⟨.inr fun _ _ => nofun, rfl⟩
  · exact ⟨.inl rfl, rfl⟩
  · exact ⟨.inr fun _ _ => nofun, rfl⟩

/-- The run in which the other sender is let in, and the approval he owes it to. -/
theorem other_name_was_approved : ∃ cfg : machine.Config, ∃ t' channel' code rest r,
    cfg.tasks t' = some ⟨.approve channel' code, rest⟩ ∧
    toLowercase (trim channel') = toLowercase (trim "telegram") ∧
    (∃ key, (key, r) ∈ cfg.shared.takenBy t') ∧ Names (trim r.id) "999" (some "123") ∧
    ∀ out, rest = .ret out → out = .ok (some r) ∨ ∃ e, out = .error e := by
  obtain ⟨cfg, hls, -, hanswer⟩ := sameName_run
  have hapart : Apart sameName := by
    intro t c t' c' hc hc' _ _ _
    rw [(started_paired (by simp) hc).2, (started_paired (by simp) hc').2]
  exact ⟨cfg, admitted_only_after_approval (Runs.of_foldlM hls) hapart (returned_of_answerOf hanswer)⟩

/-- A name of one's own choosing is as good as an approved id; and who is approved is admitted before the approval
    returns, and when it returns an error. -/
theorem admits_other_name_and_without_return :
    (∃ cfg, Runs machine.step (fun _ _ => True) (machine.initial Disk.empty) sameName cfg ∧ ¬AdmitsOwn cfg) ∧
    (∃ cfg, Runs machine.step (fun _ _ => True) (machine.initial Disk.empty) unfinished cfg ∧ ¬AdmitsOwn cfg) ∧
    (∃ cfg, Runs machine.step (fun _ _ => True) (machine.initial Disk.empty) failed cfg ∧ ¬AdmitsOwn cfg) := by
  have hunfinished : ∃ cfg, after unfinished = some cfg ∧ approvedBy cfg 1 = none ∧
      answerOf cfg 2 = some ("telegram", "123", none, true) := observed (by decide +kernel)
  have hfailed : ∃ cfg, after failed = some cfg ∧ approvedBy cfg 1 = none ∧
      answerOf cfg 2 = some ("telegram", "123", none, true) := observed (by decide +kernel)
  refine ⟨?_, ?_, ?_⟩
  · obtain ⟨cfg, hls, happroved, hanswer⟩ := sameName_run
    refine ⟨cfg, Runs.of_foldlM hls, not_admitsOwn hls (fun t c h => (started_paired (by simp) h).1) hanswer ?_⟩
    intro channel' code approved hgiven _ hmatch
    obtain ⟨-, -, rfl⟩ : "telegram" = channel' ∧ "DDDDDDDD" = code ∧ "123" = approved := by
      simpa using happroved.symm.trans hgiven
    rcases hmatch with hid | ⟨u, hu, hname⟩
    · revert hid
      decide
    · cases hu
      revert hname
      decide
  · obtain ⟨cfg, hls, hnone, hanswer⟩ := hunfinished
    refine ⟨cfg, Runs.of_foldlM hls, not_admitsOwn hls (fun t c h => (started_paired (by simp) h).1) hanswer ?_⟩
    exact fun _ _ _ hgiven => absurd (hnone.symm.trans hgiven) nofun
  · obtain ⟨cfg, hls, hnone, hanswer⟩ := hfailed
    refine ⟨cfg, Runs.of_foldlM hls, not_admitsOwn hls (fun t c h => (started_paired (by simp) h).1) hanswer ?_⟩
    exact fun _ _ _ hgiven => absurd (hnone.symm.trans hgiven) nofun

-- Two names of one file: the approval on the one channel admits on the other.
example : ∃ cfg, after sameFiles = some cfg ∧ approvedBy cfg 1 = some ("a/b", "DDDDDDDD", "123") ∧
    answerOf cfg 2 = some ("a:b", "123", none, true) := observed (by decide +kernel)

end Freeclawdia.Pairing
