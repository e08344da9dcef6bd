import Freeclawdia.Correctness.PairingAdmission

/-!
# `Correctness.PairingLists` — whether an approved sender stays on the list

`add_allow_from` opens the list with `truncate(true)`: the list is empty before it is locked and read, so what
is written back is the new entry alone. Approving a second sender removes the first. `listing` is the outline
of what remains true: as long as an approval finds on the list nobody but the sender it is about, everyone
approved is on it.

The ids that are approved have no surrounding space and are not empty (`proper`, for all interleavings), so
the entry written is the request's id itself.
-/

namespace Freeclawdia.Pairing

open Rust

variable {t : Nat} {o : FileOp} {i : Input} {s s' : Disk} {channel key : String}

/-! ## Ids in pending requests -/

theorem trim_trim (s : String) : trim (trim s) = trim s := by
  simp only [trim, String.toList_ofList]
  exact congrArg String.ofList (trimBy_idem isWhitespace s.toList)

/-- A request as `upsert_request` makes it. -/
def Proper (r : PairingRequest) : Prop := r.id ≠ "" ∧ trim r.id = r.id

def ProperPost : (c : Call) → Out c → Prop
  | .approve _ _, out => ∀ r, out = .ok (some r) → Proper r
  | _, _ => True

def proper : Outline machine where
  Inv s := ∀ key, ∀ r ∈ s.items (pairingPath key), Proper r
  Rely _ _ _ := True
  Pre _ _ := True
  Allowed _ _ _ _ := True
  Post _ c out _ := ProperPost c out
  rely_refl _ _ := True.intro
  rely_trans _ _ := True.intro
  pre_stable _ _ := True.intro
  post_stable h _ _ := h

theorem proper_move {a : Ans o} (h : perform t o i s = some (a, s')) (hinv : proper.Inv s)
    (hwrites : ∀ key items note, o = .writeAll (pairingPath key) items note → ∀ r ∈ items, Proper r) :
    proper.Move t s s' := by
  refine ⟨?_, fun _ _ => True.intro⟩
  intro key r hr
  rcases items_of_perform h (pairingPath key) with hold | ⟨note, hwrite⟩
  · exact hinv key r (hold r hr)
  · exact hwrites key _ note hwrite r hr

/-- Every write of a pending list is of proper requests. -/
def WritesProper (o : FileOp) : Prop :=
  ∀ key items note, o = .writeAll (pairingPath key) items note → ∀ r ∈ items, Proper r

variable {α : Type} {p : Prog FileOp Ans α}

theorem proper_every (hp : p.Every WritesProper) : proper.Holds t (fun _ _ => True) p s := by
  refine Outline.holds_every (φ := WritesProper) (J := fun _ => True) ?_ (fun _ _ _ => True.intro) hp True.intro
  intro o i a s s' hwrites hinv _ hperform _
  exact ⟨proper_move hperform hinv hwrites, True.intro⟩

variable {name : FileName}

theorem writesProper_of_within (h : Within channel name o) (hname : name ≠ .pairing) : WritesProper o := by
  rintro key items note rfl
  exact absurd (h (pairingPath key) rfl).1.symm hname

/-- Reading a pending list gives proper requests. -/
theorem proper_read {Q : α → Disk → Prop} {next : Except IoError (List PairingRequest) → Prog FileOp Ans α}
    (hnext : ∀ r s, (∀ list, r = .ok list → ∀ x ∈ list, Proper x) → proper.Holds t Q (next r) s) :
    proper.Holds t Q (.op (.readToString (pairingPath key)) next) s := by
  refine holds_op fun s' _ hinv i a s'' hperform _ => ?_
  refine ⟨proper_move hperform hinv (by rintro _ _ _ ⟨⟩), hnext a s'' ?_⟩
  intro list hlist x hx
  rcases perform_readToString hperform with ⟨rfl, -, -⟩ | ⟨rfl, -, -⟩ | ⟨items, rfl, htext, -⟩
  · cases hlist
  · cases hlist
  · cases hlist
    refine hinv key x ?_
    rw [Disk.items, htext]
    exact hx

variable {requests : List PairingRequest} {r : PairingRequest}

theorem mem_unexpired {nowSecs : Nat} (h : r ∈ unexpired nowSecs requests) : r ∈ requests := List.mem_of_mem_filter h

theorem position_eq_some {p : α → Bool} {l before after : List α} {x : α} (h : position p l = some (before, x, after)) :
    l = before ++ x :: after ∧ p x = true ∧ ∀ y ∈ before, p y = false := by
  induction l generalizing before with
  | nil => cases h
  | cons y l ih =>
    rw [position] at h
    split at h
    next hy =>
      cases h
      exact ⟨rfl, hy, by simp⟩
    next hy =>
      obtain ⟨⟨before', x', after'⟩, hpos, heq⟩ := Option.map_eq_some_iff.mp h
      cases heq
      obtain ⟨rfl, hx, hbefore⟩ := ih hpos
      refine ⟨rfl, hx, fun z hz => ?_⟩
      rcases List.mem_cons.mp hz with rfl | hz
      · simpa using hy
      · exact hbefore z hz

theorem writesProper_of_ne (h : ∀ key items note, o ≠ .writeAll (pairingPath key) items note) : WritesProper o :=
  fun key items note ho => absurd ho (h key items note)

theorem properLocked {note : Option Note} (h : ∀ r ∈ requests, Proper r) :
    (writePairingFileLocked key requests note).run.Every WritesProper := by
  refine writePairingFileLocked_every (fun o ho _ hne => writesProper_of_ne ?_) ?_
  · rintro key' items note rfl
    obtain rfl : key' = key := by simpa [FileOp.target] using ho
    exact hne items note rfl
  · rintro _ _ _ ⟨⟩
    exact h

theorem listPending_proper : proper.Holds t (fun _ _ => True) (listPending channel).run s := by
  unfold listPending
  refine holds_keyOf (fun key _ => ?_) fun _ _ => True.intro
  refine proper_read fun res s hread => ?_
  rcases res with e | stored
  · cases e <;> exact Outline.holds_ret True.intro
  · have hstored := hread stored rfl
    refine (proper_every (now_every (writesProper_of_ne nofun))).bindE (fun nowSecs s _ => ?_) fun _ _ _ => True.intro
    refine Outline.Holds.bindE (Q := fun _ _ => True) ?_ (fun _ _ _ => Outline.holds_ret True.intro)
      fun _ _ _ => True.intro
    apply proper_every
    unfold writeIfShorter
    split
    · refine writePairingFile_every fun o _ _ hitems => ?_
      rintro key items note ho r hr
      rw [hitems key items note ho] at hr
      exact hstored r (mem_unexpired hr)
    · exact Prog.every_ret

theorem upsertRequest_proper {id : String} {metadata : Option Json} :
    proper.Holds t (fun _ _ => True) (upsertRequest channel id metadata).run s := by
  have hquiet : ∀ {α : Type} {x : StoreM α} {s : Disk}, x.run.Every WritesProper →
      proper.Holds t (fun _ _ => True) x.run s := fun h => proper_every h
  unfold upsertRequest
  refine holds_keyOf (fun key _ => ?_) fun _ _ => True.intro
  refine (hquiet (createDirAll_every (writesProper_of_ne nofun))).bindE (fun _ s _ => ?_) fun _ _ _ => True.intro
  refine (hquiet (openFile_every (writesProper_of_ne nofun))).bindE (fun _ s _ => ?_) fun _ _ _ => True.intro
  refine holds_inScope (Q := fun _ _ => True) ?_ fun _ _ _ => proper_every (close_every (writesProper_of_ne nofun))
  refine (hquiet (lockExclusive_every (writesProper_of_ne nofun))).bindE (fun _ s _ => ?_) fun _ _ _ => True.intro
  refine proper_read fun res s hread => ?_
  have hstored : ∀ r ∈ res.toOption.getD [], Proper r := by
    intro r hr
    cases res with
    | error _ => cases hr
    | ok list => exact hread list rfl r hr
  refine (hquiet (now_every (writesProper_of_ne nofun))).bindE (fun nowIso s _ => ?_) fun _ _ _ => True.intro
  refine (hquiet (now_every (writesProper_of_ne nofun))).bindE (fun nowSecs s _ => ?_) fun _ _ _ => True.intro
  have hunlock : (unlock (pairingPath key) none).run.Every WritesProper := unlock_every (writesProper_of_ne nofun)
  apply proper_every
  split
  · exact .bindE hunlock fun _ => Prog.every_ret
  next hid =>
    dsimp only
    split
    next before req after hpos =>
      have hrequests : ∀ r ∈ before ++ req :: after, Proper r := by
        rw [← (position_eq_some hpos).1]
        exact fun r hr => hstored r (mem_unexpired hr)
      have hreq : Proper req := hrequests req (by simp)
      unfold refreshRequest keptCode
      refine .bindE ?_ fun code => ?_
      · split
        · exact Prog.every_call (writesProper_of_ne nofun)
        · exact Prog.every_ret
      · refine .bindE (properLocked ?_) fun _ => Prog.Every.bindE hunlock fun _ => Prog.every_ret
        intro r hr
        rcases List.mem_append.mp hr with hr | hr
        · exact hrequests r (List.mem_append_left _ hr)
        · rcases List.mem_cons.mp hr with rfl | hr
          · exact hreq
          · exact hrequests r (List.mem_append_right _ (List.mem_cons_of_mem _ hr))
    next =>
      unfold addRequest
      split
      · exact .bindE hunlock fun _ => Prog.every_ret
      · refine .bindE (Prog.every_call (writesProper_of_ne nofun)) fun code => ?_
        refine .bindE (properLocked ?_) fun _ => Prog.Every.bindE hunlock fun _ => Prog.every_ret
        intro r hr
        rcases List.mem_append.mp hr with hr | hr
        · exact hstored r (mem_unexpired hr)
        · obtain rfl := List.mem_singleton.mp hr
          exact ⟨hid, trim_trim id⟩

variable {code given : String}

theorem approveCode_proper :
    proper.Holds t (fun out _ => ProperPost (.approve channel given) out) (approveCode channel code).run s := by
  unfold approveCode
  refine holds_keyOf (fun key _ => ?_) fun _ _ _ hout => by cases hout
  have hopen : (openExisting (pairingPath key)).run.Every WritesProper :=
    Prog.every_call (writesProper_of_ne nofun)
  have hunlock : ∀ {note}, (unlock (pairingPath key) note).run.Every WritesProper :=
    unlock_every (writesProper_of_ne nofun)
  refine (proper_every hopen).bindE (fun _ s _ => ?_) fun _ _ _ _ hout => by cases hout
  refine holds_inScope (Q := fun out _ => ProperPost (.approve channel given) out) ?_ ?_
  · refine (proper_every (lockExclusive_every (writesProper_of_ne nofun))).bindE (fun _ s _ => ?_)
      fun _ _ _ _ hout => by cases hout
    refine proper_read fun res s hread => ?_
    have hstored : ∀ r ∈ res.toOption.getD [], Proper r := by
      intro r hr
      cases res with
      | error _ => cases hr
      | ok list => exact hread list rfl r hr
    refine (proper_every (now_every (writesProper_of_ne nofun))).bindE (fun nowSecs s _ => ?_)
      fun _ _ _ _ hout => by cases hout
    split
    next before entry after hpos =>
      have hrequests : ∀ r ∈ before ++ entry :: after, Proper r := by
        rw [← (position_eq_some hpos).1]
        exact fun r hr => hstored r (mem_unexpired hr)
      have hleft : ∀ r ∈ before ++ after, Proper r := fun r hr => hrequests r (by
        rcases List.mem_append.mp hr with h | h
        · exact List.mem_append_left _ h
        · exact List.mem_append_right _ (List.mem_cons_of_mem _ h))
      refine (proper_every (properLocked hleft)).bindE (fun _ s _ => ?_) fun _ _ _ _ hout => by cases hout
      refine (proper_every hunlock).bindE (fun _ s _ => ?_) fun _ _ _ _ hout => by cases hout
      have hadd : (addAllowFrom channel entry.id).run.Every WritesProper :=
        addAllowFrom_every fun o ho _ => writesProper_of_within ho (by simp)
      refine (proper_every hadd).bindE (fun _ s _ => ?_) fun _ _ _ _ hout => by cases hout
      refine Outline.holds_ret fun r hout => ?_
      cases hout
      exact hrequests entry (by simp)
    next =>
      have hrecord : (recordFailedApprove channel).run.Every WritesProper :=
        recordFailedApprove_every fun o ho _ => writesProper_of_within ho (by simp)
      refine (proper_every hunlock).bindE (fun _ s _ => ?_) fun _ _ _ _ hout => by cases hout
      refine (proper_every hrecord).bindE (fun _ s _ => ?_) fun _ _ _ _ hout => by cases hout
      exact Outline.holds_ret fun r hout => by cases hout
  · intro out s hpost
    refine holds_op fun s' _ hinv i a s'' hperform _ => ?_
    exact ⟨proper_move hperform hinv nofun, Outline.holds_ret hpost⟩

theorem proper_body (c : Call) : proper.Holds t (fun out _ => ProperPost c out) (body c) s := by
  have hread : ∀ {channel : String} (key : String), safeChannelKey channel = .ok key →
      WritesProper (.readToString (allowFromPath key)) := fun key _ => writesProper_of_ne nofun
  cases c with
  | listPending channel => exact listPending_proper.mono fun _ _ _ => True.intro
  | upsertRequest channel id metadata => exact upsertRequest_proper.mono fun _ _ _ => True.intro
  | readAllowFrom channel => exact (proper_every (readAllowFrom_every hread)).mono fun _ _ _ => True.intro
  | isSenderAllowed channel id username =>
    exact (proper_every (isSenderAllowed_every hread)).mono fun _ _ _ => True.intro
  | approve channel code =>
    show proper.Holds t _ (ExceptT.run (approve channel code)) s
    unfold approve
    split
    · exact Outline.holds_ret fun r hout => by cases hout
    · have hcheck : (isApproveRateLimited channel).run.Every WritesProper :=
        isApproveRateLimited_every fun o ho _ => writesProper_of_within ho (by simp)
      refine (proper_every hcheck).bindE (fun limited s _ => ?_) fun _ _ _ _ hout => by cases hout
      split
      · exact Outline.holds_ret fun r hout => by cases hout
      · exact approveCode_proper

/-- **Every approved id is the entry that is added for it**, in every interleaving. -/
theorem proper_of_approved {C : machine.Config → machine.Label → Prop} {ls : List machine.Label} {cfg : machine.Config}
    (run : Runs machine.step C (machine.initial Disk.empty) ls cfg)
    (hret : cfg.Returned t (.approve channel code) (.ok (some r))) : Proper r := by
  have hgood : proper.Good cfg :=
    proper.run run (by intro _ _ h; cases h) (fun _ => True.intro) (fun _ _ _ => True.intro)
      fun c _ _ => proper_body c
  exact hgood.post hret r rfl

/-! ## The list between approvals -/

/-- A file looks the same, but for who holds its lock and who has read it. -/
structure SameFile {α : Type} (st st' : FileState α) : Prop where
  text : st'.text = st.text
  incoming : st'.incoming = st.incoming
  openers : st'.openers = st.openers

theorem SameFile.refl (st : FileState α) : SameFile st st := ⟨rfl, rfl, rfl⟩

theorem SameFile.trans {st st' st'' : FileState α} (h : SameFile st st') (h' : SameFile st' st'') :
    SameFile st st'' := ⟨h'.text.trans h.text, h'.incoming.trans h.incoming, h'.openers.trans h.openers⟩

/-- Operations after which every file looks the same. -/
def FileOp.Passive : FileOp → Prop
  | .openFile .. => False
  | .setLenZero .. => False
  | .writeAll .. => False
  | .close _ => False
  | _ => True

variable {f : FileId}

theorem sameFile_setFile {g : FileId} {st : FileState f.name.Item} (h : SameFile (s.files f) st) :
    SameFile (s.files g) ((s.setFile f st).files g) := by
  by_cases hg : g = f
  · subst hg
    rw [setFile_files_self]
    exact h
  · rw [setFile_files_of_ne _ _ hg]
    exact .refl _

theorem sameFile_of_passive {a : Ans o} (h : perform t o i s = some (a, s')) (hpassive : o.Passive) (g : FileId) :
    SameFile (s.files g) (s'.files g) := by
  cases o with
  | createDirAll f =>
    obtain ⟨-, rfl⟩ := perform_plain (.inl h)
    exact .refl _
  | seek f =>
    obtain ⟨-, rfl⟩ := perform_plain (.inr (.inl h))
    exact .refl _
  | syncAll f =>
    obtain ⟨-, rfl⟩ := perform_plain (.inr (.inr h))
    exact .refl _
  | now =>
    obtain ⟨-, rfl⟩ := perform_now h
    exact .refl _
  | generateUniqueCode existing =>
    obtain ⟨-, rfl⟩ := perform_generateUniqueCode h
    exact .refl _
  | lockExclusive f =>
    rcases perform_lockExclusive h with ⟨-, -, rfl⟩ | ⟨-, -, rfl⟩
    · exact .refl _
    · exact sameFile_setFile (s := s.tick i.now) ⟨rfl, rfl, rfl⟩
  | readToString f =>
    rcases perform_readToString h with ⟨-, -, rfl⟩ | ⟨-, -, rfl⟩ | ⟨items, -, -, rfl⟩
    · exact .refl _
    · exact .refl _
    · exact sameFile_setFile (s := s.tick i.now) ⟨rfl, rfl, rfl⟩
  | unlock f note =>
    rcases perform_unlock h with ⟨-, -, rfl⟩ | ⟨-, rfl⟩
    · exact .refl _
    · rw [record_files]
      exact sameFile_setFile (s := s.tick i.now) ⟨rfl, rfl, rfl⟩
  | openFile f create truncate incoming => cases hpassive
  | setLenZero f incoming => cases hpassive
  | writeAll f items note => cases hpassive
  | close f => cases hpassive

/-- All the lists look the same. -/
def SameLists (s s' : Disk) : Prop := ∀ key, SameFile (s.files (allowFromPath key)) (s'.files (allowFromPath key))

theorem sameLists_of_perform {a : Ans o} (h : perform t o i s = some (a, s'))
    (hquiet : o.Passive ∨ ∀ key, o.target ≠ some (allowFromPath key)) : SameLists s s' := by
  intro key
  rcases hquiet with hpassive | htarget
  · exact sameFile_of_passive h hpassive _
  · rw [files_of_perform h (htarget key)]
    exact .refl _

theorem contents_of_sameFile (h : SameFile (s.files f) (s'.files f)) : s'.contents f = s.contents f := by
  rw [Disk.contents, Disk.items, h.incoming, h.text, Disk.contents, Disk.items]

/-- One call at a time has a list open, and a list that nobody has open is not about to be written. -/
def ListsIdle (s : Disk) : Prop :=
  ∀ key, (s.files (allowFromPath key)).openers.length ≤ 1 ∧
    ((s.files (allowFromPath key)).openers = [] → (s.files (allowFromPath key)).incoming = none)

/-- **The condition.** No operation on a list fails, and a list is truncated only while no other call has it
    open and when nobody is on it but the sender about to be added. -/
def KeepsList (o : FileOp) (i : Input) (s : Disk) : Prop :=
  ∀ key, o.target = some (allowFromPath key) → i.fails = false ∧
    ∀ create incoming, o = .openFile (allowFromPath key) create true incoming →
      (s.files (allowFromPath key)).openers = [] ∧ ∀ e ∈ s.items (allowFromPath key), e ∈ incoming.getD []

def ListingPost : (c : Call) → Out c → Disk → Prop
  | .approve channel _, out, s => ∀ r, out = .ok (some r) → trim r.id ≠ "" →
      ∀ key, safeChannelKey channel = .ok key → trim r.id ∈ s.contents (allowFromPath key)
  | _, _, _ => True

/-- Nobody leaves a list, and a list that a task has open is its own. -/
structure KeptLists (t : Nat) (s s' : Disk) : Prop where
  kept : ∀ key, ∀ e ∈ s.contents (allowFromPath key), e ∈ s'.contents (allowFromPath key)
  own : ∀ key, (t, true) ∈ (s.files (allowFromPath key)).openers →
    SameFile (s.files (allowFromPath key)) (s'.files (allowFromPath key))

theorem SameLists.kept (h : SameLists s s') : KeptLists t s s' :=
  ⟨fun key e he => by rwa [contents_of_sameFile (h key)], fun key _ => h key⟩

def listing : Outline machine where
  Inv := ListsIdle
  Rely := KeptLists
  Pre _ _ := True
  Allowed _ := KeepsList
  Post _ := ListingPost
  rely_refl _ _ := ⟨fun _ _ he => he, fun _ _ => .refl _⟩
  rely_trans h h' := ⟨fun key e he => h'.kept key e (h.kept key e he), fun key ht =>
    (h.own key ht).trans (h'.own key ((h.own key ht).openers ▸ ht))⟩
  pre_stable _ _ := True.intro
  post_stable := by
    intro t c out s s' hpost hrely _
    cases c with
    | approve channel code => exact fun r hout hne key hkey => hrely.kept key _ (hpost r hout hne key hkey)
    | listPending channel => exact True.intro
    | upsertRequest channel id metadata => exact True.intro
    | readAllowFrom channel => exact True.intro
    | isSenderAllowed channel id username => exact True.intro

theorem listing_same (hinv : ListsIdle s) (h : SameLists s s') : listing.Move t s s' := by
  refine ⟨fun key => ?_, fun t' _ => h.kept⟩
  rw [(h key).openers, (h key).incoming]
  exact hinv key

/-- Operations that leave the lists alone. -/
def Aside (o : FileOp) : Prop := o.Passive ∨ ∀ key, o.target ≠ some (allowFromPath key)

theorem listing_aside (hp : p.Every Aside) {H : Disk → Prop}
    (hsame : ∀ {s s'}, H s → SameLists s s' → H s') (hrely : ∀ {s s'}, H s → KeptLists t s s' → H s') (hH : H s) :
    listing.Holds t (fun _ => H) p s := by
  refine Outline.holds_every (φ := Aside) ?_ (fun hH hkept _ => hrely hH hkept) hp hH
  intro o i a s s' haside hinv hH hperform _
  have hlists := sameLists_of_perform hperform haside
  exact ⟨listing_same hinv hlists, hsame hH hlists⟩

/-- A step on a list that nobody else has open. -/
theorem listing_own {st : FileState String} (hinv : ListsIdle s)
    (hfiles : s'.files = (s.setFile (allowFromPath key) st).files)
    (hopeners : ∀ t', t' ≠ t → (t', true) ∉ (s.files (allowFromPath key)).openers)
    (hlength : st.openers.length ≤ 1) (hidle : st.openers = [] → st.incoming = none)
    (hkept : ∀ e ∈ s.contents (allowFromPath key), e ∈ st.incoming.getD (st.text.getD [])) : listing.Move t s s' := by
  have hthis : s'.files (allowFromPath key) = st := by rw [hfiles, setFile_files_self]
  have hother : ∀ {key'}, key' ≠ key → s'.files (allowFromPath key') = s.files (allowFromPath key') := by
    intro key' hne
    have hfile : allowFromPath key' ≠ allowFromPath key := by simpa using hne
    rw [hfiles, setFile_files_of_ne _ _ hfile]
  refine ⟨fun key' => ?_, fun t' ht => ⟨fun key' e he => ?_, fun key' hopen => ?_⟩⟩
  · by_cases hkey : key' = key
    · subst hkey
      rw [hthis]
      exact ⟨hlength, hidle⟩
    · rw [hother hkey]
      exact hinv key'
  · by_cases hkey : key' = key
    · subst hkey
      rw [Disk.contents, Disk.items, hthis]
      exact hkept e he
    · rw [Disk.contents, Disk.items, hother hkey]
      exact he
  · by_cases hkey : key' = key
    · subst hkey
      exact absurd hopen (hopeners t' ht)
    · rw [hother hkey]
      exact .refl _

/-- Task `t` alone has the list open; this is in it, and about to be. -/
def HasOpen (t : Nat) (key : String) (text : List String) (incoming : Option (List String)) (s : Disk) : Prop :=
  (s.files (allowFromPath key)).openers = [(t, true)] ∧ (s.files (allowFromPath key)).text = some text ∧
    (s.files (allowFromPath key)).incoming = incoming

section

variable {text : List String} {incoming : Option (List String)}

theorem HasOpen.same (h : HasOpen t key text incoming s)
    (hsame : SameFile (s.files (allowFromPath key)) (s'.files (allowFromPath key))) : HasOpen t key text incoming s' :=
  ⟨hsame.openers.trans h.1, hsame.text.trans h.2.1, hsame.incoming.trans h.2.2⟩

theorem HasOpen.rely (h : HasOpen t key text incoming s) (hkept : KeptLists t s s') :
    HasOpen t key text incoming s' := h.same (hkept.own key (by simp [h.1]))

theorem HasOpen.others (h : HasOpen t key text incoming s) {t' : Nat} (ht : t' ≠ t) :
    (t', true) ∉ (s.files (allowFromPath key)).openers := by simp [h.1, ht]

theorem HasOpen.contents (h : HasOpen t key text incoming s) : s.contents (allowFromPath key) = incoming.getD text := by
  rw [Disk.contents, Disk.items, h.2.1, h.2.2]
  rfl

/-- Locking, reading and unlocking leave an open list as it is; nothing fails. -/
theorem HasOpen.passive {α : Type} {Q : α → Disk → Prop} {next : Ans o → Prog FileOp Ans α}
    (h : HasOpen t key text incoming s) (hpassive : o.Passive) (htarget : o.target = some (allowFromPath key))
    (hnext : ∀ (i : Input) (a : Ans o) s' s'', perform t o i s' = some (a, s'') → i.fails = false →
      HasOpen t key text incoming s' → HasOpen t key text incoming s'' → listing.Holds t Q (next a) s'') :
    listing.Holds t Q (.op o next) s := by
  refine holds_op fun s' (hrely : KeptLists t s s') (hinv : ListsIdle s') i a s'' hperform hallowed => ?_
  have hsame := sameLists_of_perform hperform (.inl hpassive)
  have h' := h.rely hrely
  exact ⟨listing_same hinv hsame, hnext i a s' s'' hperform (hallowed key htarget).1 h' (h'.same (hsame key))⟩

theorem lockList_holds (h : HasOpen t key text incoming s) :
    listing.Holds t (fun out s => out = .ok () ∧ HasOpen t key text incoming s)
      (lockExclusive (allowFromPath key)).run s := by
  refine h.passive True.intro rfl fun i a s' s'' hperform hfails _ h => Outline.holds_ret ⟨?_, h⟩
  rcases perform_lockExclusive hperform with ⟨-, hf, -⟩ | ⟨rfl, -, -⟩
  · rw [hfails] at hf
    cases hf
  · rfl

theorem unlockList_holds (h : HasOpen t key text incoming s) :
    listing.Holds t (fun out s => out = .ok () ∧ HasOpen t key text incoming s)
      (unlock (allowFromPath key) none).run s := by
  refine h.passive True.intro rfl fun i a s' s'' hperform hfails _ h => Outline.holds_ret ⟨?_, h⟩
  rcases perform_unlock hperform with ⟨-, hf, -⟩ | ⟨rfl, -⟩
  · rw [hfails] at hf
    cases hf
  · rfl

theorem readList_holds (h : HasOpen t key text incoming s) :
    listing.Holds t (fun out s => out = .ok text ∧ HasOpen t key text incoming s)
      (readOrEmpty (allowFromPath key)).run s := by
  refine h.passive True.intro rfl fun i a s' s'' hperform hfails h' h => Outline.holds_ret ⟨?_, h⟩
  rcases perform_readToString hperform with ⟨-, hf, -⟩ | ⟨-, hnone, -⟩ | ⟨items, rfl, hitems, -⟩
  · rw [hfails] at hf
    cases hf
  · rw [h'.2.1] at hnone
    cases hnone
  · rw [h'.2.1] at hitems
    cases hitems
    rfl

end

variable {entry : String}

theorem openList_holds : listing.Holds t (fun out s => out = .ok () ∧ HasOpen t key [] (some [entry]) s)
      (openFile (allowFromPath key) true true (some [entry])).run s := by
  refine holds_op fun s' _ (hinv : ListsIdle s') i a s'' hperform hallowed => ?_
  obtain ⟨hfails, hopen⟩ := hallowed key rfl
  obtain ⟨hnobody, honly⟩ := hopen true (some [entry]) rfl
  rcases perform_openFile hperform with ⟨-, hf, -⟩ | ⟨-, -, hcreate, -⟩ | ⟨rfl, -, rfl⟩
  · rw [hfails] at hf
    cases hf
  · cases hcreate
  · refine ⟨listing_own hinv rfl ?_ ?_ ?_ ?_, Outline.holds_ret ⟨rfl, ?_⟩⟩
    · simp [hnobody]
    · simp [hnobody]
    · simp
    · intro e he
      rw [Disk.contents, (hinv key).2 hnobody] at he
      simpa using honly e he
    · refine ⟨?_, ?_, ?_⟩
      · simp [hnobody]
      · simp
      · simp

variable {list text : List String}

theorem setLen_holds {incoming : Option (List String)} (h : HasOpen t key text incoming s)
    (hkept : ∀ e ∈ incoming.getD text, e ∈ list) :
    listing.Holds t (fun out s => out = .ok () ∧ HasOpen t key [] (some list) s)
      (setLenZero (allowFromPath key) list).run s := by
  refine holds_op fun s' (hrely : KeptLists t s s') (hinv : ListsIdle s') i a s'' hperform hallowed => ?_
  have h := h.rely hrely
  have hfails := (hallowed key rfl).1
  rcases perform_setLenZero hperform with ⟨-, hf, -⟩ | ⟨rfl, rfl⟩
  · rw [hfails] at hf
    cases hf
  · refine ⟨listing_own hinv rfl (fun t' ht => h.others ht) ?_ ?_ ?_, Outline.holds_ret ⟨rfl, ?_⟩⟩
    · simp [h.1]
    · simp [h.1]
    · intro e he
      rw [h.contents] at he
      exact hkept e he
    · exact ⟨by simp [h.1], by simp, by simp⟩

theorem writeList_holds (h : HasOpen t key [] (some list) s) :
    listing.Holds t (fun out s => out = .ok () ∧ HasOpen t key list none s)
      (writeAll (allowFromPath key) list none).run s := by
  refine holds_op fun s' (hrely : KeptLists t s s') (hinv : ListsIdle s') i a s'' hperform hallowed => ?_
  have h := h.rely hrely
  have hfails := (hallowed key rfl).1
  rcases perform_writeAll hperform with ⟨-, hf, -⟩ | ⟨rfl, rfl⟩
  · rw [hfails] at hf
    cases hf
  · refine ⟨listing_own hinv rfl (fun t' ht => h.others ht) ?_ ?_ ?_, Outline.holds_ret ⟨rfl, ?_⟩⟩
    · simp [h.1]
    · simp
    · intro e he
      rw [h.contents] at he
      simpa using he
    · exact ⟨by simp [Disk.record, h.1], by simp [Disk.record], by simp [Disk.record]⟩

theorem closeList_holds {out : α} (h : HasOpen t key text none s) :
    listing.Holds t (fun out' s => out' = out ∧ ∀ e ∈ text, e ∈ s.contents (allowFromPath key))
      (.op (.close (allowFromPath key)) fun _ => .ret out) s := by
  refine holds_op fun s' (hrely : KeptLists t s s') (hinv : ListsIdle s') i a s'' hperform hallowed => ?_
  have h := h.rely hrely
  obtain rfl := perform_close hperform
  refine ⟨listing_own hinv rfl (fun t' ht => h.others ht) ?_ ?_ ?_, Outline.holds_ret ⟨rfl, ?_⟩⟩
  · simp [h.1]
  · simp [h.2.2]
  · intro e he
    rw [h.contents] at he
    simpa [h.2.1, h.2.2] using he
  · intro e he
    rw [Disk.contents, Disk.items, setFile_files_self]
    simpa [h.2.1, h.2.2] using he

/-- Adding a sender who is alone on the list. -/
theorem addAllowFrom_listing (hkey : safeChannelKey channel = .ok key) :
    listing.Holds t (fun out s => out = .ok () → trim entry ≠ "" → trim entry ∈ s.contents (allowFromPath key))
      (addAllowFrom channel entry).run s := by
  unfold addAllowFrom
  dsimp only
  split
  next hempty => exact Outline.holds_ret fun _ hne => absurd hempty hne
  refine holds_keyOf (fun key' hkey' => ?_) fun e he hout => by cases hout
  obtain rfl : key = key' := Except.ok.inj (hkey.symm.trans hkey')
  have hcreate : (createDirAll (allowFromPath key)).run.Every Aside := createDirAll_every (.inl True.intro)
  have hstart : listing.Holds t (fun _ _ => True) (createDirAll (allowFromPath key)).run s :=
    listing_aside hcreate (fun _ _ => True.intro) (fun _ _ => True.intro) True.intro
  refine hstart.bindE (fun _ s _ => ?_) fun _ _ _ hout => by cases hout
  refine openList_holds.bindE (fun _ s h => ?_) fun _ _ _ hout => by cases hout
  refine holds_inScope (Q := fun out s => out = .ok () ∧ HasOpen t key [trim entry] none s) ?_ ?_
  · refine (lockList_holds h.2).bindE (fun _ s h => ?_) fun _ _ h => by cases h.1
    refine (readList_holds h.2).bindE (fun list s h => ?_) fun _ _ h => by cases h.1
    obtain ⟨hlist, h⟩ := h
    cases hlist
    -- What is read from the list just truncated is empty: nobody is found on it, and one entry is written.
    have hwrite : listing.Holds t (fun out s => out = .ok () ∧ HasOpen t key [trim entry] none s)
        (fsWrite (allowFromPath key) ([] ++ [trim entry])).run s := by
      unfold fsWrite
      refine (setLen_holds h (by simp)).bindE (fun _ s h => ?_) fun _ _ h => by cases h.1
      exact writeList_holds h.2
    refine hwrite.bindE (fun _ s h => ?_) fun _ _ h => by cases h.1
    exact unlockList_holds h.2
  · rintro out s ⟨rfl, h⟩
    exact (closeList_holds h).mono fun out s hout _ _ => hout.2 _ (by simp)

theorem aside_of_target (hf : o.target = some f) (hname : f.name ≠ .allowFrom) : Aside o := by
  refine .inr fun key hkey => hname ?_
  rw [hf] at hkey
  rw [Option.some.inj hkey]

theorem aside_of_within (h : Within channel name o) (hname : name ≠ .allowFrom) : Aside o :=
  .inr fun _ hkey => hname (h _ hkey).1.symm

/-- A stretch of program that leaves the lists alone. -/
theorem listing_skip (hp : p.Every Aside) : listing.Holds t (fun _ _ => True) p s :=
  listing_aside hp (fun _ _ => True.intro) (fun _ _ => True.intro) True.intro

theorem approveCode_listing :
    listing.Holds t (ListingPost (.approve channel given)) (approveCode channel code).run s := by
  unfold approveCode
  refine holds_keyOf (fun key hkey => ?_) fun _ _ _ hout => by cases hout
  have hpairing : ∀ {o : FileOp}, o.target = some (pairingPath key) → Aside o :=
    fun hf => aside_of_target hf (by simp)
  have hopen : (openExisting (pairingPath key)).run.Every Aside :=
    Prog.every_call (hpairing rfl)
  have hread : (readOrEmpty (pairingPath key)).run.Every Aside :=
    Prog.every_call (hpairing rfl)
  have hunlock : ∀ {note}, (unlock (pairingPath key) note).run.Every Aside := unlock_every (hpairing rfl)
  refine (listing_skip hopen).bindE (fun _ s _ => ?_) fun _ _ _ _ hout => by cases hout
  refine holds_inScope (Q := ListingPost (.approve channel given)) ?_ ?_
  · refine (listing_skip (lockExclusive_every (hpairing rfl))).bindE (fun _ s _ => ?_)
      fun _ _ _ _ hout => by cases hout
    refine (listing_skip hread).bindE (fun stored s _ => ?_) fun _ _ _ _ hout => by cases hout
    refine (listing_skip (now_every (.inl True.intro))).bindE (fun nowSecs s _ => ?_)
      fun _ _ _ _ hout => by cases hout
    split
    next before entry after _ =>
      have hwrite : (writePairingFileLocked key (before ++ after) (some (.taken entry))).run.Every Aside :=
        writePairingFileLocked_every (fun o ho _ _ => hpairing ho) (hpairing rfl)
      refine (listing_skip hwrite).bindE (fun _ s _ => ?_) fun _ _ _ _ hout => by cases hout
      refine (listing_skip hunlock).bindE (fun _ s _ => ?_) fun _ _ _ _ hout => by cases hout
      refine (addAllowFrom_listing hkey).bindE (fun _ s h => ?_) fun _ _ _ _ hout => by cases hout
      refine Outline.holds_ret fun r hout hne key' hkey' => ?_
      cases hout
      obtain rfl : key = key' := Except.ok.inj (hkey.symm.trans hkey')
      exact h rfl hne
    next =>
      have hrecord : (recordFailedApprove channel).run.Every Aside :=
        recordFailedApprove_every fun o ho _ => aside_of_within ho (by simp)
      refine (listing_skip hunlock).bindE (fun _ s _ => ?_) fun _ _ _ _ hout => by cases hout
      refine (listing_skip hrecord).bindE (fun _ s _ => ?_) fun _ _ _ _ hout => by cases hout
      exact Outline.holds_ret fun r hout => by cases hout
  · intro out s hpost
    refine holds_op fun s' (hrely : KeptLists t s s') (hinv : ListsIdle s') i a s'' hperform _ => ?_
    have hsame := sameLists_of_perform hperform (hpairing rfl)
    refine ⟨listing_same hinv hsame, Outline.holds_ret fun r hout hne key' hkey' => ?_⟩
    exact (SameLists.kept (t := t) hsame).kept key' _ (hrely.kept key' _ (hpost r hout hne key' hkey'))

theorem listing_body (c : Call) : listing.Holds t (ListingPost c) (body c) s := by
  cases c with
  | approve channel code =>
    show listing.Holds t _ (ExceptT.run (approve channel code)) s
    unfold approve
    split
    · exact Outline.holds_ret fun r hout => by cases hout
    · have hcheck : (isApproveRateLimited channel).run.Every Aside :=
        isApproveRateLimited_every fun o ho _ => aside_of_within ho (by simp)
      refine (listing_skip hcheck).bindE (fun limited s _ => ?_) fun _ _ _ _ hout => by cases hout
      split
      · exact Outline.holds_ret fun r hout => by cases hout
      · exact approveCode_listing
  | listPending channel =>
    have haside : (listPending channel).run.Every Aside :=
      listPending_every fun o ho _ => aside_of_within ho (by simp)
    exact (listing_skip haside).mono fun _ _ _ => True.intro
  | upsertRequest channel id metadata =>
    have haside : (upsertRequest channel id metadata).run.Every Aside :=
      upsertRequest_every (fun o ho _ => aside_of_within ho (by simp))
        fun key requests req _ => aside_of_target rfl (by simp)
    exact (listing_skip haside).mono fun _ _ _ => True.intro
  | readAllowFrom channel =>
    exact (listing_skip (readAllowFrom_every fun key _ => .inl True.intro)).mono fun _ _ _ => True.intro
  | isSenderAllowed channel id username =>
    exact (listing_skip (isSenderAllowed_every fun key _ => .inl True.intro)).mono fun _ _ _ => True.intro

/-- **Approved senders stay approved**, in every run whose steps keep the lists: once `approve` has returned a
    request, its id is on the list of the channel whenever no call has the list open, and a sender with that
    id is allowed. -/
theorem approved_sender_stays {ls : List machine.Label} {cfg : machine.Config}
    (run : Runs machine.step (machine.StepsMeet fun _ => KeepsList) (machine.initial Disk.empty) ls cfg) {code : String}
    {r : PairingRequest} (hret : cfg.Returned t (.approve channel code) (.ok (some r)))
    (hkey : safeChannelKey channel = .ok key) (hidle : (cfg.shared.files (allowFromPath key)).openers = []) :
    r.id ∈ cfg.shared.items (allowFromPath key) ∧
      allows (cfg.shared.items (allowFromPath key)) r.id none = true := by
  have hgood : listing.Good cfg := by
    refine listing.run run ?_ (fun _ => True.intro) (fun _ hC htask => hC _ _ _ htask) fun c _ _ => listing_body c
    exact fun key => ⟨Nat.zero_le 1, fun _ => rfl⟩
  obtain ⟨hne, htrim⟩ := proper_of_approved run hret
  have hmem := hgood.post hret r rfl (by rwa [htrim]) key hkey
  rw [htrim, Disk.contents, (hgood.inv key).2 hidle] at hmem
  refine ⟨hmem, ?_⟩
  unfold allows
  rw [if_pos]
  exact List.any_eq_true.mpr ⟨r.id, hmem, by simp⟩

/-! ## One approval, and two -/

/-- `KeepsList`, computed. -/
def keepsList (o : FileOp) (i : Input) (s : Disk) : Bool :=
  match o with
  | .openFile ⟨key, .allowFrom⟩ _ true incoming =>
    !i.fails && (s.files (allowFromPath key)).openers.isEmpty &&
      (s.items (allowFromPath key)).all fun e => (incoming.getD []).contains e
  | o => !i.fails || o.target.all fun f => f.name ≠ .allowFrom

theorem keepsList_sound (h : keepsList o i s = true) : KeepsList o i s := by
  intro key hkey
  unfold keepsList at h
  split at h
  next =>
    obtain ⟨rfl, -⟩ := FileId.mk.inj (Option.some.inj hkey)
    simp only [Bool.and_eq_true, Bool.not_eq_true', List.isEmpty_iff, List.all_eq_true,
      List.contains_eq_mem, decide_eq_true_eq] at h
    refine ⟨h.1.1, fun create incoming ho => ?_⟩
    cases ho
    exact ⟨h.1.2, h.2⟩
  next hne =>
    refine ⟨?_, fun create incoming ho => absurd ho (hne key create incoming)⟩
    simpa [hkey] using h

/-- The steps `ls` from an empty directory, as long as each keeps the lists. -/
def afterKeeping (ls : List machine.Label) : Option machine.Config :=
  ls.foldlM (fun cfg l => if machine.stepsMeet (fun _ => keepsList) cfg l then machine.step cfg l else none)
    (machine.initial Disk.empty)

/-- Two senders ask to be paired. -/
def twoAsk : List machine.Label :=
  alone 0 (.upsertRequest "telegram" "u1" none) 13 (.plain 5 0) ++
  alone 1 (.upsertRequest "telegram" "u2" none) 13 (.plain 6 1)

/-- The first is approved. -/
def oneApproval : List machine.Label := twoAsk ++ alone 2 (.approve "telegram" "AAAAAAAA") 19 (.plain 7 0)

/-- Then the second is, and the first one writes. -/
def twoApprovals : List machine.Label :=
  oneApproval ++ alone 3 (.approve "telegram" "BBBBBBBB") 19 (.plain 8 0) ++
  alone 4 (.readAllowFrom "telegram") 1 (.plain 9 0) ++ alone 5 (.isSenderAllowed "telegram" "u1" none) 1 (.plain 9 0)

/-- The list that task `t` read. -/
def listRead (cfg : machine.Config) (t : Nat) : Option (String × List String) :=
  match cfg.tasks t with
  | some ⟨.readAllowFrom channel, .ret (.ok list)⟩ => some (channel, list)
  | _ => none

theorem returned_of_listRead {cfg : machine.Config} (h : listRead cfg t = some (channel, list)) :
    cfg.Returned t (.readAllowFrom channel) (.ok list) := by
  unfold listRead at h
  split at h
  next htask =>
    cases h
    exact htask
  next => cases h

/-- After the second approval the first sender is no longer on the list, and is not let in. -/
theorem second_approval_removes_first : ∃ cfg r,
    Runs machine.step (fun _ _ => True) (machine.initial Disk.empty) twoApprovals cfg ∧
    cfg.Returned 2 (.approve "telegram" "AAAAAAAA") (.ok (some r)) ∧ r.id = "u1" ∧
    cfg.Returned 4 (.readAllowFrom "telegram") (.ok ["u2"]) ∧
    cfg.Returned 5 (.isSenderAllowed "telegram" "u1" none) (.ok false) := by
  obtain ⟨cfg, hls, happroved, hlist, hanswer⟩ : ∃ cfg, after twoApprovals = some cfg ∧
      approvedBy cfg 2 = some ("telegram", "AAAAAAAA", "u1") ∧ listRead cfg 4 = some ("telegram", ["u2"]) ∧
      answerOf cfg 5 = some ("telegram", "u1", none, false) := observed (by decide +kernel)
  obtain ⟨r, hret, hid⟩ := returned_of_approvedBy happroved
  exact ⟨cfg, r, Runs.of_foldlM hls, hret, hid, returned_of_listRead hlist, returned_of_answerOf hanswer⟩

/-- One approval keeps the lists, and the sender is on his. -/
theorem first_approval_stays : ∃ (cfg : machine.Config) (r : PairingRequest), r.id = "u1" ∧
    r.id ∈ cfg.shared.items (allowFromPath "telegram") ∧
    allows (cfg.shared.items (allowFromPath "telegram")) r.id none = true := by
  have hrun : ((afterKeeping oneApproval).map fun cfg =>
      decide (approvedBy cfg 2 = some ("telegram", "AAAAAAAA", "u1") ∧
        (cfg.shared.files (allowFromPath "telegram")).openers = [])) = some true := by decide +kernel
  obtain ⟨cfg, hls, hseen⟩ := Option.map_eq_some_iff.mp hrun
  obtain ⟨happroved, hidle⟩ := of_decide_eq_true hseen
  obtain ⟨r, hret, hid⟩ := returned_of_approvedBy happroved
  refine ⟨cfg, r, hid, ?_⟩
  exact approved_sender_stays (Runs.of_checked (machine.stepsMeet_sound fun _ _ _ _ h => keepsList_sound h) hls) hret
    (by decide +kernel) hidle

end Freeclawdia.Pairing
