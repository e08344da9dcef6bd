import Freeclawdia.Agent.MessageContext

/-!
# `Correctness.MessageDestinations` — where the message tool sends to

A call without channel and target should send to where its turn, or the routine of its job, is; and never to the channel of
one with the target of another. The defaults are shared by all, so this holds when nobody has set them in between: in the
runs whose reads are `Undisturbed`.
-/

namespace Freeclawdia.MessageTool

open Rust

variable {t t' maker k : Nat} {s s' s'' : Shared} {o : Op} {i : Input} {params : Json} {who who' : Maker}

/-! ## What should hold -/

/-- A call without explicit channel and target. -/
def Plain (params : Json) : Prop := given params "channel" = none ∧ given params "target" = none

instance (params : Json) : Decidable (Plain params) := inferInstanceAs (Decidable (_ ∧ _))

/-- The channel of a turn, or of a routine. -/
def Maker.FitsChannel (channel : String) : Maker → Prop
  | .turn message => channel = message.channel
  | .routineJob notify => notify.channel = some channel
  | .job => True

/-- The target of a turn, or of a routine. -/
def Maker.FitsTarget (target : String) : Maker → Prop
  | .turn message => target = message.target
  | .routineJob notify => target = notify.user
  | .job => True

/-- What is sent by calls without explicit destination: channel and target stem from one setting, and they are those of the
turn or routine. -/
def AsClaimed (s : Shared) : Prop :=
  ∀ b ∈ s.broadcasts, Plain b.params →
    (∃ setter, b.channel.setBy = some setter ∧ b.target.setBy = some setter) ∧
      ∀ who, (b.maker, who) ∈ s.makers → who.FitsChannel b.channel.value ∧ who.FitsTarget b.target.value

/-! ## What is asked of a run -/

/-- Turns and routines set the defaults. -/
def Maker.sets : Maker → Bool
  | .turn _ | .routineJob _ => true
  | .job => false

/-- A call without explicit destination, when it reads the channel, finds the one its own turn or routine has set last; and
when it reads the target, the one that was set together with the channel it has read. -/
def Undisturbed (_ : Nat) (o : Op) (_ : Input) (s : Shared) : Prop :=
  match o with
  | .readChannel maker params =>
    given params "target" = none → ∀ e ∈ s.makers, e.1 = maker → e.2.sets = true →
      ∀ d ∈ s.defaultChannel, d.setBy = maker
  | .readTarget _ params channel =>
    given params "channel" = none → ∀ d ∈ s.defaultTarget, channel.setBy = some d.setBy
  | _ => True

/-! ## The invariant -/

/-- The defaults of a turn or routine that goes on are its own, and so is what has been sent. -/
structure Inv (s : Shared) : Prop where
  unique : ∀ k who who', (k, who) ∈ s.makers → (k, who') ∈ s.makers → who = who'
  channel : ∀ d, s.defaultChannel = some d → ∀ who, (d.setBy, who) ∈ s.makers → who.FitsChannel d.value
  target : ∀ d, s.defaultTarget = some d → ∀ who, (d.setBy, who) ∈ s.makers → who.FitsTarget d.value
  made : ∀ b ∈ s.broadcasts, ∃ who, (b.maker, who) ∈ s.makers
  sent : AsClaimed s

/-- Nobody sets a default or goes on in the name of another task, and turns and jobs stay. -/
structure Rely (t : Nat) (s s' : Shared) : Prop where
  channel : ∀ d, s'.defaultChannel = some d → d.setBy = t → s.defaultChannel = some d
  target : ∀ d, s'.defaultTarget = some d → d.setBy = t → s.defaultTarget = some d
  own : ∀ who, (t, who) ∈ s'.makers ↔ (t, who) ∈ s.makers
  kept : ∀ e ∈ s.makers, e ∈ s'.makers

theorem Rely.refl (t : Nat) (s : Shared) : Rely t s s := ⟨fun _ h _ => h, fun _ h _ => h, fun _ => Iff.rfl, fun _ h => h⟩

theorem Rely.trans (h : Rely t s s') (h' : Rely t s' s'') : Rely t s s'' where
  channel d hd ht := h.channel d (h'.channel d hd ht) ht
  target d hd ht := h.target d (h'.target d hd ht) ht
  own who := (h'.own who).trans (h.own who)
  kept e he := h'.kept e (h.kept e he)

/-- The task has not gone on, and defaults it has set are these. -/
structure Setting (t : Nat) (channel target : Option String) (s : Shared) : Prop where
  fresh : ∀ who, (t, who) ∉ s.makers
  channel : ∀ d, s.defaultChannel = some d → d.setBy = t → channel = some d.value
  target : ∀ d, s.defaultTarget = some d → d.setBy = t → target = some d.value

variable {target : Option String} {channel : Option String}

theorem Setting.rely (h : Setting t channel target s) (hr : Rely t s s') :
    Setting t channel target s' where
  fresh who hwho := h.fresh who ((hr.own who).mp hwho)
  channel d hd ht := h.channel d (hr.channel d hd ht) ht
  target d hd ht := h.target d (hr.target d hd ht) ht

/-- The call is made in this turn or job, and a channel without parameter is its own. -/
def KnowsChannel (maker : Nat) (params : Json) (channel : Destination) (s : Shared) : Prop :=
  ∃ who, (maker, who) ∈ s.makers ∧
    (Plain params → ∃ k, channel.setBy = some k ∧ (who.sets = true → k = maker ∧ who.FitsChannel channel.value))

/-- The same for the target, which was set together with the channel. -/
def KnowsBoth (maker : Nat) (params : Json) (channel target : Destination) (s : Shared) : Prop :=
  ∃ who, (maker, who) ∈ s.makers ∧
    (Plain params → (∃ k, channel.setBy = some k ∧ target.setBy = some k) ∧
      who.FitsChannel channel.value ∧ who.FitsTarget target.value)

/-- What a call knows when it comes to an operation. -/
def Knows (t : Nat) (o : Op) (s : Shared) : Prop :=
  match o with
  | .setChannel _ | .setTarget _ => ∀ who, (t, who) ∉ s.makers
  | .goOn who =>
    (∀ who, (t, who) ∉ s.makers) ∧ (∀ d, s.defaultChannel = some d → d.setBy = t → who.FitsChannel d.value) ∧
      ∀ d, s.defaultTarget = some d → d.setBy = t → who.FitsTarget d.value
  | .broadcast maker params channel target _ _ => KnowsBoth maker params channel target s
  | _ => True

/-! ## One operation -/

/-- An operation that changes nothing. -/
def Reads : Op → Prop
  | .call _ | .readChannel _ _ | .readTarget _ _ _ | .checkAttachments _ | .channelNames => True
  | _ => False

theorem perform_reads {a : Ans o} (h : perform t o i s = some (a, s')) (hreads : Reads o) : s' = s := by
  cases o with
  | call maker =>
    simp only [perform] at h
    split at h
    · exact (Prod.mk.inj (Option.some.inj h)).2.symm
    · cases h
  | readChannel maker params => exact (Prod.mk.inj (Option.some.inj h)).2.symm
  | readTarget maker params channel => exact (Prod.mk.inj (Option.some.inj h)).2.symm
  | checkAttachments paths => exact (Prod.mk.inj (Option.some.inj h)).2.symm
  | channelNames => exact (Prod.mk.inj (Option.some.inj h)).2.symm
  | _ => cases hreads

theorem inv_setChannel (hinv : Inv s) (hfresh : ∀ who, (t, who) ∉ s.makers) (channel : Option String) :
    Inv { s with defaultChannel := channel.map fun value => ⟨value, t⟩ } where
  unique := hinv.unique
  channel d hd who hwho := by
    obtain ⟨value, -, rfl⟩ := Option.map_eq_some_iff.mp hd
    exact absurd hwho (hfresh who)
  target := hinv.target
  made := hinv.made
  sent := hinv.sent

theorem inv_setTarget (hinv : Inv s) (hfresh : ∀ who, (t, who) ∉ s.makers) (target : Option String) :
    Inv { s with defaultTarget := target.map fun value => ⟨value, t⟩ } where
  unique := hinv.unique
  channel := hinv.channel
  target d hd who hwho := by
    obtain ⟨value, -, rfl⟩ := Option.map_eq_some_iff.mp hd
    exact absurd hwho (hfresh who)
  made := hinv.made
  sent := hinv.sent

theorem inv_goOn (hinv : Inv s) (hknows : Knows t (.goOn who) s) : Inv { s with makers := (t, who) :: s.makers } where
  unique k w w' hw hw' := by
    rcases List.mem_cons.mp hw with heq | hw
    · rcases List.mem_cons.mp hw' with heq' | hw'
      · exact (Prod.mk.inj heq).2.trans (Prod.mk.inj heq').2.symm
      · exact absurd ((Prod.mk.inj heq).1 ▸ hw') (hknows.1 w')
    · rcases List.mem_cons.mp hw' with heq' | hw'
      · exact absurd ((Prod.mk.inj heq').1 ▸ hw) (hknows.1 w)
      · exact hinv.unique k w w' hw hw'
  channel d hd w hw := by
    rcases List.mem_cons.mp hw with heq | hw
    · rw [(Prod.mk.inj heq).2]
      exact hknows.2.1 d hd (Prod.mk.inj heq).1
    · exact hinv.channel d hd w hw
  target d hd w hw := by
    rcases List.mem_cons.mp hw with heq | hw
    · rw [(Prod.mk.inj heq).2]
      exact hknows.2.2 d hd (Prod.mk.inj heq).1
    · exact hinv.target d hd w hw
  made b hb := by
    obtain ⟨w, hw⟩ := hinv.made b hb
    exact ⟨w, List.mem_cons_of_mem _ hw⟩
  sent b hb hplain := by
    obtain ⟨hsame, hfits⟩ := hinv.sent b hb hplain
    refine ⟨hsame, fun w hw => ?_⟩
    rcases List.mem_cons.mp hw with heq | hw
    · -- What was sent before was sent in another turn or job.
      obtain ⟨w', hw'⟩ := hinv.made b hb
      exact absurd ((Prod.mk.inj heq).1 ▸ hw') (hknows.1 w')
    · exact hfits w hw

theorem inv_broadcast (hinv : Inv s) {b : Broadcast} (hknows : KnowsBoth b.maker b.params b.channel b.target s) :
    Inv { s with broadcasts := b :: s.broadcasts } where
  unique := hinv.unique
  channel := hinv.channel
  target := hinv.target
  made b' hb' := by
    rcases List.mem_cons.mp hb' with rfl | hb'
    · obtain ⟨w, hw, -⟩ := hknows
      exact ⟨w, hw⟩
    · exact hinv.made b' hb'
  sent b' hb' hplain := by
    rcases List.mem_cons.mp hb' with rfl | hb'
    · obtain ⟨w, hw, hknows⟩ := hknows
      obtain ⟨hsame, hfits⟩ := hknows hplain
      exact ⟨hsame, fun w' hw' => hinv.unique _ w w' hw hw' ▸ hfits⟩
    · exact hinv.sent b' hb' hplain

theorem inv_perform (hinv : Inv s) (hknows : Knows t o s) {a : Ans o} (h : perform t o i s = some (a, s')) : Inv s' := by
  cases o with
  | setChannel channel => cases h; exact inv_setChannel hinv hknows channel
  | setTarget target => cases h; exact inv_setTarget hinv hknows target
  | goOn who =>
    simp only [perform] at h
    split at h
    · cases h; exact hinv
    · cases h; exact inv_goOn hinv hknows
  | broadcast maker params channel target content attachments =>
    cases h
    exact inv_broadcast hinv (b := ⟨t, maker, params, channel, target, content, attachments⟩) hknows
  | call maker => rw [perform_reads h trivial]; exact hinv
  | readChannel maker params => rw [perform_reads h trivial]; exact hinv
  | readTarget maker params channel => rw [perform_reads h trivial]; exact hinv
  | checkAttachments paths => rw [perform_reads h trivial]; exact hinv
  | channelNames => rw [perform_reads h trivial]; exact hinv

/-- What the other tasks see of an operation. -/
theorem rely_perform {a : Ans o} (h : perform t o i s = some (a, s')) (hne : t' ≠ t) : Rely t' s s' := by
  cases o with
  | setChannel channel =>
    cases h
    refine ⟨fun d hd ht => ?_, fun _ hd _ => hd, fun _ => Iff.rfl, fun _ he => he⟩
    obtain ⟨value, -, rfl⟩ := Option.map_eq_some_iff.mp hd
    exact absurd ht.symm hne
  | setTarget target =>
    cases h
    refine ⟨fun _ hd _ => hd, fun d hd ht => ?_, fun _ => Iff.rfl, fun _ he => he⟩
    obtain ⟨value, -, rfl⟩ := Option.map_eq_some_iff.mp hd
    exact absurd ht.symm hne
  | goOn who =>
    simp only [perform] at h
    split at h
    · cases h; exact Rely.refl t' s
    · cases h
      refine ⟨fun _ hd _ => hd, fun _ hd _ => hd, fun w => ?_, fun _ he => List.mem_cons_of_mem _ he⟩
      rw [List.mem_cons]
      exact ⟨fun hw => hw.resolve_left fun heq => hne (Prod.mk.inj heq).1, .inr⟩
  | broadcast maker params channel target content attachments =>
    cases h
    exact ⟨fun _ hd _ => hd, fun _ hd _ => hd, fun _ => Iff.rfl, fun _ he => he⟩
  | call maker => rw [perform_reads h trivial]; exact Rely.refl t' s
  | readChannel maker params => rw [perform_reads h trivial]; exact Rely.refl t' s
  | readTarget maker params channel => rw [perform_reads h trivial]; exact Rely.refl t' s
  | checkAttachments paths => rw [perform_reads h trivial]; exact Rely.refl t' s
  | channelNames => rw [perform_reads h trivial]; exact Rely.refl t' s

/-! ## The calls -/

variable {serdeError : Json → String}

def destinations (serdeError : Json → String) : Outline (machine serdeError) where
  Inv := Inv
  Rely := Rely
  Pre t s := Setting t none none s
  Allowed := Undisturbed
  Post _ _ _ _ := True
  rely_refl := Rely.refl
  rely_trans := Rely.trans
  pre_stable := Setting.rely
  post_stable _ _ _ := trivial

/-- One operation: the others may have come in before it. -/
theorem holds_perf (o : Op) {Q : Ans o → Shared → Prop}
    (h : ∀ s' i a s'', Rely t s s' → Inv s' → Undisturbed t o i s' → perform t o i s' = some (a, s'') →
      Knows t o s' ∧ Q a s'') : (destinations serdeError).Holds t Q (perf o) s := by
  apply Outline.holds_op
  intro s' hrely hinv i a s'' hop hallowed
  obtain ⟨hknows, hQ⟩ := h s' i a s'' hrely hinv hallowed hop
  exact ⟨⟨inv_perform hinv hknows hop, fun t' hne => rely_perform hop hne⟩, Outline.holds_ret hQ⟩

theorem holds_setContext (h : Setting t none none s) :
    (destinations serdeError).Holds t (fun _ => Setting t channel target) (setContext channel target) s := by
  unfold setContext
  refine Outline.Holds.bind (Q := fun (_ : Unit) (s : Shared) => Setting t channel none s) ?_ fun _ s h => ?_
  · refine holds_perf (.setChannel channel) fun s' i a s'' hr _ _ hop => ?_
    have h' := h.rely hr
    cases hop
    refine ⟨h'.fresh, h'.fresh, fun d hd _ => ?_, h'.target⟩
    obtain ⟨value, hvalue, rfl⟩ := Option.map_eq_some_iff.mp hd
    exact hvalue
  · refine holds_perf (.setTarget target) fun s' i a s'' hr _ _ hop => ?_
    have h' := h.rely hr
    cases hop
    refine ⟨h'.fresh, h'.fresh, h'.channel, fun d hd _ => ?_⟩
    obtain ⟨value, hvalue, rfl⟩ := Option.map_eq_some_iff.mp hd
    exact hvalue

/-- Going on, once the defaults the task has set are its own. -/
theorem holds_goOn (h : Setting t channel target s)
    (hchannel : ∀ value, channel = some value → who.FitsChannel value)
    (htarget : ∀ value, target = some value → who.FitsTarget value) :
    (destinations serdeError).Holds t (fun _ _ => True) (perf (Op.goOn who)) s := by
  refine holds_perf (.goOn who) fun s' i a s'' hr _ _ _ => ⟨?_, trivial⟩
  have h' := h.rely hr
  refine ⟨h'.fresh, fun d hd ht => ?_, fun d hd ht => ?_⟩
  · exact hchannel _ (h'.channel d hd ht)
  · exact htarget _ (h'.target d hd ht)

theorem holds_handleMessage (message : TurnMessage) (h : Setting t none none s) :
    (destinations serdeError).Holds t (fun _ _ => True) (handleMessage message) s := by
  unfold handleMessage
  refine (holds_setContext h).bind fun _ s h => ?_
  refine holds_goOn h (fun value hvalue => ?_) fun value hvalue => ?_
  · exact (Option.some.inj hvalue).symm
  · exact (Option.some.inj hvalue).symm

theorem holds_executeFullJob (notify : NotifyConfig) (h : Setting t none none s) :
    (destinations serdeError).Holds t (fun _ _ => True) (executeFullJob notify) s := by
  unfold executeFullJob
  obtain ⟨channel, user⟩ := notify
  cases channel with
  | none =>
    refine (holds_goOn h (fun value hvalue => ?_) fun value hvalue => ?_).bind fun r s _ => ?_
    · cases hvalue
    · cases hvalue
    · cases r with
      | error e => exact Outline.holds_ret trivial
      | ok u => exact Outline.holds_ret trivial
  | some channel =>
    refine (holds_setContext h).bind fun _ s h => ?_
    refine (holds_goOn h (fun value hvalue => ?_) fun value hvalue => ?_).bind fun r s _ => ?_
    · exact hvalue
    · exact (Option.some.inj hvalue).symm
    · cases r with
      | error e => exact Outline.holds_ret trivial
      | ok u => exact Outline.holds_ret trivial

/-! ### The tool -/

variable {channel : Destination}

theorem KnowsChannel.rely (h : KnowsChannel maker params channel s) (hr : Rely t s s') :
    KnowsChannel maker params channel s' := by
  obtain ⟨who, hwho, h⟩ := h
  exact ⟨who, hr.kept _ hwho, h⟩

theorem KnowsBoth.rely {target : Destination} (h : KnowsBoth maker params channel target s) (hr : Rely t s s') :
    KnowsBoth maker params channel target s' := by
  obtain ⟨who, hwho, h⟩ := h
  exact ⟨who, hr.kept _ hwho, h⟩

theorem fits_of_not_sets (h : ¬ who.sets = true) (channel target : String) :
    who.FitsChannel channel ∧ who.FitsTarget target := by
  cases who with
  | turn message => exact absurd rfl h
  | routineJob notify => exact absurd rfl h
  | job => exact ⟨trivial, trivial⟩

theorem holds_channelOf (h : (maker, who) ∈ s.makers) : (destinations serdeError).Holds t
    (fun (r : Option Destination) s => ∀ channel, r = some channel → KnowsChannel maker params channel s)
    (channelOf maker params) s := by
  unfold channelOf
  split
  next c hc =>
    refine Outline.holds_ret fun channel hchannel => ⟨who, h, fun hplain => ?_⟩
    rw [hplain.1] at hc
    cases hc
  next hnone =>
    refine holds_perf (.readChannel maker params) fun s' i a s'' hr hinv hundisturbed hop => ⟨trivial, ?_⟩
    have hwho := hr.kept _ h
    cases hop
    intro channel hchannel
    obtain ⟨d, hd, rfl⟩ := Option.map_eq_some_iff.mp hchannel
    refine ⟨who, hwho, fun hplain => ⟨d.setBy, rfl, fun hsets => ?_⟩⟩
    -- Nobody but the turn or routine has set it since.
    have hown : d.setBy = maker := hundisturbed hplain.2 _ hwho rfl hsets d hd
    exact ⟨hown, hinv.channel d hd who (hown ▸ hwho)⟩

theorem holds_targetOf (h : KnowsChannel maker params channel s) : (destinations serdeError).Holds t
      (fun (r : Option Destination) s => ∀ target, r = some target → KnowsBoth maker params channel target s)
      (targetOf maker params channel) s := by
  unfold targetOf
  split
  next c hc =>
    obtain ⟨who, hwho, -⟩ := h
    refine Outline.holds_ret fun target htarget => ⟨who, hwho, fun hplain => ?_⟩
    rw [hplain.2] at hc
    cases hc
  next hnone =>
    refine holds_perf (.readTarget maker params channel) fun s' i a s'' hr hinv hundisturbed hop => ⟨trivial, ?_⟩
    obtain ⟨who, hwho, hknows⟩ := h.rely hr
    cases hop
    intro target htarget
    obtain ⟨d, hd, rfl⟩ := Option.map_eq_some_iff.mp htarget
    refine ⟨who, hwho, fun hplain => ?_⟩
    obtain ⟨k, hk, hown⟩ := hknows hplain
    have hsame : channel.setBy = some d.setBy := hundisturbed hplain.1 d hd
    refine ⟨⟨d.setBy, hsame, rfl⟩, ?_⟩
    by_cases hsets : who.sets = true
    · obtain ⟨hmaker, hfits⟩ := hown hsets
      refine ⟨hfits, hinv.target d hd who ?_⟩
      rw [← Option.some.inj (hk.symm.trans hsame), hmaker]
      exact hwho
    · exact fits_of_not_sets hsets _ _

theorem holds_send {target : Destination} (content : String) (h : KnowsBoth maker params channel target s) :
    (destinations serdeError).Holds t (fun _ _ => True) (send serdeError maker params channel target content) s := by
  unfold send
  cases attachmentsOf params with
  | none => exact Outline.holds_ret trivial
  | some attachments =>
    refine Outline.Holds.bind (Q := fun (_ : Option String) s => KnowsBoth maker params channel target s) ?_
      fun r s h => ?_
    · refine holds_perf (.checkAttachments attachments) fun s' i a s'' hr _ _ hop => ⟨trivial, ?_⟩
      rw [perform_reads hop trivial]
      exact h.rely hr
    · cases r with
      | some e => exact Outline.holds_ret trivial
      | none =>
        refine Outline.Holds.bind (Q := fun (_ : Except String Unit) _ => True) ?_ fun r s _ => ?_
        · exact holds_perf (.broadcast maker params channel target content attachments)
            fun s' i a s'' hr _ _ _ => ⟨h.rely hr, trivial⟩
        · cases r with
          | ok u => exact Outline.holds_ret trivial
          | error e =>
            refine Outline.Holds.bind (Q := fun (_ : List String) _ => True) ?_ fun names s _ =>
              Outline.holds_ret trivial
            exact holds_perf .channelNames fun _ _ _ _ _ _ _ _ => ⟨trivial, trivial⟩

theorem holds_execute (maker : Nat) (params : Json) :
    (destinations serdeError).Holds t (fun _ _ => True) (execute serdeError maker params) s := by
  unfold execute
  refine Outline.Holds.bind (Q := fun (_ : Unit) (s : Shared) => ∃ who, (maker, who) ∈ s.makers) ?_ fun _ s h => ?_
  · refine holds_perf (.call maker) fun s' i a s'' _ _ _ hop => ⟨trivial, ?_⟩
    simp only [perform] at hop
    split at hop
    next hthere =>
      cases hop
      obtain ⟨⟨k, who⟩, hmem, hk⟩ := List.any_eq_true.mp hthere
      exact ⟨who, of_decide_eq_true hk ▸ hmem⟩
    next => cases hop
  obtain ⟨who, hwho⟩ := h
  cases requireStr params "content" with
  | error e => exact Outline.holds_ret trivial
  | ok content =>
    refine (holds_channelOf hwho).bind fun r s h => ?_
    cases r with
    | none => exact Outline.holds_ret trivial
    | some channel =>
      refine (holds_targetOf (h channel rfl)).bind fun r s h => ?_
      cases r with
      | none => exact Outline.holds_ret trivial
      | some target => exact holds_send content (h target rfl)

variable (c : Call)

theorem holds_body (h : Setting t none none s) :
    (destinations serdeError).Holds t (fun _ _ => True) (body serdeError c) s := by
  cases c with
  | handleMessage message => exact holds_handleMessage message h
  | executeFullJob notify => exact holds_executeFullJob notify h
  | dispatchJob => exact holds_goOn h (fun _ _ => trivial) fun _ _ => trivial
  | execute maker params => exact holds_execute maker params

/-! ## The books are true -/

/-- What a call goes on as. -/
def Call.maker? : Call → Option Maker
  | .handleMessage message => some (.turn message)
  | .executeFullJob notify => some (.routineJob notify)
  | .dispatchJob => some .job
  | .execute _ _ => none

/-- A call goes on as itself, and sends for itself. -/
def Names (o : Op) : Prop :=
  match o with
  | .goOn who => c.maker? = some who
  | .broadcast maker params _ _ _ _ => c = .execute maker params
  | _ => True

theorem every_setContext (channel target : Option String) : (setContext channel target).Every (Names c) :=
  (Prog.every_perf trivial).bind fun _ => Prog.every_perf trivial

theorem every_channelOf (maker : Nat) (params : Json) : (channelOf maker params).Every (Names c) := by
  unfold channelOf
  split
  · exact Prog.every_ret
  · exact Prog.every_perf trivial

theorem every_targetOf (maker : Nat) (params : Json) (channel : Destination) :
    (targetOf maker params channel).Every (Names c) := by
  unfold targetOf
  split
  · exact Prog.every_ret
  · exact Prog.every_perf trivial

theorem every_send (maker : Nat) (params : Json) (channel target : Destination) (content : String) :
    (send serdeError maker params channel target content).Every (Names (.execute maker params)) := by
  unfold send
  cases attachmentsOf params with
  | none => exact Prog.every_ret
  | some attachments =>
    refine (Prog.every_perf trivial).bind fun r => ?_
    cases r with
    | some e => exact Prog.every_ret
    | none =>
      refine (Prog.every_perf (by rfl)).bind fun r => ?_
      cases r with
      | ok u => exact Prog.every_ret
      | error e => exact (Prog.every_perf trivial).bind fun names => Prog.every_ret

theorem every_body : (body serdeError c).Every (Names c) := by
  cases c with
  | handleMessage message => exact (every_setContext _ _ _).bind fun _ => Prog.every_perf (by rfl)
  | dispatchJob => exact Prog.every_perf (by rfl)
  | executeFullJob notify =>
    obtain ⟨channel, user⟩ := notify
    cases channel with
    | none =>
      refine (Prog.every_perf (by rfl)).bind fun r => ?_
      cases r with
      | error e => exact Prog.every_ret
      | ok u => exact Prog.every_ret
    | some channel =>
      refine (every_setContext _ _ _).bind fun _ => (Prog.every_perf (by rfl)).bind fun r => ?_
      cases r with
      | error e => exact Prog.every_ret
      | ok u => exact Prog.every_ret
  | execute maker params =>
    refine (Prog.every_perf trivial).bind fun _ => ?_
    cases requireStr params "content" with
    | error e => exact Prog.every_ret
    | ok content =>
      refine (every_channelOf _ maker params).bind fun r => ?_
      cases r with
      | none => exact Prog.every_ret
      | some channel =>
        refine (every_targetOf _ maker params channel).bind fun r => ?_
        cases r with
        | none => exact Prog.every_ret
        | some target => exact every_send maker params channel target content

/-- Who goes on and who sends is who made that call. -/
structure Booked (cfg : (machine serdeError).Config) : Prop where
  makers : ∀ k who, (k, who) ∈ cfg.shared.makers → ∃ task, cfg.tasks k = some task ∧ task.call.maker? = some who
  broadcasts : ∀ b ∈ cfg.shared.broadcasts, ∃ task, cfg.tasks b.task = some task ∧ task.call = .execute b.maker b.params

/-- A task that there is makes the call it was started with. -/
theorem call_kept {cfg cfg' : (machine serdeError).Config} {l : (machine serdeError).Label}
    (hstep : (machine serdeError).step cfg l = some cfg') {k : Nat} {task : (machine serdeError).Task}
    (htask : cfg.tasks k = some task) : ∃ task', cfg'.tasks k = some task' ∧ task'.call = task.call := by
  rcases Machine.step_cases hstep with ⟨t, c, rfl, hnone, rfl⟩ | ⟨t, i, c, o, next, a, s', rfl, hmoving, -, rfl⟩
  · have hne : k ≠ t := by
      rintro rfl
      rw [hnone] at htask
      cases htask
    exact ⟨task, (Function.update_of_ne hne _ _).trans htask, rfl⟩
  · by_cases heq : k = t
    · subst heq
      rw [hmoving] at htask
      obtain rfl := Option.some.inj htask
      exact ⟨_, Function.update_self .., rfl⟩
    · exact ⟨task, (Function.update_of_ne heq _ _).trans htask, rfl⟩

theorem booked_run {C : (machine serdeError).Config → (machine serdeError).Label → Prop}
    {ls : List (machine serdeError).Label} {cfg : (machine serdeError).Config}
    (run : Runs (machine serdeError).step C ((machine serdeError).initial {}) ls cfg) : Booked cfg := by
  refine (run.invariant (P := fun _ cfg => Machine.Obeys Names cfg ∧ Booked cfg) ⟨?_, ?_, ?_⟩ ?_).2
  · intro t task htask
    cases htask
  · intro k who hmem
    cases hmem
  · intro b hb
    cases hb
  intro _ cfg cfg' l ⟨hobeys, hbooked⟩ _ hstep
  refine ⟨hobeys.step every_body hstep, ?_⟩
  -- What was in the books stays true; what one operation adds is true by what the call may do.
  have hmakers : ∀ k who, (k, who) ∈ cfg.shared.makers → ∃ task, cfg'.tasks k = some task ∧
    task.call.maker? = some who := by
    intro k who hmem
    obtain ⟨task, htask, hwho⟩ := hbooked.makers k who hmem
    obtain ⟨task', htask', hcall⟩ := call_kept hstep htask
    exact ⟨task', htask', hcall ▸ hwho⟩
  have hsent : ∀ b ∈ cfg.shared.broadcasts, ∃ task, cfg'.tasks b.task = some task ∧
    task.call = .execute b.maker b.params := by
    intro b hb
    obtain ⟨task, htask, hcall⟩ := hbooked.broadcasts b hb
    obtain ⟨task', htask', hcall'⟩ := call_kept hstep htask
    exact ⟨task', htask', hcall'.trans hcall⟩
  rcases Machine.step_cases hstep with ⟨t, c, rfl, -, rfl⟩ | ⟨t, i, c, o, next, a, s', rfl, hmoving, hop, rfl⟩
  · exact ⟨hmakers, hsent⟩
  · have hnames : Names c o := (hobeys t _ hmoving).head
    have hop : perform t o i cfg.shared = some (a, s') := hop
    have hthere : ∃ task : (machine serdeError).Task,
        Function.update cfg.tasks t (some ⟨c, next a⟩) t = some task ∧ task.call = c :=
      ⟨_, Function.update_self .., rfl⟩
    cases o with
    | goOn who =>
      simp only [perform] at hop
      split at hop
      · cases hop; exact ⟨hmakers, hsent⟩
      · cases hop
        refine ⟨fun k w hmem => ?_, hsent⟩
        rcases List.mem_cons.mp hmem with heq | hmem
        · obtain ⟨rfl, rfl⟩ := Prod.mk.inj heq
          obtain ⟨task, htask, rfl⟩ := hthere
          exact ⟨task, htask, hnames⟩
        · exact hmakers k w hmem
    | broadcast maker params channel target content attachments =>
      cases hop
      refine ⟨hmakers, fun b hb => ?_⟩
      rcases List.mem_cons.mp hb with rfl | hb
      · obtain ⟨task, htask, rfl⟩ := hthere
        exact ⟨task, htask, hnames⟩
      · exact hsent b hb
    | setChannel channel => cases hop; exact ⟨hmakers, hsent⟩
    | setTarget target => cases hop; exact ⟨hmakers, hsent⟩
    | call maker => rw [perform_reads hop trivial]; exact ⟨hmakers, hsent⟩
    | readChannel maker params => rw [perform_reads hop trivial]; exact ⟨hmakers, hsent⟩
    | readTarget maker params channel => rw [perform_reads hop trivial]; exact ⟨hmakers, hsent⟩
    | checkAttachments paths => rw [perform_reads hop trivial]; exact ⟨hmakers, hsent⟩
    | channelNames => rw [perform_reads hop trivial]; exact ⟨hmakers, hsent⟩

/-! ## Every interleaving -/

theorem inv_initial : Inv {} where
  unique k who who' h := by cases h
  channel d h := by cases h
  target d h := by cases h
  made b h := by cases h
  sent b h := by cases h

theorem setting_initial (t : Nat) : Setting t none none {} where
  fresh who h := by cases h
  channel d h := by cases h
  target d h := by cases h

/-- **The message tool speaks to its own conversation**, in every interleaving whose reads are undisturbed: what a
call without explicit channel and target sends goes to a channel and a target that one call of `set_context` set; in a
chat turn, to those of its message; in the job of a routine, to those of the routine. -/
theorem messages_speak_to_their_own {ls : List (machine serdeError).Label} {cfg : (machine serdeError).Config}
    (run : Runs (machine serdeError).step (Machine.StepsMeet Undisturbed) ((machine serdeError).initial {}) ls cfg) :
    ∀ b ∈ cfg.shared.broadcasts, (∃ rest, cfg.tasks b.task = some ⟨.execute b.maker b.params, rest⟩) ∧
      (Plain b.params →
        (∃ setter, b.channel.setBy = some setter ∧ b.target.setBy = some setter) ∧
        (∀ message rest, cfg.tasks b.maker = some ⟨.handleMessage message, rest⟩ →
          b.channel.value = message.channel ∧ b.target.value = message.target) ∧
        ∀ notify rest, cfg.tasks b.maker = some ⟨.executeFullJob notify, rest⟩ →
          notify.channel = some b.channel.value ∧ b.target.value = notify.user) := by
  have hgood := Outline.run (P := destinations serdeError) run inv_initial
    (fun t => setting_initial t)
    (fun _ hmeet htask => hmeet _ _ _ htask) (fun c _ hpre => holds_body c hpre)
  have hbooked := booked_run run
  intro b hb
  refine ⟨?_, fun hplain => ?_⟩
  · obtain ⟨⟨call, rest⟩, htask, hcall⟩ := hbooked.broadcasts b hb
    cases hcall
    exact ⟨rest, htask⟩
  obtain ⟨hsame, hfits⟩ := hgood.inv.sent b hb hplain
  obtain ⟨who, hwho⟩ := hgood.inv.made b hb
  obtain ⟨task, htask, hmaker⟩ := hbooked.makers b.maker who hwho
  refine ⟨hsame, ?_, ?_⟩
  · intro message rest hturn
    rw [htask] at hturn
    cases hturn
    cases hmaker
    exact hfits _ hwho
  · intro notify rest hroutine
    rw [htask] at hroutine
    cases hroutine
    cases hmaker
    exact hfits _ hwho

/-! ## A turn and a routine -/

def noText : Json → String := fun _ => ""

/-- Alice writes on Signal. -/
def fromAlice : TurnMessage := ⟨"signal", "alice", .object []⟩

/-- A routine that reports to Bob. -/
def toBob : NotifyConfig := ⟨some "telegram", "bob"⟩

/-- A call of the tool with the text only. -/
def hello : Json := .object [("content", .string "hello")]

/-- The steps of a task. -/
def steps (t n : Nat) : List (machine noText).Label := List.replicate n (.step t {})

/-- In Alice's turn the tool is called; the routine starts before. -/
def routineBefore : List (machine noText).Label :=
  .start 2 (.executeFullJob toBob) :: steps 2 3 ++ .start 0 (.handleMessage fromAlice) :: steps 0 3 ++
    .start 1 (.execute 0 hello) :: steps 1 5

/-- The routine starts between the two reads. -/
def routineBetween : List (machine noText).Label :=
  .start 0 (.handleMessage fromAlice) :: steps 0 3 ++ .start 1 (.execute 0 hello) :: steps 1 2 ++
    .start 2 (.executeFullJob toBob) :: steps 2 3 ++ steps 1 3

/-- Where to, by whose setting. -/
def sent (cfg : (machine noText).Config) : List (Destination × Destination) :=
  cfg.shared.broadcasts.map fun b => (b.channel, b.target)

instance (t : Nat) (o : Op) (i : Input) (s : Shared) : Decidable (Undisturbed t o i s) :=
  match o with
  | .readChannel maker params =>
    inferInstanceAs (Decidable (given params "target" = none → ∀ e ∈ s.makers, e.1 = maker → e.2.sets = true →
      ∀ d ∈ s.defaultChannel, d.setBy = maker))
  | .readTarget _ params channel =>
    inferInstanceAs (Decidable (given params "channel" = none → ∀ d ∈ s.defaultTarget, channel.setBy = some d.setBy))
  | .setChannel _ | .setTarget _ | .goOn _ | .call _ | .checkAttachments _ | .broadcast _ _ _ _ _ _ | .channelNames =>
    .isTrue trivial

/-- `Undisturbed`, computed. -/
def undisturbed (t : Nat) (o : Op) (i : Input) (s : Shared) : Bool := decide (Undisturbed t o i s)

theorem undisturbed_sound (t : Nat) (o : Op) (i : Input) (s : Shared) (h : undisturbed t o i s = true) :
    Undisturbed t o i s :=
  of_decide_eq_true h

theorem alice_is_answered : ∃ cfg, Runs (machine noText).step (Machine.StepsMeet Undisturbed)
      ((machine noText).initial {}) routineBefore cfg ∧
    sent cfg = [(⟨"signal", some 0⟩, ⟨"alice", some 0⟩)] ∧
    ∀ b ∈ cfg.shared.broadcasts, Plain b.params →
      ∃ setter, b.channel.setBy = some setter ∧ b.target.setBy = some setter := by
  have hcomputed : (routineBefore.foldlM
      (fun cfg l => if Machine.stepsMeet undisturbed cfg l then (machine noText).step cfg l else none)
      ((machine noText).initial {})).map sent = some [(⟨"signal", some 0⟩, ⟨"alice", some 0⟩)] := by
    decide
  obtain ⟨cfg, hls, hsent⟩ := Option.map_eq_some_iff.mp hcomputed
  have run := Runs.of_checked (C := Machine.StepsMeet Undisturbed) (Machine.stepsMeet_sound undisturbed_sound) hls
  exact ⟨cfg, run, hsent, fun b hb hplain => ((messages_speak_to_their_own run b hb).2 hplain).1⟩

/-- What a task is the turn of. -/
def turnOf (cfg : (machine noText).Config) (t : Nat) : Option TurnMessage :=
  match cfg.tasks t with
  | some ⟨.handleMessage message, _⟩ => some message
  | _ => none

theorem turnOf_eq_some {cfg : (machine noText).Config} {t : Nat} {message : TurnMessage}
    (h : turnOf cfg t = some message) : ∃ rest, cfg.tasks t = some ⟨.handleMessage message, rest⟩ := by
  unfold turnOf at h
  split at h
  next htask =>
    cases h
    exact ⟨_, htask⟩
  next => cases h

/-- What is said in Alice's turn is sent to Bob, on her channel. -/
theorem alice_speaks_to_bob : ∃ cfg, Runs (machine noText).step (fun _ _ => True) ((machine noText).initial {})
      routineBetween cfg ∧
    ∃ b ∈ cfg.shared.broadcasts, Plain b.params ∧
      b.channel = ⟨"signal", some 0⟩ ∧ b.target = ⟨"bob", some 2⟩ ∧
      ∃ message rest, cfg.tasks b.maker = some ⟨.handleMessage message, rest⟩ ∧ message.target = "alice" := by
  have hcomputed : (routineBetween.foldlM (machine noText).step ((machine noText).initial {})).map
      (fun cfg => cfg.shared.broadcasts.map fun b =>
        (decide (Plain b.params), b.channel, b.target, (turnOf cfg b.maker).map TurnMessage.target)) =
      some [(true, ⟨"signal", some 0⟩, ⟨"bob", some 2⟩, some "alice")] := by
    decide
  obtain ⟨cfg, hls, hseen⟩ := Option.map_eq_some_iff.mp hcomputed
  obtain ⟨b, bs, hbs, hb, -⟩ := List.map_eq_cons_iff.mp hseen
  obtain ⟨hplain, hchannel, htarget, hturn⟩ : _ ∧ _ ∧ _ ∧ _ := by simpa only [Prod.mk.injEq] using hb
  obtain ⟨message, hmessage, halice⟩ := Option.map_eq_some_iff.mp hturn
  obtain ⟨rest, htask⟩ := turnOf_eq_some hmessage
  exact ⟨cfg, Runs.of_foldlM hls, b, hbs ▸ List.mem_cons_self, of_decide_eq_true hplain, hchannel, htarget, message, rest,
    htask, halice⟩

end Freeclawdia.MessageTool
