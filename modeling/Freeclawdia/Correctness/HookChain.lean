import Mathlib.Data.List.Induction
import Freeclawdia.Hooks.Registry

/-!
# `Correctness.HookChain` — the hook chain is sequential composition

What the registry holds after any calls is read off the calls themselves (`standing`): the registrations of a name
since it was last unregistered. `Tidy` is the invariant. A run of the hooks over an event is compared with their
sequential composition (`Passes`): it fails exactly at the first hook that stops it, and what the hooks behind it
would have done has not happened.

A modification that cannot be applied to its event stops nothing, whatever the failure mode: it is ignored.
-/

namespace Freeclawdia.HookRegistry

open Rust

variable {W : Type}

/-! ## What has been registered -/

/-- For each name the registrations that stand, with the numbers of the calls. -/
abbrev Standing (W : Type) := String → List (Nat × HookEntry W)

/-- What call number `n` makes of the standing registrations. -/
def Standing.step (st : Standing W) (n : Nat) : Change W → Standing W
  | .registerWithPriority entry => Function.update st entry.hook.name (st entry.hook.name ++ [(n, entry)])
  | .register hook points => Function.update st hook.name (st hook.name ++ [(n, ⟨hook, points, 100⟩)])
  | .unregister name => Function.update st name []

variable (changes : List (Change W))

/-- The registrations of a name since it was last unregistered. -/
def standing : Standing W :=
  changes.zipIdx.foldl (fun st c => st.step c.2 c.1) fun _ => []

theorem standing_snoc (c : Change W) :
    standing (changes ++ [c]) = (standing changes).step changes.length c := by
  simp [standing, List.zipIdx_append]

theorem after_snoc (c : Change W) : after (changes ++ [c]) = apply (after changes) c := by
  simp [after]

variable {st : Standing W} {hooks : List (HookEntry W)} {n : Nat}

/-- The number of the call that registered the name first. -/
def Standing.born (st : Standing W) (name : String) : Option Nat := (st name).head?.map Prod.fst

/-- Every standing registration of the name has the same priority. -/
def Standing.Settled (st : Standing W) (name : String) : Prop :=
  ∀ r ∈ st name, ∀ r' ∈ st name, r.2.priority = r'.2.priority

/-- The first of two names was registered before the second. -/
def Standing.Before (st : Standing W) (x y : String) : Prop :=
  ∃ i j, st.born x = some i ∧ st.born y = some j ∧ i < j

/-- The order of two entries with the same priority, where neither name has changed it. -/
def Standing.Ordered (st : Standing W) (x y : HookEntry W) : Prop :=
  st.Settled x.hook.name → st.Settled y.hook.name → st.Before x.hook.name y.hook.name

/-- **The registry.** One entry for each name that stands, its last registration; in the order of the
    priorities, and of first registration among names that have kept the same one. -/
structure Tidy (st : Standing W) (hooks : List (HookEntry W)) : Prop where
  names : (list hooks).Nodup
  current : ∀ e, e ∈ hooks ↔ (st e.hook.name).getLast?.map Prod.snd = some e
  order : hooks.Pairwise fun x y => x.priority ≤ y.priority ∧ (x.priority = y.priority → st.Ordered x y)

/-- The registrations are filed under their names, and `n` is the number of the next call. -/
def Standing.Filed (st : Standing W) (n : Nat) : Prop :=
  ∀ name, ∀ r ∈ st name, r.1 < n ∧ r.2.hook.name = name

/-! ## Sorting -/

variable {x y : HookEntry W}

theorem key_le_iff : x.key ≤ y.key ↔ x.priority ≤ y.priority := by
  rw [UInt32.le_iff_toNat_le]
  rfl

theorem key_eq_iff : x.key = y.key ↔ x.priority = y.priority := UInt32.toNat_inj

variable {l : List (HookEntry W)}

/-- Sorting keeps what holds between names of the same priority. -/
theorem order_sorted (h : l.Pairwise fun x y => x.priority = y.priority → st.Ordered x y) :
    (sortByKey HookEntry.key l).Pairwise fun x y =>
      x.priority ≤ y.priority ∧ (x.priority = y.priority → st.Ordered x y) := by
  have hkeys : l.Pairwise fun x y => x.key = y.key → st.Ordered x y :=
    h.imp fun hxy heq => hxy (key_eq_iff.mp heq)
  exact (pairwise_sortByKey hkeys).imp fun hxy => ⟨key_le_iff.mp hxy.1, fun heq => hxy.2 (key_eq_iff.mpr heq)⟩

theorem names_sorted : (list (sortByKey HookEntry.key l)).Nodup ↔ (list l).Nodup :=
  ((sortByKey_perm HookEntry.key l).map _).nodup_iff

variable {name : String}

theorem mem_list : name ∈ list hooks ↔ ∃ e ∈ hooks, e.hook.name = name := List.mem_map

/-! ## Replacing in place -/

/-- The entry that stands where `e` stood. -/
def replacing (entry e : HookEntry W) : HookEntry W := if e.hook.name = entry.hook.name then entry else e

variable {e entry : HookEntry W}

@[simp] theorem replacing_name : (replacing entry e).hook.name = e.hook.name := by
  unfold replacing
  split
  · next h => exact h.symm
  · rfl

theorem replacing_of_ne (h : e.hook.name ≠ entry.hook.name) : replacing entry e = e := if_neg h

theorem list_map_replacing : list (hooks.map (replacing entry)) = list hooks := by
  simp [list]

theorem replaceNamed_of_notMem (h : entry.hook.name ∉ list hooks) : replaceNamed entry hooks = none := by
  induction hooks with
  | nil => rfl
  | cons e es ih =>
    obtain ⟨hne, hrest⟩ := not_or.mp (mt List.mem_cons.mpr h)
    have hne' : ¬e.hook.name = entry.hook.name := fun heq => hne heq.symm
    simp [replaceNamed, hne', ih hrest]

theorem map_replacing_of_notMem (h : entry.hook.name ∉ list hooks) : hooks.map (replacing entry) = hooks := by
  refine (List.map_congr_left fun e he => ?_).trans (List.map_id hooks)
  exact replacing_of_ne fun heq => h (mem_list.mpr ⟨e, he, heq⟩)

theorem replaceNamed_of_mem (hnames : (list hooks).Nodup) (h : entry.hook.name ∈ list hooks) :
    replaceNamed entry hooks = some (hooks.map (replacing entry)) := by
  induction hooks with
  | nil => cases h
  | cons e es ih =>
    obtain ⟨hfresh, hnames⟩ := List.nodup_cons.mp hnames
    rw [replaceNamed]
    split
    · next heq =>
        rw [List.map_cons, map_replacing_of_notMem (heq ▸ hfresh), replacing, if_pos heq]
    · next hne =>
        have hrest : entry.hook.name ∈ list es :=
          (List.mem_cons.mp h).resolve_left fun heq => hne heq.symm
        rw [ih hnames hrest, List.map_cons, replacing_of_ne hne]
        rfl

/-! ## One call -/

variable {regs : List (Nat × HookEntry W)} {name' : String}

theorem born_of_ne (h : name ≠ name') : Standing.born (Function.update st name' regs) name = st.born name := by
  rw [Standing.born, Function.update_of_ne h, Standing.born]

theorem settled_of_ne (h : name ≠ name') : Standing.Settled (Function.update st name' regs) name ↔ st.Settled name := by
  rw [Standing.Settled, Function.update_of_ne h, Standing.Settled]

/-- Entries of other names keep their order. -/
theorem ordered_of_ne (h : st.Ordered x y) (hx : x.hook.name ≠ name) (hy : y.hook.name ≠ name) :
    Standing.Ordered (Function.update st name regs) x y := by
  intro hsx hsy
  obtain ⟨i, j, hi, hj, hlt⟩ := h ((settled_of_ne hx).mp hsx) ((settled_of_ne hy).mp hsy)
  exact ⟨i, j, (born_of_ne hx).trans hi, (born_of_ne hy).trans hj, hlt⟩

theorem Tidy.stands (h : Tidy st hooks) (he : e ∈ hooks) : ∃ r ∈ st e.hook.name, r.2 = e := by
  obtain ⟨r, hr, rfl⟩ := Option.map_eq_some_iff.mp ((h.current e).mp he)
  exact ⟨r, List.mem_of_getLast? hr, rfl⟩

/-- An entry that stands was registered some time before. -/
theorem Tidy.born_lt (h : Tidy st hooks) (hfiled : st.Filed n) (he : e ∈ hooks) :
    ∃ i, st.born e.hook.name = some i ∧ i < n := by
  obtain ⟨r, hr, -⟩ := h.stands he
  cases hst : st e.hook.name with
  | nil => rw [hst] at hr; cases hr
  | cons first rest =>
    have hfirst : first ∈ st e.hook.name := hst ▸ List.mem_cons_self ..
    exact ⟨first.1, by simp [Standing.born, hst], (hfiled _ first hfirst).1⟩

theorem Tidy.standing_nil (h : Tidy st hooks) (hfiled : st.Filed n) (hname : name ∉ list hooks) : st name = [] := by
  by_contra hne
  obtain ⟨r, hr⟩ := Option.isSome_iff_exists.mp (List.getLast?_isSome.mpr hne)
  have hr_name : r.2.hook.name = name := (hfiled name r (List.mem_of_getLast? hr)).2
  refine hname (mem_list.mpr ⟨r.2, (h.current r.2).mpr ?_, hr_name⟩)
  rw [hr_name, hr]
  rfl

theorem filed_register (hfiled : st.Filed n) (entry : HookEntry W) :
    Standing.Filed (st.step n (.registerWithPriority entry)) (n + 1) := by
  intro name r hr
  by_cases hname : name = entry.hook.name
  · subst hname
    rw [Standing.step, Function.update_self] at hr
    rcases List.mem_append.mp hr with hr | hr
    · exact ⟨(hfiled _ r hr).1.trans (Nat.lt_succ_self n), (hfiled _ r hr).2⟩
    · obtain rfl := List.mem_singleton.mp hr
      exact ⟨Nat.lt_succ_self n, rfl⟩
  · rw [Standing.step, Function.update_of_ne hname] at hr
    exact ⟨(hfiled _ r hr).1.trans (Nat.lt_succ_self n), (hfiled _ r hr).2⟩

theorem last_register (hname : e.hook.name = entry.hook.name) :
    ((st.step n (.registerWithPriority entry)) e.hook.name).getLast?.map Prod.snd = some e ↔ e = entry := by
  rw [hname, Standing.step, Function.update_self, List.getLast?_concat]
  simp [eq_comm]

/-- A new name goes behind the names that have its priority. -/
theorem tidy_new (h : Tidy st hooks) (hfiled : st.Filed n) (hnew : entry.hook.name ∉ list hooks) :
    Tidy (st.step n (.registerWithPriority entry)) (sortByKey HookEntry.key (hooks ++ [entry])) := by
  have hne : ∀ {e}, e ∈ hooks → e.hook.name ≠ entry.hook.name := fun he heq => hnew (mem_list.mpr ⟨_, he, heq⟩)
  refine ⟨names_sorted.mpr ?_, fun e => ?_, order_sorted ?_⟩
  · rw [list, List.map_append]
    exact List.nodup_append.mpr ⟨h.names, List.nodup_singleton _, by
      intro a ha b hb
      obtain rfl := List.mem_singleton.mp hb
      rintro rfl
      exact hnew ha⟩
  · rw [mem_sortByKey, List.mem_append, List.mem_singleton]
    by_cases hname : e.hook.name = entry.hook.name
    · rw [last_register hname]
      exact ⟨fun he => he.resolve_left fun he => hne he hname, Or.inr⟩
    · rw [Standing.step, Function.update_of_ne hname, ← h.current e]
      exact ⟨fun he => he.resolve_right fun heq => hname (heq ▸ rfl), Or.inl⟩
  · refine List.pairwise_append.mpr ⟨?_, List.pairwise_singleton _ _, ?_⟩
    · exact h.order.imp_of_mem fun hx hy hxy heq => ordered_of_ne (hxy.2 heq) (hne hx) (hne hy)
    · intro x hx y hy _ _ _
      obtain rfl := List.mem_singleton.mp hy
      obtain ⟨i, hi, hlt⟩ := h.born_lt hfiled hx
      refine ⟨i, n, (born_of_ne (hne hx)).trans hi, ?_, hlt⟩
      rw [Standing.born, Standing.step, Function.update_self, h.standing_nil hfiled hnew]
      rfl

/-- A name whose priority has not changed keeps its place among those of the same priority. -/
theorem settled_replacing (h : Tidy st hooks) (he : e ∈ hooks)
    (hsettled : Standing.Settled (st.step n (.registerWithPriority entry)) e.hook.name) :
    (replacing entry e).priority = e.priority ∧ st.Settled e.hook.name ∧
      Standing.born (st.step n (.registerWithPriority entry)) e.hook.name = st.born e.hook.name := by
  by_cases hname : e.hook.name = entry.hook.name
  · obtain ⟨r, hr, rfl⟩ := h.stands he
    have hstanding : st.step n (.registerWithPriority entry) r.2.hook.name = st r.2.hook.name ++ [(n, entry)] := by
      rw [hname, Standing.step, Function.update_self]
    rw [Standing.Settled, hstanding] at hsettled
    refine ⟨?_, fun a ha b hb => ?_, ?_⟩
    · rw [replacing, if_pos hname]
      exact hsettled (n, entry) (by simp) r (by simp [hr])
    · exact hsettled a (List.mem_append_left _ ha) b (List.mem_append_left _ hb)
    · rw [Standing.born, Standing.born, hstanding]
      cases hst : st r.2.hook.name with
      | nil => rw [hst] at hr; cases hr
      | cons first rest => rfl
  · exact ⟨by rw [replacing_of_ne hname], (settled_of_ne hname).mp hsettled, born_of_ne hname⟩

/-- A name that stands keeps its place in the list, and is then sorted. -/
theorem tidy_replace (h : Tidy st hooks) (hold : entry.hook.name ∈ list hooks) :
    Tidy (st.step n (.registerWithPriority entry)) (sortByKey HookEntry.key (hooks.map (replacing entry))) := by
  refine ⟨names_sorted.mpr (by rw [list_map_replacing]; exact h.names), fun e => ?_, order_sorted ?_⟩
  · rw [mem_sortByKey, List.mem_map]
    by_cases hname : e.hook.name = entry.hook.name
    · rw [last_register hname]
      constructor
      · rintro ⟨e', -, rfl⟩
        rw [replacing_name] at hname
        exact if_pos hname
      · rintro rfl
        obtain ⟨e', he', heq⟩ := mem_list.mp hold
        exact ⟨e', he', if_pos heq⟩
    · rw [Standing.step, Function.update_of_ne hname, ← h.current e]
      constructor
      · rintro ⟨e', he', rfl⟩
        rw [replacing_name] at hname
        rwa [replacing_of_ne hname]
      · exact fun he => ⟨e, he, replacing_of_ne hname⟩
  · refine List.pairwise_map.mpr (h.order.imp_of_mem fun {x y} hx hy hxy heq hsx hsy => ?_)
    rw [replacing_name] at hsx hsy ⊢
    rw [replacing_name]
    obtain ⟨hpx, hsx, hbx⟩ := settled_replacing h hx hsx
    obtain ⟨hpy, hsy, hby⟩ := settled_replacing h hy hsy
    rw [hpx, hpy] at heq
    obtain ⟨i, j, hi, hj, hlt⟩ := hxy.2 heq hsx hsy
    exact ⟨i, j, hbx.trans hi, hby.trans hj, hlt⟩

theorem tidy_register (h : Tidy st hooks) (hfiled : st.Filed n) (entry : HookEntry W) :
    Tidy (st.step n (.registerWithPriority entry)) (registerWithPriority hooks entry) := by
  unfold registerWithPriority
  by_cases hold : entry.hook.name ∈ list hooks
  · rw [replaceNamed_of_mem h.names hold]
    exact tidy_replace h hold
  · rw [replaceNamed_of_notMem hold]
    exact tidy_new h hfiled hold

theorem tidy_unregister (h : Tidy st hooks) (name : String) :
    Tidy (st.step n (.unregister name)) (unregister hooks name).1 := by
  have hmem : ∀ {e : HookEntry W}, e ∈ (unregister hooks name).1 ↔ e ∈ hooks ∧ e.hook.name ≠ name := by
    intro e
    simp [unregister]
  have hsub : (unregister hooks name).1.Sublist hooks := List.filter_sublist
  refine ⟨h.names.sublist (hsub.map _), fun e => ?_, ?_⟩
  · rw [hmem]
    by_cases hname : e.hook.name = name
    · subst hname
      simp [Standing.step]
    · rw [Standing.step, Function.update_of_ne hname, ← h.current e]
      exact and_iff_left hname
  · refine (h.order.sublist hsub).imp_of_mem fun hx hy hxy => ⟨hxy.1, fun heq => ?_⟩
    exact ordered_of_ne (hxy.2 heq) (hmem.mp hx).2 (hmem.mp hy).2

theorem tidy_step (h : Tidy st hooks) (hfiled : st.Filed n) (c : Change W) :
    Tidy (st.step n c) (apply hooks c) ∧ Standing.Filed (st.step n c) (n + 1) := by
  cases c with
  | registerWithPriority entry => exact ⟨tidy_register h hfiled entry, filed_register hfiled entry⟩
  | register hook points => exact ⟨tidy_register h hfiled ⟨hook, points, 100⟩, filed_register hfiled ⟨hook, points, 100⟩⟩
  | unregister name =>
    refine ⟨tidy_unregister h name, fun name' r hr => ?_⟩
    by_cases hname : name' = name
    · subst hname
      rw [Standing.step, Function.update_self] at hr
      cases hr
    · rw [Standing.step, Function.update_of_ne hname] at hr
      exact ⟨(hfiled name' r hr).1.trans (Nat.lt_succ_self n), (hfiled name' r hr).2⟩

/-- **After any calls the registry is tidy.** -/
theorem tidy_after : Tidy (standing changes) (after changes) := by
  suffices h : Tidy (standing changes) (after changes) ∧ (standing changes).Filed changes.length from h.1
  induction changes using List.reverseRecOn with
  | nil => exact ⟨⟨List.nodup_nil, fun e => by simp [after, standing], List.Pairwise.nil⟩, fun _ _ hr => by cases hr⟩
  | append_singleton changes c ih =>
    rw [standing_snoc, after_snoc, List.length_append]
    exact tidy_step ih.1 ih.2 c

/-! ## One event -/

section Chain

variable {fromStr : String → Option Json} {toText : Json → String}

/-- A modification that the event can take. -/
def Applicable (fromStr : String → Option Json) (value : String) : HookEvent → Prop
  | .toolCall .. => (fromStr value).isSome
  | .sessionStart .. => False
  | .sessionEnd .. => False
  | _ => True

variable {event : HookEvent}

theorem apply_inapplicable {value : String} (h : ¬Applicable fromStr value event) :
    event.applyModification fromStr value = event := by
  cases event with
  | toolCall toolName parameters userId context =>
    have hnone : fromStr value = none := Option.not_isSome_iff_eq_none.mp h
    simp [HookEvent.applyModification, hnone]
  | sessionStart userId sessionId => rfl
  | sessionEnd userId sessionId => rfl
  | inbound userId channel content threadId => exact absurd True.intro h
  | outbound userId channel content threadId => exact absurd True.intro h
  | responseTransform userId threadId response => exact absurd True.intro h

/-- The error with which a hook stops the chain, if it does. -/
def stops (hook : Hook W) : HookRun → Option HookError
  | .answered (.reject reason) => some (.rejected reason)
  | .answered (.continue _) => none
  | .failed err =>
    match hook.failureMode with
    | .failOpen => none
    | .failClosed => some (.executionFailed ("Hook '" ++ hook.name ++ "' failed: " ++ err.display))
  | .timedOut t =>
    match hook.failureMode with
    | .failOpen => none
    | .failClosed => some (.timeout t)

/-- What the next hook sees. -/
def passOn (fromStr : String → Option Json) (event : HookEvent) : HookRun → HookEvent
  | .answered (.continue (some value)) => event.applyModification fromStr value
  | _ => event

/-- **Sequential composition**: the hooks run one after the other, none of them stops, and each sees the event as
    the one before it left it. -/
inductive Passes (fromStr : String → Option Json) : List (Hook W) → HookEvent → W → HookEvent → W → Prop
  | nil (event : HookEvent) (w : W) : Passes fromStr [] event w event w
  | cons {hook : Hook W} {rest : List (Hook W)} {event event' : HookEvent} {w w1 w' : W} {run : HookRun}
      (hrun : hook.execute event w = (run, w1)) (hpasses : stops hook run = none)
      (hrest : Passes fromStr rest (passOn fromStr event run) w1 event' w') :
      Passes fromStr (hook :: rest) event w event' w'

/-- The chain stops at a hook: those before it pass, and it is the last to run. -/
def StopsAt (fromStr : String → Option Json) (hooks : List (Hook W)) (event : HookEvent) (w : W) (e : HookError)
    (w' : W) : Prop :=
  ∃ before hook behind event1 w1 run, hooks = before ++ hook :: behind ∧ Passes fromStr before event w event1 w1 ∧
    hook.execute event1 w1 = (run, w') ∧ stops hook run = some e

variable {w : W}

/-- The first hook stops the chain, or the rest runs on what it leaves. -/
theorem runList_cons {hook : Hook W} {rest : List (Hook W)} {w1 : W} {run : HookRun}
    (hrun : hook.execute event w = (run, w1)) : runList fromStr (hook :: rest) event w =
      match stops hook run with
      | some e => (.error e, w1)
      | none => runList fromStr rest (passOn fromStr event run) w1 := by
  rw [runList, hrun]
  cases run with
  | answered outcome =>
    cases outcome with
    | «continue» modified => cases modified <;> rfl
    | reject reason => rfl
  | failed err =>
    simp only [stops]
    cases hook.failureMode <;> rfl
  | timedOut t =>
    simp only [stops]
    cases hook.failureMode <;> rfl

variable {hooks : List (Hook W)} {w' : W}

theorem runList_ok_iff {event' : HookEvent} :
    runList fromStr hooks event w = (.ok event', w') ↔ Passes fromStr hooks event w event' w' := by
  induction hooks generalizing event w with
  | nil =>
    constructor
    · intro h
      cases h
      exact .nil _ _
    · rintro ⟨⟩
      rfl
  | cons hook rest ih =>
    rcases hexec : hook.execute event w with ⟨run, w1⟩
    rw [runList_cons hexec]
    constructor
    · intro h
      cases hstops : stops hook run with
      | some e => rw [hstops] at h; cases h
      | none =>
        rw [hstops] at h
        exact .cons hexec hstops (ih.mp h)
    · rintro (_ | ⟨hrun, hpasses, hrest⟩)
      obtain ⟨rfl, rfl⟩ := Prod.mk.inj (hexec.symm.trans hrun)
      rw [hpasses]
      exact ih.mpr hrest

variable {e : HookError}

theorem runList_error_iff : runList fromStr hooks event w = (.error e, w') ↔ StopsAt fromStr hooks event w e w' := by
  induction hooks generalizing event w with
  | nil =>
    constructor
    · intro h
      cases h
    · rintro ⟨before, hook, behind, -, -, -, hsplit, -⟩
      exact absurd hsplit (by simp)
  | cons hook rest ih =>
    rcases hexec : hook.execute event w with ⟨run, w1⟩
    rw [runList_cons hexec]
    cases hstops : stops hook run with
    | some e' =>
      constructor
      · intro h
        cases h
        exact ⟨[], hook, rest, event, w, run, rfl, .nil event w, hexec, hstops⟩
      · rintro ⟨before, hook', behind, event1, w1', run', hsplit, hbefore, hrun', hstops'⟩
        cases hbefore with
        | nil =>
          obtain ⟨rfl, -⟩ := List.cons.inj hsplit
          obtain ⟨rfl, rfl⟩ := Prod.mk.inj (hexec.symm.trans hrun')
          cases hstops.symm.trans hstops'
          rfl
        | cons hrun hpasses =>
          obtain ⟨rfl, -⟩ := List.cons.inj hsplit
          obtain ⟨rfl, -⟩ := Prod.mk.inj (hexec.symm.trans hrun)
          cases hstops.symm.trans hpasses
    | none =>
      refine ih.trans ⟨?_, ?_⟩
      · rintro ⟨before, hook', behind, event1, w1', run', rfl, hbefore, hstop⟩
        exact ⟨hook :: before, hook', behind, event1, w1', run', rfl, .cons hexec hstops hbefore, hstop⟩
      · rintro ⟨before, hook', behind, event1, w1', run', hsplit, hbefore, hrun', hstops'⟩
        cases hbefore with
        | nil =>
          obtain ⟨rfl, -⟩ := List.cons.inj hsplit
          obtain ⟨rfl, rfl⟩ := Prod.mk.inj (hexec.symm.trans hrun')
          cases hstops.symm.trans hstops'
        | cons hrun hpasses hrest =>
          obtain ⟨rfl, rfl⟩ := List.cons.inj hsplit
          obtain ⟨rfl, rfl⟩ := Prod.mk.inj (hexec.symm.trans hrun)
          exact ⟨_, hook', behind, event1, w1', run', rfl, hrest, hrun', hstops'⟩

/-- The answer of a chain that nothing stopped: the content after it, if that is another one. -/
def answer (toText : Json → String) (event event' : HookEvent) : HookOutcome :=
  if event'.extractContent toText ≠ event.extractContent toText then .continue (some (event'.extractContent toText))
  else .continue none

theorem run_error_iff : run fromStr toText hooks event w = (.error e, w') ↔ StopsAt fromStr hooks event w e w' := by
  rw [← runList_error_iff]
  cases hooks with
  | nil => simp [run, runList]
  | cons hook rest =>
    simp only [run]
    rcases runList fromStr (hook :: rest) event w with ⟨e' | event', w1⟩
    · simp
    · dsimp only
      split <;> simp

theorem run_ok_iff {outcome : HookOutcome} : run fromStr toText hooks event w = (.ok outcome, w') ↔
      ∃ event', Passes fromStr hooks event w event' w' ∧ outcome = answer toText event event' := by
  simp only [← runList_ok_iff]
  cases hooks with
  | nil =>
    simp only [run, runList, Prod.mk.injEq, Except.ok.injEq]
    constructor
    · rintro ⟨rfl, rfl⟩
      exact ⟨event, ⟨rfl, rfl⟩, by simp [answer]⟩
    · rintro ⟨event', ⟨rfl, rfl⟩, rfl⟩
      exact ⟨by simp [answer], rfl⟩
  | cons hook rest =>
    simp only [run]
    rcases runList fromStr (hook :: rest) event w with ⟨e' | event1, w1⟩
    · simp
    · simp only [Prod.mk.injEq, Except.ok.injEq]
      have hif : (if event1.extractContent toText ≠ event.extractContent toText then
          (Except.ok (HookOutcome.continue (some (event1.extractContent toText))), w1)
          else ((.ok (.continue none), w1) : Except HookError HookOutcome × W)) =
          (.ok (answer toText event event1), w1) := by
        unfold answer
        split <;> rfl
      rw [hif]
      constructor
      · intro h
        cases h
        exact ⟨event1, ⟨rfl, rfl⟩, rfl⟩
      · rintro ⟨event', ⟨rfl, rfl⟩, rfl⟩
        rfl

end Chain

/-- **The hook chain is sequential composition.** After any calls the registry is tidy, and a run over any event
    fails exactly when a hook in its order stops it, at the first one, and otherwise answers with the content all of
    them leave. A modification that its event cannot take changes nothing. -/
theorem chain_is_sequential (fromStr : String → Option Json) (toText : Json → String) (changes : List (Change W))
    (event : HookEvent) (w : W) :
    Tidy (standing changes) (after changes) ∧
    (∀ e w', runRegistered fromStr toText (after changes) event w = (.error e, w') ↔
      StopsAt fromStr (matching (after changes) event.hookPoint) event w e w') ∧
    (∀ outcome w', runRegistered fromStr toText (after changes) event w = (.ok outcome, w') ↔
      ∃ event', Passes fromStr (matching (after changes) event.hookPoint) event w event' w' ∧
        outcome = answer toText event event') ∧
    ∀ value, ¬Applicable fromStr value event → event.applyModification fromStr value = event :=
  ⟨tidy_after changes, fun _ _ => run_error_iff, fun _ _ => run_ok_iff, fun _ => apply_inapplicable⟩

/-! ## Two places where the order or the failure mode might be expected to count -/

/-- A hook stops the chain, where a modification the event cannot take counts as a failure. -/
def Blocks (fromStr : String → Option Json) (hook : Hook W) (event : HookEvent) : HookRun → Prop
  | .answered (.reject _) => True
  | .answered (.continue (some value)) => hook.failureMode = .failClosed ∧ ¬Applicable fromStr value event
  | .answered (.continue none) => False
  | .failed _ => hook.failureMode = .failClosed
  | .timedOut _ => hook.failureMode = .failClosed

/-- A run fails exactly when some hook blocks it. -/
def FailsWhenBlocked (fromStr : String → Option Json) (toText : Json → String) (changes : List (Change W))
    (event : HookEvent) (w : W) : Prop :=
  (∃ e w', runRegistered fromStr toText (after changes) event w = (.error e, w')) ↔
    ∃ before hook behind event1 w1 run w', matching (after changes) event.hookPoint = before ++ hook :: behind ∧
      Passes fromStr before event w event1 w1 ∧ hook.execute event1 w1 = (run, w') ∧ Blocks fromStr hook event1 run

/-- The name and the priority a call registers. -/
def Change.registers : Change W → Option (String × UInt32)
  | .registerWithPriority entry => some (entry.hook.name, entry.priority)
  | .register hook _ => some (hook.name, 100)
  | .unregister _ => none

/-- Names of the same priority are in the order in which each of them was registered for the very first time. -/
def TiesByFirstCall : Prop :=
  ∀ x y, [x, y].Sublist (after changes) → x.priority = y.priority →
    (∀ c ∈ changes, ∀ name p, c.registers = some (name, p) → p = x.priority) →
    changes.findIdx (fun c => c.registers.any fun r => r.1 = x.hook.name) <
      changes.findIdx (fun c => c.registers.any fun r => r.1 = y.hook.name)

/-- A rule that appends a mark, and must not fail. -/
def markRule : RuleHook where
  name := "bundle::mark"
  points := [.beforeToolCall]
  failureMode := .failClosed
  whenRegex := none
  rejectReason := none
  replacements := []
  prepend := none
  append := some "!"

/-- `serde_json` on the text `null`. -/
def nullFromStr (s : String) : Option Json := if s = "null" then some .null else none

def nullToText (_ : Json) : String := "null"

def idleHook (name : String) : Hook Unit := ⟨name, .failOpen, fun _ w => (.answered (.continue none), w)⟩

/-- The mark makes the parameters a text that is no JSON, and the rule, which fails closed, is passed over; and a
    name that comes back is behind one that was registered later. -/
theorem passed_over_and_moved_back :
    ¬FailsWhenBlocked nullFromStr nullToText
      [.registerWithPriority ⟨(markRule.toHook nullToText : Hook Unit), markRule.points, 100⟩]
      (.toolCall "shell" .null "u" "chat") () ∧
    ¬TiesByFirstCall [.register (idleHook "a") [.beforeInbound], .register (idleHook "b") [.beforeInbound],
      .unregister "a", .register (idleHook "a") [.beforeInbound]] := by
  constructor
  · intro h
    obtain ⟨e, w', hrun⟩ := h.mpr ⟨[], markRule.toHook nullToText, [], .toolCall "shell" .null "u" "chat", (),
      .answered (.continue (some "null!")), (), rfl, .nil _ _, rfl, rfl, by simp [Applicable, nullFromStr]⟩
    cases hrun
  · intro h
    have hlt := h ⟨idleHook "b", [.beforeInbound], 100⟩ ⟨idleHook "a", [.beforeInbound], 100⟩
      (List.Sublist.refl _) rfl (by simp [Change.registers])
    revert hlt
    decide

end Freeclawdia.HookRegistry
