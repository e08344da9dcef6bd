import Freeclawdia.Extensions.Manager

/-!
# `Correctness.ToolOwnership` — tools and the extensions that registered them

Tools that are there when the program has started should stay, the removal of an extension should take the tools it
registered and no others, and two extensions should not have registered a tool of one name. The registry does not know
who registered a tool: `register` overwrites what is no built-in, and a removal goes by names. So this holds in the runs
in which names tell the extensions apart when they are used: `Proper`.

What a step asks for is about names alone. That the code keeps to it, registering under the names that came to
`register` and unregistering under those a removal found by its prefix, is what the outlines of the calls show.
-/

namespace Freeclawdia.ExtensionManager

open Rust Extensions

variable {t t' : Nat} {s s' s'' : Shared} {o : Op} {i : Input}

/-! ## What is asked of a run -/

/-- When `register` is called with a name that is no built-in, nobody else uses the name, and no removal of another server
is about to come to it. When a server is removed, the names in use that start with its prefix are its tools' names; when
a module is removed, its tool is what has its name; a channel that is removed has no tools. -/
def Proper (_ : Nat) (o : Op) (_ : Input) (s : Shared) : Prop :=
  match o with
  | .isBuiltin name extension => name ∈ s.registry.builtinNames ∨
      (∀ e ∈ s.inUse, e.2 = name → e.1 = ownerOf extension) ∧
        ∀ l ∈ s.listed, l.tool = name → extension = some l.server
  | .listToolsOf server => ∀ e ∈ s.owners, startsWith e.2 (server ++ "_") = true ↔ e.1 = .extension server
  | .unregister tool extension first =>
    first = true → ∀ e ∈ s.owners, e.2 = tool ↔ e.1 = .extension extension
  | .deactivateChannel name => ∀ e ∈ s.owners, e.1 ≠ .extension name
  | _ => True

/-! ## The invariant -/

/-- The books agree with the registry, no name is in use by two, the tools of the start are there, what a removal has
found is its server's, and removals have taken what was the extension's. -/
structure Inv (start : ToolRegistry) (s : Shared) : Prop where
  registered : ∀ name, (s.registry.get name).isSome ↔ ∃ owner, (owner, name) ∈ s.owners
  single : ∀ owner owner' name, (owner, name) ∈ s.inUse → (owner', name) ∈ s.inUse → owner = owner'
  startUp : ∀ name tool, start.get name = some tool → s.registry.get name = some tool ∧ (.startUp, name) ∈ s.owners
  found : ∀ l ∈ s.listed, ∀ e ∈ s.inUse, e.2 = l.tool → e.1 = .extension l.server
  own : ∀ u ∈ s.unregistrations, ∀ owner ∈ u.owners, owner = .extension u.extension

/-- Nobody writes into the books of another task. -/
structure Rely (t : Nat) (s s' : Shared) : Prop where
  offers : ∀ o : Offer, o.task = t → (o ∈ s'.offers ↔ o ∈ s.offers)
  listed : ∀ l : Listed, l.task = t → (l ∈ s'.listed ↔ l ∈ s.listed)
  looks : ∀ l, l.task = t → (l ∈ s'.looks ↔ l ∈ s.looks)
  unregistrations : ∀ u, u.task = t → (u ∈ s'.unregistrations ↔ u ∈ s.unregistrations)

/-- The books have no removal by the task. -/
def Fresh (t : Nat) (s : Shared) : Prop := (∀ l ∈ s.looks, l.task ≠ t) ∧ ∀ u ∈ s.unregistrations, u.task ≠ t

/-- The removal of an extension has looked at its tools; those not among `left` it has unregistered, and it has
unregistered tools of this extension only. -/
def Unregistering (t : Nat) (extension : String) (left : List String) (s : Shared) : Prop :=
  (∃ l ∈ s.looks, l.task = t ∧ l.extension = extension ∧
    ∀ tool ∈ l.owned, tool ∈ left ∨ ∃ u ∈ s.unregistrations, u.task = t ∧ u.tool = tool) ∧
  ∀ u ∈ s.unregistrations, u.task = t → u.extension = extension

/-- What a removal that has returned did. -/
def Removed (t : Nat) (extension : String) (s : Shared) : Prop := Unregistering t extension [] s

/-- What a task has to have done before an operation: a tool that is inserted came to `register`, and a removal comes to
what it found. -/
def Ready (t : Nat) : Op → Shared → Prop
  | .insertTool tool extension, s => ⟨t, extension, tool.name⟩ ∈ s.offers
  | .unregister tool extension false, s => ⟨t, extension, tool⟩ ∈ s.listed
  | _, _ => True

theorem Rely.refl (t : Nat) (s : Shared) : Rely t s s :=
  ⟨fun _ _ => Iff.rfl, fun _ _ => Iff.rfl, fun _ _ => Iff.rfl, fun _ _ => Iff.rfl⟩

theorem Rely.trans (h : Rely t s s') (h' : Rely t s' s'') : Rely t s s'' where
  offers o ho := (h'.offers o ho).trans (h.offers o ho)
  listed l hl := (h'.listed l hl).trans (h.listed l hl)
  looks l hl := (h'.looks l hl).trans (h.looks l hl)
  unregistrations u hu := (h'.unregistrations u hu).trans (h.unregistrations u hu)

theorem Fresh.rely (h : Fresh t s) (hr : Rely t s s') : Fresh t s' :=
  ⟨fun l hl heq => h.1 l ((hr.looks l heq).mp hl) heq, fun u hu heq => h.2 u ((hr.unregistrations u heq).mp hu) heq⟩

theorem Ready.rely (h : Ready t o s) (hr : Rely t s s') : Ready t o s' := by
  cases o with
  | insertTool tool extension => exact (hr.offers _ rfl).mpr h
  | unregister tool extension first =>
    cases first with
    | false => exact (hr.listed _ rfl).mpr h
    | true => trivial
  | _ => trivial

variable {left : List String} {extension : String}

theorem Unregistering.rely (h : Unregistering t extension left s) (hr : Rely t s s') :
    Unregistering t extension left s' := by
  obtain ⟨⟨l, hl, htask, hext, howned⟩, hown⟩ := h
  refine ⟨⟨l, (hr.looks l htask).mpr hl, htask, hext, ?_⟩, ?_⟩
  · intro tool htool
    refine (howned tool htool).imp_right ?_
    rintro ⟨u, hu, hut, hname⟩
    exact ⟨u, (hr.unregistrations u hut).mpr hu, hut, hname⟩
  · intro u hu hut
    exact hown u ((hr.unregistrations u hut).mp hu) hut

/-! ## One operation -/

/-- The operations that leave the books alone. -/
def Quiet : Op → Prop
  | .isBuiltin _ _ | .insertTool _ _ | .listToolsOf _ | .unregister _ _ _ | .deactivateChannel _ => False
  | _ => True

/-- Nothing that the invariant speaks of has changed. -/
structure Same (s s' : Shared) : Prop where
  get : ∀ name, s'.registry.get name = s.registry.get name
  owners : s'.owners = s.owners
  offers : s'.offers = s.offers
  listed : s'.listed = s.listed
  looks : s'.looks = s.looks
  unregistrations : s'.unregistrations = s.unregistrations

theorem Same.refl (s : Shared) : Same s s := ⟨fun _ => rfl, rfl, rfl, rfl, rfl, rfl⟩

theorem Same.inUse (h : Same s s') : s'.inUse = s.inUse := by
  unfold Shared.inUse
  rw [h.owners, h.offers]

theorem same_setFile (s : Shared) (kind : ExtensionKind) (name : String) (present : Bool) :
    Same s (s.setFile kind name present) := by
  cases kind with
  | mcpServer => exact ⟨fun _ => rfl, rfl, rfl, rfl, rfl, rfl⟩
  | wasmTool => exact ⟨fun _ => rfl, rfl, rfl, rfl, rfl, rfl⟩
  | wasmChannel => exact ⟨fun _ => rfl, rfl, rfl, rfl, rfl, rfl⟩

/-- **What an operation can do**: nothing to the tools and the books, take a name for `register`, register a tool, look,
or unregister one. -/
theorem perform_cases {a : Ans o} (h : perform t o i s = some (a, s')) : (Quiet o ∧ Same s s') ∨
    (∃ name extension, o = .isBuiltin name extension ∧
      (name ∈ s.registry.builtinNames ∧ s' = s ∨
        name ∉ s.registry.builtinNames ∧ s' = s.offer t name extension)) ∨
    (∃ tool extension, o = .insertTool tool extension ∧ s' = s.insertTool t tool extension) ∨
    (∃ server, o = .listToolsOf server ∧ s' = s.list t server) ∨
    (∃ name, o = .deactivateChannel name ∧ s' = s.look t name) ∨
    (∃ tool extension first, o = .unregister tool extension first ∧
      s' = (if first then s.look t extension else s).unregister t tool extension) := by
  cases o with
  | isBuiltin name extension =>
    refine .inr (.inl ⟨name, extension, rfl, ?_⟩)
    simp only [perform] at h
    split at h
    next hname => cases h; exact .inl ⟨hname, rfl⟩
    next hname => cases h; exact .inr ⟨hname, rfl⟩
  | insertTool tool extension =>
    obtain ⟨-, rfl⟩ := Prod.mk.inj (Option.some.inj h)
    exact .inr (.inr (.inl ⟨tool, extension, rfl, rfl⟩))
  | listToolsOf server =>
    obtain ⟨-, rfl⟩ := Prod.mk.inj (Option.some.inj h)
    exact .inr (.inr (.inr (.inl ⟨server, rfl, rfl⟩)))
  | deactivateChannel name =>
    obtain ⟨-, rfl⟩ := Prod.mk.inj (Option.some.inj h)
    exact .inr (.inr (.inr (.inr (.inl ⟨name, rfl, rfl⟩))))
  | unregister tool extension first =>
    obtain ⟨-, rfl⟩ := Prod.mk.inj (Option.some.inj h)
    exact .inr (.inr (.inr (.inr (.inr ⟨tool, extension, first, rfl, rfl⟩))))
  | saveServers servers =>
    refine .inl ⟨trivial, ?_⟩
    simp only [perform] at h
    split at h <;> (cases h; exact ⟨fun _ => rfl, rfl, rfl, rfl, rfl, rfl⟩)
  | deleteFile kind name =>
    refine .inl ⟨trivial, ?_⟩
    simp only [perform] at h
    split at h
    · cases h; exact .refl s
    · cases h; exact same_setFile s kind name false
  | download kind name =>
    refine .inl ⟨trivial, ?_⟩
    obtain ⟨-, rfl⟩ := Prod.mk.inj (Option.some.inj h)
    split
    · exact same_setFile s kind name true
    · exact .refl s
  | _ =>
    refine .inl ⟨trivial, ?_⟩
    obtain ⟨-, rfl⟩ := Prod.mk.inj (Option.some.inj h)
    exact ⟨fun _ => rfl, rfl, rfl, rfl, rfl, rfl⟩

/-! ### The invariant -/

variable {start : ToolRegistry} {owner : Owner} {tool : String}

theorem mem_inUse_of_owner (h : (owner, tool) ∈ s.owners) : (owner, tool) ∈ s.inUse := List.mem_append_left _ h

theorem mem_inUse_of_offer {o : Offer} (h : o ∈ s.offers) : (ownerOf o.extension, o.name) ∈ s.inUse :=
  List.mem_append_right _ (List.mem_map_of_mem (f := fun o : Offer => (ownerOf o.extension, o.name)) h)

theorem ownerOf_ne_startUp (extension : Option String) : ownerOf extension ≠ .startUp := by
  cases extension with
  | none => exact nofun
  | some x => exact nofun

theorem mem_owned : tool ∈ s.owned extension ↔ (.extension extension, tool) ∈ s.owners := by
  unfold Shared.owned
  rw [List.mem_filterMap]
  constructor
  · rintro ⟨⟨owner, name⟩, hmem, heq⟩
    split at heq
    next howner =>
      obtain rfl := Option.some.inj heq
      exact howner ▸ hmem
    next => cases heq
  · intro hmem
    exact ⟨_, hmem, if_pos rfl⟩

/-- What is registered is listed. -/
theorem Inv.mem_list (h : Inv start s) : tool ∈ s.registry.list ↔ ∃ owner, (owner, tool) ∈ s.owners :=
  AList.lookup_isSome.symm.trans (h.registered tool)

theorem inv_same (h : Inv start s) (hsame : Same s s') : Inv start s' where
  registered name := by rw [hsame.get, hsame.owners]; exact h.registered name
  single := by rw [hsame.inUse]; exact h.single
  startUp name tool htool := by rw [hsame.get, hsame.owners]; exact h.startUp name tool htool
  found := by rw [hsame.inUse, hsame.listed]; exact h.found
  own := by rw [hsame.unregistrations]; exact h.own

theorem inv_look (h : Inv start s) (t : Nat) (extension : String) : Inv start (s.look t extension) :=
  ⟨h.registered, h.single, h.startUp, h.found, h.own⟩

/-- A name nobody else uses comes to `register`. -/
theorem inv_offer (h : Inv start s) (t : Nat) {extension : Option String}
    (hfree : ∀ e ∈ s.inUse, e.2 = tool → e.1 = ownerOf extension)
    (hlisted : ∀ l ∈ s.listed, l.tool = tool → extension = some l.server) :
    Inv start (s.offer t tool extension) := by
  have hcases : ∀ e ∈ (s.offer t tool extension).inUse, e = (ownerOf extension, tool) ∨ e ∈ s.inUse := by
    intro e he
    rcases List.mem_append.mp he with he | he
    · exact .inr (List.mem_append_left _ he)
    · rcases List.mem_cons.mp he with rfl | he
      · exact .inl rfl
      · exact .inr (List.mem_append_right _ he)
  refine ⟨h.registered, ?_, h.startUp, ?_, h.own⟩
  · intro o o' name ho ho'
    rcases hcases _ ho with heq | ho
    · obtain ⟨rfl, hname⟩ := Prod.mk.inj heq
      rcases hcases _ ho' with heq' | ho'
      · exact (Prod.mk.inj heq').1.symm
      · exact (hfree _ ho' hname).symm
    · rcases hcases _ ho' with heq' | ho'
      · obtain ⟨rfl, hname⟩ := Prod.mk.inj heq'
        exact hfree _ ho hname
      · exact h.single o o' name ho ho'
  · intro l hl e he hname
    rcases hcases e he with rfl | he
    · show ownerOf extension = _
      rw [hlisted l hl hname.symm]
      rfl
    · exact h.found l hl e he hname

/-- A tool that has come to `register` is inserted: its name is in use already, so nothing new is. -/
theorem inv_insertTool (h : Inv start s) {tool : RegisteredTool} {extension : Option String}
    (hoffer : ⟨t, extension, tool.name⟩ ∈ s.offers) : Inv start (s.insertTool t tool extension) := by
  have hname := mem_inUse_of_offer hoffer
  have hsub : ∀ e ∈ (s.insertTool t tool extension).inUse, e ∈ s.inUse := by
    intro e he
    rcases List.mem_append.mp he with he | he
    · rcases List.mem_cons.mp he with rfl | he
      · exact hname
      · exact List.mem_append_left _ he
    · obtain ⟨o, ho, rfl⟩ := List.mem_map.mp he
      exact mem_inUse_of_offer (List.mem_filter.mp ho).1
  refine ⟨?_, fun o o' name ho ho' => h.single o o' name (hsub _ ho) (hsub _ ho'), ?_,
    fun l hl e he => h.found l hl e (hsub e he), h.own⟩
  · intro name
    show ((s.registry.tools.insert tool.name tool).lookup name).isSome ↔ ∃ owner, (owner, name) ∈ _ :: s.owners
    rw [Map.lookup_insert_ite]
    by_cases heq : name = tool.name
    · rw [if_pos heq, heq]
      exact ⟨fun _ => ⟨ownerOf extension, List.mem_cons_self⟩, fun _ => rfl⟩
    · rw [if_neg heq]
      refine (h.registered name).trans (exists_congr fun o => ?_)
      rw [List.mem_cons, Prod.mk.injEq]
      exact ⟨.inr, fun hmem => hmem.resolve_left fun h => heq h.2⟩
  · intro name started hstarted
    obtain ⟨hget, howner⟩ := h.startUp name started hstarted
    refine ⟨?_, List.mem_cons_of_mem _ howner⟩
    show (s.registry.tools.insert tool.name tool).lookup name = _
    -- The name of a tool of the start is in use by the start, so it is not the one inserted.
    have hne : name ≠ tool.name := by
      rintro rfl
      exact ownerOf_ne_startUp extension (h.single _ _ _ hname (mem_inUse_of_owner howner))
    rw [Map.lookup_insert_ite, if_neg hne]
    exact hget

/-- The removal of a server finds the tools with its prefix, which are the server's. -/
theorem inv_list (h : Inv start s) (t : Nat) {server : String}
    (hnames : ∀ e ∈ s.owners, startsWith e.2 (server ++ "_") = true ↔ e.1 = .extension server) :
    Inv start (s.list t server) := by
  refine ⟨h.registered, h.single, h.startUp, ?_, h.own⟩
  intro l hl e he hname
  rcases List.mem_append.mp hl with hl | hl
  · obtain ⟨tool, htool, rfl⟩ := List.mem_map.mp hl
    obtain ⟨hmem, hstarts⟩ := List.mem_filter.mp htool
    -- Who has registered the tool is the server; somebody else cannot be about to.
    obtain ⟨owner, howner⟩ := h.mem_list.mp hmem
    have hserver : owner = .extension server := (hnames _ howner).mp hstarts
    obtain ⟨owner', name⟩ := e
    obtain rfl : name = tool := hname
    exact (h.single _ _ _ he (mem_inUse_of_owner howner)).trans hserver
  · exact h.found l hl e he hname

theorem inv_unregister (h : Inv start s) (t : Nat) (hown : ∀ e ∈ s.owners, e.2 = tool → e.1 = .extension extension) :
    Inv start (s.unregister t tool extension) := by
  have hsub : ∀ e ∈ (s.unregister t tool extension).inUse, e ∈ s.inUse := by
    intro e he
    rcases List.mem_append.mp he with he | he
    · exact List.mem_append_left _ (List.mem_filter.mp he).1
    · exact List.mem_append_right _ he
  refine ⟨?_, fun o o' name ho ho' => h.single o o' name (hsub _ ho) (hsub _ ho'), ?_,
    fun l hl e he => h.found l (List.mem_filter.mp hl).1 e (hsub e he), ?_⟩
  · intro name
    show ((s.registry.unregister tool).get name).isSome ↔ ∃ owner, (owner, name) ∈ s.owners.filter fun e => e.2 ≠ tool
    rw [ToolRegistry.get_unregister]
    by_cases hname : name = tool
    · rw [if_pos hname]
      refine ⟨fun hsome => Bool.noConfusion hsome, ?_⟩
      rintro ⟨owner, hmem⟩
      exact absurd hname (by simpa using (List.mem_filter.mp hmem).2)
    · rw [if_neg hname]
      refine (h.registered name).trans (exists_congr fun o => ?_)
      rw [List.mem_filter]
      exact ⟨fun hmem => ⟨hmem, by simpa using hname⟩, And.left⟩
  · intro name started hstarted
    obtain ⟨hget, howner⟩ := h.startUp name started hstarted
    have hname : name ≠ tool := fun heq => by cases hown _ howner heq
    refine ⟨?_, List.mem_filter.mpr ⟨howner, by simpa using hname⟩⟩
    show (s.registry.unregister tool).get name = _
    rw [ToolRegistry.get_unregister, if_neg hname]
    exact hget
  · intro u hu owner howner
    rcases List.mem_cons.mp hu with rfl | hu
    · obtain ⟨e, he, rfl⟩ := List.mem_map.mp howner
      obtain ⟨hmem, hname⟩ := List.mem_filter.mp he
      exact hown e hmem (of_decide_eq_true hname)
    · exact h.own u hu owner howner

/-- Every operation that is proper, of a task that is ready for it, keeps the invariant. -/
theorem inv_perform (hinv : Inv start s) (hready : Ready t o s) (hproper : Proper t o i s) {a : Ans o}
    (h : perform t o i s = some (a, s')) : Inv start s' := by
  rcases perform_cases h with ⟨-, hsame⟩ | ⟨name, extension, rfl, ⟨-, rfl⟩ | ⟨hnew, rfl⟩⟩ |
    ⟨tool, extension, rfl, rfl⟩ | ⟨server, rfl, rfl⟩ | ⟨name, rfl, rfl⟩ | ⟨tool, extension, first, rfl, rfl⟩
  · exact inv_same hinv hsame
  · exact hinv
  · have hfree := hproper.resolve_left hnew
    exact inv_offer hinv t hfree.1 hfree.2
  · exact inv_insertTool hinv hready
  · exact inv_list hinv t hproper
  · exact inv_look hinv t name
  · cases first with
    | true => exact inv_unregister (inv_look hinv t extension) t fun e he => (hproper rfl e he).mp
    | false =>
      refine inv_unregister hinv t fun e he hname => ?_
      exact hinv.found _ hready e (List.mem_append_left _ he) hname

/-! ### What the others see -/

theorem rely_same (hsame : Same s s') : Rely t s s' where
  offers o _ := by rw [hsame.offers]
  listed l _ := by rw [hsame.listed]
  looks l _ := by rw [hsame.looks]
  unregistrations u _ := by rw [hsame.unregistrations]

/-- An entry of another task is not the new one. -/
theorem mem_cons_of_task {α : Type} (task : α → Nat) {new e : α} {es : List α} (hne : t' ≠ task new) (he : task e = t') :
    e ∈ new :: es ↔ e ∈ es := by
  rw [List.mem_cons]
  exact ⟨fun hmem => hmem.resolve_left fun heq => hne (he.symm.trans (congrArg task heq)), .inr⟩

theorem rely_look (s : Shared) (extension : String) (hne : t' ≠ t) : Rely t' s (s.look t extension) where
  offers _ _ := Iff.rfl
  listed _ _ := Iff.rfl
  looks _ hl := mem_cons_of_task Look.task hne hl
  unregistrations _ _ := Iff.rfl

theorem rely_list (s : Shared) (server : String) (hne : t' ≠ t) : Rely t' s (s.list t server) where
  offers _ _ := Iff.rfl
  listed l hl := by
    refine List.mem_append.trans ?_
    refine ⟨fun hmem => hmem.resolve_left fun hnew => ?_, .inr⟩
    obtain ⟨tool, -, rfl⟩ := List.mem_map.mp hnew
    exact hne hl.symm
  looks _ hl := mem_cons_of_task Look.task hne hl
  unregistrations _ _ := Iff.rfl

theorem rely_unregister (s : Shared) (tool extension : String) (hne : t' ≠ t) :
    Rely t' s (s.unregister t tool extension) where
  offers _ _ := Iff.rfl
  listed l hl := by
    show l ∈ s.listed.filter _ ↔ _
    rw [List.mem_filter]
    exact ⟨And.left, fun hmem => ⟨hmem, decide_eq_true fun h => hne (hl.symm.trans h.1)⟩⟩
  looks _ _ := Iff.rfl
  unregistrations _ hu := mem_cons_of_task Unregistration.task hne hu

/-- What the other tasks see of an operation. -/
theorem rely_perform {a : Ans o} (h : perform t o i s = some (a, s')) (hne : t' ≠ t) : Rely t' s s' := by
  rcases perform_cases h with ⟨-, hsame⟩ | ⟨name, extension, rfl, ⟨-, rfl⟩ | ⟨-, rfl⟩⟩ |
    ⟨tool, extension, rfl, rfl⟩ | ⟨server, rfl, rfl⟩ | ⟨name, rfl, rfl⟩ | ⟨tool, extension, first, rfl, rfl⟩
  · exact rely_same hsame
  · exact .refl t' _
  · exact ⟨fun _ ho => mem_cons_of_task Offer.task hne ho, fun _ _ => Iff.rfl, fun _ _ => Iff.rfl,
      fun _ _ => Iff.rfl⟩
  · refine ⟨fun o ho => ?_, fun _ _ => Iff.rfl, fun _ _ => Iff.rfl, fun _ _ => Iff.rfl⟩
    show o ∈ s.offers.filter _ ↔ _
    rw [List.mem_filter]
    exact ⟨And.left, fun hmem => ⟨hmem, decide_eq_true fun h => hne (ho.symm.trans h.1)⟩⟩
  · exact rely_list s server hne
  · exact rely_look s name hne
  · split
    · exact (rely_look s extension hne).trans (rely_unregister _ tool extension hne)
    · exact rely_unregister s tool extension hne

/-! ## The calls -/

/-- What a call promises. -/
def Promise (t : Nat) : (c : Call) → Out c → Shared → Prop
  | .remove name, .ok _, s => Removed t name s
  | _, _, _ => True

theorem Promise.rely {c : Call} {out : Out c} (h : Promise t c out s) (hr : Rely t s s') : Promise t c out s' := by
  cases c with
  | remove name =>
    cases out with
    | ok message => exact Unregistering.rely h hr
    | error e => trivial
  | _ => trivial

variable {displayPath : String → String}

def ownership (displayPath : String → String) (start : ToolRegistry) : Outline (machine displayPath) where
  Inv := Inv start
  Rely := Rely
  Pre := Fresh
  Allowed := Proper
  Post := Promise
  rely_refl := Rely.refl
  rely_trans := Rely.trans
  pre_stable := Fresh.rely
  post_stable h hr _ := h.rely hr

/-- One operation the task is ready for: the others may have come in before it. -/
theorem holds_perf (o : Op) {Q : Ans o → Shared → Prop} (hready : Ready t o s)
    (h : ∀ s' i a s'', Rely t s s' → Inv start s' → Proper t o i s' → perform t o i s' = some (a, s'') → Q a s'') :
    (ownership displayPath start).Holds t Q (perf o) s := by
  apply Outline.holds_op
  intro s' hrely hinv i a s'' hop hproper
  refine ⟨⟨inv_perform hinv (hready.rely hrely) hproper hop, fun t' hne => rely_perform hop hne⟩, ?_⟩
  exact Outline.holds_ret (h s' i a s'' hrely hinv hproper hop)

variable {α : Type}

theorem Quiet.ready (h : Quiet o) : Ready t o s := by
  cases o with
  | insertTool tool extension => cases h
  | unregister tool extension first => cases h
  | _ => trivial

/-- A stretch that leaves the books alone keeps what they say. -/
theorem holds_quiet {p : Prog Op Ans α} {J : Shared → Prop} (hp : p.Every Quiet) (hrely : ∀ s s', Rely t s s' → J s → J s')
    (hJ : J s) : (ownership displayPath start).Holds t (fun _ => J) p s := by
  refine Outline.holds_every (M := machine displayPath) (φ := Quiet) ?_ (fun h hr _ => hrely _ _ hr h) hp hJ
  intro o i a s s' hquiet hinv hJ hop hproper
  refine ⟨⟨inv_perform hinv hquiet.ready hproper hop, fun t' hne => rely_perform hop hne⟩, hrely s s' ?_ hJ⟩
  rcases perform_cases hop with ⟨-, hsame⟩ | ⟨name, extension, rfl, -⟩ | ⟨tool, extension, rfl, -⟩ | ⟨server, rfl, -⟩ |
    ⟨name, rfl, -⟩ | ⟨tool, extension, first, rfl, -⟩
  · exact rely_same hsame
  all_goals cases hquiet

/-- A stretch that promises nothing. -/
theorem holds_idle {p : Prog Op Ans α} (hp : p.Every Quiet) :
    (ownership displayPath start).Holds t (fun _ _ => True) p s :=
  holds_quiet hp (fun _ _ _ _ => trivial) trivial

/-- One operation that leaves the books alone. -/
theorem holds_quiet_op (o : Op) (h : Quiet o) :
    (ownership displayPath start).Holds t (fun _ _ => True) (perf o) s := holds_idle (Prog.every_perf h)

variable (name : String)

theorem quiet_getMcpServer : (getMcpServer name).Every Quiet := by
  unfold getMcpServer
  refine (Prog.every_perf trivial).bind fun r => ?_
  cases r with
  | error e => exact Prog.every_ret
  | ok servers =>
    dsimp only
    split <;> exact Prog.every_ret

theorem quiet_removeMcpServer : (removeMcpServer name).Every Quiet := by
  unfold removeMcpServer
  refine (Prog.every_perf trivial).bind fun r => ?_
  cases r with
  | error e => exact Prog.every_ret
  | ok servers =>
    dsimp only
    split
    · exact Prog.every_perf trivial
    · exact Prog.every_ret

theorem quiet_determineInstalledKind : (determineInstalledKind name).Every Quiet := by
  unfold determineInstalledKind
  refine (quiet_getMcpServer name).bind fun r => ?_
  cases r with
  | ok server => exact Prog.every_ret
  | error e =>
    refine (Prog.every_perf trivial).bind fun isTool => ?_
    cases isTool with
    | true => exact Prog.every_ret
    | false =>
      refine (Prog.every_perf trivial).bind fun isChannel => ?_
      cases isChannel with
      | true => exact Prog.every_ret
      | false => exact Prog.every_ret

theorem quiet_deleteModule (kind : ExtensionKind) (name : String) (present : Bool) (message : String) :
    (deleteModule kind name present message).Every Quiet := by
  unfold deleteModule
  cases present with
  | false => exact Prog.every_ret
  | true =>
    refine (Prog.every_perf trivial).bind fun r => ?_
    cases r with
    | error e => exact Prog.every_ret
    | ok u => exact Prog.every_ret

/-! ### Registering -/

/-- What comes to `register` is checked before it is inserted. -/
theorem holds_register (tool : RegisteredTool) (extension : Option String) :
    (ownership displayPath start).Holds t (fun _ _ => True) (register tool extension) s := by
  unfold register
  refine Outline.Holds.bind (Q := fun (builtin : Bool) (s : Shared) =>
    builtin = false → Ready t (.insertTool tool extension) s) ?_ fun builtin s h => ?_
  · refine holds_perf (.isBuiltin tool.name extension) trivial fun s' i a s'' _ _ _ hop => ?_
    simp only [perform] at hop
    split at hop
    · cases hop
      exact nofun
    · cases hop
      exact fun _ => List.mem_cons_self
  · cases builtin with
    | true => exact Outline.holds_ret trivial
    | false => exact holds_perf (.insertTool tool extension) (h rfl) fun _ _ _ _ _ _ _ _ => trivial

theorem holds_registerWasm (prepared : Except String Unit) (credentials : List CredentialMapping) :
    (ownership displayPath start).Holds t (fun _ _ => True) (registerWasm name prepared credentials) s := by
  unfold registerWasm
  cases prepared with
  | error e => exact Outline.holds_ret trivial
  | ok u =>
    refine (holds_register _ (some name)).bind fun _ s _ => ?_
    refine Outline.holds_ite (fun _ => Outline.holds_ret trivial) fun _ => ?_
    exact holds_idle ((Prog.every_perf trivial).bind fun _ => Prog.every_ret)

theorem holds_registerAll (server : String) (names : List String) :
    (ownership displayPath start).Holds t (fun _ _ => True) (registerAll server names) s := by
  induction names generalizing s with
  | nil => exact Outline.holds_ret trivial
  | cons name names ih => exact (holds_register _ (some server)).bind fun _ s _ => ih

theorem holds_activateMcp :
    (ownership displayPath start).Holds t (fun _ _ => True) (activateMcp name) s := by
  unfold activateMcp
  refine (holds_quiet_op (.hasClient name) trivial).bind fun connected s _ => ?_
  cases connected with
  | true => exact holds_idle ((Prog.every_perf trivial).bind fun _ => Prog.every_ret)
  | false =>
    refine (holds_idle (quiet_getMcpServer name)).bind fun r s _ => ?_
    cases r with
    | error e => exact Outline.holds_ret trivial
    | ok server =>
      refine (holds_quiet_op (.serverTools server.name) trivial).bind fun answer s _ => ?_
      cases answer with
      | error e => exact Outline.holds_ret trivial
      | ok tools =>
        refine (holds_registerAll server.name tools).bind fun _ s _ => ?_
        exact holds_idle ((Prog.every_perf trivial).bind fun _ => Prog.every_ret)

theorem holds_activateWasmTool :
    (ownership displayPath start).Holds t (fun _ _ => True) (activateWasmTool displayPath name) s := by
  unfold activateWasmTool
  refine (holds_quiet_op (.hasTool name) trivial).bind fun (there : Bool) s _ => ?_
  refine Outline.holds_ite (fun _ => Outline.holds_ret trivial) fun _ => ?_
  refine (holds_quiet_op .hasRuntime trivial).bind fun runtime s _ => ?_
  refine Outline.holds_ite (fun _ => Outline.holds_ret trivial) fun _ => ?_
  refine (holds_quiet_op (.toolFile name) trivial).bind fun installed s _ => ?_
  refine Outline.holds_ite (fun _ => Outline.holds_ret trivial) fun _ => ?_
  refine (holds_quiet_op (.loadFiles name) trivial).bind fun files s _ => ?_
  cases files with
  | error e => exact Outline.holds_ret trivial
  | ok loaded =>
    refine (holds_registerWasm name loaded.1 loaded.2).bind fun r s _ => ?_
    cases r with
    | error e => exact Outline.holds_ret trivial
    | ok u => exact Outline.holds_ret trivial

theorem holds_activate :
    (ownership displayPath start).Holds t (fun _ _ => True) (activate displayPath name) s := by
  unfold activate
  cases validateExtensionName name with
  | error e => exact Outline.holds_ret trivial
  | ok u =>
    refine (holds_idle (quiet_determineInstalledKind name)).bind fun r s _ => ?_
    cases r with
    | error e => exact Outline.holds_ret trivial
    | ok kind =>
      cases kind with
      | mcpServer => exact holds_activateMcp name
      | wasmTool => exact holds_activateWasmTool name
      | wasmChannel =>
        refine (holds_quiet_op (.activateChannel name) trivial).bind fun r s _ => ?_
        cases r with
        | error e => exact Outline.holds_ret trivial
        | ok u => exact Outline.holds_ret trivial

/-! ### Installing -/

theorem quiet_addMcpServer (config : McpServerConfig) : (addMcpServer config).Every Quiet := by
  unfold addMcpServer
  cases config.validate with
  | error e => exact Prog.every_ret
  | ok u =>
    refine (Prog.every_perf trivial).bind fun r => ?_
    cases r with
    | error e => exact Prog.every_ret
    | ok servers => exact Prog.every_perf trivial

theorem quiet_tryInstall (source : Source) : (tryInstall name source).Every Quiet := by
  cases source with
  | wasm kind => exact Prog.every_perf trivial
  | unsuitable e => exact Prog.every_ret
  | mcpUrl url =>
    unfold tryInstall installMcpFromUrl
    refine (quiet_getMcpServer name).bind fun r => ?_
    cases r with
    | ok server => exact Prog.every_ret
    | error e =>
      dsimp only
      split
      · exact Prog.every_ret
      · refine (quiet_addMcpServer _).bind fun r => ?_
        cases r with
        | error e => exact Prog.every_ret
        | ok u => exact Prog.every_ret

theorem quiet_install (source : Option (Source × Option Source)) :
    (install name source).Every Quiet := by
  unfold install
  split
  · exact Prog.every_ret
  · split
    · exact Prog.every_ret
    next primary fallback =>
      refine (quiet_tryInstall name primary).bind fun r => ?_
      split
      · exact Prog.every_ret
      · exact Prog.every_ret
      · split
        · exact Prog.every_ret
        next second =>
          refine (quiet_tryInstall name second).bind fun r => ?_
          split <;> exact Prog.every_ret

/-! ### Removing -/

variable {extension : String}

theorem holds_unregisterAll (tools : List String) (hnodup : tools.Nodup)
    (hlisted : ∀ tool ∈ tools, Ready t (.unregister tool extension false) s) (h : Unregistering t extension tools s) :
    (ownership displayPath start).Holds t (fun _ => Removed t extension) (unregisterAll extension tools) s := by
  induction tools generalizing s with
  | nil => exact Outline.holds_ret h
  | cons tool tools ih =>
    unfold unregisterAll
    obtain ⟨hnotin, hnodup⟩ := List.nodup_cons.mp hnodup
    refine Outline.Holds.bind (Q := fun (_ : Unit) (s : Shared) =>
      (∀ tool ∈ tools, Ready t (.unregister tool extension false) s) ∧ Unregistering t extension tools s) ?_
      fun _ s h => ih hnodup h.1 h.2
    refine holds_perf (.unregister tool extension false) (hlisted tool List.mem_cons_self)
      fun s' i a s'' hr _ _ hop => ?_
    obtain ⟨⟨l, hl, htask, hext, howned⟩, hown⟩ := h.rely hr
    cases hop
    refine ⟨?_, ⟨l, hl, htask, hext, ?_⟩, ?_⟩
    · intro other hother
      have hready : Ready t (.unregister other extension false) s' :=
        (hlisted other (List.mem_cons_of_mem _ hother)).rely hr
      refine List.mem_filter.mpr ⟨hready, decide_eq_true fun heq => hnotin ?_⟩
      exact heq.2 ▸ hother
    · intro other hother
      rcases howned other hother with hleft | ⟨u, hu, hut, hname⟩
      · rcases List.mem_cons.mp hleft with rfl | hleft
        · exact .inr ⟨_, List.mem_cons_self, rfl, rfl⟩
        · exact .inl hleft
      · exact .inr ⟨u, List.mem_cons_of_mem _ hu, hut, hname⟩
    · intro u hu hut
      rcases List.mem_cons.mp hu with rfl | hu
      · rfl
      · exact hown u hu hut

/-- After the look of a removal that has done nothing yet. -/
theorem unregistering_look (h : Fresh t s) (hleft : ∀ tool ∈ s.owned extension, tool ∈ left) :
    Unregistering t extension left (s.look t extension) := by
  refine ⟨⟨⟨t, extension, s.owned extension⟩, List.mem_cons_self, rfl, rfl, ?_⟩, ?_⟩
  · intro tool htool
    exact .inl (hleft tool htool)
  · intro u hu hut
    exact absurd hut (h.2 u hu)

theorem removed_rely : ∀ s s' : Shared, Rely t s s' → Removed t extension s → Removed t extension s' :=
  fun _ _ hr h => Unregistering.rely h hr

theorem holds_removeMcp (h : Fresh t s) : (ownership displayPath start).Holds t
    (fun (_ : Except ExtensionError String) => Removed t extension) (removeMcp extension) s := by
  unfold removeMcp
  refine Outline.Holds.bind (Q := fun (names : List String) (s : Shared) =>
    let found := names.filter fun tool => startsWith tool (extension ++ "_")
    found.Nodup ∧ (∀ tool ∈ found, Ready t (.unregister tool extension false) s) ∧
      Unregistering t extension found s) ?_ fun names s h => ?_
  · refine holds_perf (.listToolsOf extension) trivial fun s' i a s'' hr hinv hproper hop => ?_
    have hfresh := h.rely hr
    cases hop
    refine ⟨s'.registry.tools.nodupKeys.filter _, ?_, ?_⟩
    · intro tool htool
      exact List.mem_append_left _ (List.mem_map_of_mem htool)
    -- What the extension has registered is listed, and has its prefix.
    · refine unregistering_look hfresh fun tool htool => ?_
      have howner := mem_owned.mp htool
      exact List.mem_filter.mpr ⟨hinv.mem_list.mpr ⟨_, howner⟩, (hproper _ howner).mpr rfl⟩
  refine (holds_unregisterAll _ h.1 h.2.1 h.2.2).bind fun _ s h => ?_
  refine holds_quiet ?_ removed_rely h
  refine (Prog.every_perf trivial).bind fun _ => (quiet_removeMcpServer extension).bind fun r => ?_
  cases r with
  | error e => exact Prog.every_ret
  | ok u => exact Prog.every_ret

theorem holds_removeWasmTool (h : Fresh t s) : (ownership displayPath start).Holds t
    (fun (_ : Except ExtensionError String) => Removed t extension) (removeWasmTool extension) s := by
  unfold removeWasmTool
  refine Outline.Holds.bind (Q := fun (_ : Unit) (s : Shared) => Removed t extension s) ?_ fun _ s h => ?_
  · refine holds_perf (.unregister extension extension true) trivial fun s' i a s'' hr _ hproper hop => ?_
    have hfresh := h.rely hr
    cases hop
    have hlook : Unregistering t extension [extension] (s'.look t extension) :=
      unregistering_look hfresh fun tool htool => List.mem_singleton.mpr ((hproper rfl _ (mem_owned.mp htool)).mpr rfl)
    obtain ⟨⟨l, hl, htask, hext, howned⟩, hown⟩ := hlook
    refine ⟨⟨l, hl, htask, hext, ?_⟩, ?_⟩
    · intro tool htool
      rcases howned tool htool with hleft | ⟨u, hu, hut, hname⟩
      · exact .inr ⟨_, List.mem_cons_self, rfl, (List.mem_singleton.mp hleft).symm⟩
      · exact .inr ⟨u, List.mem_cons_of_mem _ hu, hut, hname⟩
    · intro u hu hut
      rcases List.mem_cons.mp hu with rfl | hu
      · rfl
      · exact hown u hu hut
  refine holds_quiet ?_ removed_rely h
  exact (Prog.every_perf trivial).bind fun _ => (Prog.every_perf trivial).bind fun present =>
    quiet_deleteModule .wasmTool extension present _

theorem holds_removeWasmChannel (h : Fresh t s) : (ownership displayPath start).Holds t
    (fun (_ : Except ExtensionError String) => Removed t extension) (removeWasmChannel extension) s := by
  unfold removeWasmChannel
  refine Outline.Holds.bind (Q := fun (_ : Unit) (s : Shared) => Removed t extension s) ?_ fun _ s h => ?_
  · refine holds_perf (.deactivateChannel extension) trivial fun s' i a s'' hr _ hproper hop => ?_
    have hfresh := h.rely hr
    cases hop
    exact unregistering_look hfresh fun tool htool => absurd rfl (hproper _ (mem_owned.mp htool))
  refine holds_quiet ?_ removed_rely h
  exact (Prog.every_perf trivial).bind fun _ => (Prog.every_perf trivial).bind fun present =>
    quiet_deleteModule .wasmChannel extension present _

theorem holds_remove (h : Fresh t s) :
    (ownership displayPath start).Holds t (Promise t (.remove name)) (remove name) s := by
  have hok : ∀ (r : Except ExtensionError String) (s : Shared), Removed t name s → Promise t (.remove name) r s := by
    intro r s h
    cases r with
    | ok message => exact h
    | error e => trivial
  unfold remove
  cases validateExtensionName name with
  | error e => exact Outline.holds_ret trivial
  | ok u =>
    refine (holds_quiet (quiet_determineInstalledKind name) (fun _ _ hr h => h.rely hr) h).bind fun r s h => ?_
    cases r with
    | error e => exact Outline.holds_ret trivial
    | ok kind =>
      cases kind with
      | mcpServer => exact (holds_removeMcp h).mono hok
      | wasmTool => exact (holds_removeWasmTool h).mono hok
      | wasmChannel => exact (holds_removeWasmChannel h).mono hok

theorem holds_body (c : Call) (h : Fresh t s) :
    (ownership displayPath start).Holds t (Promise t c) (body displayPath c) s := by
  cases c with
  | remove name => exact holds_remove name h
  | register tool server => exact (holds_register tool server).mono fun _ _ _ => trivial
  | registerWasm name prepared credentials =>
    exact (holds_registerWasm name prepared credentials).mono fun _ _ _ => trivial
  | install name source => exact (holds_idle (quiet_install name source)).mono fun _ _ _ => trivial
  | activate name => exact (holds_activate name).mono fun _ _ _ => trivial

/-! ## Every interleaving -/

theorem inv_started (registry : ToolRegistry) (servers : List McpServerConfig) (wasmTools wasmChannels : List String)
    (hasRuntime : Bool) : Inv registry (started registry servers wasmTools wasmChannels hasRuntime) := by
  have hstart : ∀ e ∈ (started registry servers wasmTools wasmChannels hasRuntime).inUse, e.1 = .startUp := by
    intro e he
    obtain ⟨name, -, rfl⟩ := List.mem_map.mp ((List.mem_append.mp he).resolve_right List.not_mem_nil)
    rfl
  refine ⟨?_, fun _ _ _ h h' => (hstart _ h).trans (hstart _ h').symm, ?_, nofun, nofun⟩
  · intro name
    show (registry.tools.lookup name).isSome ↔ ∃ owner, (owner, name) ∈ registry.list.map fun name => (Owner.startUp, name)
    rw [AList.lookup_isSome]
    constructor
    · intro hmem
      exact ⟨.startUp, List.mem_map_of_mem hmem⟩
    · rintro ⟨owner, hmem⟩
      obtain ⟨other, hother, heq⟩ := List.mem_map.mp hmem
      exact (Prod.mk.inj heq).2 ▸ hother
  · intro name tool htool
    refine ⟨htool, List.mem_map_of_mem ?_⟩
    exact AList.lookup_isSome.mp (by rw [show registry.tools.lookup name = some tool from htool]; rfl)

/-- **Extensions keep to their own tools**, in every interleaving whose steps are proper: the tools of the start stay;
the removal of an extension that returns has unregistered every tool the extension had registered when it looked, and
none but its tools; and what extensions have registered is there, no name by two of them. -/
theorem extensions_keep_to_their_tools {registry : ToolRegistry} {servers : List McpServerConfig}
    {wasmTools wasmChannels : List String} {hasRuntime : Bool} {labels : List (machine displayPath).Label}
    {cfg : (machine displayPath).Config}
    (run : Runs (machine displayPath).step (Machine.StepsMeet Proper)
      ((machine displayPath).initial (started registry servers wasmTools wasmChannels hasRuntime)) labels cfg) :
    (∀ name tool, registry.get name = some tool → cfg.shared.registry.get name = some tool) ∧
    (∀ t name message, cfg.Returned t (.remove name) (.ok message) →
      ∃ l ∈ cfg.shared.looks, l.task = t ∧ l.extension = name ∧
        (∀ tool ∈ l.owned, ∃ u ∈ cfg.shared.unregistrations, u.task = t ∧ u.tool = tool) ∧
        ∀ u ∈ cfg.shared.unregistrations, u.task = t → ∀ owner ∈ u.owners, owner = .extension name) ∧
    (∀ u ∈ cfg.shared.unregistrations, ∀ owner ∈ u.owners, owner = .extension u.extension) ∧
    (∀ name tool, tool ∈ cfg.shared.owned name → (cfg.shared.registry.get tool).isSome) ∧
    ∀ name name' tool, tool ∈ cfg.shared.owned name → tool ∈ cfg.shared.owned name' → name = name' := by
  have hgood := Outline.run (P := ownership displayPath registry) run
    (inv_started registry servers wasmTools wasmChannels hasRuntime)
    (fun t => ⟨fun l hl => absurd hl List.not_mem_nil, fun u hu => absurd hu List.not_mem_nil⟩)
    (fun _ hmeet htask => hmeet _ _ _ htask) (fun c _ hpre => holds_body c hpre)
  refine ⟨?_, ?_, hgood.inv.own, ?_, ?_⟩
  · intro name tool htool
    exact (hgood.inv.startUp name tool htool).1
  · intro t name message hret
    obtain ⟨⟨l, hl, htask, hext, howned⟩, hown⟩ : Removed t name cfg.shared := hgood.post hret
    refine ⟨l, hl, htask, hext, ?_, ?_⟩
    · intro tool htool
      exact (howned tool htool).resolve_left List.not_mem_nil
    · intro u hu hut owner howner
      rw [hgood.inv.own u hu owner howner, hown u hu hut]
  · intro name tool h
    exact (hgood.inv.registered tool).mpr ⟨_, mem_owned.mp h⟩
  · intro name name' tool h h'
    have heq := hgood.inv.single _ _ tool (mem_inUse_of_owner (mem_owned.mp h)) (mem_inUse_of_owner (mem_owned.mp h'))
    exact Owner.extension.inj heq

/-! ## Servers named like built-in tools -/

instance (t : Nat) (o : Op) (i : Input) (s : Shared) : Decidable (Proper t o i s) :=
  match o with
  | .isBuiltin name extension =>
    inferInstanceAs (Decidable (name ∈ s.registry.builtinNames ∨
      (∀ e ∈ s.inUse, e.2 = name → e.1 = ownerOf extension) ∧
        ∀ l ∈ s.listed, l.tool = name → extension = some l.server))
  | .listToolsOf server =>
    inferInstanceAs (Decidable (∀ e ∈ s.owners, startsWith e.2 (server ++ "_") = true ↔ e.1 = .extension server))
  | .unregister tool extension first =>
    inferInstanceAs (Decidable (first = true → ∀ e ∈ s.owners, e.2 = tool ↔ e.1 = .extension extension))
  | .deactivateChannel name => inferInstanceAs (Decidable (∀ e ∈ s.owners, e.1 ≠ .extension name))
  | .insertTool _ _ | .addMappings _ | .hasTool _ | .listTools | .revokeMappings | .hasClient _ | .insertClient _
  | .removeClient _ | .loadServers | .saveServers _ | .serverTools _ | .hasRuntime | .toolFile _ | .channelFile _
  | .loadFiles _ | .download _ _ | .deleteFile _ _ | .activateChannel _ => .isTrue trivial

/-- `Proper`, computed. -/
def proper (t : Nat) (o : Op) (i : Input) (s : Shared) : Bool := decide (Proper t o i s)

theorem proper_sound (t : Nat) (o : Op) (i : Input) (s : Shared) (h : proper t o i s = true) : Proper t o i s :=
  of_decide_eq_true h

/-- The steps of a task. -/
def steps (t n : Nat) (i : Input) : List (machine id).Label := List.replicate n (.step t i)

/-- The program has started with one tool, which is protected. -/
def memoryTools : ToolRegistry := (ToolRegistry.new none).registerSync true true ⟨"memory_search", .native 0⟩

/-- Install, activate and remove an MCP server that lists one tool. -/
def lifeOf (server : String) (removal : Nat) : List (machine id).Label :=
  .start 0 (.install server (some (.mcpUrl "https://mcp.test", none))) :: steps 0 3 {} ++
  .start 1 (.activate server) :: steps 1 7 { tools := ["list"] } ++
  .start 2 (.remove server) :: steps 2 removal {}

/-- The tools, and what the removals have unregistered. -/
def tools (cfg : (machine id).Config) : List String × List String :=
  (cfg.shared.registry.list, cfg.shared.unregistrations.map Unregistration.tool)

/-- The message of the removal. -/
def removal (cfg : (machine id).Config) : Option String :=
  match cfg.tasks 2 with
  | some ⟨.remove _, .ret (.ok message)⟩ => some message
  | _ => none

/-- A module `weather` registers its tool, and then the server `notes` comes and goes. -/
def besideWeather : List (machine id).Label :=
  .start 3 (.registerWasm "weather" (.ok ()) []) :: steps 3 2 {} ++ lifeOf "notes" 6

theorem notes_come_and_go : ∃ cfg, Runs (machine id).step (Machine.StepsMeet Proper)
      ((machine id).initial (started memoryTools [] [] [] true)) besideWeather cfg ∧
    tools cfg = (["weather", "memory_search"], ["notes_list"]) ∧
    cfg.shared.registry.get "memory_search" = some ⟨"memory_search", .native 0⟩ := by
  have hcomputed : (besideWeather.foldlM
      (fun cfg l => if Machine.stepsMeet proper cfg l then (machine id).step cfg l else none)
      ((machine id).initial (started memoryTools [] [] [] true))).map tools =
        some (["weather", "memory_search"], ["notes_list"]) := by
    decide
  obtain ⟨cfg, hls, htools⟩ := Option.map_eq_some_iff.mp hcomputed
  have run := Runs.of_checked (C := Machine.StepsMeet Proper)
    (Machine.stepsMeet_sound proper_sound) hls
  exact ⟨cfg, run, htools, (extensions_keep_to_their_tools run).1 "memory_search" _ (by decide)⟩

/-- A server called `memory` is removed, and with it the tool of the start whose name begins like that. -/
theorem memory_search_is_lost : ∃ cfg, Runs (machine id).step (fun _ _ => True)
      ((machine id).initial (started memoryTools [] [] [] true)) (lifeOf "memory" 7) cfg ∧
    removal cfg = some "Removed MCP server 'memory' and 2 tool(s)" ∧
    memoryTools.get "memory_search" = some ⟨"memory_search", .native 0⟩ ∧
    cfg.shared.registry.get "memory_search" = none := by
  have hcomputed : ((lifeOf "memory" 7).foldlM (machine id).step
      ((machine id).initial (started memoryTools [] [] [] true))).map
        (fun cfg => (removal cfg, cfg.shared.registry.get "memory_search")) =
      some (some "Removed MCP server 'memory' and 2 tool(s)", none) := by
    decide
  obtain ⟨cfg, hls, hseen⟩ := Option.map_eq_some_iff.mp hcomputed
  obtain ⟨hremoval, hget⟩ := Prod.mk.inj hseen
  exact ⟨cfg, Runs.of_foldlM hls, hremoval, by decide, hget⟩

end Freeclawdia.ExtensionManager
