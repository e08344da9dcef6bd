import Freeclawdia.Correctness.ManagerRuns
import Freeclawdia.Lib.Runs

/-!
# `Correctness.ThreadMap` — external thread ids and threads

Two results about `thread_map`.

**One user's keys.** Over every run of one user's calls, a key maps to a thread the session holds and two
keys never map to the same thread (`MapInv`). A key keeps resolving to its thread until the thread is
removed, the session is pruned, *or a hydrated thread is registered under that very key*: registration
overwrites, and `rebound_by_registration` shows a run of handled messages in which it does.

**Hydration and resolution.** Hydration registers a thread under the canonical text of its identifier and
resolution looks the raw text up, so the two agree exactly when the raw text is canonical.
-/

namespace Freeclawdia.SessionManager

open Rust

/-! ## Calls of one user -/

/-- The operation is a call made for the user; pruning is for everybody. -/
def Op.OfUser (user : String) : Op → Prop
  | .resolve u .. => u = user
  | .hydrate u .. => u = user
  | .remove u .. => u = user
  | .prune .. => True
  | .newThread u .. => u = user
  | .switchThread u .. => u = user
  | .turn u .. => u = user

/-- A resolution is given a new identifier: one that neither the session nor the map has. -/
def Op.Fresh (m : SessionManager) : Op → Prop
  | .resolve user _ _ _ tid _ => ¬ m.Holds user tid ∧ ∀ key, m.threadMap.lookup key ≠ some tid
  | _ => True

/-- A call of one user. -/
def Calls (user : String) (m : SessionManager) (op : Op) : Prop := op.OfUser user ∧ op.Fresh m

/-- The manager has never heard of the user. -/
def Unknown (m : SessionManager) (user : String) : Prop :=
  m.session user = none ∧ ∀ key : ThreadKey, key.userId = user → m.threadMap.lookup key = none

/-! ## The remaining operations -/

variable {user' : String} {tid : Uuid}

theorem holds_newThread (m : SessionManager) (user : String) (newTid : Uuid) (now : Time) (h : m.Holds user' tid) :
    (m.modifySession user (Session.createThread · newTid now)).Holds user' tid :=
  (holds_modifySession m user _ (· = newTid) (fun s tid => lookup_createThread s newTid now tid) user' tid).mpr
    (Or.inl h)

theorem holds_switchThread (m : SessionManager) (user : String) (target : Uuid) (now : Time) (h : m.Holds user' tid) :
    (m.modifySession user fun s => (s.switchThread target now).2).Holds user' tid := by
  have hthreads : ∀ s : Session, (s.switchThread target now).2.threads = s.threads := by
    intro s
    unfold Session.switchThread
    split <;> rfl
  refine (holds_modifySession m user _ (fun _ => False) ?_ user' tid).mpr (Or.inl h)
  intro s tid
  rw [hthreads s, or_false]

theorem holds_turn (m : SessionManager) (user : String) (target : Uuid) (change : Thread → Thread)
    (h : m.Holds user' tid) :
    (m.modifySession user (Session.modifyThread · target change)).Holds user' tid := by
  refine (holds_modifySession m user _ (fun _ => False) ?_ user' tid).mpr (Or.inl h)
  intro s tid
  rw [or_false]
  by_cases ht : tid = target
  · rw [ht, Session.lookup_modifyThread_self]
    cases s.threads.lookup target <;> simp
  · rw [Session.lookup_modifyThread_ne s change ht]

/-! ## The invariant of one user's keys -/

/-- The user's part of the thread map: keys map to held threads, and no two to the same. -/
structure MapInv (m : SessionManager) (user : String) : Prop where
  held : ∀ key tid, key.userId = user → m.threadMap.lookup key = some tid → m.Holds user tid
  inj : ∀ k₁ k₂ tid, k₁.userId = user → k₂.userId = user →
    m.threadMap.lookup k₁ = some tid → m.threadMap.lookup k₂ = some tid → k₁ = k₂

variable {m : SessionManager} {user : String}

theorem mapInv_of_unknown (h : m.Unknown user) : m.MapInv user where
  held := by
    intro key tid hkey hlook
    rw [h.2 key hkey] at hlook
    cases hlook
  inj := by
    intro k₁ _ tid h₁ _ hlook _
    rw [h.2 k₁ h₁] at hlook
    cases hlook

variable {m' : SessionManager}

/-- An operation that leaves the map alone and drops no thread keeps the invariant. -/
theorem mapInv_of_same_map (hm : m.MapInv user) (hmap : m'.threadMap = m.threadMap)
    (hheld : ∀ tid, m.Holds user tid → m'.Holds user tid) : m'.MapInv user where
  held := by
    intro key tid hkey hlook
    rw [hmap] at hlook
    exact hheld tid (hm.held key tid hkey hlook)
  inj := by
    intro k₁ k₂ tid h₁ h₂ hl₁ hl₂
    rw [hmap] at hl₁ hl₂
    exact hm.inj k₁ k₂ tid h₁ h₂ hl₁ hl₂

/-- An operation that binds one key to a thread no other key of the user maps to keeps the invariant. -/
theorem mapInv_of_bind (key : ThreadKey) (tid : Uuid) (hm : m.MapInv user)
    (hmap : ∀ k, m'.threadMap.lookup k = if k = key then some tid else m.threadMap.lookup k)
    (hheld : ∀ t, m.Holds user t ∨ t = tid → m'.Holds user t)
    (hother : ∀ k, k.userId = user → k ≠ key → m.threadMap.lookup k ≠ some tid) : m'.MapInv user where
  held := by
    intro k t hk hlook
    rw [hmap] at hlook
    by_cases hkey : k = key
    · rw [if_pos hkey] at hlook
      exact hheld t (Or.inr (Option.some.inj hlook).symm)
    · rw [if_neg hkey] at hlook
      exact hheld t (Or.inl (hm.held k t hk hlook))
  inj := by
    intro k₁ k₂ t h₁ h₂ hl₁ hl₂
    rw [hmap] at hl₁ hl₂
    by_cases hk₁ : k₁ = key
    · by_cases hk₂ : k₂ = key
      · rw [hk₁, hk₂]
      · rw [if_pos hk₁] at hl₁
        rw [if_neg hk₂] at hl₂
        exact absurd (hl₁ ▸ hl₂ : m.threadMap.lookup k₂ = some tid) (hother k₂ h₂ hk₂)
    · by_cases hk₂ : k₂ = key
      · rw [if_neg hk₁] at hl₁
        rw [if_pos hk₂] at hl₂
        exact absurd (hl₂ ▸ hl₁ : m.threadMap.lookup k₁ = some tid) (hother k₁ h₁ hk₁)
      · rw [if_neg hk₁] at hl₁
        rw [if_neg hk₂] at hl₂
        exact hm.inj k₁ k₂ t h₁ h₂ hl₁ hl₂

/-- The invariant is kept by `resolve_thread`. -/
theorem mapInv_resolve (hm : m.MapInv user) (channel : String) (external : Option String) (sid tid : Uuid) (now : Time)
    (hfresh : ∀ key, m.threadMap.lookup key ≠ some tid) :
    (m.resolveThread user channel external sid tid now).2.MapInv user := by
  apply mapInv_of_bind _ _ hm (lookup_resolveThread m user channel external sid tid now)
  · intro t ht
    apply (holds_resolveThread m user channel external sid tid now user t).mpr
    rcases ht with ht | ht
    · exact Or.inl ht
    · exact Or.inr ⟨rfl, ht⟩
  · intro k hk hne hlook
    rcases resolveThread_result m user channel external sid tid now with hmap | hnone | hnew
    · exact hne (hm.inj _ _ _ hk rfl hlook hmap)
    · exact hnone k hlook
    · rw [hnew] at hlook
      exact hfresh k hlook

/-- The invariant is kept by hydration: a thread the session does not have is not mapped either. -/
theorem mapInv_hydrate (hm : m.MapInv user) (channel : String) (tid : Uuid) (messages : List ChatMessage) (sid : Uuid)
    (now : Time) : (m.hydrateIfAbsent user channel tid messages sid now).MapInv user := by
  have hholds := holds_hydrateIfAbsent m user channel tid messages sid now user
  by_cases hheld : m.Holds user tid
  · -- The map is the same, looked up at every key.
    constructor
    · intro key t hkey hlook
      rw [lookup_hydrateIfAbsent, if_neg (fun h => h.1 hheld)] at hlook
      exact (hholds t).mpr (Or.inl (hm.held key t hkey hlook))
    · intro k₁ k₂ t h₁ h₂ hl₁ hl₂
      rw [lookup_hydrateIfAbsent, if_neg (fun h => h.1 hheld)] at hl₁ hl₂
      exact hm.inj k₁ k₂ t h₁ h₂ hl₁ hl₂
  · apply mapInv_of_bind (canonicalKey user channel tid) tid hm
    · intro k
      rw [lookup_hydrateIfAbsent]
      by_cases hk : k = canonicalKey user channel tid
      · rw [if_pos ⟨hheld, hk⟩, if_pos hk]
      · rw [if_neg (fun h => hk h.2), if_neg hk]
    · intro t ht
      rcases ht with ht | ht
      · exact (hholds t).mpr (Or.inl ht)
      · exact (hholds t).mpr (Or.inr ⟨rfl, ht⟩)
    · intro k hk _ hlook
      exact hheld (hm.held k tid hk hlook)

/-- The invariant is kept by `remove_thread`. -/
theorem mapInv_remove (hm : m.MapInv user) (tid sid : Uuid) (now : Time) :
    (m.removeThread user tid sid now).MapInv user := by
  constructor
  · intro key t hkey hlook
    rw [lookup_removeThread] at hlook
    obtain ⟨hlook, hne⟩ := Option.filter_eq_some_iff.mp hlook
    apply (holds_removeThread m user tid sid now user t).mpr
    refine ⟨hm.held key t hkey hlook, ?_⟩
    rintro ⟨_, ht⟩
    simp [ht] at hne
  · intro k₁ k₂ t h₁ h₂ hl₁ hl₂
    rw [lookup_removeThread] at hl₁ hl₂
    exact hm.inj k₁ k₂ t h₁ h₂ (Option.filter_eq_some_iff.mp hl₁).1 (Option.filter_eq_some_iff.mp hl₂).1

/-- The invariant is kept by pruning: the keys of a pruned user go with the session. -/
theorem mapInv_prune (hm : m.MapInv user) {now : Time} {maxIdle : Duration} {busy₁ busy₂ : String → Bool}
    (h : m.pruneStaleSessions now maxIdle busy₁ busy₂ = some m') : m'.MapInv user := by
  obtain ⟨cutoff, _, hsess, hmap⟩ := pruneStaleSessions_eq now h
  by_cases hstale : user ∈ m.staleUsers cutoff busy₁
  · apply mapInv_of_unknown
    refine ⟨by rw [hsess, if_pos hstale], ?_⟩
    intro key hkey
    rw [hmap, hkey, if_pos hstale]
  · have hheld : ∀ tid, m.Holds user tid → m'.Holds user tid := by
      intro tid ht
      rw [holds_iff] at ht ⊢
      rw [hsess, if_neg hstale]
      exact ht
    constructor
    · intro key t hkey hlook
      rw [hmap, hkey, if_neg hstale] at hlook
      exact hheld t (hm.held key t hkey hlook)
    · intro k₁ k₂ t h₁ h₂ hl₁ hl₂
      rw [hmap, h₁, if_neg hstale] at hl₁
      rw [hmap, h₂, if_neg hstale] at hl₂
      exact hm.inj k₁ k₂ t h₁ h₂ hl₁ hl₂

variable {op : Op}

/-- Every call of the user keeps the invariant. -/
theorem mapInv_step (hm : m.MapInv user) (hcall : Calls user m op) (h : op.apply m = some m') : m'.MapInv user := by
  obtain ⟨huser, hfresh⟩ := hcall
  cases op with
  | resolve u channel external sid tid now =>
    obtain rfl : u = user := huser
    rw [← Option.some.inj h]
    exact mapInv_resolve hm channel external sid tid now hfresh.2
  | hydrate u channel tid messages sid now =>
    obtain rfl : u = user := huser
    rw [← Option.some.inj h]
    exact mapInv_hydrate hm channel tid messages sid now
  | remove u tid sid now =>
    obtain rfl : u = user := huser
    rw [← Option.some.inj h]
    exact mapInv_remove hm tid sid now
  | prune now maxIdle busy₁ busy₂ => exact mapInv_prune hm h
  | newThread u tid now =>
    rw [← Option.some.inj h]
    exact mapInv_of_same_map hm (threadMap_modifySession m u _)
      (fun _ ht => holds_newThread m u tid now ht)
  | switchThread u tid now =>
    rw [← Option.some.inj h]
    exact mapInv_of_same_map hm (threadMap_modifySession m u _)
      (fun _ ht => holds_switchThread m u tid now ht)
  | turn u tid change =>
    rw [← Option.some.inj h]
    exact mapInv_of_same_map hm (threadMap_modifySession m u _)
      (fun _ ht => holds_turn m u tid change ht)

/-! ## A key keeps its thread -/

/-- The key maps to the thread and the session holds it, so a resolution gives it back. -/
def Bound (key : ThreadKey) (tid : Uuid) (m : SessionManager) : Prop :=
  m.threadMap.lookup key = some tid ∧ m.Holds key.userId tid

/-- The operation ends the binding of a key: it removes the thread, prunes the session, or registers a
    hydrated thread under the key. -/
def Op.Unbinds (key : ThreadKey) (tid : Uuid) (m : SessionManager) : Op → Prop
  | .remove _ tid' _ _ => tid' = tid
  | .prune now maxIdle busy₁ busy₂ =>
    ∃ m', m.pruneStaleSessions now maxIdle busy₁ busy₂ = some m' ∧ m'.session key.userId = none
  | .hydrate user channel tid' _ _ _ =>
    ¬ m.Holds user tid' ∧ key = canonicalKey user channel tid'
  | _ => False

/-- Any operation that does not unbind a key keeps it bound, whoever calls it. -/
theorem bound_step {key : ThreadKey} (hb : Bound key tid m) (hkeep : ¬ op.Unbinds key tid m) (h : op.apply m = some m') :
    Bound key tid m' := by
  obtain ⟨hmap, hheld⟩ := hb
  cases op with
  | resolve u channel external sid newTid now =>
    rw [← Option.some.inj h]
    refine ⟨?_, (holds_resolveThread m u channel external sid newTid now _ tid).mpr (Or.inl hheld)⟩
    rw [lookup_resolveThread]
    by_cases hk : key = keyOf u channel external
    · subst hk
      rw [if_pos rfl, resolveThread_of_mapped m u channel external sid newTid now hmap hheld]
    · rw [if_neg hk]
      exact hmap
  | hydrate u channel tid' messages sid now =>
    rw [← Option.some.inj h]
    refine ⟨?_, (holds_hydrateIfAbsent m u channel tid' messages sid now _ tid).mpr (Or.inl hheld)⟩
    have hother : ¬ (¬ m.Holds u tid' ∧ key = canonicalKey u channel tid') := hkeep
    rw [lookup_hydrateIfAbsent, if_neg hother]
    exact hmap
  | remove u tid' sid now =>
    rw [← Option.some.inj h]
    have hne : tid ≠ tid' := fun he => hkeep he.symm
    refine ⟨?_, (holds_removeThread m u tid' sid now _ tid).mpr ⟨hheld, fun hh => hne hh.2⟩⟩
    rw [lookup_removeThread, hmap]
    simp [Option.filter, hne]
  | prune now maxIdle busy₁ busy₂ =>
    obtain ⟨cutoff, _, hsess, hkeys⟩ := pruneStaleSessions_eq now h
    have hstale : key.userId ∉ m.staleUsers cutoff busy₁ := by
      intro hs
      exact hkeep ⟨m', h, by rw [hsess, if_pos hs]⟩
    refine ⟨by rw [hkeys, if_neg hstale]; exact hmap, ?_⟩
    rw [holds_iff] at hheld ⊢
    rw [hsess, if_neg hstale]
    exact hheld
  | newThread u newTid now =>
    rw [← Option.some.inj h]
    exact ⟨by rw [threadMap_modifySession]; exact hmap, holds_newThread m u newTid now hheld⟩
  | switchThread u target now =>
    rw [← Option.some.inj h]
    exact ⟨by rw [threadMap_modifySession]; exact hmap, holds_switchThread m u target now hheld⟩
  | turn u target change =>
    rw [← Option.some.inj h]
    exact ⟨by rw [threadMap_modifySession]; exact hmap, holds_turn m u target change hheld⟩

/-- A resolution binds its key to the thread it returns. -/
theorem bound_resolveThread (m : SessionManager) (user channel : String) (external : Option String)
    (sid newTid : Uuid) (now : Time) :
    Bound (keyOf user channel external) (m.resolveThread user channel external sid newTid now).1
      (m.resolveThread user channel external sid newTid now).2 := by
  refine ⟨?_, (holds_resolveThread m user channel external sid newTid now user _).mpr (Or.inr ⟨rfl, rfl⟩)⟩
  rw [lookup_resolveThread, if_pos rfl]

/-- After `remove_thread` no key maps to the thread and it has no undo manager. -/
theorem removeThread_forgets (m : SessionManager) (user : String) (tid sid : Uuid) (now : Time) :
    (∀ key, (m.removeThread user tid sid now).threadMap.lookup key ≠ some tid)
      ∧ (m.removeThread user tid sid now).undoManagers.lookup tid = none := by
  constructor
  · intro key hlook
    rw [lookup_removeThread] at hlook
    have hne := (Option.filter_eq_some_iff.mp hlook).2
    simp at hne
  · exact AList.lookup_erase _ _

/-- **One user's thread map.** In every state reached by calls of one user, two keys of the user never map
    to the same thread; a resolution returns a thread the session then holds; it returns that thread again
    until the thread is removed, the session is pruned or a hydrated thread is registered under the key;
    and a removed thread is mapped from nowhere and has no undo manager. -/
theorem threadMap_calls (user : String) (m₀ m : SessionManager) (ops : List Op) (h₀ : m₀.Unknown user)
    (hrun : Runs Op.apply (Calls user) m₀ ops m) :
    (∀ k₁ k₂ tid, k₁.userId = user → k₂.userId = user →
        m.threadMap.lookup k₁ = some tid → m.threadMap.lookup k₂ = some tid → k₁ = k₂)
      ∧ (∀ channel external sid newTid now,
          (m.resolveThread user channel external sid newTid now).2.Holds user
            (m.resolveThread user channel external sid newTid now).1)
      ∧ (∀ channel external sid newTid now later m',
          Runs Op.apply
            (fun mᵢ op => Calls user mᵢ op ∧ ¬ op.Unbinds (keyOf user channel external)
              (m.resolveThread user channel external sid newTid now).1 mᵢ)
            (m.resolveThread user channel external sid newTid now).2 later m' →
          ∀ sid' newTid' now',
            (m'.resolveThread user channel external sid' newTid' now').1
              = (m.resolveThread user channel external sid newTid now).1)
      ∧ (∀ tid sid now,
          (∀ key, (m.removeThread user tid sid now).threadMap.lookup key ≠ some tid)
            ∧ (m.removeThread user tid sid now).undoManagers.lookup tid = none) := by
  have hinv : m.MapInv user :=
    hrun.invariant (P := fun _ m => m.MapInv user) (mapInv_of_unknown h₀) mapInv_step
  refine ⟨hinv.inj, ?_, ?_, fun tid sid now => removeThread_forgets m user tid sid now⟩
  · intro channel external sid newTid now
    exact (bound_resolveThread m user channel external sid newTid now).2
  · intro channel external sid newTid now later m' hlater sid' newTid' now'
    have hbound : Bound (keyOf user channel external) (m.resolveThread user channel external sid newTid now).1 m' :=
      hlater.invariant (P := fun _ mᵢ => Bound (keyOf user channel external)
          (m.resolveThread user channel external sid newTid now).1 mᵢ)
        (bound_resolveThread m user channel external sid newTid now)
        (fun hb hC hstep => bound_step hb hC.2 hstep)
    exact resolveThread_of_mapped m' user channel external sid' newTid' now' hbound.1 hbound.2

/-- A user's calls: a thread is resolved, a conversation is hydrated and removed, nothing is stale yet. -/
def annCalls : List Op :=
  [.resolve "ann" "web" none 1 2 0, .hydrate "ann" "gateway" 7 [] 3 1, .remove "ann" 7 4 2,
    .prune 3 ⟨3600, 0⟩ (fun _ => false) (fun _ => false)]

/-- Further calls that do not unbind the first key. -/
def annLater : List Op :=
  [.resolve "ann" "telegram" (some "x") 5 6 5, .hydrate "ann" "gateway" 8 [] 9 6, .remove "ann" 6 10 7,
    .prune 8 ⟨3600, 0⟩ (fun _ => false) (fun _ => false)]

/-- The first thread comes back after all of them, and the removed one has left no key. -/
theorem threadMap_calls_web :
    ∃ m m', annCalls.foldlM Op.apply .new = some m
      ∧ annLater.foldlM Op.apply (m.resolveThread "ann" "web" none 11 12 4).2 = some m'
      ∧ (m'.resolveThread "ann" "web" none 13 14 9).1 = (m.resolveThread "ann" "web" none 11 12 4).1
      ∧ (m.resolveThread "ann" "web" none 11 12 4).1 = 2
      ∧ ∀ key, (m'.removeThread "ann" 8 15 10).threadMap.lookup key ≠ some 8 := by
  have hfree : ∀ {m : SessionManager} {tid : Uuid}, m.threadMap.hasValue tid = false →
      ∀ key, m.threadMap.lookup key ≠ some tid := Map.hasValue_eq_false_iff.mp
  -- A prune that leaves the session does not unbind.
  have hstays : ∀ {m m₁ : SessionManager} {now : Time} {maxIdle : Duration} {key : ThreadKey} {tid : Uuid},
      m.pruneStaleSessions now maxIdle (fun _ => false) (fun _ => false) = some m₁ →
      (m₁.session key.userId).isSome = true →
      ¬ Op.Unbinds key tid m (.prune now maxIdle (fun _ => false) (fun _ => false)) := by
    rintro m m₁ now maxIdle key tid h₁ hsome ⟨m₂, h₂, hnone⟩
    obtain rfl := Option.some.inj (h₁.symm.trans h₂)
    rw [hnone] at hsome
    cases hsome
  have hcalls := threadMap_calls "ann" .new _ annCalls ⟨rfl, fun _ _ => rfl⟩
    (.snoc (.snoc (.snoc (.snoc (.refl _) _ ⟨rfl, by decide, hfree (by decide)⟩ rfl) _ ⟨rfl, trivial⟩ rfl) _
      ⟨rfl, trivial⟩ rfl) _ ⟨trivial, trivial⟩ rfl)
  refine ⟨_, _, rfl, rfl, ?_, by decide, (hcalls.2.2.2 8 15 10).1⟩
  exact hcalls.2.2.1 "web" none 11 12 4 annLater _
    (.snoc (.snoc (.snoc (.snoc (.refl _) _ ⟨⟨rfl, by decide, hfree (by decide)⟩, id⟩ rfl) _
      ⟨⟨rfl, trivial⟩, fun h => absurd h.2 (by decide)⟩ rfl) _
      ⟨⟨rfl, trivial⟩, fun h : (6 : Uuid) = _ => absurd h (by decide)⟩ rfl) _
      ⟨⟨trivial, trivial⟩, hstays rfl (by decide)⟩ rfl) 13 14 9

/-! ## Registration rebinds a key -/

/-- Thread 7 is hydrated for a message on the gateway. -/
def reboundStart : SessionManager :=
  ((SessionManager.new.hydrateIfAbsent "ann" "gateway" 7 [] 1 0).resolveThread "ann" "gateway"
    (some (Uuid.toString 7)) 2 10 0).2.hydrateIfAbsent "ann" "telegram" 7 [] 3 1

/-- A message that names thread 7 on another channel is resolved; then thread 7 is removed. -/
def reboundRemoved : SessionManager :=
  (reboundStart.resolveThread "ann" "telegram" (some (Uuid.toString 7)) 4 12 1).2.removeThread "ann" 7 5 2

/-- The next message on that channel hydrates thread 7 again. -/
def reboundEnd : SessionManager := reboundRemoved.hydrateIfAbsent "ann" "telegram" 7 [] 6 3

/-- **A key can change its thread while the thread is still there.** The first message on the other channel
    gets a thread of its own, 12. The second one registers the re-hydrated thread 7 under the same key and
    resolves to it, although thread 12 was neither removed nor pruned. -/
theorem rebound_by_registration :
    (reboundStart.resolveThread "ann" "telegram" (some (Uuid.toString 7)) 4 12 1).1 = 12
      ∧ ¬ reboundRemoved.Holds "ann" 7
      ∧ reboundEnd.Holds "ann" 12
      ∧ (reboundEnd.resolveThread "ann" "telegram" (some (Uuid.toString 7)) 8 14 3).1 = 7 := by
  decide

/-! ## Hydration and resolution -/

section Agree

variable {W : Type} (env : Env W) (msg : IncomingMessage) (now : Time) (st : AgentState W)

/-- Drawing identifiers and reading the history leave the count of drawn identifiers predictable. -/
theorem maybeHydrateThread_drawn (external : String) :
    st.trace.drawn ≤ (maybeHydrateThread env msg external now st).trace.drawn := by
  unfold maybeHydrateThread
  split
  · exact Nat.le_refl _
  · split
    · exact Nat.le_succ _
    · show st.trace.drawn ≤ (loadHistory env _ (ensureSession env msg.userId now st)).2.trace.drawn
      rw [loadHistory_drawn]
      exact Nat.le_succ _

/-- `handle_message` hydrates, then resolves with an identifier drawn afterwards. -/
theorem locateThread_eq {external : String} (hext : msg.threadId = some external) : ∃ sid n, st.trace.drawn ≤ n
      ∧ (locateThread env msg now st).1
          = ((maybeHydrateThread env msg external now st).manager.resolveThread msg.userId msg.channel
              (some external) sid (env.newV4 n) now).1 ∧ (locateThread env msg now st).2.manager
          = ((maybeHydrateThread env msg external now st).manager.resolveThread msg.userId msg.channel
              (some external) sid (env.newV4 n) now).2 := by
  refine ⟨env.newV4 (maybeHydrateThread env msg external now st).trace.drawn,
    (maybeHydrateThread env msg external now st).trace.drawn + 1, ?_, ?_, ?_⟩
  · exact Nat.le_succ_of_le (maybeHydrateThread_drawn env msg now st external)
  · unfold locateThread
    rw [hext]
    rfl
  · unfold locateThread
    rw [hext]
    rfl

end Agree

/-! ### While the thread stays

Removing the thread for another user drops the keys of everybody. The next resolution of the user's key then
adopts the thread again, unless another key was mapped to it in between: that is the one way to lose it. -/

/-- Resolving the external id on the channel gives the thread. -/
def Resolves (user channel external : String) (tid : Uuid) (m : SessionManager) : Prop :=
  ∀ sid newTid now, (m.resolveThread user channel (some external) sid newTid now).1 = tid

/-- A step after which the thread is still in the user's session. New identifiers are not the thread's. -/
structure Stays (user : String) (tid : Uuid) (m : SessionManager) (op : Op) : Prop where
  held : ∀ m', op.apply m = some m' → m'.Holds user tid
  fresh : ∀ user' channel external sid now, op ≠ .resolve user' channel external sid tid now

/-- The step gives the thread another key: a resolution under another key that adopts it, or its hydration
    into another session. -/
def Op.Takes (user channel : String) (tid : Uuid) (m : SessionManager) : Op → Prop
  | .resolve user' channel' external _ _ _ =>
    keyOf user' channel' external ≠ canonicalKey user channel tid ∧ external.bind Uuid.parseStr = some tid
      ∧ m.Holds user' tid ∧ m.mapped (keyOf user' channel' external) = none
  | .hydrate user' _ tid' _ _ _ => tid' = tid ∧ ¬ m.Holds user' tid
  | _ => False

/-- **The condition on a step**: while no key maps to the thread, the step gives it no other key. -/
def Keeps (user channel : String) (tid : Uuid) (m : SessionManager) (op : Op) : Prop :=
  m.threadMap.hasValue tid = false → ¬ op.Takes user channel tid m

/-- The session holds the thread, and its canonical key maps to it or can adopt it. -/
structure Ready (user channel : String) (tid : Uuid) (m : SessionManager) : Prop where
  held : m.Holds user tid
  key : m.threadMap.lookup (canonicalKey user channel tid) = some tid
    ∨ (m.threadMap.lookup (canonicalKey user channel tid) = none ∧ m.threadMap.hasValue tid = false)

section Ready

variable {channel : String}

/-- A held thread that no key maps to is adopted by a key without a thread. -/
theorem resolveThread_of_adoptable {channel' : String} {external : Option String} (sid newTid : Uuid) (now : Time)
    (hnone : m.mapped (keyOf user channel' external) = none) (hparse : external.bind Uuid.parseStr = some tid)
    (hfree : m.threadMap.hasValue tid = false) (hheld : m.Holds user tid) :
    (m.resolveThread user channel' external sid newTid now).1 = tid := by
  have had : (m.getOrCreateSession user sid now).adoptable user external = some tid := by
    rw [adoptable_getOrCreateSession]
    exact (adoptable_eq_some_iff m user).mpr ⟨hparse, hfree, hheld⟩
  rcases resolveThread_cases m user channel' external sid newTid now with ⟨h, _⟩ | ⟨_, h, _⟩ | ⟨_, h, _⟩
  · rw [mapped_getOrCreateSession, hnone] at h
    cases h
  · exact Option.some.inj (h.symm.trans had)
  · rw [had] at h
    cases h

theorem Ready.resolves (h : Ready user channel tid m) : Resolves user channel (Uuid.toString tid) tid m := by
  intro sid newTid now
  rcases h.key with hkey | ⟨hnone, hfree⟩
  · exact resolveThread_of_mapped m user channel _ sid newTid now hkey h.held
  · have hmapped : m.mapped (keyOf user channel (some (Uuid.toString tid))) = none :=
      (congrArg (Option.filter _) hnone).trans rfl
    have hparse : (some (Uuid.toString tid)).bind Uuid.parseStr = some tid := by
      rw [Option.bind_some]
      exact Uuid.parseStr_toString tid
    exact resolveThread_of_adoptable sid newTid now hmapped hparse hfree h.held

/-- A step that keeps the thread ready. -/
theorem Ready.step (h : Ready user channel tid m) (hstays : Stays user tid m op) (hkeeps : Keeps user channel tid m op)
    (hstep : op.apply m = some m') : Ready user channel tid m' := by
  refine ⟨hstays.held m' hstep, ?_⟩
  rcases h.key with hkey | ⟨hnone, hfree⟩
  · -- The key maps to the thread: a removal for another user drops it with all others, nothing else does.
    by_cases hremove : ∃ user' sid now, op = .remove user' tid sid now
    · obtain ⟨user', sid, now, rfl⟩ := hremove
      obtain rfl := Option.some.inj hstep
      have hgone := (removeThread_forgets m user' tid sid now).1
      refine Or.inr ⟨?_, Map.hasValue_eq_false_iff.mpr hgone⟩
      rw [lookup_removeThread, hkey]
      simp [Option.filter]
    · refine Or.inl (bound_step ⟨hkey, h.held⟩ ?_ hstep).1
      intro hun
      cases op with
      | remove user' tid' sid now => exact hremove ⟨user', sid, now, by rw [show tid' = tid from hun]⟩
      | prune now maxIdle busy₁ busy₂ =>
        obtain ⟨m'', hm'', hsession⟩ := hun
        obtain ⟨s, _, hs, _⟩ := (holds_iff m'' user tid).mp (hstays.held m'' hm'')
        have hnone : m''.session user = none := hsession
        rw [hnone] at hs
        cases hs
      | hydrate user' channel' tid' messages sid now =>
        obtain ⟨hnot, heq⟩ := hun
        have huser : user = user' := congrArg ThreadKey.userId heq
        have htid : tid = tid' :=
          Uuid.toString_injective (Option.some.inj (congrArg ThreadKey.externalThreadId heq))
        exact hnot (huser ▸ htid ▸ h.held)
      | _ => exact hun
  · -- No key maps to the thread: the step does not give it to another one.
    have hforall := Map.hasValue_eq_false_iff.mp hfree
    cases op with
    | resolve user' channel' external sid newTid now =>
      obtain rfl := Option.some.inj hstep
      have hlook := lookup_resolveThread m user' channel' external sid newTid now
      by_cases hkey : canonicalKey user channel tid = keyOf user' channel' external
      · left
        rw [hlook, if_pos hkey]
        obtain ⟨rfl, rfl, rfl⟩ : user = user' ∧ channel = channel' ∧ some (Uuid.toString tid) = external :=
          ThreadKey.mk.inj hkey
        exact congrArg some (h.resolves sid newTid now)
      · right
        have hresult : (m.resolveThread user' channel' external sid newTid now).1 ≠ tid := by
          intro heq
          rcases resolveThread_cases m user' channel' external sid newTid now with
            ⟨hmap, _⟩ | ⟨hmap, had, _⟩ | ⟨_, _, hnew, _⟩
          · exact hforall _ (heq ▸ (Option.filter_eq_some_iff.mp hmap).1)
          · rw [mapped_getOrCreateSession] at hmap
            rw [adoptable_getOrCreateSession, heq] at had
            obtain ⟨hparse, _, hheld⟩ := (adoptable_eq_some_iff m user').mp had
            exact hkeeps hfree ⟨fun he => hkey he.symm, hparse, hheld, hmap⟩
          · exact hstays.fresh user' channel' external sid now (by rw [← heq, hnew])
        refine ⟨by rw [hlook, if_neg hkey]; exact hnone, Map.hasValue_eq_false_iff.mpr ?_⟩
        intro k
        rw [hlook]
        split
        · exact fun he => hresult (Option.some.inj he)
        · exact hforall k
    | hydrate user' channel' tid' messages sid now =>
      obtain rfl := Option.some.inj hstep
      have hother : ¬ (tid' = tid ∧ ¬ m.Holds user' tid) := hkeeps hfree
      have hlook : ∀ k, (m.hydrateIfAbsent user' channel' tid' messages sid now).threadMap.lookup k = some tid →
          m.threadMap.lookup k = some tid := by
        intro k hk
        rw [lookup_hydrateIfAbsent] at hk
        split at hk
        · rename_i hc
          obtain rfl := Option.some.inj hk
          exact absurd ⟨rfl, hc.1⟩ hother
        · exact hk
      refine Or.inr ⟨?_, Map.hasValue_eq_false_iff.mpr fun k hk => hforall k (hlook k hk)⟩
      rw [lookup_hydrateIfAbsent, if_neg]
      · exact hnone
      · rintro ⟨hnot, heq⟩
        have htid : tid = tid' :=
          Uuid.toString_injective (Option.some.inj (congrArg ThreadKey.externalThreadId heq))
        exact hother ⟨htid.symm, htid ▸ hnot⟩
    | remove user' tid' sid now =>
      obtain rfl := Option.some.inj hstep
      refine Or.inr ⟨by rw [lookup_removeThread, hnone]; rfl, Map.hasValue_eq_false_iff.mpr ?_⟩
      intro k hk
      rw [lookup_removeThread] at hk
      exact hforall k (Option.filter_eq_some_iff.mp hk).1
    | prune now maxIdle busy₁ busy₂ =>
      obtain ⟨cutoff, _, _, hlook⟩ := pruneStaleSessions_eq now hstep
      refine Or.inr ⟨by rw [hlook, hnone, ite_self], Map.hasValue_eq_false_iff.mpr ?_⟩
      intro k hk
      rw [hlook] at hk
      split at hk
      · cases hk
      · exact hforall k hk
    | newThread user' newTid now =>
      obtain rfl := Option.some.inj hstep
      rw [threadMap_modifySession]
      exact Or.inr ⟨hnone, hfree⟩
    | switchThread user' target now =>
      obtain rfl := Option.some.inj hstep
      rw [threadMap_modifySession]
      exact Or.inr ⟨hnone, hfree⟩
    | turn user' target change =>
      obtain rfl := Option.some.inj hstep
      rw [threadMap_modifySession]
      exact Or.inr ⟨hnone, hfree⟩

/-- A step that does not keep the thread loses it: the next resolution makes a new one. -/
theorem Ready.lost (h : Ready user channel tid m) (htakes : ¬ Keeps user channel tid m op)
    (hstep : op.apply m = some m') : ¬ Resolves user channel (Uuid.toString tid) tid m' := by
  obtain ⟨hfree, htakes⟩ := Classical.not_imp.mp htakes
  have htakes := not_not.mp htakes
  have hnone : m.threadMap.lookup (canonicalKey user channel tid) = none := by
    rcases h.key with hkey | ⟨hnone, _⟩
    · exact absurd hkey (Map.hasValue_eq_false_iff.mp hfree _)
    · exact hnone
  -- Another key maps to the thread, the user's key still to none.
  have hafter : m'.threadMap.lookup (canonicalKey user channel tid) = none ∧ m'.threadMap.hasValue tid = true := by
    cases op with
    | resolve user' channel' external sid newTid now =>
      obtain ⟨hkey, hparse, hheld, hmapped⟩ := htakes
      obtain rfl := Option.some.inj hstep
      have hresult := resolveThread_of_adoptable sid newTid now hmapped hparse hfree hheld
      rw [lookup_resolveThread, if_neg fun he => hkey he.symm, Map.hasValue_iff]
      exact ⟨hnone, _, by rw [lookup_resolveThread, if_pos rfl, hresult]⟩
    | hydrate user' channel' tid' messages sid now =>
      obtain ⟨rfl, hnot⟩ := htakes
      obtain rfl := Option.some.inj hstep
      rw [lookup_hydrateIfAbsent, if_neg, Map.hasValue_iff]
      · exact ⟨hnone, _, by rw [lookup_hydrateIfAbsent, if_pos ⟨hnot, rfl⟩]⟩
      · rintro ⟨_, heq⟩
        have huser : user = user' := congrArg ThreadKey.userId heq
        exact hnot (huser ▸ h.held)
    | _ => exact htakes.elim
  intro hresolves
  rcases resolveThread_cases m' user channel (some (Uuid.toString tid)) tid (tid + 1) 0 with
    ⟨hmap, _⟩ | ⟨_, had, _⟩ | ⟨_, _, hnew, _⟩
  · have hlook := (Option.filter_eq_some_iff.mp hmap).1
    exact absurd (hafter.1.symm.trans hlook) (by simp)
  · rw [adoptable_getOrCreateSession, hresolves] at had
    have hfree' := ((adoptable_eq_some_iff m' user).mp had).2.1
    rw [hafter.2] at hfree'
    cases hfree'
  · rw [hresolves] at hnew
    exact absurd hnew (by simp)

/-- **A run keeps the thread resolvable exactly if its steps do.** -/
theorem Ready.run_iff (h : Ready user channel tid m) {later : List Op} :
    (Runs Op.apply (fun m op => Stays user tid m op ∧ Resolves user channel (Uuid.toString tid) tid m) m later m'
        ∧ Resolves user channel (Uuid.toString tid) tid m')
      ↔ Runs Op.apply (fun m op => Stays user tid m op ∧ Keeps user channel tid m op) m later m' := by
  constructor
  · rintro ⟨hrun, hend⟩
    refine (hrun.invariant (P := fun ls a => Resolves user channel (Uuid.toString tid) tid a →
      Ready user channel tid a ∧ Runs Op.apply (fun m op => Stays user tid m op ∧ Keeps user channel tid m op) m ls a)
      (fun _ => ⟨h, .refl m⟩) ?_ hend).2
    intro ls a b op ih hC hstep hresolves
    obtain ⟨hready, hprefix⟩ := ih hC.2
    by_cases hkeeps : Keeps user channel tid a op
    · exact ⟨hready.step hC.1 hkeeps hstep, .snoc hprefix op ⟨hC.1, hkeeps⟩ hstep⟩
    · exact absurd hresolves (hready.lost hkeeps hstep)
  · intro hrun
    have hend := hrun.invariant (P := fun ls a => Ready user channel tid a ∧
      Runs Op.apply (fun m op => Stays user tid m op ∧ Resolves user channel (Uuid.toString tid) tid m) m ls a)
      ⟨h, .refl m⟩ ?_
    · exact ⟨hend.2, hend.1.resolves⟩
    · rintro ls a b op ⟨hready, hprefix⟩ hC hstep
      exact ⟨hready.step hC.1 hC.2 hstep, .snoc hprefix op ⟨hC.1, hready.resolves⟩ hstep⟩

end Ready

/-- **Hydration and resolution agree exactly on canonical identifiers.** Let the external id parse to a
    thread the session does not have and no key maps to. Hydrating and resolving yields that thread if and
    only if the external id is the canonical text of the identifier; and then, in every run in which the thread
    stays in the session, resolving yields it in every state if and only if no step gives the thread another
    key while it has none. -/
theorem hydrate_resolve_agree {W : Type} (env : Env W) (msg : IncomingMessage) (external : String)
    (tid : Uuid) (now : Time) (st : AgentState W) (hext : msg.threadId = some external)
    (hparse : Uuid.parseStr external = some tid) (hnot : ¬ st.manager.Holds msg.userId tid)
    (hunmapped : ∀ key, st.manager.threadMap.lookup key ≠ some tid)
    (hfresh : ∀ n, st.trace.drawn ≤ n → env.newV4 n ≠ tid) :
    ((locateThread env msg now st).1 = tid ↔ external = Uuid.toString tid)
      ∧ (external = Uuid.toString tid → ∀ later m',
          (Runs Op.apply (fun m op => Stays msg.userId tid m op ∧ Resolves msg.userId msg.channel external tid m)
              (locateThread env msg now st).2.manager later m'
            ∧ Resolves msg.userId msg.channel external tid m')
          ↔ Runs Op.apply (fun m op => Stays msg.userId tid m op ∧ Keeps msg.userId msg.channel tid m op)
              (locateThread env msg now st).2.manager later m') := by
  obtain ⟨sid₀, n, hn, hfst, hsnd⟩ := locateThread_eq env msg now st hext
  obtain ⟨messages, sid₁, hman⟩ := maybeHydrateThread_manager env msg now st hparse
  rw [hman] at hfst hsnd
  have hheld : (st.manager.hydrateIfAbsent msg.userId msg.channel tid messages sid₁ now).Holds msg.userId tid :=
    (holds_hydrateIfAbsent st.manager msg.userId msg.channel tid messages sid₁ now msg.userId tid).mpr
      (Or.inr ⟨rfl, rfl⟩)
  have hcanon : (st.manager.hydrateIfAbsent msg.userId msg.channel tid messages sid₁ now).threadMap.lookup
      (canonicalKey msg.userId msg.channel tid) = some tid := by
    rw [lookup_hydrateIfAbsent, if_pos ⟨hnot, rfl⟩]
  have hloc : external = Uuid.toString tid → (locateThread env msg now st).1 = tid := by
    rintro rfl
    rw [hfst]
    exact resolveThread_of_mapped _ _ _ _ _ _ _ hcanon hheld
  refine ⟨⟨?_, hloc⟩, ?_⟩
  · intro hresolved
    by_contra hne
    -- The raw key is not the canonical one, so hydration did not bind it.
    have hkey : keyOf msg.userId msg.channel (some external) ≠ canonicalKey msg.userId msg.channel tid := by
      intro he
      have htext : some external = some (Uuid.toString tid) := congrArg ThreadKey.externalThreadId he
      exact hne (Option.some.inj htext)
    rw [hresolved] at hfst
    rcases resolveThread_result (st.manager.hydrateIfAbsent msg.userId msg.channel tid messages sid₁ now)
      msg.userId msg.channel (some external) sid₀ (env.newV4 n) now with hmap | hnone | hnew
    · rw [← hfst, lookup_hydrateIfAbsent, if_neg (fun h => hkey h.2)] at hmap
      exact hunmapped _ hmap
    · rw [← hfst] at hnone
      exact hnone _ hcanon
    · rw [← hfst] at hnew
      exact hfresh n hn hnew.symm
  · rintro rfl later m'
    refine Ready.run_iff ⟨?_, Or.inl ?_⟩
    · rw [hsnd]
      exact (holds_resolveThread _ _ _ _ _ _ _ _ _).mpr (Or.inl hheld)
    · have hb := bound_resolveThread
        (st.manager.hydrateIfAbsent msg.userId msg.channel tid messages sid₁ now)
        msg.userId msg.channel (some (Uuid.toString tid)) sid₀ (env.newV4 n) now
      rw [← hfst, hloc rfl, ← hsnd] at hb
      exact hb.1

/-- A web frontend names conversation `550e8400-…` in capital letters. -/
def capitalMessage : IncomingMessage where
  channel := "gateway"
  userId := "ann"
  content := "hello"
  threadId := some "550E8400-E29B-41D4-A716-446655440000"

/-- The message parses to a conversation that is neither in memory nor mapped, and lands in a freshly made
    thread. -/
theorem capital_id_gets_new_thread :
    Uuid.parseStr "550E8400-E29B-41D4-A716-446655440000" = some 0x550e8400e29b41d4a716446655440000
      ∧ ¬ SessionManager.new.Holds "ann" 0x550e8400e29b41d4a716446655440000
      ∧ (∀ key, SessionManager.new.threadMap.lookup key ≠ some 0x550e8400e29b41d4a716446655440000)
      ∧ (locateThread (Env.idle Unit) capitalMessage 0 ⟨.new, {}, ⟨(), 0, []⟩⟩).1
          ≠ 0x550e8400e29b41d4a716446655440000 := by
  refine ⟨by decide, by decide, ?_, by decide⟩
  intro key h
  cases h

/-- The same frontend naming a conversation canonically. -/
def canonicalMessage : IncomingMessage :=
  { capitalMessage with threadId := some "00000000-0000-0000-0000-000000000007" }

/-- The state after that message. -/
def afterCanonical : SessionManager :=
  (locateThread (Env.idle Unit) canonicalMessage 0 ⟨.new, {}, ⟨(), 0, []⟩⟩).2.manager

/-- Another user hydrates the conversation and removes it again, which drops the keys of both. -/
def afterRemoval : SessionManager :=
  (afterCanonical.hydrateIfAbsent "bob" "gateway" 7 [] 20 1).removeThread "bob" 7 21 2

/-- Without any key the thread is adopted by the next resolution. -/
theorem canonical_id_survives_removal :
    (locateThread (Env.idle Unit) canonicalMessage 0 ⟨.new, {}, ⟨(), 0, []⟩⟩).1 = 7
      ∧ afterRemoval.threadMap.hasValue 7 = false
      ∧ Resolves "ann" "gateway" "00000000-0000-0000-0000-000000000007" 7 afterRemoval := by
  have hfresh : ∀ n, 0 ≤ n → (Env.idle Unit).newV4 n ≠ 7 := by
    intro n _ he
    have hnat : (BitVec.ofNat 128 (2 ^ 64 + n % 2 ^ 64)).toNat = 7 := congrArg BitVec.toNat he
    rw [BitVec.toNat_ofNat] at hnat
    omega
  obtain ⟨hlocated, hlater⟩ := hydrate_resolve_agree (Env.idle Unit) canonicalMessage _ 7 0
    ⟨.new, {}, ⟨(), 0, []⟩⟩ rfl (by decide) (by decide) (fun _ h => by cases h) hfresh
  have hrun : Runs Op.apply (fun m op => Stays "ann" 7 m op ∧ Keeps "ann" "gateway" 7 m op) afterCanonical
      [.hydrate "bob" "gateway" 7 [] 20 1, .remove "bob" 7 21 2] afterRemoval := by
    have hhydrate : Stays "ann" 7 afterCanonical (.hydrate "bob" "gateway" 7 [] 20 1) :=
      ⟨fun m' h => by obtain rfl := Option.some.inj h; decide, fun _ _ _ _ _ h => by cases h⟩
    have hremove : Stays "ann" 7 (afterCanonical.hydrateIfAbsent "bob" "gateway" 7 [] 20 1)
        (.remove "bob" 7 21 2) :=
      ⟨fun m' h => by obtain rfl := Option.some.inj h; decide, fun _ _ _ _ _ h => by cases h⟩
    -- The user's key maps to the thread when it is hydrated, so that takes nothing.
    have hkeeps : Keeps "ann" "gateway" 7 afterCanonical (.hydrate "bob" "gateway" 7 [] 20 1) :=
      fun h => absurd h (by decide)
    exact .snoc (.snoc (.refl _) _ ⟨hhydrate, hkeeps⟩ rfl) _ ⟨hremove, fun _ h => h⟩ rfl
  exact ⟨hlocated.mpr (by decide), by decide, ((hlater (by decide) _ _).mpr hrun).2⟩

/-- When the other user hydrates the conversation once more, the thread has a key again and is not adopted:
    the user's next message lands in a freshly made thread while thread 7 is in the session throughout. -/
theorem retaken_id_gets_new_thread :
    (afterRemoval.hydrateIfAbsent "bob" "gateway" 7 [] 22 3).Holds "ann" 7
      ∧ ((afterRemoval.hydrateIfAbsent "bob" "gateway" 7 [] 22 3).resolveThread "ann" "gateway"
          canonicalMessage.threadId 23 24 4).1 = 24 := by
  decide +kernel

end Freeclawdia.SessionManager
