import Freeclawdia.Llm.ResponseCache

/-!
# `Correctness.CachedAnswers` — what the response cache keeps and what it answers

Storing never leaves more than `max 1 max_entries` entries, and what it evicts for room was not used after what it
keeps. Over any interleaving, an answer is the inner provider's own, or one it gave to an earlier call under the
same key that came in less than the time-to-live before. Requests share a key if model and parameters are the same.
-/

namespace Freeclawdia.ResponseCache

open Rust Failover

variable {config : ResponseCacheConfig} {order : IterOrder} {hashing : Hashing} {cache cache' : Cache} {key k : String}
  {now : Nat} {response : CompletionResponse} {entry : CacheEntry}

/-! ## Storing -/

theorem length_insert_le (cache : Cache) (k : String) (entry : CacheEntry) :
    (cache.insert k entry).entries.length ≤ cache.entries.length + 1 := by
  rw [AList.entries_insert, List.length_cons]
  exact Nat.succ_le_succ (List.kerase_sublist k cache.entries).length_le

theorem length_erase (h : k ∈ cache) : (cache.erase k).entries.length + 1 = cache.entries.length := by
  show (cache.entries.kerase k).length + 1 = cache.entries.length
  obtain ⟨v, before, behind, -, hcache, herase⟩ := List.exists_of_kerase h
  rw [herase, hcache]
  simp [Nat.add_assoc]

/-- The entry that goes was not used after any other. -/
theorem oldestKey_some (h : oldestKey order cache = some k) :
    ∃ entry, cache.lookup k = some entry ∧ ∀ k' entry', cache.lookup k' = some entry' →
      entry.lastAccessed ≤ entry'.lastAccessed := by
  obtain ⟨e, he, rfl⟩ := Option.map_eq_some_iff.mp h
  have hmem := (order.perm _).mem_iff.mp (List.argmin_mem he)
  refine ⟨e.2, AList.mem_lookup_iff.mpr hmem, fun k' entry' hlookup => ?_⟩
  have hmem' : (⟨k', entry'⟩ : Sigma fun _ : String => CacheEntry) ∈ order.arrange cache.entries :=
    (order.perm _).mem_iff.mpr (AList.mem_lookup_iff.mp hlookup)
  exact List.le_of_mem_argmin (f := fun e : Sigma fun _ => CacheEntry => e.2.lastAccessed) hmem' he

theorem oldestKey_none (h : oldestKey order cache = none) : cache.entries = [] := by
  have hnone := List.argmin_eq_none.mp (Option.map_eq_none_iff.mp h)
  have hperm := order.perm cache.entries
  rw [hnone] at hperm
  exact hperm.nil_eq.symm

/-- `cache'` is what eviction leaves of `cache`. -/
structure Evicted (maxEntries : Nat) (cache cache' : Cache) : Prop where
  room : cache'.entries.length < maxEntries ∨ cache'.entries = []
  kept : ∀ k entry, cache'.lookup k = some entry → cache.lookup k = some entry
  oldest : ∀ k entry k' entry', cache.lookup k = some entry → cache'.lookup k = none →
    cache'.lookup k' = some entry' → entry.lastAccessed ≤ entry'.lastAccessed
  needed : cache.entries.length < maxEntries → cache' = cache

theorem Evicted.refl {n : Nat} (h : cache.entries.length < n ∨ cache.entries = []) : Evicted n cache cache :=
  ⟨h, fun _ _ h => h, fun k entry k' entry' h hnone _ => (by rw [hnone] at h; cases h), fun _ => rfl⟩

theorem evictOldest_evicted (fuel : Nat) (hfuel : cache.entries.length ≤ fuel) :
    Evicted config.maxEntries cache (evictOldest config order fuel cache) := by
  induction fuel generalizing cache with
  | zero => exact .refl (.inr (List.eq_nil_of_length_eq_zero (Nat.le_zero.mp hfuel)))
  | succ fuel ih =>
    unfold evictOldest
    split
    next hfull =>
      split
      next k hk =>
        obtain ⟨oldest, holdest, hleast⟩ := oldestKey_some hk
        have hlength := length_erase (AList.lookup_isSome.mp (by rw [holdest]; rfl) : k ∈ cache)
        have hrest := ih (show (cache.erase k).entries.length ≤ fuel by omega)
        have hsub : ∀ k' entry, (cache.erase k).lookup k' = some entry → cache.lookup k' = some entry := by
          intro k' entry h
          rw [Map.lookup_erase_ite] at h
          split at h
          · cases h
          · exact h
        refine ⟨hrest.room, fun k' entry h => hsub _ _ (hrest.kept _ _ h), ?_, fun h => by omega⟩
        intro k₁ entry₁ k₂ entry₂ h₁ hgone h₂
        by_cases heq : k₁ = k
        · subst heq
          obtain rfl := Option.some.inj (holdest.symm.trans h₁)
          exact hleast _ _ (hsub _ _ (hrest.kept _ _ h₂))
        · exact hrest.oldest k₁ entry₁ k₂ entry₂ (by rw [AList.lookup_erase_ne heq]; exact h₁) hgone h₂
      next hnone => exact .refl (.inr (oldestKey_none hnone))
    next hroom => exact .refl (.inl (by omega))

theorem lookup_fresh : (Map.retain (fun _ entry => unexpired config now entry) cache).lookup k = some entry ↔
    cache.lookup k = some entry ∧ unexpired config now entry = true := by
  rw [Map.lookup_retain, Option.filter_eq_some_iff]

/-- Everything that has not expired, and what eviction makes of it before an answer is stored. -/
theorem evicted_of_store (config : ResponseCacheConfig) (order : IterOrder) (cache : Cache) (key : String) (now : Nat)
    (response : CompletionResponse) : ∃ left,
    Evicted config.maxEntries (Map.retain (fun _ entry => unexpired config now entry) cache) left ∧
      storeResponse config order cache key now response = left.insert key ⟨response, now, now, 0⟩ :=
  ⟨_, evictOldest_evicted _ (Nat.le_refl _), rfl⟩

theorem length_store_le :
    (storeResponse config order cache key now response).entries.length ≤ max 1 config.maxEntries := by
  obtain ⟨left, hevicted, hstore⟩ := evicted_of_store config order cache key now response
  rw [hstore]
  have hlength := length_insert_le left key ⟨response, now, now, 0⟩
  rcases hevicted.room with hroom | hnil
  · exact hlength.trans (Nat.le_trans hroom (Nat.le_max_right 1 _))
  · rw [hnil] at hlength
    exact hlength.trans (Nat.le_max_left 1 _)

/-- What is not replaced is as it was. -/
theorem kept_of_store (hk : k ≠ key) (h : (storeResponse config order cache key now response).lookup k = some entry) :
    cache.lookup k = some entry ∧ unexpired config now entry = true := by
  obtain ⟨left, hevicted, hstore⟩ := evicted_of_store config order cache key now response
  rw [hstore, AList.lookup_insert_ne hk] at h
  exact lookup_fresh.mp (hevicted.kept _ _ h)

/-- **Storing evicts the least recently used.** It leaves the new entry and, unchanged, unexpired ones of the others, at
most as many as the capacity, or one if that is zero. Of the unexpired others none goes while the capacity is not
reached, and none stays that was last used before one that goes. -/
theorem store_evicts_least_recently_used (config : ResponseCacheConfig) (order : IterOrder) (cache : Cache)
    (key : String) (now : Nat) (response : CompletionResponse) :
    let cache' := storeResponse config order cache key now response
    cache'.entries.length ≤ max 1 config.maxEntries ∧ cache'.lookup key = some ⟨response, now, now, 0⟩ ∧
    ∀ k, k ≠ key →
      (∀ entry, cache'.lookup k = some entry → cache.lookup k = some entry ∧ unexpired config now entry) ∧
      ∀ entry, cache.lookup k = some entry → unexpired config now entry → cache'.lookup k = none →
        config.maxEntries ≤ (Map.retain (fun _ entry => unexpired config now entry) cache).entries.length ∧
        ∀ k' entry', k' ≠ key → cache'.lookup k' = some entry' → entry.lastAccessed ≤ entry'.lastAccessed := by
  refine ⟨length_store_le, AList.lookup_insert _, fun k hk => ⟨fun entry => kept_of_store hk, ?_⟩⟩
  intro entry hlookup hfresh hgone
  obtain ⟨left, hevicted, hstore⟩ := evicted_of_store config order cache key now response
  rw [hstore, AList.lookup_insert_ne hk] at hgone
  have hin := lookup_fresh.mpr ⟨hlookup, hfresh⟩
  constructor
  · -- Under capacity the loop stops at once, and the entry would still be there.
    by_contra hroom
    rw [hevicted.needed (Nat.lt_of_not_le hroom), hin] at hgone
    cases hgone
  · intro k' entry' hk' hkept
    rw [hstore, AList.lookup_insert_ne hk'] at hkept
    exact hevicted.oldest k entry k' entry' hin hgone hkept

/-! ## Calls that interleave -/

def Lookup.slot (hashing : Hashing) (call : Lookup) : String := cacheKey hashing call.model call.request

/-- The provider gave this answer under the key of the call, to a call that came in less than `ttl` before. -/
def Earlier (config : ResponseCacheConfig) (hashing : Hashing) (past : List Event) (call : Lookup)
    (response : CompletionResponse) : Prop :=
  ∃ t call', .answered t call' response ∈ past ∧ call'.slot hashing = call.slot hashing ∧
    call.now - call'.now < config.ttl

/-- Every hit gave back such an answer. -/
def Fair (config : ResponseCacheConfig) (hashing : Hashing) (history : List Event) : Prop :=
  ∀ n t call response, history[n]? = some (.hit t call response) →
    Earlier config hashing (history.take n) call response

theorem Fair.snoc {history : List Event} {e : Event} (h : Fair config hashing history)
    (he : ∀ t call response, e = .hit t call response → Earlier config hashing history call response) :
    Fair config hashing (history ++ [e]) := by
  intro n t call response hn
  rcases Nat.lt_or_ge n history.length with hlt | hge
  · rw [List.getElem?_append_left hlt] at hn
    rw [List.take_append_of_le_length hlt.le]
    exact h n t call response hn
  · rw [List.getElem?_append_right hge, List.getElem?_singleton] at hn
    split at hn
    next hzero =>
      rw [show n = history.length by omega, List.take_left]
      exact he t call response (Option.some.inj hn)
    next => cases hn

/-- Every entry is an answer of the provider, with the time its call came in. -/
def Backed (hashing : Hashing) (cache : Cache) (history : List Event) : Prop :=
  ∀ k entry, cache.lookup k = some entry →
    ∃ t call, .answered t call entry.response ∈ history ∧ call.slot hashing = k ∧ call.now = entry.createdAt

theorem Backed.mono {history history' : List Event} (h : Backed hashing cache history) (hsub : history ⊆ history') :
    Backed hashing cache history' := by
  intro k entry hlookup
  obtain ⟨t, call, hmem, hcall⟩ := h k entry hlookup
  exact ⟨t, call, hsub hmem, hcall⟩

structure Inv (config : ResponseCacheConfig) (hashing : Hashing) (s : Shared) : Prop where
  bounded : s.cache.entries.length ≤ max 1 config.maxEntries
  backed : Backed hashing s.cache s.history
  fair : Fair config hashing s.history

variable {s s' : Shared} {call : Lookup} {t : Nat}

theorem Inv.lookUp (h : Inv config hashing s) (i : Input) :
    Inv config hashing (perform config hashing t (.lookUp call) i s).2 := by
  simp only [perform]
  split
  next entry hentry =>
    have hmem : cacheKey hashing call.model call.request ∈ s.cache := AList.lookup_isSome.mp (by rw [hentry]; rfl)
    split
    next hfresh =>
      obtain ⟨t', call', hanswered, hkey, hnow⟩ := h.backed _ _ hentry
      refine ⟨?_, ?_, h.fair.snoc ?_⟩
      · show ((_ :: s.cache.entries.kerase _ : List _)).length ≤ _
        have hlength : (s.cache.entries.kerase _).length + 1 = s.cache.entries.length := length_erase hmem
        rw [List.length_cons, hlength]
        exact h.bounded
      · intro k e hlookup
        by_cases hk : k = cacheKey hashing call.model call.request
        · subst hk
          rw [AList.lookup_insert] at hlookup
          obtain rfl := Option.some.inj hlookup
          exact ⟨t', call', List.mem_append_left _ hanswered, hkey, hnow⟩
        · rw [AList.lookup_insert_ne hk] at hlookup
          exact h.backed.mono (List.subset_append_left _ _) k e hlookup
      · rintro _ _ _ ⟨⟩
        exact ⟨t', call', hanswered, hkey, by rw [hnow]; exact of_decide_eq_true hfresh⟩
    next =>
      refine ⟨(Nat.le_of_succ_le (length_erase hmem).le).trans h.bounded, fun k e hlookup => ?_, h.fair⟩
      rw [Map.lookup_erase_ite] at hlookup
      split at hlookup
      · cases hlookup
      · exact h.backed k e hlookup
  next => exact h

theorem Inv.answered (h : Inv config hashing s) :
    Inv config hashing { s with history := s.history ++ [.answered t call response] } :=
  ⟨h.bounded, h.backed.mono (List.subset_append_left _ _), h.fair.snoc (by rintro _ _ _ ⟨⟩)⟩

/-- Storing an answer that the provider gave. -/
theorem Inv.store (h : Inv config hashing s) (hanswered : .answered t call response ∈ s.history) (order : IterOrder) :
    Inv config hashing
      { s with cache := storeResponse config order s.cache (call.slot hashing) call.now response } := by
  refine ⟨length_store_le, fun k e hlookup => ?_, h.fair⟩
  by_cases hk : k = call.slot hashing
  · subst hk
    obtain rfl : _ = e := Option.some.inj ((AList.lookup_insert _).symm.trans hlookup)
    exact ⟨t, call, hanswered, rfl, rfl⟩
  · exact h.backed k e (kept_of_store hk hlookup).1

/-- An answer that call `request` of task `t` came back with is in the history. -/
def Post (t : Nat) (request : CompletionRequest) (out : Answer) (s : Shared) : Prop :=
  ∀ response, out = .ok response → ∃ call, call.request = request ∧
    (.answered t call response ∈ s.history ∨ .hit t call response ∈ s.history)

def outline (config : ResponseCacheConfig) (hashing : Hashing) : Outline (machine config hashing) where
  Inv := Inv config hashing
  Rely _ s s' := s.history ⊆ s'.history
  Pre _ _ := True
  Allowed _ _ _ _ := True
  Post := Post
  rely_refl _ _ := List.Subset.refl _
  rely_trans := List.Subset.trans
  pre_stable _ _ := True.intro
  post_stable := by
    intro t request out s s' hpost hsub _ response hout
    obtain ⟨call, hcall, hmem⟩ := hpost response hout
    exact ⟨call, hcall, hmem.imp (hsub ·) (hsub ·)⟩

theorem history_subset (o : Op) (i : Input) : s.history ⊆ (perform config hashing t o i s).2.history := by
  cases o with
  | begin request => exact List.Subset.refl _
  | lookUp call =>
    simp only [perform]
    split
    · split
      · exact List.subset_append_left _ _
      · exact List.Subset.refl _
    · exact List.Subset.refl _
  | callInner call =>
    simp only [perform]
    split
    · exact List.subset_append_left _ _
    · exact List.Subset.refl _
  | store call response => exact List.Subset.refl _

/-- One operation; the others may have come in before it. -/
theorem holds_perf (o : Op) {Q : Ans o → Shared → Prop} (h : ∀ s', s.history ⊆ s'.history → Inv config hashing s' → ∀ i,
      Inv config hashing (perform config hashing t o i s').2 ∧
        Q (perform config hashing t o i s').1 (perform config hashing t o i s').2) :
    (outline config hashing).Holds t Q (perf o) s := by
  apply Outline.holds_op
  intro s' hrely hinv i a s'' hperform _
  obtain ⟨rfl, rfl⟩ := Prod.mk.inj (Option.some.inj hperform)
  obtain ⟨hinv', hQ⟩ := h s' hrely hinv i
  exact ⟨⟨hinv', fun _ _ => history_subset o i⟩, Outline.holds_ret hQ⟩

theorem holds_complete (request : CompletionRequest) (s : Shared) :
    (outline config hashing).Holds t (Post t request) (complete request) s := by
  apply Outline.Holds.bind (Q := fun (call : Lookup) _ => call.request = request)
  · exact holds_perf (.begin request) fun s' _ hinv i => ⟨⟨hinv.bounded, hinv.backed, hinv.fair⟩, rfl⟩
  rintro call s rfl
  apply Outline.Holds.bind (Q := fun (found : Option CompletionResponse) (s : Shared) =>
    ∀ cached, found = some cached → .hit t call cached ∈ s.history)
  · refine holds_perf (.lookUp call) fun s' _ hinv i => ⟨hinv.lookUp i, ?_⟩
    simp only [perform]
    split
    · split
      · rintro _ ⟨⟩
        exact List.mem_append_right _ (List.mem_singleton.mpr rfl)
      · rintro _ ⟨⟩
    · rintro _ ⟨⟩
  intro found s hfound
  cases found with
  | some cached =>
    refine Outline.holds_ret ?_
    rintro _ ⟨⟩
    exact ⟨call, rfl, .inr (hfound cached rfl)⟩
  | none =>
    apply Outline.Holds.bind (Q := fun (answer : Answer) (s : Shared) =>
      ∀ response, answer = .ok response → .answered t call response ∈ s.history)
    · refine holds_perf (.callInner call) fun s' _ hinv i => ?_
      simp only [perform]
      split
      · refine ⟨hinv.answered, ?_⟩
        rintro _ ⟨⟩
        exact List.mem_append_right _ (List.mem_singleton.mpr rfl)
      · exact ⟨hinv, by rintro _ ⟨⟩⟩
    intro answer s hanswer
    cases answer with
    | error e => exact Outline.holds_ret (by rintro _ ⟨⟩)
    | ok response =>
      apply Outline.Holds.bind (Q := fun (_ : Unit) (s : Shared) => .answered t call response ∈ s.history)
      · exact holds_perf (.store call response) fun s' hsub hinv i =>
          ⟨hinv.store (hsub (hanswer response rfl)) i.order, hsub (hanswer response rfl)⟩
      intro _ s hanswered
      refine Outline.holds_ret ?_
      rintro _ ⟨⟩
      exact ⟨call, rfl, .inl hanswered⟩

/-- **The cache answers for the provider.** In every state that any interleaving of calls reaches, the map is within
its capacity, and a call that has returned an answer got it from the provider itself, or from an answer the provider
had given under the same key to a call that came in less than the time-to-live before. -/
theorem cached_answers_are_recent {ls : List (machine config hashing).Label} {cfg : (machine config hashing).Config}
    (run : Runs (machine config hashing).step (fun _ _ => True) ((machine config hashing).initial Shared.empty) ls cfg) :
    cfg.shared.cache.entries.length ≤ max 1 config.maxEntries ∧
    ∀ t request response, cfg.Returned t request (.ok response) → ∃ call : Lookup, call.request = request ∧
      (.answered t call response ∈ cfg.shared.history ∨ ∃ n, cfg.shared.history[n]? = some (.hit t call response) ∧
          Earlier config hashing (cfg.shared.history.take n) call response) := by
  have hinit : Inv config hashing Shared.empty :=
    ⟨Nat.zero_le _, fun k entry h => (by cases h), fun n t call response h => (by cases h)⟩
  have hgood := Outline.run (P := outline config hashing) run hinit (fun _ => True.intro)
    (fun _ _ _ => True.intro) fun request _ _ => holds_complete request _
  refine ⟨hgood.inv.bounded, fun t request response hreturned => ?_⟩
  obtain ⟨call, hcall, hanswered | hhit⟩ := hgood.post hreturned response rfl
  · exact ⟨call, hcall, .inl hanswered⟩
  · obtain ⟨n, hn⟩ := List.mem_iff_getElem?.mp hhit
    exact ⟨call, hcall, .inr ⟨n, hn, hgood.inv.fair n t call response hn⟩⟩

/-! ### The same question twice -/

def hello : CompletionRequest := ⟨[.user "Hello"], none, none, none, none⟩

/-- The JSON text and the digest of `hello` sent to `gpt-4o`. -/
def helloHashing : Hashing where
  messagesJson _ := some "[\x7b\"role\":\"user\",\"content\":\"Hello\"\x7d]"
  sha256 _ := "4342cfe7bdd62c47929ff6b7cb46f4e31c140c2565f28799220d0442a1c18968"

/-- The provider says "Hi!" at all times. -/
def hiAt (now : Nat) : Input := ⟨"gpt-4o", now, .ok ⟨"Hi!", 8, 2, .stop, 0, 0⟩, ⟨id, fun _ => .refl _⟩⟩

def helloMachine : Machine := machine ⟨3600, 1000⟩ helloHashing

/-- Task 1 asks a second after task 0 has been answered. -/
def askTwice : List helloMachine.Label :=
  [.start 0 hello, .step 0 (hiAt 10), .step 0 (hiAt 10), .step 0 (hiAt 11), .step 0 (hiAt 11),
    .start 1 hello, .step 1 (hiAt 12), .step 1 (hiAt 12)]

theorem second_answer_is_recent : ∃ (cfg : helloMachine.Config) (call : Lookup),
    cfg.Returned 1 hello (.ok ⟨"Hi!", 8, 2, .stop, 0, 0⟩) ∧
    Earlier ⟨3600, 1000⟩ helloHashing cfg.shared.history call ⟨"Hi!", 8, 2, .stop, 0, 0⟩ := by
  obtain ⟨cfg, hcfg, hreturned, hhistory⟩ : ∃ cfg : helloMachine.Config,
      askTwice.foldlM helloMachine.step (helloMachine.initial Shared.empty) = some cfg ∧
      cfg.Returned 1 hello (.ok ⟨"Hi!", 8, 2, .stop, 0, 0⟩) ∧
      cfg.shared.history = [.answered 0 ⟨"gpt-4o", hello, 10⟩ ⟨"Hi!", 8, 2, .stop, 0, 0⟩,
        .hit 1 ⟨"gpt-4o", hello, 12⟩ ⟨"Hi!", 8, 2, .stop, 0, 0⟩] := ⟨_, rfl, rfl, rfl⟩
  obtain ⟨call, -, hanswered | ⟨n, -, t, call', hmem, hslot⟩⟩ :=
    (cached_answers_are_recent (Runs.of_foldlM hcfg)).2 1 hello _ hreturned
  · rw [hhistory] at hanswered
    simp at hanswered
  · exact ⟨cfg, call, hreturned, t, call', List.mem_of_mem_take hmem, hslot⟩

/-! ## Keys -/

/-- The first mark tells what stands before it from what stands behind. -/
theorem marked_injective {α : Type} {mark : α} {x y z w : List α} (hx : mark ∉ x) (hy : mark ∉ y)
    (h : x ++ mark :: z = y ++ mark :: w) : x = y ∧ z = w := by
  rcases List.append_eq_append_iff.mp h with ⟨c, rfl, hc⟩ | ⟨c, rfl, hc⟩ <;> cases c <;> simp_all

theorem parts_injective {α : Type} {mark : α} {parts parts' : List (List α)} (hparts : ∀ p ∈ parts, mark ∉ p)
    (hparts' : ∀ p ∈ parts', mark ∉ p) (h : parts.flatMap (· ++ [mark]) = parts'.flatMap (· ++ [mark])) :
    parts = parts' := by
  induction parts generalizing parts' with
  | nil => cases parts' <;> simp_all
  | cons p parts ih => cases parts' with
    | nil => simp at h
    | cons p' parts' =>
      simp only [List.flatMap_cons, List.append_assoc, List.singleton_append] at h
      obtain ⟨rfl, hrest⟩ := marked_injective (hparts p List.mem_cons_self) (hparts' p' List.mem_cons_self) h
      rw [ih (fun q hq => hparts q (.tail _ hq)) (fun q hq => hparts' q (.tail _ hq)) hrest]

theorem encodeUtf8_injective {s t : String} (h : encodeUtf8 s.toList = encodeUtf8 t.toList) : s = t :=
  Option.some.inj ((fromUtf8_eq_some_iff.mpr rfl).symm.trans (fromUtf8_eq_some_iff.mpr h))

theorem char_of_byte {text : List Char} {c : Char} {byte : UInt8} (hbyte : encodeUtf8 [c] = [byte])
    (h : byte ∈ encodeUtf8 text) : c ∈ text := by
  obtain ⟨before, behind, hsplit⟩ := List.append_of_mem h
  have hinfix : encodeUtf8 [c] <:+: encodeUtf8 text := ⟨before, behind, by rw [hbyte, hsplit]; simp⟩
  exact (infix_of_encodeUtf8 hinfix).subset (List.mem_singleton.mpr rfl)

theorem leBytes_injective {m n : UInt32} (h : leBytes m = leBytes n) : m = n := by
  simp only [leBytes, List.cons.injEq, ← UInt8.toNat_inj, UInt32.toNat_toUInt8, UInt32.toNat_shiftRight] at h
  apply UInt32.toNat_inj.mp
  have hm := m.toNat_lt
  have hn := n.toNat_lt
  simp [Nat.shiftRight_eq_div_pow] at h
  omega

/-- The bytes of a number that both sides give, or both leave out. -/
theorem number_injective {a b : Option UInt32} {rest rest' : List UInt8} (hgiven : a.isSome = b.isSome)
    (h : a.elim [] leBytes ++ rest = b.elim [] leBytes ++ rest') : a = b ∧ rest = rest' := by
  rcases a with _ | m <;> rcases b with _ | n <;> try cases hgiven
  · exact ⟨rfl, h⟩
  · obtain ⟨hbytes, hrest⟩ := List.append_inj h rfl
    exact ⟨congrArg some (leBytes_injective hbytes), hrest⟩

/-- No bar in the model's name and no NUL in a stop sequence. -/
def Plain (model : String) (r : CompletionRequest) : Prop :=
  '|' ∉ model.toList ∧ ∀ s ∈ r.stopSequences.getD [], Char.ofNat 0 ∉ s.toList

/-- **Keys tell requests apart**, up to collisions of the digest. Two plain requests with the same messages, which both
give or both leave out each number, are hashed by the same bytes exactly if model and parameters are the same; no stop
sequences are as good as an empty list. -/
theorem keys_tell_requests_apart (hashing : Hashing) {model model' : String} {r r' : CompletionRequest}
    (hmessages : r.messages = r'.messages) (hmax : r.maxTokens.isSome = r'.maxTokens.isSome)
    (htemp : r.temperature.isSome = r'.temperature.isSome) (hplain : Plain model r) (hplain' : Plain model' r') :
    hashed hashing model r = hashed hashing model' r' ↔ model = model' ∧ r.maxTokens = r'.maxTokens ∧
      r.temperature = r'.temperature ∧ r.stopSequences.getD [] = r'.stopSequences.getD [] := by
  constructor
  · intro h
    have hstop : ∀ stops : List String, stops.flatMap (fun s => encodeUtf8 s.toList ++ [0]) =
        (stops.map fun s => encodeUtf8 s.toList).flatMap (· ++ [0]) := fun stops => by rw [List.flatMap_map]
    have hfree : ∀ {model r}, Plain model r →
        ∀ p ∈ (r.stopSequences.getD []).map fun s => encodeUtf8 s.toList, 0 ∉ p := by
      rintro model r hplain p hp hzero
      obtain ⟨s, hs, rfl⟩ := List.mem_map.mp hp
      exact hplain.2 s hs (char_of_byte rfl hzero)
    simp only [hashed, hmessages, List.append_assoc, List.singleton_append, hstop] at h
    obtain ⟨hname, h⟩ := marked_injective (fun hbar => hplain.1 (char_of_byte rfl hbar))
      (fun hbar => hplain'.1 (char_of_byte rfl hbar)) h
    obtain ⟨hmaxTokens, h⟩ := number_injective hmax (List.cons.inj (List.append_cancel_left h)).2
    obtain ⟨htemperature, h⟩ := number_injective htemp (List.cons.inj h).2
    have hparts := parts_injective (hfree hplain) (hfree hplain') (List.cons.inj h).2
    exact ⟨encodeUtf8_injective hname, hmaxTokens, htemperature,
      List.map_injective_iff.mpr (fun _ _ => encodeUtf8_injective) hparts⟩
  · rintro ⟨rfl, hmaxTokens, htemperature, hsequences⟩
    simp only [hashed, hmessages, hmaxTokens, htemperature, hsequences]

def helloUntilEnd : CompletionRequest := { hello with stopSequences := some ["END"] }

/-- A stop sequence changes what is hashed. -/
theorem end_changes_the_key : hashed helloHashing "gpt-4o" helloUntilEnd ≠ hashed helloHashing "gpt-4o" hello := by
  have hiff : hashed helloHashing "gpt-4o" helloUntilEnd = hashed helloHashing "gpt-4o" hello ↔ _ :=
    keys_tell_requests_apart helloHashing rfl rfl rfl ⟨by decide, by decide⟩ ⟨by decide, by decide⟩
  exact fun h => absurd (hiff.mp h).2.2.2 (by decide)

end Freeclawdia.ResponseCache
