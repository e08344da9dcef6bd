import Freeclawdia.Secrets.Store

/-!
# `Correctness.SecretVault` — what the three secret stores answer

A vault holds, for a user and a name in lower case, the parameters of the last create that no delete followed (`held`).
Each store is tied to it by a few laws about what it finds under a key (`Backed`), and from these laws alone follows
what it answers after any history (`Backed.answers`).

What a store keeps of an expiry is its own. Only the databases sort their lists, count usage and leave the id alone.
-/

namespace Freeclawdia.Secrets

open Rust

/-! ## The vault -/

inductive VaultOp
  | create (userId name value : String) (provider : Option String) (expiresAt : Option Int)
  | delete (userId name : String)
  | recordUsage (secretId : Uuid)
  | getDecrypted (userId name : String)
  | exists? (userId name : String)
  | list (userId : String)

/-- The parameters as `CreateSecretParams::new` makes them. -/
def params (name value : String) (provider : Option String) (expiresAt : Option Int) : CreateSecretParams :=
  { CreateSecretParams.new name value with provider := provider, expiresAt := expiresAt }

/-- What an operation does to what is held for a user under a name. -/
def VaultOp.effect (userId key : String) (before : Option CreateSecretParams) : VaultOp → Option CreateSecretParams
  | .create u name value provider expiresAt =>
    if u = userId ∧ toLowercase name = key then some (params name value provider expiresAt) else before
  | .delete u name => if u = userId ∧ toLowercase name = key then none else before
  | _ => before

/-- The last create that no delete followed. -/
def held (history : List (VaultOp × Draw)) (userId key : String) : Option CreateSecretParams :=
  history.foldl (fun before e => e.1.effect userId key before) none

/-- What is read of it. -/
def answerTo (kept : Int → Option Int) (key : String) (now : Int) : Option CreateSecretParams → Except SecretError String
  | none => .error (.notFound key)
  | some c => if (c.expiresAt.bind kept).any (· < now) then .error .expired else .ok c.value

/-! ## Histories of a store -/

variable {σ : Type}

/-- An operation of the vault on a store. -/
def SecretsStore.perform (s : SecretsStore σ) (st : σ) : VaultOp × Draw → σ
  | (.create userId name value provider expiresAt, draw) => (s.create st userId
    (params name value provider expiresAt) draw).2
  | (.delete userId name, _) => (s.delete st userId name).2
  | (.recordUsage secretId, _) => s.recordUsage st secretId
  | (.getDecrypted _ _, _) | (.exists? _ _, _) | (.list _, _) => st

/-- The store after a history. -/
def SecretsStore.after (s : SecretsStore σ) (st : σ) (history : List (VaultOp × Draw)) : σ := history.foldl s.perform st

/-- What is drawn: ids that differ, and nonces of the cipher's length. -/
structure WellDrawn (history : List (VaultOp × Draw)) : Prop where
  ids : (history.map fun e => e.2.id).Nodup
  nonces : ∀ e ∈ history, e.2.nonce.length = nonceSize

/-- What a store answers after any history. -/
structure Answers (s : SecretsStore σ) (init : σ) (kept : Int → Option Int) : Prop where
  getDecrypted : ∀ history, WellDrawn history → ∀ userId name now,
    s.getDecrypted (s.after init history) userId name now =
      answerTo kept (toLowercase name) now (held history userId (toLowercase name))
  exists? : ∀ history, WellDrawn history → ∀ userId name,
    s.exists? (s.after init history) userId name = (held history userId (toLowercase name)).isSome
  delete : ∀ history, WellDrawn history → ∀ userId name,
    (s.delete (s.after init history) userId name).1 = (held history userId (toLowercase name)).isSome
  list : ∀ history, WellDrawn history → ∀ userId,
    ((s.list (s.after init history) userId).map SecretRef.name).Nodup ∧
      ∀ ref, ref ∈ s.list (s.after init history) userId ↔
        ∃ c, held history userId ref.name = some c ∧ c.provider = ref.provider

/-! ## From laws to answers -/

/-- A row holds what a create asked for. -/
structure Stored (crypto : SecretsCrypto) (kept : Int → Option Int) (userId key : String) (row : Secret)
    (c : CreateSecretParams) : Prop where
  rowKey : row.key = (userId, key)
  value : crypto.decrypt row.encryptedValue row.keySalt = .ok c.value
  provider : row.provider = c.provider
  expiresAt : row.expiresAt = c.expiresAt.bind kept

/-- What is found is what is held. -/
def Matches (crypto : SecretsCrypto) (kept : Int → Option Int) (userId key : String) :
    Option Secret → Option CreateSecretParams → Prop
  | none, none => True
  | some row, some c => Stored crypto kept userId key row c
  | _, _ => False

section Matches

variable {crypto : SecretsCrypto} {kept : Int → Option Int} {userId key : String} {found : Option Secret}
  {last : Option CreateSecretParams}

theorem Matches.isSome_eq (h : Matches crypto kept userId key found last) : found.isSome = last.isSome := by
  match found, last, h with
  | none, none, _ => rfl
  | some row, some c, _ => rfl

theorem Matches.of_some {row : Secret} (h : Matches crypto kept userId key (some row) last) :
    ∃ c, last = some c ∧ Stored crypto kept userId key row c := by
  match last, h with
  | some c, hrow => exact ⟨c, rfl, hrow⟩

theorem Matches.of_held {c : CreateSecretParams} (h : Matches crypto kept userId key found (some c)) :
    ∃ row, found = some row ∧ Stored crypto kept userId key row c := by
  match found, h with
  | some row, hrow => exact ⟨row, rfl, hrow⟩

end Matches

/-- A store is a map from keys to rows: what each operation finds and leaves. -/
structure Backed (s : SecretsStore σ) (crypto : SecretsCrypto) (kept : Int → Option Int)
    (find : σ → String → String → Option Secret) (ids : σ → List Uuid) : Prop where
  create : ∀ st userId c draw, draw.id ∉ ids st → draw.nonce.length = nonceSize →
    (∃ row, Stored crypto kept userId c.name row c ∧ ∀ u k, find (s.create st userId c draw).2 u k =
        if userId = u ∧ c.name = k then some row else find st u k) ∧
      ∀ id ∈ ids (s.create st userId c draw).2, id = draw.id ∨ id ∈ ids st
  delete : ∀ st userId name, (s.delete st userId name).1 = (find st userId (toLowercase name)).isSome ∧
    (∀ u k, find (s.delete st userId name).2 u k = if userId = u ∧ toLowercase name = k then none else find st u k) ∧
    ∀ id ∈ ids (s.delete st userId name).2, id ∈ ids st
  recordUsage : ∀ st secretId, (∃ count : Secret → Nat, ∀ u k, find (s.recordUsage st secretId) u k =
    (find st u k).map fun r => { r with usageCount := count r }) ∧ ∀ id ∈ ids (s.recordUsage st secretId), id ∈ ids st
  getDecrypted : ∀ st userId name now, s.getDecrypted st userId name now =
    match find st userId (toLowercase name) with
    | none => .error (.notFound (toLowercase name))
    | some row =>
      if row.expiresAt.any (· < now) then .error .expired else crypto.decrypt row.encryptedValue row.keySalt
  exists? : ∀ st userId name, s.exists? st userId name = (find st userId (toLowercase name)).isSome
  list : ∀ st, (∀ u k row, find st u k = some row → row.key = (u, k)) → ∀ userId,
    ((s.list st userId).map SecretRef.name).Nodup ∧
      ∀ ref, ref ∈ s.list st userId ↔ ∃ row, find st userId ref.name = some row ∧ row.provider = ref.provider

section Generic

variable {s : SecretsStore σ} {init : σ} {crypto : SecretsCrypto} {kept : Int → Option Int}
  {find : σ → String → String → Option Secret} {ids : σ → List Uuid} {history : List (VaultOp × Draw)}

theorem held_concat (history : List (VaultOp × Draw)) (e : VaultOp × Draw) (userId key : String) :
    held (history ++ [e]) userId key = e.1.effect userId key (held history userId key) := by
  unfold held
  rw [List.foldl_append]
  rfl

theorem after_concat (history : List (VaultOp × Draw)) (e : VaultOp × Draw) :
    s.after init (history ++ [e]) = s.perform (s.after init history) e := by
  unfold SecretsStore.after
  rw [List.foldl_append]
  rfl

variable {e : VaultOp × Draw}

theorem WellDrawn.of_concat (h : WellDrawn (history ++ [e])) :
    WellDrawn history ∧ e.2.nonce.length = nonceSize ∧ ∀ e' ∈ history, e'.2.id ≠ e.2.id := by
  have hids := h.ids
  rw [List.map_append, List.nodup_append] at hids
  refine ⟨⟨hids.1, fun e' he' => h.nonces e' (List.mem_append_left _ he')⟩, h.nonces e (by simp), ?_⟩
  intro e' he'
  exact hids.2.2 _ (List.mem_map_of_mem he') _ (by simp)

/-- What is stored is what is held, and every id was drawn. -/
structure Holds (crypto : SecretsCrypto) (kept : Int → Option Int) (find : σ → String → String → Option Secret)
    (ids : σ → List Uuid) (st : σ) (history : List (VaultOp × Draw)) : Prop where
  stored : ∀ u k, Matches crypto kept u k (find st u k) (held history u k)
  drawn : ∀ id ∈ ids st, ∃ e ∈ history, e.2.id = id

/-- One operation. -/
theorem Backed.holds_perform (h : Backed s crypto kept find ids) {st : σ} (hst : Holds crypto kept find ids st history)
    (hnonce : e.2.nonce.length = nonceSize) (hfresh : ∀ e' ∈ history, e'.2.id ≠ e.2.id) :
    Holds crypto kept find ids (s.perform st e) (history ++ [e]) := by
  have hdrawn : ∀ id ∈ ids st, ∃ e' ∈ history ++ [e], e'.2.id = id := by
    intro id hid
    obtain ⟨e', he', hid'⟩ := hst.drawn id hid
    exact ⟨e', List.mem_append_left _ he', hid'⟩
  have hquery : (∀ u k before, e.1.effect u k before = before) → s.perform st e = st →
      Holds crypto kept find ids (s.perform st e) (history ++ [e]) := by
    intro heffect hperform
    rw [hperform]
    refine ⟨fun u k => ?_, hdrawn⟩
    rw [held_concat, heffect]
    exact hst.stored u k
  obtain ⟨op, draw⟩ := e
  cases op with
  | create userId name value provider expiresAt =>
    have hnew : draw.id ∉ ids st := by
      intro hid
      obtain ⟨e', he', hid'⟩ := hst.drawn _ hid
      exact hfresh e' he' hid'
    obtain ⟨⟨row, hrow, hfind⟩, hids⟩ := h.create st userId (params name value provider expiresAt) draw hnew hnonce
    refine ⟨fun u k => ?_, fun id hid => ?_⟩
    · rw [held_concat]
      show Matches _ _ _ _ (find (s.create st userId (params name value provider expiresAt) draw).2 u k)
        (if userId = u ∧ toLowercase name = k then some (params name value provider expiresAt) else held history u k)
      rw [hfind u k]
      show Matches _ _ _ _ (if userId = u ∧ toLowercase name = k then some row else find st u k) _
      split
      next hkey =>
        obtain ⟨rfl, rfl⟩ := hkey
        exact hrow
      next => exact hst.stored u k
    · rcases hids id hid with rfl | hold
      · exact ⟨_, List.mem_append_right _ (List.mem_singleton.mpr rfl), rfl⟩
      · exact hdrawn id hold
  | delete userId name =>
    obtain ⟨-, hfind, hids⟩ := h.delete st userId name
    refine ⟨fun u k => ?_, fun id hid => hdrawn id (hids id hid)⟩
    rw [held_concat]
    show Matches _ _ _ _ (find (s.delete st userId name).2 u k)
      (if userId = u ∧ toLowercase name = k then none else held history u k)
    rw [hfind u k]
    split
    next => trivial
    next => exact hst.stored u k
  | recordUsage secretId =>
    obtain ⟨⟨count, hfind⟩, hids⟩ := h.recordUsage st secretId
    refine ⟨fun u k => ?_, fun id hid => hdrawn id (hids id hid)⟩
    rw [held_concat]
    show Matches _ _ _ _ (find (s.recordUsage st secretId) u k) (held history u k)
    rw [hfind u k]
    have hstored := hst.stored u k
    generalize find st u k = found at hstored ⊢
    generalize held history u k = before at hstored ⊢
    match found, before, hstored with
    | none, none, _ => trivial
    | some row, some c, hrow => exact ⟨hrow.rowKey, hrow.value, hrow.provider, hrow.expiresAt⟩
  | getDecrypted userId name => exact hquery (fun _ _ _ => rfl) rfl
  | exists? userId name => exact hquery (fun _ _ _ => rfl) rfl
  | list userId => exact hquery (fun _ _ _ => rfl) rfl

/-- Every history. -/
theorem Backed.holds_after (h : Backed s crypto kept find ids) (hempty : ∀ u k, find init u k = none)
    (hids : ids init = []) (hdrawn : WellDrawn history) :
    Holds crypto kept find ids (s.after init history) history := by
  induction history using List.reverseRecOn with
  | nil =>
    refine ⟨fun u k => ?_, fun id hid => ?_⟩
    · show Matches _ _ _ _ (find init u k) none
      rw [hempty u k]
      trivial
    · have hid' : id ∈ ids init := hid
      rw [hids] at hid'
      cases hid'
  | append_singleton history e ih =>
    obtain ⟨hbefore, hnonce, hfresh⟩ := hdrawn.of_concat
    rw [after_concat]
    exact h.holds_perform (ih hbefore) hnonce hfresh

/-- **What a store answers** follows from what it finds. -/
theorem Backed.answers (h : Backed s crypto kept find ids) (hempty : ∀ u k, find init u k = none)
    (hids : ids init = []) : Answers s init kept where
  getDecrypted := by
    intro history hdrawn userId name now
    have hstored := (h.holds_after hempty hids hdrawn).stored userId (toLowercase name)
    rw [h.getDecrypted]
    generalize find (s.after init history) userId (toLowercase name) = found at hstored ⊢
    generalize held history userId (toLowercase name) = last at hstored ⊢
    match found, last, hstored with
    | none, none, _ => rfl
    | some row, some c, hrow =>
      unfold answerTo
      simp only [hrow.expiresAt, hrow.value]
  exists? := by
    intro history hdrawn userId name
    have hstored := (h.holds_after hempty hids hdrawn).stored userId (toLowercase name)
    rw [h.exists?]
    exact hstored.isSome_eq
  delete := by
    intro history hdrawn userId name
    have hstored := (h.holds_after hempty hids hdrawn).stored userId (toLowercase name)
    rw [(h.delete _ userId name).1]
    exact hstored.isSome_eq
  list := by
    intro history hdrawn userId
    have hholds := h.holds_after hempty hids hdrawn
    have hkeys : ∀ u k row, find (s.after init history) u k = some row → row.key = (u, k) := by
      intro u k row hrow
      have hstored := hholds.stored u k
      rw [hrow] at hstored
      obtain ⟨c, -, hrow'⟩ := hstored.of_some
      exact hrow'.rowKey
    obtain ⟨hnodup, hmem⟩ := h.list _ hkeys userId
    refine ⟨hnodup, fun ref => ?_⟩
    rw [hmem]
    have hstored := hholds.stored userId ref.name
    constructor
    · rintro ⟨row, hrow, hprovider⟩
      rw [hrow] at hstored
      obtain ⟨c, hc, hrow'⟩ := hstored.of_some
      exact ⟨c, hc, hrow'.provider ▸ hprovider⟩
    · rintro ⟨c, hc, hprovider⟩
      rw [hc] at hstored
      obtain ⟨row, hrow, hrow'⟩ := hstored.of_held
      exact ⟨row, hrow, hrow'.provider.trans hprovider⟩

end Generic

/-! ## The table -/

namespace SecretsTable

variable (t : SecretsTable) {name userId : String}

theorem find?_eq_some_iff {row : Secret} :
    t.find? userId name = some row ↔ row ∈ t.rows ∧ row.key = (userId, name) := by
  unfold find?
  constructor
  · intro h
    exact ⟨List.mem_of_find?_eq_some h, by simpa using List.find?_some h⟩
  · rintro ⟨hmem, hkey⟩
    obtain ⟨found, hfound⟩ : ∃ found, t.rows.find? (fun r => r.key = (userId, name)) = some found :=
      Option.isSome_iff_exists.mp (List.find?_isSome.mpr ⟨row, hmem, by simpa using hkey⟩)
    have hfkey : found.key = (userId, name) := by simpa using List.find?_some hfound
    rw [hfound, List.inj_on_of_nodup_map t.keys (List.mem_of_find?_eq_some hfound) hmem (hfkey.trans hkey.symm)]

theorem find?_isSome_iff : (t.find? userId name).isSome = true ↔ (userId, name) ∈ t.rows.map Secret.key := by
  unfold find?
  rw [List.find?_isSome, List.mem_map]
  simp only [decide_eq_true_eq]

theorem find?_update (f : Secret → Secret) (hkey : ∀ r, (f r).key = r.key) (hid : ∀ r, (f r).id = r.id)
    (userId name : String) : (t.update f hkey hid).find? userId name = (t.find? userId name).map f := by
  unfold find? update
  rw [List.find?_map]
  congr 2
  funext r
  show decide ((f r).key = _) = _
  rw [hkey]

theorem find?_remove (userId name u k : String) :
    (t.remove userId name).find? u k = if userId = u ∧ name = k then none else t.find? u k := by
  unfold find? remove
  rw [List.find?_filter]
  split
  next h =>
    obtain ⟨rfl, rfl⟩ := h
    simp
  next h =>
    congr 1
    funext r
    have hne : r.key = (u, k) → r.key ≠ (userId, name) := by
      rintro hr hr'
      rw [hr, Prod.mk.injEq] at hr'
      exact h ⟨hr'.1.symm, hr'.2.symm⟩
    by_cases hr : r.key = (u, k)
    · simp [hr, hr ▸ hne hr]
    · simp [hr]

theorem find?_countUsage (secretId : Uuid) (userId name : String) : (t.countUsage secretId).find? userId name =
    (t.find? userId name).map fun r => { r with usageCount := r.usageCount + if r.id = secretId then 1 else 0 } := by
  unfold countUsage
  rw [find?_update]
  congr 1
  funext r
  split <;> rfl

theorem ids_countUsage (secretId : Uuid) : (t.countUsage secretId).rows.map Secret.id = t.rows.map Secret.id := by
  unfold countUsage update
  rw [List.map_map]
  congr 1
  funext r
  show (if r.id = secretId then _ else r).id = r.id
  split <;> rfl

/-- An insertion under an id that is not taken succeeds, and changes the row of its key alone: a row that is there keeps
    its id and its usage. -/
theorem insertOrUpdate_spec {new : Secret} (hid : new.id ∉ t.rows.map Secret.id) : ∃ t', t.insertOrUpdate new = some t' ∧
    (∀ u k, t'.find? u k = if new.key = (u, k) then some (((t.find? u k).getD new).overwrite new) else t.find? u k) ∧
    ∀ id ∈ t'.rows.map Secret.id, id = new.id ∨ id ∈ t.rows.map Secret.id := by
  unfold insertOrUpdate
  split
  next hkey =>
    refine ⟨_, rfl, fun u k => ?_, fun id h => ?_⟩
    · rw [find?_update]
      split
      next huk =>
        rw [huk] at hkey
        obtain ⟨row, hrow⟩ := Option.isSome_iff_exists.mp (t.find?_isSome_iff.mpr hkey)
        have hrowKey := (t.find?_eq_some_iff.mp hrow).2
        rw [hrow, Option.map_some, Option.getD_some, if_pos (hrowKey.trans huk.symm)]
      next huk =>
        cases hfind : t.find? u k with
        | none => rfl
        | some row =>
          have hrowKey := (t.find?_eq_some_iff.mp hfind).2
          rw [Option.map_some, if_neg (hrowKey ▸ fun h => huk h.symm)]
    · right
      simp only [update, List.map_map] at h
      rw [List.mem_map] at h ⊢
      obtain ⟨r, hr, rfl⟩ := h
      refine ⟨r, hr, ?_⟩
      show r.id = (if r.key = new.key then r.overwrite new else r).id
      split <;> rfl
  next hkey =>
    refine ⟨_, rfl, fun u k => ?_, fun id h => ?_⟩
    · unfold find?
      rw [List.find?_append]
      split
      next huk =>
        have hnone : t.rows.find? (fun r => r.key = (u, k)) = none := by
          rw [List.find?_eq_none]
          intro r hr
          simp only [decide_eq_true_eq]
          intro hrk
          exact hkey (List.mem_map.mpr ⟨r, hr, hrk.trans huk.symm⟩)
        rw [hnone]
        simp [huk, Secret.overwrite]
      next huk => simp [huk]
    · rw [List.map_append, List.mem_append] at h
      rcases h with h | h
      · exact .inr h
      · left
        simpa using h

/-- The references of a user: every row of theirs, once. -/
theorem mem_refs (nameLe : String → String → Bool) (userId : String) (ref : SecretRef) :
    ref ∈ t.refs nameLe userId ↔ ∃ row, t.find? userId ref.name = some row ∧ row.provider = ref.provider := by
  unfold refs
  simp only [List.mem_map, List.mem_mergeSort, List.mem_filter, decide_eq_true_eq]
  constructor
  · rintro ⟨row, ⟨hmem, rfl⟩, rfl⟩
    exact ⟨row, t.find?_eq_some_iff.mpr ⟨hmem, rfl⟩, rfl⟩
  · rintro ⟨row, hrow, hprovider⟩
    obtain ⟨hmem, hkey⟩ := t.find?_eq_some_iff.mp hrow
    have huser := congrArg Prod.fst hkey
    have hname := congrArg Prod.snd hkey
    refine ⟨row, ⟨hmem, huser⟩, ?_⟩
    show (⟨row.name, row.provider⟩ : SecretRef) = ref
    rw [show row.name = ref.name from hname, hprovider]

theorem refs_names_nodup (nameLe : String → String → Bool) (userId : String) :
    ((t.refs nameLe userId).map SecretRef.name).Nodup := by
  unfold refs
  rw [List.map_map]
  have hkeys : ((t.rows.filter fun r => r.userId = userId).map Secret.key).Nodup :=
    t.keys.sublist (List.filter_sublist.map _)
  have hperm := List.mergeSort_perm (t.rows.filter fun r => r.userId = userId) fun a b => nameLe a.name b.name
  apply (hperm.map _).nodup_iff.mpr
  apply List.Nodup.map_on ?_ (List.Nodup.of_map _ hkeys)
  intro a ha b hb hname
  rw [List.mem_filter, decide_eq_true_eq] at ha hb
  apply List.inj_on_of_nodup_map hkeys (List.mem_filter.mpr ⟨ha.1, by simpa using ha.2⟩)
    (List.mem_filter.mpr ⟨hb.1, by simpa using hb.2⟩)
  show (a.userId, a.name) = (b.userId, b.name)
  rw [ha.2, hb.2, show a.name = b.name from hname]

/-- `ORDER BY name`. -/
theorem refs_sorted {nameLe : String → String → Bool} (htrans : ∀ a b c, nameLe a b → nameLe b c → nameLe a c)
    (htotal : ∀ a b, nameLe a b || nameLe b a) (userId : String) :
    (t.refs nameLe userId).Pairwise fun a b => nameLe a.name b.name := by
  unfold refs
  rw [List.pairwise_map]
  exact List.pairwise_mergeSort (fun a b c => htrans a.name b.name c.name) (fun a b => htotal a.name b.name) _

end SecretsTable

/-! ## The three stores -/

section Stores

variable {t : SecretsTable} {crypto : SecretsCrypto} {kept : Int → Option Int}

/-- The row an insertion leaves holds what the create asked for. -/
theorem insertOrUpdate_stored {userId : String} {c : CreateSecretParams} {new : Secret}
    (hid : new.id ∉ t.rows.map Secret.id) (hnew : Stored crypto kept userId c.name new c) :
    ∃ t', t.insertOrUpdate new = some t' ∧ (∃ row, Stored crypto kept userId c.name row c ∧
        ∀ u k, t'.find? u k = if userId = u ∧ c.name = k then some row else t.find? u k) ∧
      ∀ id ∈ t'.rows.map Secret.id, id = new.id ∨ id ∈ t.rows.map Secret.id := by
  obtain ⟨t', hinsert, hfind, hids⟩ := t.insertOrUpdate_spec hid
  refine ⟨t', hinsert, ⟨((t.find? userId c.name).getD new).overwrite new, ?_, fun u k => ?_⟩, hids⟩
  · refine ⟨?_, hnew.value, hnew.provider, hnew.expiresAt⟩
    show ((t.find? userId c.name).getD new).key = _
    cases hrow : t.find? userId c.name with
    | none => exact hnew.rowKey
    | some row => exact (t.find?_eq_some_iff.mp hrow).2
  · rw [hfind]
    simp only [hnew.rowKey, Prod.mk.injEq]
    split
    next h => rw [h.1, h.2]
    next => rfl

theorem Stored.of_encrypt (hlawful : crypto.primitives.Lawful) {draw : Draw} (hnonce : draw.nonce.length = nonceSize)
    (c : CreateSecretParams) : ∃ encryptedValue,
      crypto.encrypt draw.salt draw.nonce (encodeUtf8 c.value.toList) = .ok (encryptedValue, draw.salt) ∧
      ∀ userId expiresAt, expiresAt = c.expiresAt.bind kept →
        Stored crypto kept userId c.name ⟨draw.id, userId, c.name, encryptedValue, draw.salt, c.provider,
          expiresAt, 0⟩ c := by
  obtain ⟨encryptedValue, henc, hdec⟩ := SecretsCrypto.decrypt_encrypt hlawful hnonce draw.salt c.value
  exact ⟨encryptedValue, henc, fun userId expiresAt h => ⟨rfl, hdec, rfl, h⟩⟩

theorem decryptSecret_checkExpiry (now : Int) (row : Secret) : decryptSecret crypto (checkExpiry now row) =
    if row.expiresAt.any (· < now) then .error .expired else crypto.decrypt row.encryptedValue row.keySalt := by
  unfold checkExpiry
  cases row.expiresAt with
  | none => rfl
  | some expiresAt =>
    by_cases h : expiresAt < now
    · simp [h, decryptSecret]
    · simp [h, decryptSecret]

theorem PostgresSecretsStore.backed (env : SqlEnv) (hlawful : env.crypto.primitives.Lawful) :
    Backed (PostgresSecretsStore.store env) env.crypto (fun t => some (timestamptz t)) SecretsTable.find?
      (fun t => t.rows.map Secret.id) where
  create := by
    intro t userId c draw hid hnonce
    obtain ⟨encryptedValue, henc, hstored⟩ := Stored.of_encrypt hlawful hnonce c
    have hexpiry : c.expiresAt.map timestamptz = c.expiresAt.bind fun t => some (timestamptz t) := by
      cases c.expiresAt <;> rfl
    obtain ⟨t', hinsert, hrow, hids⟩ := insertOrUpdate_stored (by exact hid) (hstored userId _ hexpiry)
    have hstate : ((PostgresSecretsStore.store env).create t userId c draw).2 = t' := by
      show (PostgresSecretsStore.create env t userId c draw).2 = t'
      unfold PostgresSecretsStore.create
      simp only [henc, hinsert]
    rw [hstate]
    exact ⟨hrow, hids⟩
  delete t userId name := ⟨rfl, fun u k => t.find?_remove userId (toLowercase name) u k,
    fun id hid => (List.filter_sublist.map _).subset hid⟩
  recordUsage t secretId := by
    refine ⟨⟨_, fun u k => t.find?_countUsage secretId u k⟩, fun id hid => ?_⟩
    exact t.ids_countUsage secretId ▸ hid
  getDecrypted t userId name now := by
    show decryptSecret env.crypto (PostgresSecretsStore.get t userId name now) = _
    unfold PostgresSecretsStore.get
    cases hfind : t.find? userId (toLowercase name) with
    | none => simp only [hfind, decryptSecret]
    | some row => simp only [hfind, decryptSecret_checkExpiry]
  exists? t userId name := rfl
  list t _ userId := ⟨t.refs_names_nodup _ userId, t.mem_refs _ userId⟩

theorem LibSqlSecretsStore.backed (env : SqlEnv) (hlawful : env.crypto.primitives.Lawful) :
    Backed (LibSqlSecretsStore.store env) env.crypto timestampText SecretsTable.find? (fun t => t.rows.map Secret.id) where
  create := by
    intro t userId c draw hid hnonce
    obtain ⟨encryptedValue, henc, hstored⟩ := Stored.of_encrypt hlawful hnonce c
    obtain ⟨t', hinsert, ⟨row, hrow, hfind⟩, hids⟩ := insertOrUpdate_stored (by exact hid) (hstored userId _ rfl)
    have hread : t'.find? userId c.name = some row := by rw [hfind, if_pos ⟨rfl, rfl⟩]
    have hstate : ((LibSqlSecretsStore.store env).create t userId c draw).2 = t' := by
      show (LibSqlSecretsStore.create env t userId c draw).2 = t'
      unfold LibSqlSecretsStore.create
      rw [henc]
      simp only
      rw [hinsert]
      simp only [hread]
    rw [hstate]
    exact ⟨⟨row, hrow, hfind⟩, hids⟩
  delete t userId name := ⟨rfl, fun u k => t.find?_remove userId (toLowercase name) u k,
    fun id hid => (List.filter_sublist.map _).subset hid⟩
  recordUsage t secretId := by
    refine ⟨⟨_, fun u k => t.find?_countUsage secretId u k⟩, fun id hid => ?_⟩
    exact t.ids_countUsage secretId ▸ hid
  getDecrypted t userId name now := by
    show decryptSecret env.crypto (LibSqlSecretsStore.get t userId name now) = _
    unfold LibSqlSecretsStore.get
    cases hfind : t.find? userId (toLowercase name) with
    | none => simp only [hfind, decryptSecret]
    | some row => simp only [hfind, decryptSecret_checkExpiry, rowToSecret]
  exists? t userId name := rfl
  list t _ userId := ⟨t.refs_names_nodup _ userId, t.mem_refs _ userId⟩

/-- The map is visited entry by entry, in whatever order. -/
def InMemorySecretsStore.Env.VisitsAll (env : InMemorySecretsStore.Env) : Prop :=
  ∀ secrets, (env.visit secrets).Perm (secrets.entries.map fun e => (e.1, e.2))

theorem InMemorySecretsStore.backed (env : InMemorySecretsStore.Env) (hlawful : env.crypto.primitives.Lawful)
    (hvisit : env.VisitsAll) :
    Backed (InMemorySecretsStore.store env) env.crypto some (fun secrets u k => secrets.lookup (u, k)) (fun _ => []) where
  create := by
    intro secrets userId c draw hid hnonce
    obtain ⟨encryptedValue, henc, hstored⟩ := Stored.of_encrypt hlawful hnonce c
    have hexpiry : c.expiresAt = c.expiresAt.bind some := by cases c.expiresAt <;> rfl
    refine ⟨⟨_, hstored userId _ hexpiry, fun u k => ?_⟩, fun id hid => by cases hid⟩
    show (InMemorySecretsStore.create env secrets userId c draw).2.lookup (u, k) = _
    unfold InMemorySecretsStore.create
    simp only [henc]
    split
    next h =>
      obtain ⟨rfl, rfl⟩ := h
      exact AList.lookup_insert _
    next h => exact AList.lookup_insert_ne fun heq => h ⟨(congrArg Prod.fst heq).symm, (congrArg Prod.snd heq).symm⟩
  delete := by
    intro secrets userId name
    refine ⟨rfl, fun u k => ?_, fun id hid => by cases hid⟩
    show (secrets.erase (userId, toLowercase name)).lookup (u, k) = _
    split
    next h =>
      obtain ⟨rfl, rfl⟩ := h
      exact AList.lookup_erase _ _
    next h => exact AList.lookup_erase_ne fun heq => h ⟨(congrArg Prod.fst heq).symm, (congrArg Prod.snd heq).symm⟩
  recordUsage := by
    intro secrets secretId
    refine ⟨⟨Secret.usageCount, fun u k => ?_⟩, fun id hid => by cases hid⟩
    show secrets.lookup (u, k) = _
    cases secrets.lookup (u, k) <;> rfl
  getDecrypted secrets userId name now := by
    show decryptSecret env.crypto (InMemorySecretsStore.get secrets userId name now) = _
    unfold InMemorySecretsStore.get
    cases hfind : secrets.lookup (userId, toLowercase name) with
    | none => simp only [hfind, decryptSecret]
    | some row => simp only [hfind, decryptSecret_checkExpiry]
  exists? secrets userId name := rfl
  list := by
    intro secrets hkeys userId
    have hmem : ∀ e, e ∈ env.visit secrets ↔ secrets.lookup e.1 = some e.2 := by
      intro e
      rw [(hvisit secrets).mem_iff, List.mem_map, ← Option.mem_def, AList.mem_lookup_iff]
      constructor
      · rintro ⟨⟨key, row⟩, he, rfl⟩
        exact he
      · intro he
        exact ⟨⟨e.1, e.2⟩, he, rfl⟩
    have hname : ∀ e ∈ env.visit secrets, e.2.name = e.1.2 :=
      fun e he => congrArg Prod.snd (hkeys e.1.1 e.1.2 e.2 ((hmem e).mp he))
    have hnodup : ((env.visit secrets).map Prod.fst).Nodup := by
      rw [((hvisit secrets).map Prod.fst).nodup_iff, List.map_map]
      exact secrets.nodupKeys
    constructor
    · show ((((env.visit secrets).filter fun e => e.1.1 = userId).map fun e => _).map SecretRef.name).Nodup
      rw [List.map_map]
      have hfiltered : (((env.visit secrets).filter fun e => e.1.1 = userId).map Prod.fst).Nodup :=
        hnodup.sublist (List.filter_sublist.map _)
      apply List.Nodup.map_on ?_ (List.Nodup.of_map _ hfiltered)
      intro a ha b hb hab
      apply List.inj_on_of_nodup_map hfiltered ha hb
      rw [List.mem_filter, decide_eq_true_eq] at ha hb
      have hab' : a.2.name = b.2.name := hab
      rw [hname a ha.1, hname b hb.1] at hab'
      exact Prod.ext (ha.2.trans hb.2.symm) hab'
    · intro ref
      show ref ∈ ((env.visit secrets).filter fun e => e.1.1 = userId).map _ ↔ _
      simp only [List.mem_map, List.mem_filter, decide_eq_true_eq]
      constructor
      · rintro ⟨e, ⟨he, rfl⟩, rfl⟩
        refine ⟨e.2, ?_, rfl⟩
        show secrets.lookup (e.1.1, e.2.name) = some e.2
        rw [hname e he]
        exact (hmem e).mp he
      · rintro ⟨row, hrow, hprovider⟩
        have hkey := hkeys userId ref.name row hrow
        refine ⟨((userId, ref.name), row), ⟨(hmem _).mpr hrow, rfl⟩, ?_⟩
        show (⟨row.name, row.provider⟩ : SecretRef) = ref
        rw [show row.name = ref.name from congrArg Prod.snd hkey, hprovider]

end Stores

/-! ## One user and the others -/

/-- The user an operation is called for. A usage is recorded for an id, whoever asks. -/
def VaultOp.userId? : VaultOp → Option String
  | .create userId .. | .delete userId _ | .getDecrypted userId _ | .exists? userId _ | .list userId => some userId
  | .recordUsage _ => none

def ofUser (userId : String) (history : List (VaultOp × Draw)) : List (VaultOp × Draw) :=
  history.filter fun e => e.1.userId? = some userId

variable {userId : String}

theorem effect_of_others {op : VaultOp} (h : op.userId? ≠ some userId) (key : String)
    (before : Option CreateSecretParams) :
    op.effect userId key before = before := by
  cases op with
  | create u name value provider expiresAt => exact if_neg fun hu => h (congrArg some hu.1)
  | delete u name => exact if_neg fun hu => h (congrArg some hu.1)
  | recordUsage secretId => rfl
  | getDecrypted u name => rfl
  | exists? u name => rfl
  | list u => rfl

theorem held_ofUser (history : List (VaultOp × Draw)) (userId key : String) :
    held (ofUser userId history) userId key = held history userId key := by
  unfold held ofUser
  generalize (none : Option CreateSecretParams) = before
  induction history generalizing before with
  | nil => rfl
  | cons e rest ih =>
    rw [List.filter_cons, List.foldl_cons]
    split
    next => rw [List.foldl_cons, ih]
    next h =>
      rw [decide_eq_true_eq] at h
      rw [effect_of_others h, ih]

/-- Histories in which a user does the same get the user the same answers. -/
structure Isolated (s : SecretsStore σ) (init : σ) : Prop where
  same : ∀ h₁ h₂, WellDrawn h₁ → WellDrawn h₂ → ∀ userId, ofUser userId h₁ = ofUser userId h₂ →
    (∀ name now, s.getDecrypted (s.after init h₁) userId name now = s.getDecrypted (s.after init h₂) userId name now) ∧
      (∀ name, s.exists? (s.after init h₁) userId name = s.exists? (s.after init h₂) userId name) ∧
      (∀ name, (s.delete (s.after init h₁) userId name).1 = (s.delete (s.after init h₂) userId name).1) ∧
      (s.list (s.after init h₁) userId).Perm (s.list (s.after init h₂) userId)

/-- Lists with the same references are the same up to order. -/
theorem perm_of_refs {l₁ l₂ : List SecretRef} (h₁ : (l₁.map SecretRef.name).Nodup) (h₂ : (l₂.map SecretRef.name).Nodup)
    (h : ∀ ref, ref ∈ l₁ ↔ ref ∈ l₂) : l₁.Perm l₂ :=
  (List.perm_ext_iff_of_nodup (List.Nodup.of_map _ h₁) (List.Nodup.of_map _ h₂)).mpr h

variable {kept : Int → Option Int}

theorem Answers.isolated {s : SecretsStore σ} {init : σ} (h : Answers s init kept) : Isolated s init := by
  refine ⟨fun h₁ h₂ hd₁ hd₂ userId hsame => ?_⟩
  have hheld : ∀ key, held h₁ userId key = held h₂ userId key := by
    intro key
    rw [← held_ofUser h₁, ← held_ofUser h₂, hsame]
  refine ⟨fun name now => ?_, fun name => ?_, fun name => ?_, ?_⟩
  · rw [h.getDecrypted h₁ hd₁, h.getDecrypted h₂ hd₂, hheld]
  · rw [h.exists? h₁ hd₁, h.exists? h₂ hd₂, hheld]
  · rw [h.delete h₁ hd₁, h.delete h₂ hd₂, hheld]
  · refine perm_of_refs (h.list h₁ hd₁ userId).1 (h.list h₂ hd₂ userId).1 fun ref => ?_
    rw [(h.list h₁ hd₁ userId).2, (h.list h₂ hd₂ userId).2, hheld]

/-! ## Two stores -/

def VaultOp.expiresAt? : VaultOp → Option Int
  | .create _ _ _ _ expiresAt => expiresAt
  | _ => none

/-- Every expiry is a whole number of milliseconds in a year of four digits. -/
def WholeMillis (history : List (VaultOp × Draw)) : Prop :=
  ∀ e ∈ history, ∀ t, e.1.expiresAt? = some t →
    10 ^ 6 ∣ t ∧ -62167219200 * 10 ^ 9 ≤ t ∧ t < 253402300800 * 10 ^ 9

/-- Two stores answer alike. -/
structure Agree {σ₁ σ₂ : Type} (s₁ : SecretsStore σ₁) (init₁ : σ₁) (s₂ : SecretsStore σ₂) (init₂ : σ₂) : Prop where
  same : ∀ history, WellDrawn history → WholeMillis history → ∀ userId,
    (∀ name now, s₁.getDecrypted (s₁.after init₁ history) userId name now =
        s₂.getDecrypted (s₂.after init₂ history) userId name now) ∧
      (∀ name, s₁.exists? (s₁.after init₁ history) userId name = s₂.exists? (s₂.after init₂ history) userId name) ∧
      (∀ name, (s₁.delete (s₁.after init₁ history) userId name).1 = (s₂.delete (s₂.after init₂ history) userId name).1) ∧
      (s₁.list (s₁.after init₁ history) userId).Perm (s₂.list (s₂.after init₂ history) userId)

variable {history : List (VaultOp × Draw)} {key : String}

/-- What is held was asked for. -/
theorem expiresAt_of_held {c : CreateSecretParams} (h : held history userId key = some c) :
    ∃ e ∈ history, e.1.expiresAt? = c.expiresAt := by
  induction history using List.reverseRecOn with
  | nil => cases h
  | append_singleton history e ih =>
    rw [held_concat] at h
    have hbefore : held history userId key = some c → ∃ e' ∈ history ++ [e], e'.1.expiresAt? = c.expiresAt := by
      intro hh
      obtain ⟨e', he', hexp⟩ := ih hh
      exact ⟨e', List.mem_append_left _ he', hexp⟩
    obtain ⟨op, draw⟩ := e
    cases op with
    | create u name value provider expiresAt =>
      unfold VaultOp.effect at h
      simp only at h
      split at h
      next =>
        cases h
        exact ⟨_, List.mem_append_right _ (List.mem_singleton.mpr rfl), rfl⟩
      next => exact hbefore h
    | delete u name =>
      unfold VaultOp.effect at h
      simp only at h
      split at h
      next => cases h
      next => exact hbefore h
    | recordUsage secretId => exact hbefore h
    | getDecrypted u name => exact hbefore h
    | exists? u name => exact hbefore h
    | list u => exact hbefore h

/-- A store keeps such an expiry as it is. -/
def KeepsMillis (kept : Int → Option Int) : Prop :=
  ∀ t, 10 ^ 6 ∣ t → -62167219200 * 10 ^ 9 ≤ t → t < 253402300800 * 10 ^ 9 → kept t = some t

theorem timestampText_keepsMillis : KeepsMillis timestampText := by
  intro t hmillis hlow hhigh
  unfold timestampText
  rw [if_pos ⟨hlow, hhigh⟩, Int.ediv_mul_cancel hmillis]

theorem timestamptz_keepsMillis : KeepsMillis fun t => some (timestamptz t) := by
  intro t hmillis _ _
  have hmicros : (1000 : Int) ∣ t - 946684800 * 10 ^ 9 := by
    obtain ⟨k, rfl⟩ := hmillis
    omega
  unfold timestamptz
  simp only [Int.tdiv_mul_cancel hmicros, Option.some.injEq]
  omega

variable {kept₁ kept₂ : Int → Option Int}

theorem answer_same (h₁ : KeepsMillis kept₁) (h₂ : KeepsMillis kept₂) (hmillis : WholeMillis history) (userId key : String)
    (now : Int) :
    answerTo kept₁ key now (held history userId key) = answerTo kept₂ key now (held history userId key) := by
  cases hheld : held history userId key with
  | none => rfl
  | some c =>
    obtain ⟨e, he, hexp⟩ := expiresAt_of_held hheld
    unfold answerTo
    cases hc : c.expiresAt with
    | none => simp only [hc, Option.bind_none]
    | some t =>
      obtain ⟨hdiv, hlow, hhigh⟩ := hmillis e he t (hexp.trans hc)
      simp only [hc, Option.bind_some, h₁ t hdiv hlow hhigh, h₂ t hdiv hlow hhigh]

theorem Answers.agree {σ₁ σ₂ : Type} {s₁ : SecretsStore σ₁} {init₁ : σ₁} {s₂ : SecretsStore σ₂} {init₂ : σ₂}
    (h₁ : Answers s₁ init₁ kept₁) (h₂ : Answers s₂ init₂ kept₂) (hkept₁ : KeepsMillis kept₁) (hkept₂ : KeepsMillis kept₂) :
    Agree s₁ init₁ s₂ init₂ := by
  refine ⟨fun history hd hmillis userId => ⟨fun name now => ?_, fun name => ?_, fun name => ?_, ?_⟩⟩
  · rw [h₁.getDecrypted history hd, h₂.getDecrypted history hd]
    exact answer_same hkept₁ hkept₂ hmillis userId _ now
  · rw [h₁.exists? history hd, h₂.exists? history hd]
  · rw [h₁.delete history hd, h₂.delete history hd]
  · refine perm_of_refs (h₁.list history hd userId).1 (h₂.list history hd userId).1 fun ref => ?_
    rw [(h₁.list history hd userId).2, (h₂.list history hd userId).2]

/-! ## Ids and usage -/

def VaultOp.deletes (userId key : String) : VaultOp → Bool
  | .delete u name => u = userId ∧ toLowercase name = key
  | _ => false

def VaultOp.records (secretId : Uuid) : VaultOp → Bool
  | .recordUsage id => id = secretId
  | _ => false

/-- Without a delete, a row keeps its id and counts its usages, whatever is created over it. -/
structure KeepsIdentity (s : SecretsStore SecretsTable) : Prop where
  kept : ∀ t more userId key row, t.find? userId key = some row → (∀ e ∈ more, e.1.deletes userId key = false) →
    ∃ row', (s.after t more).find? userId key = some row' ∧ row'.id = row.id ∧
      row'.usageCount = row.usageCount + more.countP fun e => e.1.records row.id
  /-- The answer of a create shows them. -/
  answered : ∀ t userId c draw row secret, t.find? userId c.name = some row → (s.create t userId c draw).1 = .ok secret →
    secret.id = row.id ∧ secret.usageCount = row.usageCount

/-- What an insertion leaves of a row. -/
theorem insertOrUpdate_keeps {t t' : SecretsTable} {new row : Secret} (h : t.insertOrUpdate new = some t')
    (hrow : t.find? userId key = some row) :
    ∃ row', t'.find? userId key = some row' ∧ row'.id = row.id ∧ row'.usageCount = row.usageCount := by
  unfold SecretsTable.insertOrUpdate at h
  split at h
  next =>
    rw [← Option.some.inj h, SecretsTable.find?_update, hrow]
    refine ⟨_, rfl, ?_⟩
    simp only
    split
    next => exact ⟨rfl, rfl⟩
    next => exact ⟨rfl, rfl⟩
  next =>
    split at h
    next => cases h
    next =>
      rw [← Option.some.inj h]
      refine ⟨row, ?_, rfl, rfl⟩
      unfold SecretsTable.find? at hrow ⊢
      rw [List.find?_append, hrow]
      rfl

/-- A create fails and leaves the table, or inserts a row and answers with what it reads back of it. -/
def CreatesRow (s : SecretsStore SecretsTable) : Prop :=
  ∀ t userId c draw, (∃ e, s.create t userId c draw = (.error e, t)) ∨
    ∃ new t' answer, t.insertOrUpdate new = some t' ∧ s.create t userId c draw = (.ok answer, t') ∧
      ∀ row, t'.find? userId c.name = some row → answer.id = row.id ∧ answer.usageCount = row.usageCount

section Databases

variable {s : SecretsStore SecretsTable} (hcreate : CreatesRow s)
  (hdelete : ∀ t userId name, (s.delete t userId name).2 = t.remove userId (toLowercase name))
  (hrecord : ∀ t secretId, s.recordUsage t secretId = t.countUsage secretId)
include hcreate hdelete hrecord

variable {row : Secret} {t : SecretsTable} {key userId : String}

theorem perform_keeps {e : VaultOp × Draw} (hrow : t.find? userId key = some row) (hno : e.1.deletes userId key = false) :
    ∃ row', (s.perform t e).find? userId key = some row' ∧ row'.id = row.id ∧
      row'.usageCount = row.usageCount + (if e.1.records row.id then 1 else 0) := by
  obtain ⟨op, draw⟩ := e
  cases op with
  | create u name value provider expiresAt =>
    show ∃ row', (s.create t u (params name value provider expiresAt) draw).2.find? userId key = some row' ∧ _
    rcases hcreate t u (params name value provider expiresAt) draw with ⟨e, heq⟩ | ⟨new, t', answer, hinsert, heq, -⟩
    · rw [heq]
      exact ⟨row, hrow, rfl, rfl⟩
    · rw [heq]
      exact insertOrUpdate_keeps hinsert hrow
  | delete u name =>
    refine ⟨row, ?_, rfl, rfl⟩
    show (s.delete t u name).2.find? userId key = some row
    have hother : ¬ (u = userId ∧ toLowercase name = key) := of_decide_eq_false hno
    rw [hdelete, SecretsTable.find?_remove, if_neg hother]
    exact hrow
  | recordUsage secretId =>
    refine ⟨{ row with usageCount := row.usageCount + if row.id = secretId then 1 else 0 }, ?_, rfl, ?_⟩
    · show (s.recordUsage t secretId).find? userId key = _
      rw [hrecord, SecretsTable.find?_countUsage, hrow]
      rfl
    · show _ + (if row.id = secretId then 1 else 0) = _ + if decide (secretId = row.id) = true then 1 else 0
      by_cases hid : row.id = secretId
      · simp [hid]
      · have hid' : ¬ secretId = row.id := fun h => hid h.symm
        simp [hid, hid']
  | getDecrypted u name => exact ⟨row, hrow, rfl, rfl⟩
  | exists? u name => exact ⟨row, hrow, rfl, rfl⟩
  | list u => exact ⟨row, hrow, rfl, rfl⟩

theorem after_keeps {more : List (VaultOp × Draw)} (hrow : t.find? userId key = some row)
    (hno : ∀ e ∈ more, e.1.deletes userId key = false) :
    ∃ row', (s.after t more).find? userId key = some row' ∧ row'.id = row.id ∧
      row'.usageCount = row.usageCount + more.countP fun e => e.1.records row.id := by
  induction more generalizing t row with
  | nil => exact ⟨row, hrow, rfl, rfl⟩
  | cons e rest ih =>
    obtain ⟨row₁, hrow₁, hid₁, husage₁⟩ := perform_keeps hcreate hdelete hrecord hrow (hno e List.mem_cons_self)
    obtain ⟨row₂, hrow₂, hid₂, husage₂⟩ := ih hrow₁ fun e' he' => hno e' (List.mem_cons_of_mem _ he')
    refine ⟨row₂, hrow₂, hid₂.trans hid₁, ?_⟩
    rw [husage₂, husage₁, hid₁, List.countP_cons]
    omega

/-- **A database keeps the identity of its rows.** -/
theorem keepsIdentity : KeepsIdentity s where
  kept _ _ _ _ _ hrow hno := after_keeps hcreate hdelete hrecord hrow hno
  answered := by
    intro t userId c draw row secret hrow hanswer
    rcases hcreate t userId c draw with ⟨e, heq⟩ | ⟨new, t', answer, hinsert, heq, hread⟩
    · rw [heq] at hanswer
      cases hanswer
    · rw [heq] at hanswer
      obtain rfl : answer = secret := Except.ok.inj hanswer
      obtain ⟨row', hrow', hid, husage⟩ := insertOrUpdate_keeps hinsert hrow
      exact ⟨(hread row' hrow').1.trans hid, (hread row' hrow').2.trans husage⟩

end Databases

theorem PostgresSecretsStore.keepsIdentity (env : SqlEnv) : KeepsIdentity (PostgresSecretsStore.store env) := by
  refine Secrets.keepsIdentity (fun t userId c draw => ?_) (fun _ _ _ => rfl) fun _ _ => rfl
  show (∃ e, PostgresSecretsStore.create env t userId c draw = (.error e, t)) ∨ _
  unfold PostgresSecretsStore.store PostgresSecretsStore.create
  dsimp only
  split
  next e _ => exact Or.inl ⟨e, rfl⟩
  next encryptedValue keySalt _ =>
    split
    next => exact Or.inl ⟨_, rfl⟩
    next t' hinsert =>
      refine Or.inr ⟨_, t', _, hinsert, rfl, fun row hrow => ?_⟩
      rw [hrow]
      exact ⟨rfl, rfl⟩

theorem LibSqlSecretsStore.keepsIdentity (env : SqlEnv) : KeepsIdentity (LibSqlSecretsStore.store env) := by
  refine Secrets.keepsIdentity (fun t userId c draw => ?_) (fun _ _ _ => rfl) fun _ _ => rfl
  show (∃ e, LibSqlSecretsStore.create env t userId c draw = (.error e, t)) ∨ _
  unfold LibSqlSecretsStore.store LibSqlSecretsStore.create
  dsimp only
  split
  next e _ => exact Or.inl ⟨e, rfl⟩
  next encryptedValue keySalt _ =>
    split
    next => exact Or.inl ⟨_, rfl⟩
    next t' hinsert =>
      split
      next => exact Or.inl ⟨_, rfl⟩
      next row hrow =>
        refine Or.inr ⟨_, t', _, hinsert, rfl, fun row' hrow' => ?_⟩
        obtain rfl : row = row' := Option.some.inj (hrow.symm.trans hrow')
        exact ⟨rfl, rfl⟩

/-! ## Three vaults -/

/-- A collation is a total order of the names. -/
structure IsCollation (nameLe : String → String → Bool) : Prop where
  trans : ∀ a b c, nameLe a b → nameLe b c → nameLe a c
  total : ∀ a b, nameLe a b || nameLe b a
  antisymm : ∀ a b, nameLe a b → nameLe b a → a = b

theorem LibSqlSecretsStore.binary_isCollation : IsCollation LibSqlSecretsStore.binary where
  trans a b c hab hbc := decide_eq_true (le_trans (of_decide_eq_true hab) (of_decide_eq_true hbc))
  total a b := by
    rw [Bool.or_eq_true]
    exact (le_total a b).imp decide_eq_true decide_eq_true
  antisymm a b hab hba := le_antisymm (of_decide_eq_true hab) (of_decide_eq_true hba)

/-- Lists in the order of the names, which other users do not change. -/
structure Sorted (s : SecretsStore SecretsTable) (nameLe : String → String → Bool) : Prop where
  list : ∀ t userId, (s.list t userId).Pairwise fun a b => nameLe a.name b.name
  same : ∀ h₁ h₂, WellDrawn h₁ → WellDrawn h₂ → ∀ userId, ofUser userId h₁ = ofUser userId h₂ →
    s.list (s.after .empty h₁) userId = s.list (s.after .empty h₂) userId

theorem Answers.sorted {s : SecretsStore SecretsTable} (h : Answers s .empty kept) {nameLe : String → String → Bool}
    (horder : IsCollation nameLe) (hrefs : ∀ t userId, s.list t userId = t.refs nameLe userId) : Sorted s nameLe := by
  have hlist : ∀ t userId, (s.list t userId).Pairwise fun a b => nameLe a.name b.name := by
    intro t userId
    rw [hrefs]
    exact t.refs_sorted horder.trans horder.total userId
  refine ⟨hlist, fun h₁ h₂ hd₁ hd₂ userId hsame => ?_⟩
  have hperm := (h.isolated.same h₁ h₂ hd₁ hd₂ userId hsame).2.2.2
  refine hperm.eq_of_pairwise ?_ (hlist _ userId) (hlist _ userId)
  intro a b ha hb hab hba
  exact List.inj_on_of_nodup_map (h.list h₁ hd₁ userId).1 ha (hperm.mem_iff.mpr hb) (horder.antisymm _ _ hab hba)

/-- **The three stores are vaults.** -/
theorem stores_are_vaults (env : SqlEnv) (memory : InMemorySecretsStore.Env) (hlawful : env.crypto.primitives.Lawful)
    (hlawful' : memory.crypto.primitives.Lawful) (hvisit : memory.VisitsAll) (hcollation : IsCollation env.collation) :
    (Answers (PostgresSecretsStore.store env) .empty (fun t => some (timestamptz t)) ∧
      Answers (LibSqlSecretsStore.store env) .empty timestampText ∧
      Answers (InMemorySecretsStore.store memory) ∅ some) ∧
    (Isolated (PostgresSecretsStore.store env) .empty ∧ Isolated (LibSqlSecretsStore.store env) .empty ∧
      Isolated (InMemorySecretsStore.store memory) ∅) ∧
    (Sorted (PostgresSecretsStore.store env) env.collation ∧
      Sorted (LibSqlSecretsStore.store env) LibSqlSecretsStore.binary) ∧
    (KeepsIdentity (PostgresSecretsStore.store env) ∧ KeepsIdentity (LibSqlSecretsStore.store env)) ∧
    (Agree (PostgresSecretsStore.store env) .empty (LibSqlSecretsStore.store env) .empty ∧
      Agree (PostgresSecretsStore.store env) .empty (InMemorySecretsStore.store memory) ∅ ∧
      Agree (LibSqlSecretsStore.store env) .empty (InMemorySecretsStore.store memory) ∅) := by
  have hpostgres : Answers (PostgresSecretsStore.store env) .empty (fun t => some (timestamptz t)) :=
    (PostgresSecretsStore.backed env hlawful).answers (fun _ _ => rfl) rfl
  have hlibSql : Answers (LibSqlSecretsStore.store env) .empty timestampText :=
    (LibSqlSecretsStore.backed env hlawful).answers (fun _ _ => rfl) rfl
  have hmemory : Answers (InMemorySecretsStore.store memory) ∅ some :=
    (InMemorySecretsStore.backed memory hlawful' hvisit).answers (fun _ _ => AList.lookup_empty _) rfl
  have hexact : KeepsMillis some := fun _ _ _ _ => rfl
  refine ⟨⟨hpostgres, hlibSql, hmemory⟩, ⟨hpostgres.isolated, hlibSql.isolated, hmemory.isolated⟩, ⟨?_, ?_⟩,
    ⟨PostgresSecretsStore.keepsIdentity env, LibSqlSecretsStore.keepsIdentity env⟩,
    hpostgres.agree hlibSql timestamptz_keepsMillis timestampText_keepsMillis,
    hpostgres.agree hmemory timestamptz_keepsMillis hexact, hlibSql.agree hmemory timestampText_keepsMillis hexact⟩
  · exact hpostgres.sorted hcollation fun _ _ => rfl
  · exact hlibSql.sorted LibSqlSecretsStore.binary_isCollation fun _ _ => rfl

/-! ## Two keys -/

/-- A cipher that hides nothing. -/
def plainCipher : Primitives where
  expand _ _ := some []
  aeadEncrypt _ _ plaintext := .ok (plaintext ++ List.replicate tagSize 0)
  aeadDecrypt _ _ ciphertext := .ok (ciphertext.take (ciphertext.length - tagSize))

theorem plainCipher_lawful : plainCipher.Lawful where
  expands _ _ := ⟨[], rfl⟩
  opens _ _ plaintext := by
    refine ⟨_, rfl, by simp, ?_⟩
    show Except.ok _ = _
    rw [List.length_append, List.length_replicate, Nat.add_sub_cancel, List.take_left]

def exampleCrypto : SecretsCrypto := ⟨plainCipher, "0123456789abcdef0123456789abcdef", by decide⟩

def exampleEnv : SqlEnv := ⟨exampleCrypto, "UNIQUE constraint failed: secrets.id", LibSqlSecretsStore.binary⟩

def exampleMemory : InMemorySecretsStore.Env := ⟨exampleCrypto, fun secrets => secrets.entries.map fun e => (e.1, e.2)⟩

/-- The `n`th draw. -/
def exampleDraw (n : Nat) : Draw := ⟨BitVec.ofNat 128 n, [], List.replicate nonceSize 0, 0⟩

theorem example_stores_are_vaults :
    Answers (PostgresSecretsStore.store exampleEnv) .empty (fun t => some (timestamptz t)) ∧
      Answers (LibSqlSecretsStore.store exampleEnv) .empty timestampText ∧
      Answers (InMemorySecretsStore.store exampleMemory) ∅ some :=
  (stores_are_vaults exampleEnv exampleMemory plainCipher_lawful plainCipher_lawful (fun _ => .refl _)
    LibSqlSecretsStore.binary_isCollation).1

/-- Half a millisecond after the start of a second. -/
def halfMilli : Int := 1700000000 * 10 ^ 9 + 500000

/-- In memory a list need not be sorted, and a secret that is created again has a new id and has not been used; and the
    databases part shortly before an expiry. -/
theorem stores_part :
    (¬ ((InMemorySecretsStore.store exampleMemory).list ((InMemorySecretsStore.store exampleMemory).after ∅
          [(.create "u" "a" "1" none none, exampleDraw 1), (.create "u" "b" "2" none none, exampleDraw 2)]) "u").Pairwise
        fun a b => a.name ≤ b.name) ∧
    (((InMemorySecretsStore.store exampleMemory).get ((InMemorySecretsStore.store exampleMemory).after ∅
          [(.create "u" "a" "1" none none, exampleDraw 1), (.recordUsage 1, exampleDraw 2),
            (.create "u" "A" "2" none none, exampleDraw 3)]) "u" "a" 0).map fun secret => (secret.id, secret.usageCount)) =
      .ok (3, 0) ∧
    ((PostgresSecretsStore.store exampleEnv).getDecrypted ((PostgresSecretsStore.store exampleEnv).after .empty
        [(.create "u" "a" "1" none (some halfMilli), exampleDraw 1)]) "u" "a" (halfMilli - 1000) = .ok "1" ∧
      (LibSqlSecretsStore.store exampleEnv).getDecrypted ((LibSqlSecretsStore.store exampleEnv).after .empty
        [(.create "u" "a" "1" none (some halfMilli), exampleDraw 1)]) "u" "a" (halfMilli - 1000) = .error .expired) := by
  decide

end Freeclawdia.Secrets
