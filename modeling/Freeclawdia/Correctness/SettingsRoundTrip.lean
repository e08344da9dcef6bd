import Freeclawdia.Config.Settings

/-!
# `Correctness.SettingsRoundTrip` — settings in the database

`from_db_map` after `to_db_map`, for every settings value, every order of the rows and any rows of other paths among
them. The proof goes along the shape of the settings: a row changes the one field its path names (`update_struct`),
so that a field ends with what its own rows make of its default.

What comes back is the value itself exactly when it is `Restorable`: an optional text is not the text of a JSON
value, a path is UTF-8, and no channel's name has a dot in it.
-/

namespace Freeclawdia.Config

open Rust

/-! ## Fields of simple types -/

variable {n : Nat}

theorem natOf_natValue {bound : Nat} (h : n < bound) : natOf bound (natValue n) = some n := if_pos h

theorem asStr_mapM (items : List String) : (items.map Json.string).mapM Json.asStr = some items := by
  induction items with
  | nil => rfl
  | cons s rest ih => simp [Json.asStr, ih]

theorem i64Of_i64Value (v : Int64) : i64Of (i64Value v) = some v := by
  have hlow := v.le_toInt
  have hhigh := v.toInt_lt
  unfold i64Value
  split
  · next hpos =>
      have hlt : v.toInt.toNat < 2 ^ 63 := by omega
      have hback : ((v.toInt.toNat : Nat) : Int) = v.toInt := Int.toNat_of_nonneg hpos
      simp only [i64Of, if_pos hlt, hback, Int64.ofInt_toInt]
  · next hneg =>
      have hrange : -2 ^ 63 ≤ v.toInt ∧ v.toInt < 2 ^ 63 := ⟨hlow, hhigh⟩
      simp only [i64Of, if_pos hrange, Int64.ofInt_toInt]

theorem ofStr_toStr (s : String) : (PathBuf.ofStr s).toStr = some s := fromUtf8_eq_some_iff.mpr rfl

variable {s : String}

theorem toStr_ofStr {p : PathBuf} (h : p.toStr = some s) : PathBuf.ofStr s = p :=
  congrArg PathBuf.mk (fromUtf8_eq_some_iff.mp h).symm

theorem ofName_name (k : KeySource) : KeySource.ofName k.name = some k := by
  cases k <;> rfl

/-! ## The map of owners -/

/-- The entries of a map are listed by key. -/
theorem keys_toList (m : OwnerIds) : m.toList.map Prod.fst = m.keys.sort (· ≤ ·) := by
  have hall : ∀ k ∈ m.keys.sort (· ≤ ·), (m.lookup k).isSome := by
    intro k hk
    exact Finmap.lookup_isSome.mpr (Finmap.mem_keys.mp ((Finset.mem_sort _).mp hk))
  unfold OwnerIds.toList
  generalize m.keys.sort (· ≤ ·) = keys at hall
  induction keys with
  | nil => rfl
  | cons k keys ih =>
    obtain ⟨v, hv⟩ := Option.isSome_iff_exists.mp (hall k (List.mem_cons_self ..))
    have hrest := ih fun k' hk' => hall k' (List.mem_cons_of_mem k hk')
    simp [hv, hrest]

theorem nodup_toList (m : OwnerIds) : (m.toList.map Prod.fst).Nodup := by
  rw [keys_toList]
  exact Finset.sort_nodup _ _

variable {m : OwnerIds} {k : String} {v : Int64}

theorem mem_toList : (k, v) ∈ m.toList ↔ m.lookup k = some v := by
  unfold OwnerIds.toList
  simp only [List.mem_filterMap, Finset.mem_sort, Option.map_eq_some_iff, Prod.mk.injEq]
  constructor
  · rintro ⟨k', -, v', hv, rfl, rfl⟩
    exact hv
  · intro hv
    exact ⟨k, Finmap.mem_keys.mpr (Finmap.mem_of_lookup_eq_some hv), v, hv, rfl, rfl⟩

/-- Insert the entries one after the other. -/
def insertAll (entries : List (String × Int64)) (m : OwnerIds) : OwnerIds :=
  entries.foldl (fun m e => m.insert e.1 e.2) m

variable {entries : List (String × Int64)}

theorem lookup_insertAll_of_notMem (h : k ∉ entries.map Prod.fst) : (insertAll entries m).lookup k = m.lookup k := by
  induction entries generalizing m with
  | nil => rfl
  | cons e entries ih =>
    obtain ⟨hne, hrest⟩ := not_or.mp (mt List.mem_cons.mpr h)
    exact (ih hrest).trans (Finmap.lookup_insert_of_ne m hne)

theorem lookup_insertAll_of_mem (hnodup : (entries.map Prod.fst).Nodup) (h : (k, v) ∈ entries) :
    (insertAll entries m).lookup k = some v := by
  induction entries generalizing m with
  | nil => cases h
  | cons e entries ih =>
    obtain ⟨hfresh, hnodup⟩ := List.nodup_cons.mp hnodup
    rcases List.mem_cons.mp h with rfl | h
    · exact (lookup_insertAll_of_notMem hfresh).trans (Finmap.lookup_insert m)
    · exact ih hnodup h

/-- A map is what its entries make. -/
theorem insertAll_toList (m : OwnerIds) : insertAll m.toList ∅ = m := by
  refine Finmap.ext_lookup fun k => ?_
  cases hk : m.lookup k with
  | some v => exact lookup_insertAll_of_mem (nodup_toList m) (mem_toList.mpr hk)
  | none =>
    have hfresh : k ∉ m.toList.map Prod.fst := by
      rw [keys_toList, Finset.mem_sort, Finmap.mem_keys]
      exact Finmap.lookup_eq_none.mp hk
    rw [lookup_insertAll_of_notMem hfresh, Finmap.lookup_empty]

theorem ofFields_append (xs ys : List (String × Json)) (m : OwnerIds) :
    OwnerIds.ofFields (xs ++ ys) m = (OwnerIds.ofFields xs m).bind (OwnerIds.ofFields ys) := by
  induction xs generalizing m with
  | nil => rfl
  | cons e xs ih =>
    obtain ⟨k, json⟩ := e
    show (i64Of json).bind _ = ((i64Of json).bind _).bind _
    cases i64Of json with
    | none => rfl
    | some v => exact ih (m.insert k v)

theorem ofFields_entries (entries : List (String × Int64)) (m : OwnerIds) :
    OwnerIds.ofFields (entries.map fun e => (e.1, i64Value e.2)) m = some (insertAll entries m) := by
  induction entries generalizing m with
  | nil => rfl
  | cons e entries ih =>
    show (i64Of (i64Value e.2)).bind _ = _
    rw [i64Of_i64Value]
    exact ih (m.insert e.1 e.2)

namespace FieldType

variable {json : Json}

/-- **A field is read back as it was written.** -/
theorem fromValue_toValue (t : FieldType) {v : t.Value} (h : t.toValue v = some json) : t.fromValue json = some v := by
  cases t with
  | bool d m =>
    cases h
    rfl
  | string d =>
    cases h
    rfl
  | u32 d =>
    cases h
    show (natOf (2 ^ 32) (natValue v.toNat)).map UInt32.ofNat = some v
    rw [natOf_natValue v.toNat_lt, Option.map_some, UInt32.ofNat_toNat]
  | u64 d =>
    cases h
    show (natOf (2 ^ 64) (natValue v.toNat)).map UInt64.ofNat = some v
    rw [natOf_natValue v.toNat_lt, Option.map_some, UInt64.ofNat_toNat]
  | optionU16 =>
    cases v with
    | none =>
      cases h
      rfl
    | some n =>
      cases h
      show ((natOf (2 ^ 16) (natValue n.toNat)).map UInt16.ofNat).map some = some (some n)
      rw [natOf_natValue n.toNat_lt, Option.map_some, UInt16.ofNat_toNat, Option.map_some]
  | optionUsize =>
    cases v with
    | none =>
      cases h
      rfl
    | some n =>
      cases h
      show ((natOf (2 ^ 64) (natValue n.toNat)).map UInt64.ofNat).map some = some (some n)
      rw [natOf_natValue n.toNat_lt, Option.map_some, UInt64.ofNat_toNat, Option.map_some]
  | optionString =>
    cases v with
    | none =>
      cases h
      rfl
    | some s =>
      cases h
      rfl
  | optionPath =>
    cases v with
    | none =>
      cases h
      rfl
    | some p =>
      obtain ⟨s, hs, rfl⟩ := Option.map_eq_some_iff.mp h
      show some (some (PathBuf.ofStr s)) = some (some p)
      rw [toStr_ofStr hs]
  | keySource =>
    cases h
    exact ofName_name v
  | strings =>
    cases h
    exact asStr_mapM v
  | ownerIds =>
    cases h
    show OwnerIds.ofFields _ ∅ = some v
    rw [ofFields_entries, insertAll_toList]

/-- What was read can be written. -/
theorem toValue_of_fromValue (t : FieldType) {v : t.Value} (h : t.fromValue json = some v) : (t.toValue v).isSome := by
  cases t with
  | optionPath =>
    cases v with
    | none => rfl
    | some p =>
      cases json with
      | string s =>
        cases h
        show ((PathBuf.ofStr s).toStr.map Json.string).isSome
        rw [ofStr_toStr]
        rfl
      | _ => cases h
  | optionU16 => cases v <;> rfl
  | optionUsize => cases v <;> rfl
  | optionString => cases v <;> rfl
  | _ => rfl

theorem toValue_default (t : FieldType) : (t.toValue t.default).isSome := by
  cases t <;> rfl

/-- What stands for a missing field can be written. -/
theorem toValue_missing (t : FieldType) : (t.toValue t.missing).isSome := by
  cases t <;> rfl

end FieldType

/-! ## Structs -/

/-- The names and aliases of the fields. -/
def Fields.keys : Fields → List String
  | .nil => []
  | .cons name also _ rest => name :: (also.toList ++ rest.keys)

mutual

/-- All names and aliases in one struct are different, and no name is empty or has a dot in it. -/
def Shape.wf : Shape → Bool
  | .leaf _ => true
  | .struct fields => decide fields.keys.Nodup && fields.wf

def Fields.wf : Fields → Bool
  | .nil => true
  | .cons name _ shape rest => !name.toList.contains '.' && decide (name ≠ "") && shape.wf && rest.wf

end

variable {fs : Fields}

theorem Shape.wf_struct (h : (Shape.struct fs).wf = true) : fs.keys.Nodup ∧ fs.wf = true := by
  simpa [Shape.wf] using h

variable {rest : Fields} {also : Option String} {shape : Shape} {name : String}

theorem Fields.wf_cons (h : (Fields.cons name also shape rest).wf = true) :
    '.' ∉ name.toList ∧ name ≠ "" ∧ shape.wf = true ∧ rest.wf = true := by
  simpa [Fields.wf, and_assoc] using h

/-- The keys of the fields behind are not those of the first one. -/
theorem Fields.nodup_cons (h : (Fields.cons name also shape rest).keys.Nodup) :
    also ≠ some name ∧ name ∉ rest.keys ∧ (∀ a, also = some a → a ∉ rest.keys) ∧ rest.keys.Nodup := by
  cases also with
  | none => simpa [Fields.keys] using h
  | some a =>
    obtain ⟨⟨hne, hname⟩, ha, hrest⟩ : (name ≠ a ∧ name ∉ rest.keys) ∧ a ∉ rest.keys ∧ rest.keys.Nodup := by
      simpa [Fields.keys] using h
    exact ⟨fun heq => hne (Option.some.inj heq).symm, hname, fun a' ha' => Option.some.inj ha' ▸ ha, hrest⟩

/-- The value of a key in an object. -/
def valueOf (obj : List (String × Json)) (key : String) : Option Json := (Json.object obj).get key

theorem valueOf_cons_self (key : String) (json : Json) (obj : List (String × Json)) :
    valueOf ((key, json) :: obj) key = some json := by
  simp [valueOf, Json.get]

theorem valueOf_cons_ne {key key' : String} (h : key' ≠ key) (json : Json) (obj : List (String × Json)) :
    valueOf ((key', json) :: obj) key = valueOf obj key := by
  simp [valueOf, Json.get, h]

variable {obj : List (String × Json)}

theorem fieldIn_congr {obj' : List (String × Json)} (hname : valueOf obj name = valueOf obj' name)
    (halso : ∀ a, also = some a → valueOf obj a = valueOf obj' a) : fieldIn name also obj = fieldIn name also obj' := by
  have haliased : (also.bind fun a => (Json.object obj).get a) = also.bind fun a => (Json.object obj').get a := by
    cases also with
    | none => rfl
    | some a => exact halso a rfl
  have hnamed : (Json.object obj).get name = (Json.object obj').get name := hname
  unfold fieldIn
  rw [haliased, hnamed]

/-- A struct is read from the values of its keys. -/
theorem Fields.fromFields_congr : (fs : Fields) → {obj obj' : List (String × Json)} →
    (∀ key ∈ fs.keys, valueOf obj key = valueOf obj' key) → fs.fromFields obj = fs.fromFields obj'
  | .nil, _, _, _ => rfl
  | .cons name also shape rest, obj, obj', h => by
      have hfield : fieldIn name also obj = fieldIn name also obj' :=
        fieldIn_congr (h name (by simp [Fields.keys])) fun a ha => h a (by simp [Fields.keys, ha])
      have hrest : rest.fromFields obj = rest.fromFields obj' :=
        Fields.fromFields_congr rest fun key hkey => h key (by simp [Fields.keys, hkey])
      rw [Fields.fromFields, Fields.fromFields, hfield, hrest]

/-- A field in front that is none of them changes nothing. -/
theorem Fields.fromFields_cons (h : name ∉ fs.keys) (json : Json) (obj : List (String × Json)) :
    fs.fromFields ((name, json) :: obj) = fs.fromFields obj :=
  Fields.fromFields_congr fs fun key hkey => valueOf_cons_ne (fun heq : name = key => h (heq ▸ hkey)) json obj

/-- What a struct is written as: its names, in order. -/
theorem Fields.toFields_cons {r : (Fields.cons name also shape rest).Record}
    (h : (Fields.cons name also shape rest).toFields r = some obj) :
    ∃ json obj', shape.toValue r.1 = some json ∧ rest.toFields r.2 = some obj' ∧ obj = (name, json) :: obj' := by
  rw [Fields.toFields] at h
  obtain ⟨json, hjson, h⟩ := Option.bind_eq_some_iff.mp h
  obtain ⟨obj', hobj', rfl⟩ := Option.map_eq_some_iff.mp h
  exact ⟨json, obj', hjson, hobj', rfl⟩

/-- A struct is written with its names only. -/
theorem Fields.valueOf_toFields : (fs : Fields) → {r : fs.Record} → {obj : List (String × Json)} →
    fs.toFields r = some obj → ∀ key, key ∉ fs.keys → valueOf obj key = none
  | .nil, _, _, h, key, _ => by
      cases h
      rfl
  | .cons name also shape rest, r, obj, h, key, hkey => by
      obtain ⟨json, obj', -, hobj', rfl⟩ := Fields.toFields_cons h
      simp only [Fields.keys, List.mem_cons, List.mem_append, not_or] at hkey
      rw [valueOf_cons_ne (Ne.symm hkey.1)]
      exact Fields.valueOf_toFields rest hobj' key hkey.2.2

theorem fieldIn_self {json : Json} (hname : valueOf obj name = some json)
    (halso : ∀ a, also = some a → valueOf obj a = none) : fieldIn name also obj = some (some json) := by
  have haliased : (also.bind fun a => (Json.object obj).get a) = none := by
    cases also with
    | none => rfl
    | some a => exact halso a rfl
  have hnamed : (Json.object obj).get name = some json := hname
  simp [fieldIn, hnamed, haliased]

mutual

/-- **A value is read back as it was written.** -/
theorem Shape.fromValue_toValue : (s : Shape) → s.wf = true → {v : s.Value} → {json : Json} →
    s.toValue v = some json → s.fromValue json = some v
  | .leaf type, _, _, _, h => type.fromValue_toValue h
  | .struct fs, hwf, r, json, h => by
      obtain ⟨hkeys, hwf⟩ := Shape.wf_struct hwf
      rw [Shape.toValue] at h
      obtain ⟨obj, hobj, rfl⟩ := Option.map_eq_some_iff.mp h
      exact Fields.fromFields_toFields fs hkeys hwf hobj

theorem Fields.fromFields_toFields : (fs : Fields) → fs.keys.Nodup → fs.wf = true → {r : fs.Record} →
    {obj : List (String × Json)} → fs.toFields r = some obj → fs.fromFields obj = some r
  | .nil, _, _, _, _, _ => rfl
  | .cons name also shape rest, hkeys, hwf, r, obj, h => by
      obtain ⟨hself, hname, halso, hkeys⟩ := Fields.nodup_cons hkeys
      obtain ⟨-, -, hshape, hwf⟩ := Fields.wf_cons hwf
      obtain ⟨json, obj', hjson, hobj', rfl⟩ := Fields.toFields_cons h
      have hfield : fieldIn name also ((name, json) :: obj') = some (some json) := by
        refine fieldIn_self (valueOf_cons_self name json obj') fun a ha => ?_
        rw [valueOf_cons_ne fun heq : name = a => hself (heq ▸ ha)]
        exact Fields.valueOf_toFields rest hobj' a (halso a ha)
      have hv : shape.fromValue json = some r.1 := Shape.fromValue_toValue shape hshape hjson
      have hrest : rest.fromFields ((name, json) :: obj') = some r.2 := by
        rw [Fields.fromFields_cons hname]
        exact Fields.fromFields_toFields rest hkeys hwf hobj'
      rw [Fields.fromFields, hfield]
      show (shape.fromValue json).bind _ = _
      rw [hv, Option.bind_some, hrest]
      rfl

end

/-- A struct can be written when its fields can. -/
theorem Fields.toFields_isSome {v : shape.Value} {r : rest.Record} (hv : (shape.toValue v).isSome)
    (hr : (rest.toFields r).isSome) : ((Fields.cons name also shape rest).toFields (v, r)).isSome := by
  obtain ⟨json, hjson⟩ := Option.isSome_iff_exists.mp hv
  obtain ⟨obj, hobj⟩ := Option.isSome_iff_exists.mp hr
  show ((shape.toValue v).bind fun json => (rest.toFields r).map fun fields => (name, json) :: fields).isSome
  rw [hjson, Option.bind_some, hobj]
  rfl

mutual

theorem Shape.toValue_default : (s : Shape) → (s.toValue s.default).isSome
  | .leaf type => type.toValue_default
  | .struct fs => by
      rw [Shape.toValue, Option.isSome_map]
      exact Fields.toFields_default fs

theorem Fields.toFields_default : (fs : Fields) → (fs.toFields fs.default).isSome
  | .nil => rfl
  | .cons _ _ shape rest => Fields.toFields_isSome (Shape.toValue_default shape) (Fields.toFields_default rest)

end

theorem Shape.toValue_missing (s : Shape) : (s.toValue s.missing).isSome := by
  cases s with
  | leaf type => exact type.toValue_missing
  | struct fs => exact Shape.toValue_default (.struct fs)

mutual

/-- What was read can be written. -/
theorem Shape.toValue_of_fromValue : (s : Shape) → {v : s.Value} → {json : Json} → s.fromValue json = some v →
    (s.toValue v).isSome
  | .leaf type, _, _, h => type.toValue_of_fromValue h
  | .struct fs, r, json, h => by
      rw [Shape.toValue, Option.isSome_map]
      cases json with
      | object obj => exact Fields.toFields_of_fromFields fs h
      | array items => exact Fields.toFields_of_fromSeq fs h
      | _ => cases h

theorem Fields.toFields_of_fromFields : (fs : Fields) → {r : fs.Record} → {obj : List (String × Json)} →
    fs.fromFields obj = some r → (fs.toFields r).isSome
  | .nil, _, _, _ => rfl
  | .cons name also shape rest, r, obj, h => by
      rw [Fields.fromFields] at h
      obtain ⟨json?, -, h⟩ := Option.bind_eq_some_iff.mp h
      obtain ⟨v, hv, h⟩ := Option.bind_eq_some_iff.mp h
      obtain ⟨r', hr', rfl⟩ := Option.map_eq_some_iff.mp h
      refine Fields.toFields_isSome ?_ (Fields.toFields_of_fromFields rest hr')
      cases json? with
      | none =>
        obtain rfl : shape.missing = v := Option.some.inj hv
        exact Shape.toValue_missing shape
      | some json => exact Shape.toValue_of_fromValue shape hv

theorem Fields.toFields_of_fromSeq : (fs : Fields) → {r : fs.Record} → {items : List Json} →
    fs.fromSeq items = some r → (fs.toFields r).isSome
  | .nil, _, _, _ => rfl
  | .cons name also shape rest, r, [], h => by
      rw [Fields.fromSeq] at h
      obtain ⟨r', hr', rfl⟩ := Option.map_eq_some_iff.mp h
      exact Fields.toFields_isSome (Shape.toValue_missing shape) (Fields.toFields_of_fromSeq rest hr')
  | .cons name also shape rest, r, json :: items, h => by
      rw [Fields.fromSeq] at h
      obtain ⟨v, hv, h⟩ := Option.bind_eq_some_iff.mp h
      obtain ⟨r', hr', rfl⟩ := Option.map_eq_some_iff.mp h
      exact Fields.toFields_isSome (Shape.toValue_of_fromValue shape hv) (Fields.toFields_of_fromSeq rest hr')

end

/-! ## One row -/

section Update

variable (serde : Serde)

theorem toOption_map {α β ε : Type} (x : Except ε α) (f : α → β) : (x.map f).toOption = x.toOption.map f := by
  cases x <;> rfl

/-- The path is in the errors only. -/
theorem newValue_path (path value : String) (existing : Option Json) :
    (newValue serde path value existing).toOption = (newValue serde "" value existing).toOption := by
  have hparsed : ∀ {α : Type} (what : String) (a : Option α),
      (parsed what path value a).toOption = (parsed what "" value a).toOption := by
    intro α what a
    cases a <;> rfl
  rcases existing with _ | json
  · rfl
  · cases json with
    | null => rfl
    | bool b => simp only [newValue, toOption_map, hparsed]
    | number n => cases n <;> simp only [newValue, toOption_map, hparsed]
    | string s => rfl
    | array items =>
      simp only [newValue]
      cases serde.fromStr value <;> rfl
    | object fields =>
      simp only [newValue]
      cases serde.fromStr value <;> rfl

/-- What a text makes of a JSON value, at a path inside it. -/
def setAt (value : String) (json : Json) : List String → Option Json
  | [] => (newValue serde "" value (some json)).toOption
  | key :: ps => (setIn serde "" value json (key :: ps)).toOption

/-- The new value of a key of an object. -/
def newAt (value : String) (obj : List (String × Json)) (key : String) (ps : List String) : Option Json :=
  match valueOf obj key with
  | some child => setAt serde value child ps
  | none => if ps = [] then (newValue serde "" value none).toOption else none

theorem setIn_path (path value : String) : (ps : List String) → (json : Json) →
    (setIn serde path value json ps).toOption = (setIn serde "" value json ps).toOption
  | [], json => by
      cases json <;> rfl
  | [key], json => by
      cases json with
      | object fields => simp only [setIn, toOption_map, newValue_path serde path]
      | _ => rfl
  | key :: key' :: ps, json => by
      cases json with
      | object fields =>
        simp only [setIn]
        cases (Json.object fields).get key with
        | none => rfl
        | some child =>
          simp only [toOption_map]
          rw [setIn_path path value (key' :: ps) child]
      | _ => rfl

theorem setAt_object (value : String) (obj : List (String × Json)) (key : String) (ps : List String) :
    setAt serde value (.object obj) (key :: ps) =
      (newAt serde value obj key ps).map fun json => .object (Json.insertField key json obj) := by
  cases ps with
  | nil =>
    simp only [setAt, setIn, toOption_map, newAt, valueOf, if_true]
    cases (Json.object obj).get key <;> rfl
  | cons key' ps =>
    simp only [setAt, setIn, newAt, valueOf]
    cases (Json.object obj).get key with
    | none => rfl
    | some child => exact toOption_map _ _

variable {json : Json}

/-- There is nothing to set below a value that is no object. -/
theorem setAt_other (h : ∀ obj, json ≠ .object obj) (value key : String) (ps : List String) :
    setAt serde value json (key :: ps) = none := by
  cases json with
  | object obj => exact absurd rfl (h obj)
  | _ => cases ps <;> rfl

/-- A value after a row for a path inside it. -/
def Shape.update (s : Shape) (value : String) (ps : List String) (v : s.Value) : s.Value :=
  ((s.toValue v).bind fun json => (setAt serde value json ps).bind s.fromValue).getD v

variable {ps : List String} {value : String}

theorem Shape.update_isSome {s : Shape} {v : s.Value} (h : (s.toValue v).isSome) :
    (s.toValue (s.update serde value ps v)).isSome := by
  unfold Shape.update
  cases hnew : (s.toValue v).bind fun json => (setAt serde value json ps).bind s.fromValue with
  | none => exact h
  | some v' =>
    obtain ⟨json, -, hnew⟩ := Option.bind_eq_some_iff.mp hnew
    obtain ⟨json', -, hnew⟩ := Option.bind_eq_some_iff.mp hnew
    exact Shape.toValue_of_fromValue s hnew

/-- The fields of a struct after a row for a path that begins with `key`. -/
def Fields.updateAt (value key : String) (ps : List String) : (fs : Fields) → fs.Record → fs.Record
  | .nil, r => r
  | .cons name _ shape rest, r =>
    if key = name then (shape.update serde value ps r.1, r.2) else (r.1, rest.updateAt value key ps r.2)

variable {serde} {rest : Fields} {also : Option String} {shape : Shape} {name : String}

theorem Fields.updateAt_self (v : shape.Value) (r : rest.Record) :
    (Fields.cons name also shape rest).updateAt serde value name ps (v, r) = (shape.update serde value ps v, r) :=
  if_pos rfl

variable {key : String}

theorem Fields.updateAt_ne (h : key ≠ name) (v : shape.Value) (r : rest.Record) :
    (Fields.cons name also shape rest).updateAt serde value key ps (v, r) = (v, rest.updateAt serde value key ps r) :=
  if_neg h

theorem Fields.updateAt_of_notMem {value key : String} {ps : List String} : (fs : Fields) → key ∉ fs.keys →
    (r : fs.Record) → fs.updateAt serde value key ps r = r
  | .nil, _, _ => rfl
  | .cons name also shape rest, h, (v, r) => by
      simp only [Fields.keys, List.mem_cons, List.mem_append, not_or] at h
      rw [Fields.updateAt_ne h.1, Fields.updateAt_of_notMem rest h.2.2 r]

variable {obj : List (String × Json)}

/-- The first field is set. -/
theorem Fields.fromFields_set_head (hkeys : (Fields.cons name also shape rest).keys.Nodup) (hwf : rest.wf = true)
    {r : rest.Record} (hobj : rest.toFields r = some obj) (json : Json) :
    (Fields.cons name also shape rest).fromFields ((name, json) :: obj) =
      (shape.fromValue json).map fun v => (v, r) := by
  obtain ⟨hself, hname, halso, hkeys⟩ := Fields.nodup_cons hkeys
  have hfield : fieldIn name also ((name, json) :: obj) = some (some json) := by
    refine fieldIn_self (valueOf_cons_self name json obj) fun a ha => ?_
    rw [valueOf_cons_ne fun heq : name = a => hself (heq ▸ ha)]
    exact Fields.valueOf_toFields rest hobj a (halso a ha)
  have hrest : rest.fromFields ((name, json) :: obj) = some r := by
    rw [Fields.fromFields_cons hname]
    exact Fields.fromFields_toFields rest hkeys hwf hobj
  rw [Fields.fromFields, hfield]
  show (shape.fromValue json).bind _ = _
  rw [hrest]
  cases shape.fromValue json <;> rfl

/-- A key behind the first field is set, or the alias of the first field, which is then there twice. -/
theorem Fields.fromFields_set_tail (hkeys : (Fields.cons name also shape rest).keys.Nodup) (hne : key ≠ name)
    {v : shape.Value} (hv : shape.fromValue json = some v) {r : rest.Record} (hobj : rest.toFields r = some obj)
    (new : Json) : (Fields.cons name also shape rest).fromFields ((name, json) :: Json.insertField key new obj) =
      if also = some key then none else (rest.fromFields (Json.insertField key new obj)).map fun r => (v, r) := by
  obtain ⟨hself, hname, halso, hkeys⟩ := Fields.nodup_cons hkeys
  rw [Fields.fromFields, Fields.fromFields_cons hname]
  split
  · next hkey =>
      have htwice : fieldIn name also ((name, json) :: Json.insertField key new obj) = none := by
        subst hkey
        have hnamed : (Json.object ((name, json) :: Json.insertField key new obj)).get name = some json :=
          valueOf_cons_self name json _
        have haliased : (Json.object ((name, json) :: Json.insertField key new obj)).get key = some new :=
          (valueOf_cons_ne hne.symm json _).trans (Json.get_insertField_self obj)
        simp [fieldIn, hnamed, haliased]
      rw [htwice]
      rfl
  · next hkey =>
      have hfield : fieldIn name also ((name, json) :: Json.insertField key new obj) = some (some json) := by
        refine fieldIn_self (valueOf_cons_self name json _) fun a ha => ?_
        rw [valueOf_cons_ne fun heq : name = a => hself (heq ▸ ha)]
        have hother : a ≠ key := fun heq => hkey (heq ▸ ha)
        exact (Json.get_insertField_ne hother obj).trans (Fields.valueOf_toFields rest hobj a (halso a ha))
      rw [hfield]
      show (shape.fromValue json).bind _ = _
      rw [hv]
      rfl

/-- **A row changes one field of a struct.** -/
theorem Fields.set_eq (value key : String) (ps : List String) : (fs : Fields) → fs.keys.Nodup → fs.wf = true →
    {r : fs.Record} → {obj : List (String × Json)} → fs.toFields r = some obj →
    ((newAt serde value obj key ps).bind fun json => fs.fromFields (Json.insertField key json obj)).getD r =
      fs.updateAt serde value key ps r
  | .nil, _, _, _, _, _ => rfl
  | .cons name also shape rest, hkeys, hwf, (v, r), obj, h => by
      obtain ⟨json, obj', hjson, hobj', rfl⟩ := Fields.toFields_cons h
      obtain ⟨hself, hname, halso, hkeys'⟩ := Fields.nodup_cons hkeys
      obtain ⟨-, -, hshape, hwf'⟩ := Fields.wf_cons hwf
      by_cases heq : key = name
      · subst heq
        have hnew : newAt serde value ((key, json) :: obj') key ps = setAt serde value json ps := by
          rw [newAt, valueOf_cons_self]
        have hset : ∀ j, (Fields.cons key also shape rest).fromFields (Json.insertField key j ((key, json) :: obj')) =
            (shape.fromValue j).map fun v => (v, r) := by
          intro j
          rw [Json.insertField, if_pos rfl]
          exact Fields.fromFields_set_head hkeys hwf' hobj' j
        have hvalue : shape.toValue v = some json := hjson
        rw [hnew, Fields.updateAt_self, Shape.update, hvalue, Option.bind_some]
        cases setAt serde value json ps with
        | none => rfl
        | some j =>
          show ((Fields.cons key also shape rest).fromFields
            (Json.insertField key j ((key, json) :: obj'))).getD (v, r) = _
          rw [hset j, Option.bind_some]
          cases shape.fromValue j <;> rfl
      · have hnew : newAt serde value ((name, json) :: obj') key ps = newAt serde value obj' key ps := by
          rw [newAt, valueOf_cons_ne (Ne.symm heq), newAt]
        have hset : ∀ j, (Fields.cons name also shape rest).fromFields (Json.insertField key j ((name, json) :: obj')) =
            if also = some key then none
            else (rest.fromFields (Json.insertField key j obj')).map fun r' => (v, r') := by
          intro j
          rw [Json.insertField, if_neg (Ne.symm heq)]
          exact Fields.fromFields_set_tail hkeys heq (Shape.fromValue_toValue shape hshape hjson) hobj' j
        have ih := Fields.set_eq value key ps rest hkeys' hwf' hobj'
        rw [hnew, Fields.updateAt_ne heq]
        by_cases hkey : also = some key
        · rw [Fields.updateAt_of_notMem rest (halso key hkey) r]
          cases newAt serde value obj' key ps with
          | none => rfl
          | some j =>
            show ((Fields.cons name also shape rest).fromFields
              (Json.insertField key j ((name, json) :: obj'))).getD (v, r) = _
            rw [hset j, if_pos hkey]
            rfl
        · cases hj : newAt serde value obj' key ps with
          | none =>
            rw [hj] at ih
            exact congrArg (Prod.mk v) ih
          | some j =>
            rw [hj, Option.bind_some] at ih
            show ((Fields.cons name also shape rest).fromFields
              (Json.insertField key j ((name, json) :: obj'))).getD (v, r) = _
            rw [hset j, if_neg hkey, ← ih]
            cases rest.fromFields (Json.insertField key j obj') <;> rfl

theorem update_struct {fs : Fields} (hwf : (Shape.struct fs).wf = true) {r : fs.Record} (h : (fs.toFields r).isSome)
    (value key : String) (ps : List String) :
    (Shape.struct fs).update serde value (key :: ps) r = fs.updateAt serde value key ps r := by
  obtain ⟨hkeys, hwf⟩ := Shape.wf_struct hwf
  obtain ⟨obj, hobj⟩ := Option.isSome_iff_exists.mp h
  have hvalue : (Shape.struct fs).toValue r = some (.object obj) := congrArg (Option.map Json.object) hobj
  rw [← Fields.set_eq value key ps fs hkeys hwf hobj]
  unfold Shape.update
  rw [hvalue]
  show ((setAt serde value (.object obj) (key :: ps)).bind _).getD r = _
  rw [setAt_object]
  cases newAt serde value obj key ps <;> rfl

end Update

/-! ## Rows laid over a value -/

/-- A row by the parts of its path, relative to a value, and its text. -/
abbrev Row := List String × String

section Rows

variable (serde : Serde)

def Shape.updateAll (s : Shape) (rows : List Row) (v : s.Value) : s.Value :=
  rows.foldl (fun v e => s.update serde e.2 e.1 v) v

/-- The rows for paths that begin with a name, from there on. -/
def below (name : String) (rows : List Row) : List Row :=
  rows.filterMap fun e =>
    match e.1 with
    | [] => none
    | key :: ps => if key = name then some (ps, e.2) else none

/-- Every field with the rows below its name. -/
def Fields.updateAll : (fs : Fields) → List Row → fs.Record → fs.Record
  | .nil, _, r => r
  | .cons name _ shape rest, rows, r => (shape.updateAll serde (below name rows) r.1, rest.updateAll rows r.2)

variable {serde}

theorem Fields.updateAll_nil : (fs : Fields) → (r : fs.Record) → fs.updateAll serde [] r = r
  | .nil, _ => rfl
  | .cons _ _ _ rest, (v, r) => congrArg (Prod.mk v) (Fields.updateAll_nil rest r)

theorem Fields.updateAll_cons (key value : String) (ps : List String) (rows : List Row) : (fs : Fields) →
    fs.keys.Nodup → (r : fs.Record) →
    fs.updateAll serde ((key :: ps, value) :: rows) r = fs.updateAll serde rows (fs.updateAt serde value key ps r)
  | .nil, _, _ => rfl
  | .cons name also shape rest, hkeys, (v, r) => by
      obtain ⟨-, hname, -, hkeys⟩ := Fields.nodup_cons hkeys
      have ih := Fields.updateAll_cons key value ps rows rest hkeys r
      by_cases heq : key = name
      · subst heq
        have hbelow : below key ((key :: ps, value) :: rows) = (ps, value) :: below key rows := by simp [below]
        rw [Fields.updateAt_of_notMem rest hname r] at ih
        rw [Fields.updateAt_self]
        show (shape.updateAll serde (below key _) v, rest.updateAll serde _ r) = _
        rw [hbelow, ih]
        rfl
      · have hbelow : below name ((key :: ps, value) :: rows) = below name rows := by simp [below, heq]
        rw [Fields.updateAt_ne heq]
        show (shape.updateAll serde (below name _) v, rest.updateAll serde _ r) = _
        rw [hbelow, ih]
        rfl

/-- **The rows for a struct change its fields one by one.** -/
theorem updateAll_struct {fs : Fields} (hwf : (Shape.struct fs).wf = true) {rows : List Row}
    (hrows : ∀ e ∈ rows, e.1 ≠ []) {r : fs.Record} (h : (fs.toFields r).isSome) :
    (Shape.struct fs).updateAll serde rows r = fs.updateAll serde rows r := by
  induction rows generalizing r with
  | nil => exact (Fields.updateAll_nil fs r).symm
  | cons e rows ih =>
    obtain ⟨ps, value⟩ := e
    cases ps with
    | nil => exact absurd rfl (hrows _ (List.mem_cons_self ..))
    | cons key ps =>
      have hvalue : ((Shape.struct fs).toValue r).isSome := by
        show ((fs.toFields r).map Json.object).isSome
        rw [Option.isSome_map]
        exact h
      have hstep : (Shape.struct fs).update serde value (key :: ps) r = _ := update_struct hwf h value key ps
      have hkept : (((Shape.struct fs).toValue (fs.updateAt serde value key ps r))).isSome := by
        rw [← hstep]
        exact Shape.update_isSome serde hvalue
      have hfields : (fs.toFields (fs.updateAt serde value key ps r)).isSome := by
        have hmap : ((fs.toFields (fs.updateAt serde value key ps r)).map Json.object).isSome := hkept
        rwa [Option.isSome_map] at hmap
      rw [Fields.updateAll_cons key value ps rows fs (Shape.wf_struct hwf).1 r]
      rw [← ih (fun e he => hrows e (List.mem_cons_of_mem _ he)) hfields, ← hstep]
      rfl

end Rows

/-! ## The texts of numbers -/

theorem parseUsize_toString (h : n < 2 ^ 64) : parseUsize (toString n) = some n := by
  rw [parseUsize_toString_eq, if_pos h]

/-! ## What is asked of a value, and of `serde_json` -/

section Conditions

variable (serde : Serde)

/-- The field comes back: an optional text is not the text of a JSON value, a path is UTF-8 as well, and no
    channel has a dot in its name. -/
def FieldType.Restorable : (t : FieldType) → t.Value → Prop
  | .optionString, v => ∀ s, v = some s → serde.fromStr s = none
  | .optionPath, v => ∀ p, v = some p → ∃ s, p.toStr = some s ∧ serde.fromStr s = none
  | .ownerIds, m => ∀ k v, Finmap.lookup k m = some v → '.' ∉ k.toList
  | _, _ => True

/-- `serde_json` reads the numbers and arrays of a field back from their texts, and no text of the field is the
    JSON text of itself, which has two quotes more. -/
def FieldType.ReadsBack : (t : FieldType) → t.Value → Prop
  | .optionU16, v => ∀ n, v = some n → (serde.fromStr (toString n.toNat)).bind (natOf (2 ^ 16)) = some n.toNat
  | .optionUsize, v => ∀ n, v = some n → (serde.fromStr (toString n.toNat)).bind (natOf (2 ^ 64)) = some n.toNat
  | .optionString, v => ∀ s, v = some s → serde.fromStr s ≠ some (.string s)
  | .optionPath, v => ∀ p s, v = some p → p.toStr = some s → serde.fromStr s ≠ some (.string s)
  | .strings, l => (serde.fromStr (serde.toText (.array (l.map .string)))).bind FieldType.strings.fromValue = some l
  | .ownerIds, m => ∀ k v, Finmap.lookup k m = some v →
      (valueStr serde (i64Value v)).bind (fun text => (serde.fromStr text).bind i64Of) = some v
  | _, _ => True

mutual

/-- Something holds of every field of a simple type in a value. -/
def Shape.All (P : (t : FieldType) → t.Value → Prop) : (s : Shape) → s.Value → Prop
  | .leaf type, v => P type v
  | .struct fields, r => fields.All P r

def Fields.All (P : (t : FieldType) → t.Value → Prop) : (fs : Fields) → fs.Record → Prop
  | .nil, _ => True
  | .cons _ _ shape rest, r => shape.All P r.1 ∧ rest.All P r.2

end

abbrev Shape.Restorable (s : Shape) (v : s.Value) : Prop := s.All (FieldType.Restorable serde) v

abbrev Fields.Restorable (fs : Fields) (r : fs.Record) : Prop := fs.All (FieldType.Restorable serde) r

abbrev Shape.ReadsBack (s : Shape) (v : s.Value) : Prop := s.All (FieldType.ReadsBack serde) v

abbrev Fields.ReadsBack (fs : Fields) (r : fs.Record) : Prop := fs.All (FieldType.ReadsBack serde) r

mutual

/-- No setting has this path, and none can be added there. -/
def Shape.Unknown : Shape → List String → Prop
  | .leaf .ownerIds, ps => 2 ≤ ps.length
  | .leaf _, ps => ps ≠ []
  | .struct fields, ps => ps ≠ [] ∧ fields.Unknown ps

def Fields.Unknown : Fields → List String → Prop
  | .nil, _ => True
  | .cons name _ shape rest, ps => (∀ ps', ps = name :: ps' → shape.Unknown ps') ∧ rest.Unknown ps

end

mutual

/-- What a JSON value is flattened to: the parts of the paths in it, and the values there. -/
def pathsIn : Json → List (List String × Json)
  | .object fields => pathsInFields fields
  | other => [([], other)]

def pathsInFields : List (String × Json) → List (List String × Json)
  | [] => []
  | (key, json) :: rest => (pathsIn json).map (fun e => (parts key ++ e.1, e.2)) ++ pathsInFields rest

end

/-- The rows whose values have a text. -/
def textsOf (paths : List (List String × Json)) : List Row :=
  paths.filterMap fun e => (valueStr serde e.2).map fun text => (e.1, text)

end Conditions

/-! ## Simple fields -/

section Leaf

variable {serde : Serde} {t : FieldType} {json : Json}

theorem FieldType.toValue_ne_object (h : t ≠ .ownerIds) {v : t.Value} (hjson : t.toValue v = some json)
    (obj : List (String × Json)) : json ≠ .object obj := by
  rintro rfl
  cases t with
  | ownerIds => exact h rfl
  | optionU16 => cases v <;> cases hjson
  | optionUsize => cases v <;> cases hjson
  | optionString => cases v <;> cases hjson
  | optionPath =>
    cases v with
    | none => cases hjson
    | some p =>
      obtain ⟨s, -, hs⟩ := Option.map_eq_some_iff.mp hjson
      cases hs
  | _ => cases hjson

/-- A path below a simple field leads nowhere. -/
theorem update_leaf_below (h : t ≠ .ownerIds) (value key : String) (ps : List String) (v : t.Value) :
    (Shape.leaf t).update serde value (key :: ps) v = v := by
  show ((t.toValue v).bind fun json => (setAt serde value json (key :: ps)).bind t.fromValue).getD v = v
  cases hjson : t.toValue v with
  | none => rfl
  | some json =>
    rw [Option.bind_some, setAt_other serde (FieldType.toValue_ne_object h hjson)]
    rfl

/-- Only the rows for the field itself count. -/
theorem updateAll_leaf (h : t ≠ .ownerIds) (rows : List Row) (v : t.Value) :
    (Shape.leaf t).updateAll serde rows v = (Shape.leaf t).updateAll serde (rows.filter fun e => e.1.isEmpty) v := by
  induction rows generalizing v with
  | nil => rfl
  | cons e rows ih =>
    obtain ⟨ps, value⟩ := e
    cases ps with
    | nil => exact ih _
    | cons key ps =>
      show (Shape.leaf t).updateAll serde rows ((Shape.leaf t).update serde value (key :: ps) v) = _
      rw [update_leaf_below h]
      exact ih v

theorem pathsIn_other (h : ∀ obj, json ≠ .object obj) : pathsIn json = [([], json)] := by
  cases json with
  | object obj => exact absurd rfl (h obj)
  | _ => rfl

/-- **A simple field ends with what its one row makes of its default.** -/
theorem updateAll_default (h : t ≠ .ownerIds) (hjson : ∀ obj, json ≠ .object obj) {rows extras : List Row}
    (hrows : rows.Perm (textsOf serde (pathsIn json) ++ extras)) (hextras : ∀ e ∈ extras, e.1 ≠ []) :
    (Shape.leaf t).updateAll serde rows t.default =
      match valueStr serde json with
      | none => t.default
      | some text => (Shape.leaf t).update serde text [] t.default := by
  have hfiltered : (rows.filter fun e => e.1.isEmpty).Perm (textsOf serde (pathsIn json)) := by
    have hdropped : extras.filter (fun e => e.1.isEmpty) = [] := by
      rw [List.filter_eq_nil_iff]
      intro e he hempty
      exact hextras e he (List.isEmpty_iff.mp hempty)
    have hperm := hrows.filter fun e => e.1.isEmpty
    rw [List.filter_append, hdropped, List.append_nil, pathsIn_other hjson] at hperm
    rw [pathsIn_other hjson]
    refine hperm.trans (List.Perm.of_eq (List.filter_eq_self.mpr ?_))
    intro e he
    obtain ⟨e', he', htext⟩ := List.mem_filterMap.mp he
    obtain rfl := List.mem_singleton.mp he'
    obtain ⟨text, -, rfl⟩ := Option.map_eq_some_iff.mp htext
    rfl
  rw [updateAll_leaf h]
  rw [pathsIn_other hjson] at hfiltered
  cases htext : valueStr serde json with
  | none =>
    have hnil : textsOf serde [([], json)] = [] := by simp [textsOf, htext]
    rw [hnil] at hfiltered
    rw [hfiltered.eq_nil]
    rfl
  | some text =>
    have hone : textsOf serde [([], json)] = [([], text)] := by simp [textsOf, htext]
    rw [hone] at hfiltered
    rw [List.perm_singleton.mp hfiltered]
    rfl

/-- The default of the field replaced by a text. -/
theorem update_default (t : FieldType) (hdefault : t.toValue t.default = some json) (text : String) :
    (Shape.leaf t).update serde text [] t.default =
      ((newValue serde "" text (some json)).toOption.bind t.fromValue).getD t.default := by
  show ((t.toValue t.default).bind fun json => (setAt serde text json []).bind t.fromValue).getD t.default = _
  rw [hdefault]
  rfl

/-- An optional text comes back exactly when it is not the text of a JSON value. -/
theorem optionText_restored {s : String} (hself : serde.fromStr s ≠ some (.string s)) {α : Type} {a : α}
    {write : String → α} (hwrite : ∀ s', write s' = a → s' = s) (ha : write s = a) :
    ((newValue serde "" s (some .null)).toOption.bind (optionOf fun j => j.asStr.map write)).getD none = some a ↔
      serde.fromStr s = none := by
  have hnew : (newValue serde "" s (some .null)).toOption = some ((serde.fromStr s).getD (.string s)) := rfl
  rw [hnew, Option.bind_some]
  cases hs : serde.fromStr s with
  | none => simp [optionOf, Json.asStr, ha]
  | some json =>
    refine iff_of_false ?_ (by simp)
    rw [Option.getD_some]
    cases json with
    | string s' =>
      have hne : s' ≠ s := fun heq => hself (heq ▸ hs)
      have hother : write s' ≠ a := fun heq => hne (hwrite s' heq)
      simpa [optionOf, Json.asStr] using hother
    | _ => simp [optionOf, Json.asStr]

end Leaf

section SimpleFields

variable {serde : Serde} {n : Nat}

theorem newValue_nat {d : Nat} (h : n < 2 ^ 64) :
    (newValue serde "" (toString n) (some (natValue d))).toOption = some (natValue n) := by
  show ((parsed "integer" "" (toString n) (parseUsize (toString n))).map natValue).toOption = _
  rw [parseUsize_toString h]
  rfl

theorem newValue_optionNat {bound : Nat} (h : (serde.fromStr (toString n)).bind (natOf bound) = some n) :
    ∃ json, (newValue serde "" (toString n) (some .null)).toOption = some json ∧ natOf bound json = some n ∧
      json ≠ .null := by
  obtain ⟨json, hjson, hn⟩ := Option.bind_eq_some_iff.mp h
  refine ⟨json, ?_, hn, ?_⟩
  · show some ((serde.fromStr (toString n)).getD _) = some json
    rw [hjson]
    rfl
  · rintro rfl
    cases hn

variable {json : Json}

/-- `Option<T>` of a value that is not null. -/
theorem optionOf_some {α : Type} {read : Json → Option α} (h : json ≠ .null) :
    optionOf read json = (read json).map some := by
  cases json with
  | null => exact absurd rfl h
  | _ => rfl

/-- **A simple field comes back exactly when it is restorable.** -/
theorem simple_restored {t : FieldType} (h : t ≠ .ownerIds) {v : t.Value} (hjson : t.toValue v = some json)
    (hreads : t.ReadsBack serde v) {rows extras : List Row} (hrows : rows.Perm (textsOf serde (pathsIn json) ++ extras))
    (hextras : ∀ e ∈ extras, e.1 ≠ []) : (Shape.leaf t).updateAll serde rows t.default = v ↔ t.Restorable serde v := by
  -- only the row with the empty path reaches a leaf
  rw [updateAll_default h (FieldType.toValue_ne_object h hjson) hrows hextras]
  cases t with
  | bool d m =>
    cases hjson
    refine iff_of_true ((update_default (.bool d m) rfl _).trans ?_) True.intro
    cases v <;> rfl
  | string d =>
    cases hjson
    exact iff_of_true (update_default (.string d) rfl v) True.intro
  | u32 d =>
    cases hjson
    refine iff_of_true ((update_default (.u32 d) rfl (toString v.toNat)).trans ?_) True.intro
    have hlt : v.toNat < 2 ^ 64 := v.toNat_lt.trans (by decide)
    rw [newValue_nat hlt, Option.bind_some]
    show ((natOf (2 ^ 32) (natValue v.toNat)).map UInt32.ofNat).getD d = v
    rw [natOf_natValue v.toNat_lt, Option.map_some, UInt32.ofNat_toNat]
    rfl
  | u64 d =>
    cases hjson
    refine iff_of_true ((update_default (.u64 d) rfl (toString v.toNat)).trans ?_) True.intro
    rw [newValue_nat v.toNat_lt, Option.bind_some]
    show ((natOf (2 ^ 64) (natValue v.toNat)).map UInt64.ofNat).getD d = v
    rw [natOf_natValue v.toNat_lt, Option.map_some, UInt64.ofNat_toNat]
    rfl
  | optionU16 =>
    refine iff_of_true ?_ True.intro
    cases v with
    | none =>
      cases hjson
      rfl
    | some n =>
      cases hjson
      obtain ⟨json, hnew, hn, hnull⟩ := newValue_optionNat (hreads n rfl)
      refine (update_default .optionU16 rfl (toString n.toNat)).trans ?_
      rw [hnew, Option.bind_some]
      show (optionOf (fun j => (natOf (2 ^ 16) j).map UInt16.ofNat) json).getD none = some n
      rw [optionOf_some hnull, hn, Option.map_some, UInt16.ofNat_toNat]
      rfl
  | optionUsize =>
    refine iff_of_true ?_ True.intro
    cases v with
    | none =>
      cases hjson
      rfl
    | some n =>
      cases hjson
      obtain ⟨json, hnew, hn, hnull⟩ := newValue_optionNat (hreads n rfl)
      refine (update_default .optionUsize rfl (toString n.toNat)).trans ?_
      rw [hnew, Option.bind_some]
      show (optionOf (fun j => (natOf (2 ^ 64) j).map UInt64.ofNat) json).getD none = some n
      rw [optionOf_some hnull, hn, Option.map_some, UInt64.ofNat_toNat]
      rfl
  | optionString =>
    cases v with
    | none =>
      cases hjson
      exact iff_of_true rfl fun s hs => by cases hs
    | some s =>
      cases hjson
      have hread : FieldType.optionString.fromValue = optionOf fun j => j.asStr.map id := by
        funext j
        cases j <;> rfl
      have hupdate : (Shape.leaf .optionString).update serde s [] none = _ := update_default .optionString rfl s
      rw [hread] at hupdate
      refine (Eq.congr_left hupdate).trans ?_
      refine (optionText_restored (hreads s rfl) (fun _ heq => heq) rfl).trans ?_
      exact ⟨fun hs s' hs' => Option.some.inj hs' ▸ hs, fun hall => hall s rfl⟩
  | optionPath =>
    cases v with
    | none =>
      cases hjson
      exact iff_of_true rfl fun p hp => by cases hp
    | some p =>
      obtain ⟨s, hs, rfl⟩ := Option.map_eq_some_iff.mp hjson
      have hwrite : ∀ s', PathBuf.ofStr s' = p → s' = s := by
        rintro s' rfl
        exact Option.some.inj ((ofStr_toStr s').symm.trans hs)
      refine (Eq.congr_left (update_default .optionPath rfl s)).trans ?_
      refine (optionText_restored (hreads p s rfl hs) hwrite (toStr_ofStr hs)).trans ?_
      constructor
      · intro hnone p' hp'
        cases hp'
        exact ⟨s, hs, hnone⟩
      · intro hall
        obtain ⟨s', hs', hnone⟩ := hall p rfl
        cases hs.symm.trans hs'
        exact hnone
  | keySource =>
    cases hjson
    refine iff_of_true ((update_default .keySource rfl v.name).trans ?_) True.intro
    show (KeySource.ofName v.name).getD KeySource.none = v
    rw [ofName_name]
    rfl
  | strings =>
    cases hjson
    refine iff_of_true ((update_default .strings rfl (serde.toText (.array (v.map .string)))).trans ?_) True.intro
    obtain ⟨json, hread, hv⟩ := Option.bind_eq_some_iff.mp hreads
    show ((((serde.fromStr _).map Except.ok).getD _ : Except SetError Json).toOption.bind _).getD [] = v
    rw [hread]
    show (FieldType.strings.fromValue json).getD [] = v
    rw [hv]
    rfl
  | ownerIds => exact absurd rfl h

end SimpleFields

/-! ## Parts of paths -/

theorem parts_of_notMem (h : '.' ∉ s.toList) : parts s = [s] := by
  rw [parts, List.splitOn_eq_singleton h]
  simp

/-- The dot divides a path. -/
theorem parts_append (a b : String) : parts (a ++ "." ++ b) = parts a ++ parts b := by
  have hlist : (a ++ "." ++ b).toList = a.toList ++ '.' :: b.toList := by simp
  rw [parts, hlist, List.splitOn_append_cons_self, List.map_append, parts, parts]

theorem parts_ne_nil (s : String) : parts s ≠ [] := by
  simp [parts]

/-- A path is told by its parts. -/
theorem parts_injective {a b : String} (h : parts a = parts b) : a = b := by
  have hback : ∀ s : String, String.ofList (['.'].intercalate ((parts s).map String.toList)) = s := by
    intro s
    have hparts : (parts s).map String.toList = s.toList.splitOn '.' := by simp [parts]
    rw [hparts, List.intercalate_splitOn, String.ofList_toList]
  rw [← hback a, h, hback b]

/-- A name with a dot has two parts at least. -/
theorem two_le_parts (h : '.' ∈ s.toList) : 2 ≤ (parts s).length := by
  obtain ⟨a, b, hab⟩ := List.append_of_mem h
  rw [parts, List.length_map, hab, List.splitOn_append_cons_self, List.length_append]
  have ha := List.length_pos_iff.mpr (List.splitOn_ne_nil '.' a)
  have hb := List.length_pos_iff.mpr (List.splitOn_ne_nil '.' b)
  omega

/-! ## The map of owners, row by row -/

section Owners

variable {serde : Serde}

theorem i64Value_ne_object (v : Int64) (obj : List (String × Json)) : i64Value v ≠ .object obj := by
  unfold i64Value
  split <;> simp

/-- The object a map is written as. -/
def ownersObject (m : OwnerIds) : List (String × Json) := m.toList.map fun e => (e.1, i64Value e.2)

variable {m : OwnerIds} {k : String}

theorem valueOf_ownersObject {json : Json} (h : valueOf (ownersObject m) k = some json) :
    ∃ v, m.lookup k = some v ∧ json = i64Value v := by
  obtain ⟨f, hf, rfl⟩ := Option.map_eq_some_iff.mp h
  obtain ⟨e, he, rfl⟩ := List.mem_map.mp (List.mem_of_find?_eq_some hf)
  have hk : e.1 = k := by simpa using List.find?_some hf
  exact ⟨e.2, mem_toList.mp (hk ▸ he), rfl⟩

theorem insertField_of_absent {key : String} {new : Json} : {obj : List (String × Json)} → valueOf obj key = none →
    Json.insertField key new obj = obj ++ [(key, new)]
  | [], _ => rfl
  | (key', json) :: obj, h => by
      by_cases heq : key' = key
      · subst heq
        rw [valueOf_cons_self] at h
        cases h
      · rw [valueOf_cons_ne heq] at h
        rw [Json.insertField, if_neg heq, insertField_of_absent h]
        rfl

/-- A row for a new name adds it. -/
theorem update_owner {text : String} {v : Int64} (hnew : m.lookup k = none)
    (hreads : (serde.fromStr text).bind i64Of = some v) :
    (Shape.leaf .ownerIds).update serde text [k] m = m.insert k v := by
  obtain ⟨json, hjson, hv⟩ := Option.bind_eq_some_iff.mp hreads
  have habsent : valueOf (ownersObject m) k = none := by
    by_contra hne
    obtain ⟨json', hjson'⟩ := Option.ne_none_iff_exists'.mp hne
    obtain ⟨v', hv', -⟩ := valueOf_ownersObject hjson'
    rw [hnew] at hv'
    cases hv'
  have hnewAt : newAt serde text (ownersObject m) k [] = some json := by
    rw [newAt, habsent]
    show some ((serde.fromStr text).getD _) = some json
    rw [hjson]
    rfl
  show (Option.bind (some (Json.object (ownersObject m)))
    fun json => (setAt serde text json [k]).bind FieldType.ownerIds.fromValue).getD m = _
  rw [Option.bind_some, setAt_object, hnewAt]
  show (OwnerIds.ofFields (Json.insertField k json (ownersObject m)) ∅).getD m = _
  rw [insertField_of_absent habsent, ofFields_append, ownersObject, ofFields_entries, insertAll_toList]
  show ((i64Of json).bind fun v => some (Finmap.insert k v m)).getD m = _
  rw [hv]
  rfl

/-- A path that goes further leads nowhere. -/
theorem update_owner_below (text : String) {ps : List String} (h : 2 ≤ ps.length) :
    (Shape.leaf .ownerIds).update serde text ps m = m := by
  obtain ⟨k, k', ps, rfl⟩ : ∃ k k' rest, ps = k :: k' :: rest := by
    match ps, h with
    | k :: k' :: rest, _ => exact ⟨k, k', rest, rfl⟩
  have hnewAt : newAt serde text (ownersObject m) k (k' :: ps) = none := by
    unfold newAt
    cases hchild : valueOf (ownersObject m) k with
    | none => simp
    | some child =>
      obtain ⟨v, -, rfl⟩ := valueOf_ownersObject hchild
      exact setAt_other serde (i64Value_ne_object v) text k' ps
  show (Option.bind (some (Json.object (ownersObject m)))
    fun json => (setAt serde text json (k :: k' :: ps)).bind FieldType.ownerIds.fromValue).getD m = _
  rw [Option.bind_some, setAt_object, hnewAt]
  rfl

/-- The owners a list of rows adds, where `m` says who the owner of a name is. -/
def ownersIn (m : OwnerIds) (rows : List Row) : List (String × Int64) :=
  rows.filterMap fun e =>
    match e.1 with
    | [k] => (m.lookup k).map fun v => (k, v)
    | _ => none

variable {rows : List Row}

/-- **The rows add their owners one after the other.** -/
theorem updateAll_owners
    (hrows : ∀ e ∈ rows, 2 ≤ e.1.length ∨ ∃ k v, e.1 = [k] ∧ m.lookup k = some v ∧ (serde.fromStr e.2).bind i64Of = some v)
    (hnodup : ((ownersIn m rows).map Prod.fst).Nodup) {m' : OwnerIds}
    (hfresh : ∀ k ∈ (ownersIn m rows).map Prod.fst, m'.lookup k = none) :
    (Shape.leaf .ownerIds).updateAll serde rows m' = insertAll (ownersIn m rows) m' := by
  induction rows generalizing m' with
  | nil => rfl
  | cons e rows ih =>
    obtain ⟨ps, text⟩ := e
    have hrest := fun e he => hrows e (List.mem_cons_of_mem _ he)
    rcases hrows _ (List.mem_cons_self ..) with hlong | ⟨k, v, hps, hk, hreads⟩
    · have hskip : ownersIn m ((ps, text) :: rows) = ownersIn m rows := by
        match ps, hlong with
        | k :: k' :: ps, _ => rfl
      rw [hskip] at hnodup hfresh ⊢
      show (Shape.leaf .ownerIds).updateAll serde rows ((Shape.leaf .ownerIds).update serde text ps m') = _
      rw [update_owner_below text hlong]
      exact ih hrest hnodup hfresh
    · obtain rfl : ps = [k] := hps
      have hadd : ownersIn m (([k], text) :: rows) = (k, v) :: ownersIn m rows := by
        show List.filterMap _ _ = _
        rw [List.filterMap_cons]
        simp only [hk, Option.map_some]
        rfl
      rw [hadd] at hnodup hfresh ⊢
      obtain ⟨hk', hnodup⟩ := List.nodup_cons.mp hnodup
      show (Shape.leaf .ownerIds).updateAll serde rows ((Shape.leaf .ownerIds).update serde text [k] m') = _
      rw [update_owner (hfresh k (List.mem_cons_self ..)) hreads]
      refine ih hrest hnodup fun k'' hk'' => ?_
      have hne : k'' ≠ k := fun heq => hk' (heq ▸ hk'')
      exact (Finmap.lookup_insert_of_ne m' hne).trans (hfresh k'' (List.mem_cons_of_mem _ hk''))

theorem ownersIn_perm {rows' : List Row} (h : rows.Perm rows') :
    (ownersIn m rows).Perm (ownersIn m rows') := h.filterMap _

theorem ownersIn_append (m : OwnerIds) (rows rows' : List Row) :
    ownersIn m (rows ++ rows') = ownersIn m rows ++ ownersIn m rows' := List.filterMap_append

/-- Longer paths name no owner. -/
theorem ownersIn_long (h : ∀ e ∈ rows, 2 ≤ e.1.length) : ownersIn m rows = [] := by
  refine List.filterMap_eq_nil_iff.mpr fun e he => ?_
  match hps : e.1, h e he with
  | k :: k' :: ps, _ => rfl

theorem valueStr_i64 (serde : Serde) (v : Int64) : ∃ text, valueStr serde (i64Value v) = some text := by
  unfold i64Value
  split
  · exact ⟨_, rfl⟩
  · exact ⟨_, rfl⟩

/-- The rows of a map. -/
theorem textsOf_owners (entries : List (String × Int64)) :
    textsOf serde (pathsInFields (entries.map fun e => (e.1, i64Value e.2))) =
      entries.filterMap fun e => (valueStr serde (i64Value e.2)).map fun text => (parts e.1, text) := by
  induction entries with
  | nil => rfl
  | cons e entries ih =>
    show textsOf serde ((pathsIn (i64Value e.2)).map (fun p => (parts e.1 ++ p.1, p.2)) ++ pathsInFields _) = _
    rw [pathsIn_other (i64Value_ne_object e.2), textsOf, List.filterMap_append]
    show List.filterMap _ _ ++ textsOf serde _ = _
    obtain ⟨text, htext⟩ := valueStr_i64 serde e.2
    rw [ih]
    simp [htext]

end Owners

section OwnersRestored

variable {serde : Serde}

/-- The owners in the rows of a map: those without a dot in their names. -/
theorem ownersIn_texts (m : OwnerIds) : ownersIn m (textsOf serde (pathsIn (.object (ownersObject m)))) =
      m.toList.filter fun e => !e.1.toList.contains '.' := by
  have hrows : ∀ entries : List (String × Int64), (∀ e ∈ entries, m.lookup e.1 = some e.2) →
      ownersIn m (entries.filterMap fun e => (valueStr serde (i64Value e.2)).map fun text => (parts e.1, text)) =
        entries.filter fun e => !e.1.toList.contains '.' := by
    intro entries hentries
    induction entries with
    | nil => rfl
    | cons e entries ih =>
      obtain ⟨text, htext⟩ := valueStr_i64 serde e.2
      have hlookup := hentries e (List.mem_cons_self ..)
      have hrest := ih fun e' he' => hentries e' (List.mem_cons_of_mem _ he')
      rw [List.filterMap_cons, htext]
      show ownersIn m ([(parts e.1, text)] ++ _) = _
      rw [ownersIn_append, hrest, List.filter_cons]
      by_cases hdot : '.' ∈ e.1.toList
      · have hlong : ownersIn m [(parts e.1, text)] = [] :=
          ownersIn_long fun e' he' => List.mem_singleton.mp he' ▸ two_le_parts hdot
        rw [hlong]
        simp [hdot]
      · have hone : ownersIn m [(parts e.1, text)] = [e] := by
          rw [parts_of_notMem hdot]
          simp [ownersIn, hlookup]
        rw [hone]
        simp [hdot]
  rw [pathsIn, ownersObject, textsOf_owners]
  exact hrows m.toList fun e he => mem_toList.mp he

variable {m : OwnerIds}

/-- What the rows of a map do to the empty map, in any order. -/
theorem insertAll_eq_iff {entries : List (String × Int64)}
    (h : entries.Perm (m.toList.filter fun e => !e.1.toList.contains '.')) :
    insertAll entries ∅ = m ↔ FieldType.ownerIds.Restorable serde m := by
  have hmem : ∀ {k v}, (k, v) ∈ entries ↔ m.lookup k = some v ∧ '.' ∉ k.toList := by
    intro k v
    rw [h.mem_iff, List.mem_filter, mem_toList]
    simp
  have hnodup : (entries.map Prod.fst).Nodup := by
    refine (h.map Prod.fst).nodup_iff.mpr ?_
    exact (nodup_toList m).sublist (List.filter_sublist.map Prod.fst)
  constructor
  · intro heq k v hv hdot
    have habsent : k ∉ entries.map Prod.fst := by
      intro hk
      obtain ⟨⟨k', v'⟩, he, rfl⟩ := List.mem_map.mp hk
      exact (hmem.mp he).2 hdot
    have hlookup : m.lookup k = none := by rw [← heq, lookup_insertAll_of_notMem habsent, Finmap.lookup_empty]
    rw [hv] at hlookup
    cases hlookup
  · intro hrestorable
    refine Finmap.ext_lookup fun k => ?_
    cases hk : m.lookup k with
    | some v => exact lookup_insertAll_of_mem hnodup (hmem.mpr ⟨hk, hrestorable k v hk⟩)
    | none =>
      have habsent : k ∉ entries.map Prod.fst := by
        intro hmap
        obtain ⟨⟨k', v'⟩, he, rfl⟩ := List.mem_map.mp hmap
        rw [(hmem.mp he).1] at hk
        cases hk
      rw [lookup_insertAll_of_notMem habsent, Finmap.lookup_empty]

/-- **The map of owners comes back exactly when no name has a dot in it.** -/
theorem owners_restored (hreads : FieldType.ownerIds.ReadsBack serde m) {rows extras : List Row}
    (hrows : rows.Perm (textsOf serde (pathsIn (.object (ownersObject m))) ++ extras))
    (hextras : ∀ e ∈ extras, 2 ≤ e.1.length) :
    (Shape.leaf .ownerIds).updateAll serde rows (∅ : OwnerIds) = m ↔ FieldType.ownerIds.Restorable serde m := by
  have howners : (ownersIn m rows).Perm (m.toList.filter fun e => !e.1.toList.contains '.') := by
    have hperm := ownersIn_perm (m := m) hrows
    rwa [ownersIn_append, ownersIn_long hextras, List.append_nil, ownersIn_texts] at hperm
  have hall : ∀ e ∈ rows, 2 ≤ e.1.length ∨
      ∃ k v, e.1 = [k] ∧ m.lookup k = some v ∧ (serde.fromStr e.2).bind i64Of = some v := by
    intro e he
    rcases List.mem_append.mp (hrows.mem_iff.mp he) with hown | hextra
    · rw [pathsIn, ownersObject, textsOf_owners] at hown
      obtain ⟨⟨k, v⟩, hkv, hrow⟩ := List.mem_filterMap.mp hown
      obtain ⟨text, htext, rfl⟩ := Option.map_eq_some_iff.mp hrow
      by_cases hdot : '.' ∈ k.toList
      · exact .inl (two_le_parts hdot)
      · have hv := hreads k v (mem_toList.mp hkv)
        rw [htext, Option.bind_some] at hv
        exact .inr ⟨k, v, parts_of_notMem hdot, mem_toList.mp hkv, hv⟩
    · exact .inl (hextras e hextra)
  have hnodup : ((ownersIn m rows).map Prod.fst).Nodup := by
    refine (howners.map Prod.fst).nodup_iff.mpr ?_
    exact (nodup_toList m).sublist (List.filter_sublist.map Prod.fst)
  rw [updateAll_owners hall hnodup fun k _ => Finmap.lookup_empty k]
  exact insertAll_eq_iff howners

end OwnersRestored

/-! ## Structs, field by field -/

section Restored

variable {serde : Serde}

theorem Fields.unknown_of_notMem {key : String} {ps : List String} : (fs : Fields) → key ∉ fs.keys →
    fs.Unknown (key :: ps)
  | .nil, _ => True.intro
  | .cons name also shape rest, h => by
      simp only [Fields.keys, List.mem_cons, List.mem_append, not_or] at h
      refine ⟨fun ps' heq => ?_, Fields.unknown_of_notMem rest h.2.2⟩
      exact absurd (List.cons.inj heq).1 h.1

theorem below_append (name : String) (rows rows' : List Row) :
    below name (rows ++ rows') = below name rows ++ below name rows' := List.filterMap_append

theorem below_self (name : String) (rows : List Row) : below name (rows.map fun e => (name :: e.1, e.2)) = rows := by
  induction rows with
  | nil => rfl
  | cons e rows ih =>
    have hrest : below name (((name :: e.1, e.2) : Row) :: rows.map fun e => (name :: e.1, e.2)) =
        e :: below name (rows.map fun e => (name :: e.1, e.2)) := by simp [below]
    exact hrest.trans (congrArg (e :: ·) ih)

variable {rows : List Row} {name : String}

theorem below_other (h : ∀ e ∈ rows, ∃ key ps, e.1 = key :: ps ∧ key ≠ name) : below name rows = [] := by
  refine List.filterMap_eq_nil_iff.mpr fun e he => ?_
  obtain ⟨key, ps, hps, hne⟩ := h e he
  simp [hps, hne]

variable {e : Row}

theorem mem_below (h : e ∈ below name rows) : (name :: e.1, e.2) ∈ rows := by
  obtain ⟨⟨ps, text⟩, hrow, he⟩ := List.mem_filterMap.mp h
  cases ps with
  | nil => cases he
  | cons key ps =>
    obtain ⟨rfl, heq⟩ := Option.ite_none_right_eq_some.mp he
    obtain rfl := Option.some.inj heq
    exact hrow

/-- The texts of two lists of paths, one after the other. -/
theorem textsOf_append (paths paths' : List (List String × Json)) :
    textsOf serde (paths ++ paths') = textsOf serde paths ++ textsOf serde paths' := List.filterMap_append

theorem textsOf_below (name : String) (paths : List (List String × Json)) :
    textsOf serde (paths.map fun e => ([name] ++ e.1, e.2)) =
      (textsOf serde paths).map fun e => (name :: e.1, e.2) := by
  induction paths with
  | nil => rfl
  | cons e paths ih =>
    have hone : textsOf serde [([name] ++ e.1, e.2)] = (textsOf serde [e]).map fun e => (name :: e.1, e.2) := by
      simp only [textsOf, List.filterMap_cons, List.filterMap_nil]
      cases valueStr serde e.2 <;> rfl
    have hsplit : textsOf serde (e :: paths) = textsOf serde [e] ++ textsOf serde paths := textsOf_append [e] paths
    rw [List.map_cons, hsplit, List.map_append, ← ih, ← hone]
    exact textsOf_append [([name] ++ e.1, e.2)] _

/-- The paths in a struct begin with the names of its fields. -/
theorem Fields.pathsIn_toFields : (fs : Fields) → fs.wf = true → {r : fs.Record} → {obj : List (String × Json)} →
    fs.toFields r = some obj → ∀ e ∈ pathsInFields obj, ∃ key ps, e.1 = key :: ps ∧ key ∈ fs.keys
  | .nil, _, _, _, h, e, he => by
      cases h
      cases he
  | .cons name also shape rest, hwf, r, obj, h, e, he => by
      obtain ⟨hdot, -, -, hwf⟩ := Fields.wf_cons hwf
      obtain ⟨json, obj', -, hobj', rfl⟩ := Fields.toFields_cons h
      rw [pathsInFields, parts_of_notMem hdot] at he
      rcases List.mem_append.mp he with hhead | htail
      · obtain ⟨e', -, rfl⟩ := List.mem_map.mp hhead
        exact ⟨name, e'.1, rfl, by simp [Fields.keys]⟩
      · obtain ⟨key, ps, hps, hkey⟩ := Fields.pathsIn_toFields rest hwf hobj' e htail
        exact ⟨key, ps, hps, by simp [Fields.keys, hkey]⟩

theorem mem_textsOf {paths : List (List String × Json)} (h : e ∈ textsOf serde paths) :
    ∃ json, (e.1, json) ∈ paths ∧ valueStr serde json = some e.2 := by
  obtain ⟨e', he', htext⟩ := List.mem_filterMap.mp h
  obtain ⟨text, hvalue, rfl⟩ := Option.map_eq_some_iff.mp htext
  exact ⟨e'.2, he', hvalue⟩

theorem Fields.textsOf_toFields {fs : Fields} (hwf : fs.wf = true) {r : fs.Record} {obj : List (String × Json)}
    (h : fs.toFields r = some obj) (he : e ∈ textsOf serde (pathsInFields obj)) :
    ∃ key ps, e.1 = key :: ps ∧ key ∈ fs.keys := by
  obtain ⟨json, hpath, -⟩ := mem_textsOf he
  exact Fields.pathsIn_toFields fs hwf h _ hpath

mutual

/-- **A value comes back from its rows, over the default, exactly when it is restorable.** -/
theorem Shape.restored : (s : Shape) → s.wf = true → {v : s.Value} → {json : Json} → s.toValue v = some json →
    s.ReadsBack serde v → {rows extras : List Row} → rows.Perm (textsOf serde (pathsIn json) ++ extras) →
    (∀ e ∈ extras, s.Unknown e.1) → (s.updateAll serde rows s.default = v ↔ s.Restorable serde v)
  | .leaf t, _, v, json, hjson, hreads, rows, extras, hrows, hextras => by
      by_cases ht : t = .ownerIds
      · subst ht
        obtain rfl : Json.object (ownersObject v) = json := Option.some.inj hjson
        exact owners_restored hreads hrows hextras
      · refine simple_restored ht hjson hreads hrows fun e he => ?_
        have hunknown := hextras e he
        cases t with
        | ownerIds => exact absurd rfl ht
        | _ => exact hunknown
  | .struct fs, hwf, r, json, hjson, hreads, rows, extras, hrows, hextras => by
      obtain ⟨hkeys, hfields⟩ := Shape.wf_struct hwf
      rw [Shape.toValue] at hjson
      obtain ⟨obj, hobj, rfl⟩ := Option.map_eq_some_iff.mp hjson
      have hnonempty : ∀ e ∈ rows, e.1 ≠ [] := by
        intro e he
        rcases List.mem_append.mp (hrows.mem_iff.mp he) with hown | hextra
        · obtain ⟨key, ps, hps, -⟩ := Fields.textsOf_toFields hfields hobj hown
          simp [hps]
        · exact (hextras e hextra).1
      have hstruct : (Shape.struct fs).updateAll serde rows fs.default = fs.updateAll serde rows fs.default :=
        updateAll_struct hwf hnonempty (Fields.toFields_default fs)
      refine (Eq.congr_left hstruct).trans ?_
      exact Fields.restored fs hkeys hfields hobj hreads hrows fun e he => (hextras e he).2

theorem Fields.restored : (fs : Fields) → fs.keys.Nodup → fs.wf = true → {r : fs.Record} →
    {obj : List (String × Json)} → fs.toFields r = some obj → fs.ReadsBack serde r → {rows extras : List Row} →
    rows.Perm (textsOf serde (pathsInFields obj) ++ extras) → (∀ e ∈ extras, fs.Unknown e.1) →
    (fs.updateAll serde rows fs.default = r ↔ fs.Restorable serde r)
  | .nil, _, _, _, _, _, _, _, _, _, _ => iff_of_true rfl True.intro
  | .cons name also shape rest, hkeys, hwf, (v, r), obj, h, hreads, rows, extras, hrows, hextras => by
      obtain ⟨-, hname, -, hkeys'⟩ := Fields.nodup_cons hkeys
      obtain ⟨hdot, -, hshape, hwf'⟩ := Fields.wf_cons hwf
      obtain ⟨json, obj', hjson, hobj', rfl⟩ := Fields.toFields_cons h
      rw [pathsInFields, parts_of_notMem hdot, textsOf_append, textsOf_below] at hrows
      -- The rows below the name are those of the first field, and extras that it does not know.
      have hother : below name (textsOf serde (pathsInFields obj')) = [] := by
        refine below_other fun e he => ?_
        obtain ⟨key, ps, hps, hkey⟩ := Fields.textsOf_toFields hwf' hobj' he
        exact ⟨key, ps, hps, fun heq => hname (heq ▸ hkey)⟩
      have hhead : (below name rows).Perm (textsOf serde (pathsIn json) ++ below name extras) := by
        have hperm : (below name rows).Perm (below name _) := hrows.filterMap _
        rwa [below_append, below_append, below_self, hother, List.append_nil] at hperm
      have hfirst := Shape.restored shape hshape hjson hreads.1 hhead fun e he =>
        (hextras _ (mem_below he)).1 e.1 rfl
      -- For the other fields the rows of the first one are extras.
      have htail : rows.Perm (textsOf serde (pathsInFields obj') ++
          ((textsOf serde (pathsIn json)).map (fun e => (name :: e.1, e.2)) ++ extras)) := by
        refine hrows.trans ?_
        rw [← List.append_assoc]
        exact List.perm_append_comm.append_right extras
      have hrest := Fields.restored rest hkeys' hwf' hobj' hreads.2 htail (by
        intro e he
        rcases List.mem_append.mp he with hmap | hextra
        · obtain ⟨e', -, rfl⟩ := List.mem_map.mp hmap
          exact Fields.unknown_of_notMem rest hname
        · exact (hextras e hextra).2)
      show (shape.updateAll serde (below name rows) shape.default, rest.updateAll serde rows rest.default) = (v, r) ↔ _
      rw [Prod.mk.injEq]
      exact and_congr hfirst hrest

end

end Restored

/-! ## The paths of the rows -/

section Flat

mutual

/-- The entries `collect_settings_json` adds, one after the other. -/
def flat : Json → String → List (String × Json)
  | .object obj, pre => flatFields obj pre
  | other, pre => [(pre, other)]

def flatFields : List (String × Json) → String → List (String × Json)
  | [], _ => []
  | (key, val) :: obj, pre => flat val (if pre = "" then key else pre ++ "." ++ key) ++ flatFields obj pre

end

/-- Entries added to a map. -/
def addAll (entries results : List (String × Json)) : List (String × Json) :=
  entries.foldl (fun results e => Json.insertField e.1 e.2 results) results

mutual

theorem collectSettingsJson_eq : (json : Json) → (pre : String) → (results : List (String × Json)) →
    collectSettingsJson json pre results = addAll (flat json pre) results
  | .object obj, pre, results => by
      rw [collectSettingsJson, flat]
      exact collectFields_eq obj pre results
  | .null, _, _ => rfl
  | .bool _, _, _ => rfl
  | .number _, _, _ => rfl
  | .string _, _, _ => rfl
  | .array _, _, _ => rfl

/-- The fields of an object, one after the other. -/
theorem collectFields_eq : (obj : List (String × Json)) → (pre : String) → (results : List (String × Json)) →
    collectFields obj pre results = addAll (flatFields obj pre) results
  | [], _, _ => rfl
  | (key, val) :: obj, pre, results => by
      rw [collectFields, collectSettingsJson_eq val, collectFields_eq obj, flatFields, addAll, addAll, addAll,
        List.foldl_append]

end

theorem valueOf_eq_none {key : String} {obj : List (String × Json)} (h : key ∉ obj.map Prod.fst) :
    valueOf obj key = none := by
  induction obj with
  | nil => rfl
  | cons f obj ih =>
    obtain ⟨hne, hrest⟩ := not_or.mp (mt List.mem_cons.mpr h)
    exact (valueOf_cons_ne (Ne.symm hne) f.2 obj).trans (ih hrest)

theorem addAll_eq {entries results : List (String × Json)} (h : ((results ++ entries).map Prod.fst).Nodup) :
    addAll entries results = results ++ entries := by
  induction entries generalizing results with
  | nil => exact (List.append_nil results).symm
  | cons e entries ih =>
    have hassoc : results ++ e :: entries = results ++ [e] ++ entries := by simp
    have habsent : e.1 ∉ results.map Prod.fst := by
      rw [List.map_append, List.map_cons] at h
      intro hmem
      exact (List.nodup_append.mp h).2.2 _ hmem _ (List.mem_cons_self ..) rfl
    show addAll entries (Json.insertField e.1 e.2 results) = _
    rw [insertField_of_absent (valueOf_eq_none habsent), hassoc]
    exact ih (hassoc ▸ h)

mutual

/-- The parts of the paths under a prefix. -/
theorem parts_flat : (json : Json) → {pre : String} → pre ≠ "" →
    (flat json pre).map (fun e => (parts e.1, e.2)) = (pathsIn json).map fun e => (parts pre ++ e.1, e.2)
  | .object obj, pre, h => by
      rw [flat, pathsIn]
      exact parts_flatFields obj h
  | .null, _, _ => by simp [flat, pathsIn]
  | .bool _, _, _ => by simp [flat, pathsIn]
  | .number _, _, _ => by simp [flat, pathsIn]
  | .string _, _, _ => by simp [flat, pathsIn]
  | .array _, _, _ => by simp [flat, pathsIn]

theorem parts_flatFields : (obj : List (String × Json)) → {pre : String} → pre ≠ "" →
    (flatFields obj pre).map (fun e => (parts e.1, e.2)) = (pathsInFields obj).map fun e => (parts pre ++ e.1, e.2)
  | [], _, _ => rfl
  | (key, val) :: obj, pre, h => by
      have hpath : pre ++ "." ++ key ≠ "" := by
        intro hempty
        have hlength := congrArg String.length hempty
        simp at hlength
      rw [flatFields, if_neg h, List.map_append, parts_flat val hpath, parts_flatFields obj h, pathsInFields,
        List.map_append, List.map_map, parts_append]
      congr 1
      refine List.map_congr_left fun e _ => ?_
      simp

end

/-- The parts of the paths of a struct. -/
theorem Fields.parts_flat : (fs : Fields) → fs.wf = true → {r : fs.Record} → {obj : List (String × Json)} →
    fs.toFields r = some obj → (flatFields obj "").map (fun e => (parts e.1, e.2)) = pathsInFields obj
  | .nil, _, _, _, h => by
      cases h
      rfl
  | .cons name also shape rest, hwf, r, obj, h => by
      obtain ⟨-, hname, -, hwf⟩ := Fields.wf_cons hwf
      obtain ⟨json, obj', -, hobj', rfl⟩ := Fields.toFields_cons h
      rw [flatFields, if_pos rfl, List.map_append, Config.parts_flat json hname, pathsInFields]
      rw [Fields.parts_flat rest hwf hobj']

mutual

/-- **No two paths of a value are the same.** -/
theorem Shape.nodup_pathsIn : (s : Shape) → s.wf = true → {v : s.Value} → {json : Json} → s.toValue v = some json →
    ((pathsIn json).map Prod.fst).Nodup
  | .leaf t, _, v, json, h => by
      by_cases ht : t = .ownerIds
      · subst ht
        obtain rfl : Json.object (ownersObject v) = json := Option.some.inj h
        have hpaths : ∀ entries : List (String × Int64),
            (pathsInFields (entries.map fun e => (e.1, i64Value e.2))).map Prod.fst =
              (entries.map Prod.fst).map parts := by
          intro entries
          induction entries with
          | nil => rfl
          | cons e entries ih =>
            rw [List.map_cons, pathsInFields, pathsIn_other (i64Value_ne_object e.2), List.map_append, ih]
            simp
        have hown : (pathsIn (.object (ownersObject v))).map Prod.fst = ((OwnerIds.toList v).map Prod.fst).map parts :=
          hpaths (OwnerIds.toList v)
        rw [hown]
        exact (nodup_toList v).map fun _ _ heq => parts_injective heq
      · rw [pathsIn_other (FieldType.toValue_ne_object ht h)]
        simp
  | .struct fs, hwf, r, json, h => by
      obtain ⟨hkeys, hwf⟩ := Shape.wf_struct hwf
      rw [Shape.toValue] at h
      obtain ⟨obj, hobj, rfl⟩ := Option.map_eq_some_iff.mp h
      exact Fields.nodup_pathsIn fs hkeys hwf hobj

theorem Fields.nodup_pathsIn : (fs : Fields) → fs.keys.Nodup → fs.wf = true → {r : fs.Record} →
    {obj : List (String × Json)} → fs.toFields r = some obj → ((pathsInFields obj).map Prod.fst).Nodup
  | .nil, _, _, _, _, h => by
      cases h
      exact List.nodup_nil
  | .cons name also shape rest, hkeys, hwf, r, obj, h => by
      obtain ⟨-, hname, -, hkeys⟩ := Fields.nodup_cons hkeys
      obtain ⟨hdot, -, hshape, hwf⟩ := Fields.wf_cons hwf
      obtain ⟨json, obj', hjson, hobj', rfl⟩ := Fields.toFields_cons h
      have hfirst := Shape.nodup_pathsIn shape hshape hjson
      have hrest := Fields.nodup_pathsIn rest hkeys hwf hobj'
      have hhead : ((pathsIn json).map fun e => ([name] ++ e.1, e.2)).map Prod.fst =
          ((pathsIn json).map Prod.fst).map (name :: ·) := by
        rw [List.map_map, List.map_map]
        rfl
      rw [pathsInFields, parts_of_notMem hdot, List.map_append, hhead]
      refine List.nodup_append.mpr ⟨hfirst.map fun _ _ heq => (List.cons.inj heq).2, hrest, ?_⟩
      intro p hp p' hp' heq
      obtain ⟨p'', -, rfl⟩ := List.mem_map.mp hp
      obtain ⟨e, he, rfl⟩ := List.mem_map.mp hp'
      obtain ⟨key, ps, hps, hkey⟩ := Fields.pathsIn_toFields rest hwf hobj' e he
      rw [hps] at heq
      exact hname ((List.cons.inj heq).1 ▸ hkey)

end

/-- **The rows of a struct are its paths.** -/
theorem parts_collectSettingsJson {fs : Fields} (hwf : (Shape.struct fs).wf = true) {r : fs.Record} {json : Json}
    (h : (Shape.struct fs).toValue r = some json) :
    (collectSettingsJson json "" []).map (fun e => (parts e.1, e.2)) = pathsIn json := by
  have hnodup := Shape.nodup_pathsIn (.struct fs) hwf h
  obtain ⟨obj, hobj, rfl⟩ := Option.map_eq_some_iff.mp h
  have hparts : (flat (.object obj) "").map (fun e => (parts e.1, e.2)) = pathsIn (.object obj) := by
    rw [flat, pathsIn]
    exact Fields.parts_flat fs (Shape.wf_struct hwf).2 hobj
  have hdistinct : ((flat (.object obj) "").map Prod.fst).Nodup := by
    rw [← hparts, List.map_map] at hnodup
    have hsplit : (flat (.object obj) "").map (Prod.fst ∘ fun e : String × Json => (parts e.1, e.2)) =
        ((flat (.object obj) "").map Prod.fst).map parts := by
      rw [List.map_map]
      rfl
    rw [hsplit] at hnodup
    exact hnodup.of_map parts
  rw [collectSettingsJson_eq, addAll_eq hdistinct]
  exact hparts

end Flat

/-! ## The round trip -/

section RoundTrip

variable {serde : Serde}

/-- The rows of a map from dotted paths, by the parts of the paths. -/
def rowsOf (serde : Serde) (map : List (String × Json)) : List Row :=
  textsOf serde (map.map fun e => (parts e.1, e.2))

theorem set_eq (settings : Settings) (path value : String) : ((set serde settings path value).toOption).getD settings =
      settingsShape.update serde value (parts path) settings := by
  have hset : ∀ json, setAt serde value json (parts path) = (setIn serde path value json (parts path)).toOption := by
    intro json
    rw [setIn_path]
    obtain ⟨key, ps, hps⟩ := List.exists_cons_of_ne_nil (parts_ne_nil path)
    rw [hps]
    rfl
  unfold Shape.update set
  cases settingsShape.toValue settings with
  | none => rfl
  | some json =>
    rw [Option.bind_some, hset]
    show ((setIn serde path value json (parts path)).bind _).toOption.getD settings = _
    cases setIn serde path value json (parts path) with
    | error e => rfl
    | ok json' =>
      dsimp only [Except.bind, Except.toOption]
      rw [Option.bind_some]
      cases settingsShape.fromValue json' <;> rfl

theorem applyRow_eq (settings : Settings) (row : String × Json) : applyRow serde settings row =
      (rowsOf serde [row]).foldl (fun v e => settingsShape.update serde e.2 e.1 v) settings := by
  obtain ⟨path, json⟩ := row
  cases htext : valueStr serde json with
  | none =>
    have hrows : rowsOf serde [(path, json)] = [] := by simp [rowsOf, textsOf, htext]
    rw [hrows, applyRow, htext]
    rfl
  | some value =>
    have hrows : rowsOf serde [(path, json)] = [(parts path, value)] := by simp [rowsOf, textsOf, htext]
    rw [hrows, applyRow, htext]
    refine Eq.trans ?_ (set_eq settings path value)
    dsimp only
    cases set serde settings path value <;> rfl

/-- **`from_db_map` lays the rows over the defaults.** -/
theorem fromDbMap_eq (map : List (String × Json)) :
    fromDbMap serde map = settingsShape.updateAll serde (rowsOf serde map) settingsShape.default := by
  have hall : ∀ settings : Settings, map.foldl (applyRow serde) settings =
      (rowsOf serde map).foldl (fun v e => settingsShape.update serde e.2 e.1 v) settings := by
    induction map with
    | nil => exact fun _ => rfl
    | cons row map ih =>
      intro settings
      have hsplit : rowsOf serde (row :: map) = rowsOf serde [row] ++ rowsOf serde map :=
        textsOf_append [(parts row.1, row.2)] _
      rw [List.foldl_cons, ih, hsplit, List.foldl_append, applyRow_eq]
  exact hall settingsShape.default

/-- The shape of the settings names no field twice. -/
theorem wf_settingsShape : settingsShape.wf = true := by
  decide +kernel

mutual

/-- What is restorable can be written. -/
theorem Shape.Restorable.toValue : (s : Shape) → {v : s.Value} → s.Restorable serde v → (s.toValue v).isSome
  | .leaf .optionPath, v, h => by
      cases v with
      | none => rfl
      | some p =>
        obtain ⟨s, hs, -⟩ := h p rfl
        show (p.toStr.map Json.string).isSome
        rw [hs]
        rfl
  | .leaf .optionU16, v, _ => by
      cases v <;> rfl
  | .leaf .optionUsize, v, _ => by
      cases v <;> rfl
  | .leaf .optionString, v, _ => by
      cases v <;> rfl
  | .leaf (.bool _ _), _, _ => rfl
  | .leaf (.string _), _, _ => rfl
  | .leaf (.u32 _), _, _ => rfl
  | .leaf (.u64 _), _, _ => rfl
  | .leaf .keySource, _, _ => rfl
  | .leaf .strings, _, _ => rfl
  | .leaf .ownerIds, _, _ => rfl
  | .struct fs, _, h => by
      rw [Shape.toValue, Option.isSome_map]
      exact Fields.Restorable.toFields fs h

theorem Fields.Restorable.toFields : (fs : Fields) → {r : fs.Record} → fs.Restorable serde r → (fs.toFields r).isSome
  | .nil, _, _ => rfl
  | .cons _ _ shape rest, _, h =>
    Fields.toFields_isSome (Shape.Restorable.toValue shape h.1) (Fields.Restorable.toFields rest h.2)

end

/-- Rows keep what can be written. -/
theorem updateAll_isSome {s : Shape} {rows : List Row} {v : s.Value} (h : (s.toValue v).isSome) :
    (s.toValue (s.updateAll serde rows v)).isSome := by
  induction rows generalizing v with
  | nil => exact h
  | cons e rows ih => exact ih (Shape.update_isSome serde h)

/-- What is read from the database can be written to it. -/
theorem toValue_fromDbMap (map : List (String × Json)) : (settingsShape.toValue (fromDbMap serde map)).isSome := by
  rw [fromDbMap_eq]
  exact updateAll_isSome (Shape.toValue_default settingsShape)

/-- **Settings that can be written** come back exactly when they are restorable. -/
theorem written_restored {s : Settings} {json : Json} (hjson : settingsShape.toValue s = some json)
    (hreads : settingsShape.ReadsBack serde s) {map extras : List (String × Json)} (hmap : map.Perm (toDbMap s ++ extras))
    (hextras : ∀ e ∈ extras, settingsShape.Unknown (parts e.1)) :
    fromDbMap serde map = s ↔ settingsShape.Restorable serde s := by
  rw [fromDbMap_eq]
  have hrows : (rowsOf serde map).Perm (textsOf serde (pathsIn json) ++ rowsOf serde extras) := by
    have hown : toDbMap s = collectSettingsJson json "" [] := by rw [toDbMap, hjson]
    have hpaths : (toDbMap s).map (fun e => (parts e.1, e.2)) = pathsIn json := by
      rw [hown]
      exact parts_collectSettingsJson wf_settingsShape hjson
    have hperm : (rowsOf serde map).Perm (rowsOf serde (toDbMap s ++ extras)) :=
      (hmap.map fun e : String × Json => (parts e.1, e.2)).filterMap _
    rwa [rowsOf, rowsOf, List.map_append, textsOf_append, hpaths] at hperm
  refine Shape.restored settingsShape wf_settingsShape hjson hreads hrows fun e he => ?_
  obtain ⟨json', hmem, -⟩ := mem_textsOf he
  obtain ⟨e', he', heq⟩ := List.mem_map.mp hmem
  exact (congrArg Prod.fst heq) ▸ hextras e' he'

end RoundTrip

/-! ## Settings with a model and owners -/

section Samples

variable {serde : Serde}

theorem FieldType.readsBack_default (h : serde.fromStr (serde.toText (.array [])) = some (.array [])) (t : FieldType) :
    t.ReadsBack serde t.default := by
  cases t with
  | optionU16 => exact fun n hn => by cases hn
  | optionUsize => exact fun n hn => by cases hn
  | optionString => exact fun s hs => by cases hs
  | optionPath => exact fun p s hp => by cases hp
  | strings =>
    show (serde.fromStr (serde.toText (.array []))).bind _ = _
    rw [h]
    rfl
  | ownerIds =>
    intro k v hv
    rw [show FieldType.ownerIds.default = (∅ : OwnerIds) from rfl, Finmap.lookup_empty] at hv
    cases hv
  | _ => exact True.intro

theorem FieldType.restorable_default (t : FieldType) : t.Restorable serde t.default := by
  cases t with
  | optionString => exact fun s hs => by cases hs
  | optionPath => exact fun p hp => by cases hp
  | ownerIds =>
    intro k v hv
    rw [show FieldType.ownerIds.default = (∅ : OwnerIds) from rfl, Finmap.lookup_empty] at hv
    cases hv
  | _ => exact True.intro

mutual

variable {P : (t : FieldType) → t.Value → Prop}

theorem Shape.all_default (h : ∀ t, P t t.default) : (s : Shape) →
    s.All P s.default
  | .leaf t => h t
  | .struct fs => Fields.all_default h fs

theorem Fields.all_default (h : ∀ t, P t t.default) : (fs : Fields) →
    fs.All P fs.default
  | .nil => True.intro
  | .cons _ _ shape rest => ⟨Shape.all_default h shape, Fields.all_default h rest⟩

end

/-- One field of a struct put to another value. -/
def Fields.put (name : String) (f : (s : Shape) → s.Value → s.Value) : (fs : Fields) → fs.Record → fs.Record
  | .nil, r => r
  | .cons name' _ shape rest, r => if name' = name then (f shape r.1, r.2) else (r.1, rest.put name f r.2)

variable {rest : Fields} {also : Option String} {shape : Shape} {name : String} {f : (s : Shape) → s.Value → s.Value}

theorem Fields.put_self (v : shape.Value) (r : rest.Record) :
    (Fields.cons name also shape rest).put name f (v, r) = (f shape v, r) := if_pos rfl

theorem Fields.put_ne {name' : String} (h : name' ≠ name) (v : shape.Value)
    (r : rest.Record) : (Fields.cons name' also shape rest).put name f (v, r) = (v, rest.put name f r) := if_neg h

variable {P : (t : FieldType) → t.Value → Prop}

theorem Fields.all_put {name : String}
    (h : ∀ (s : Shape) (v : s.Value), s.All P v → s.All P (f s v)) : (fs : Fields) → {r : fs.Record} → fs.All P r →
    fs.All P (fs.put name f r)
  | .nil, _, _ => True.intro
  | .cons name' _ shape rest, (v, r), hall => by
      by_cases heq : name' = name
      · subst heq
        rw [Fields.put_self]
        exact ⟨h shape v hall.1, hall.2⟩
      · rw [Fields.put_ne heq]
        exact ⟨hall.1, Fields.all_put h rest hall.2⟩

def Fields.shapeOf (name : String) : Fields → Option Shape
  | .nil => none
  | .cons name' _ shape rest => if name' = name then some shape else rest.shapeOf name

/-- What holds of all fields holds of the one that was put. -/
theorem Fields.all_of_put {name : String}
    {shape : Shape} : (fs : Fields) → fs.shapeOf name = some shape →
    {r : fs.Record} → fs.All P (fs.put name f r) → ∃ v, shape.All P (f shape v)
  | .nil, h, _, _ => by
      cases h
  | .cons name' _ shape' rest, h, (v, r), hall => by
      by_cases heq : name' = name
      · subst heq
        obtain rfl : shape' = shape := by simpa [Fields.shapeOf] using h
        rw [Fields.put_self] at hall
        exact ⟨v, hall.1⟩
      · rw [Fields.shapeOf, if_neg heq] at h
        rw [Fields.put_ne heq] at hall
        exact Fields.all_of_put rest h hall.2

def setText (text : String) : (s : Shape) → s.Value → s.Value
  | .leaf .optionString, _ => some text
  | _, v => v

def setOwners (owners : OwnerIds) : (s : Shape) → s.Value → s.Value
  | .leaf .ownerIds, _ => owners
  | _, v => v

/-- The default settings with a selected model and the owner of a channel. -/
def withModel (model channel : String) (owner : Int64) : Settings :=
  settingsFields.put "selected_model" (setText model) (settingsFields.put "channels"
    (fun
      | .struct fields, r => fields.put "wasm_channel_owner_ids" (setOwners ((∅ : OwnerIds).insert channel owner)) r
      | .leaf _, v => v)
    settingsFields.default)

variable {owner : Int64} {channel model : String}

theorem all_withModel (hdefault : ∀ t, P t t.default)
    (hmodel : P .optionString (some model)) (howners : P .ownerIds ((∅ : OwnerIds).insert channel owner)) :
    settingsShape.All P (withModel model channel owner) := by
  refine Fields.all_put ?_ settingsFields (Fields.all_put ?_ settingsFields (Fields.all_default hdefault _))
  · intro s v hall
    cases s with
    | leaf t =>
      cases t with
      | optionString => exact hmodel
      | _ => exact hall
    | struct fields => exact hall
  · intro s v hall
    cases s with
    | leaf t => exact hall
    | struct fields =>
      refine Fields.all_put (fun s v hall => ?_) fields hall
      cases s with
      | leaf t =>
        cases t with
        | ownerIds => exact howners
        | _ => exact hall
      | struct fields => exact hall

theorem lookup_single {k k' : String} {v v' : Int64} (h : ((∅ : OwnerIds).insert k v).lookup k' = some v') :
    k' = k ∧ v' = v := by
  by_cases heq : k' = k
  · subst heq
    rw [Finmap.lookup_insert] at h
    exact ⟨rfl, (Option.some.inj h).symm⟩
  · rw [Finmap.lookup_insert_of_ne _ heq, Finmap.lookup_empty] at h
    cases h

theorem readsBack_withModel (harray : serde.fromStr (serde.toText (.array [])) = some (.array []))
    (hmodel : serde.fromStr model ≠ some (.string model))
    (howner : (valueStr serde (i64Value owner)).bind (fun text => (serde.fromStr text).bind i64Of) = some owner) :
    settingsShape.ReadsBack serde (withModel model channel owner) := by
  refine all_withModel (FieldType.readsBack_default harray) ?_ ?_
  · intro s hs
    obtain rfl := Option.some.inj hs
    exact hmodel
  · intro k v hv
    obtain ⟨-, rfl⟩ := lookup_single hv
    exact howner

theorem restorable_withModel (hmodel : serde.fromStr model = none) (hchannel : '.' ∉ channel.toList) :
    settingsShape.Restorable serde (withModel model channel owner) := by
  refine all_withModel FieldType.restorable_default ?_ ?_
  · intro s hs
    obtain rfl := Option.some.inj hs
    exact hmodel
  · intro k v hv
    obtain ⟨rfl, -⟩ := lookup_single hv
    exact hchannel

theorem model_of_restorable (h : settingsShape.Restorable serde (withModel model channel owner)) :
    serde.fromStr model = none := by
  have hshape : settingsFields.shapeOf "selected_model" = some (.leaf .optionString) := by
    simp [settingsFields, Fields.shapeOf, Fields.of, field]
  obtain ⟨v, hv⟩ := Fields.all_of_put settingsFields hshape h
  exact hv model rfl

/-- As much of `serde_json` as these settings need: integers and the empty array. -/
def smallSerde : Serde where
  fromStr s := if s = "[]" then some (.array []) else (parseI64 s).map fun i => .number (intNumber i)
  toText _ := "[]"
  parseF64 _ := none
  showF64 _ := ""

theorem readsBack_small (hmodel : smallSerde.fromStr model ≠ some (.string model)) :
    settingsShape.ReadsBack smallSerde (withModel model channel 42) :=
  readsBack_withModel rfl hmodel (by decide +kernel)

end Samples

/-! ## What survives -/

/-- **Settings survive the database exactly when they are restorable**, whatever the order of the rows and whatever
    other rows there are. -/
theorem survives_iff {serde : Serde} {s : Settings} (hreads : settingsShape.ReadsBack serde s)
    {map extras : List (String × Json)} (hmap : map.Perm (toDbMap s ++ extras))
    (hextras : ∀ e ∈ extras, settingsShape.Unknown (parts e.1)) :
    fromDbMap serde map = s ↔ settingsShape.Restorable serde s := by
  cases hjson : settingsShape.toValue s with
  | some json => exact written_restored hjson hreads hmap hextras
  | none =>
    -- What cannot be written is neither read back nor restorable.
    refine iff_of_false (fun heq => ?_) fun hrestorable => ?_
    · have hsome := heq ▸ toValue_fromDbMap map
      simp [hjson] at hsome
    · have hsome := Shape.Restorable.toValue settingsShape hrestorable
      simp [hjson] at hsome

theorem unknown_session : settingsShape.Unknown (parts "nearai.session_token") := by
  have hparts : parts "nearai.session_token" = ["nearai", "session_token"] := by decide +kernel
  rw [hparts]
  refine ⟨by simp, Fields.unknown_of_notMem settingsFields ?_⟩
  decide +kernel

/-- A session token among the rows, and settings that come back. -/
theorem survives_with_session :
    fromDbMap smallSerde (("nearai.session_token", .string "t") :: toDbMap (withModel "gpt-4o" "telegram" 42)) =
      withModel "gpt-4o" "telegram" 42 := by
  have hmodel : smallSerde.fromStr "gpt-4o" = none := by decide +kernel
  have hextras : ∀ e ∈ [("nearai.session_token", Json.string "t")], settingsShape.Unknown (parts e.1) := by
    intro e he
    obtain rfl := List.mem_singleton.mp he
    exact unknown_session
  have hreads : settingsShape.ReadsBack smallSerde (withModel "gpt-4o" "telegram" 42) :=
    readsBack_small (by simp [hmodel])
  refine (survives_iff hreads (List.perm_append_singleton _ _).symm hextras).mpr ?_
  exact restorable_withModel hmodel (by decide +kernel)

/-- A model whose name is a number is lost. -/
theorem numeric_model_lost :
    smallSerde.fromStr "123" = some (natValue 123) ∧
      fromDbMap smallSerde (toDbMap (withModel "123" "telegram" 42)) ≠ withModel "123" "telegram" 42 := by
  have hmodel : smallSerde.fromStr "123" = some (natValue 123) := by
    have hparse : parseI64 "123" = some 123 := by decide +kernel
    simp [smallSerde, hparse, intNumber, natValue]
  have hreads : settingsShape.ReadsBack smallSerde (withModel "123" "telegram" 42) := by
    refine readsBack_small ?_
    rw [hmodel]
    simp [natValue]
  refine ⟨hmodel, fun heq => ?_⟩
  obtain ⟨json, hjson⟩ := Option.isSome_iff_exists.mp (heq ▸ toValue_fromDbMap (toDbMap (withModel "123" "telegram" 42)))
  have hrestorable := (written_restored hjson hreads (List.Perm.of_eq (List.append_nil _).symm)
    (fun e he => by cases he)).mp heq
  rw [model_of_restorable hrestorable] at hmodel
  cases hmodel

end Freeclawdia.Config
