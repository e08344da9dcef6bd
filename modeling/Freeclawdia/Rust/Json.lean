import Mathlib.Algebra.Group.Int.Defs
import Mathlib.Algebra.Group.Nat.Defs
import Mathlib.Data.List.Basic
import Mathlib.Data.List.Forall2

/-!
# `Rust.Json` — `serde_json::Value`

The JSON tree and the accessors the agent uses on it. Objects are association lists in which a key is
looked up at its first occurrence; `insert` replaces in place, so a list without repeated keys stays one.
Text encoding and decoding are not here: the code calls `serde_json` for them, and the model takes the two
functions as parameters where they are used.
-/

namespace Freeclawdia.Rust

/-- `serde_json::Number`: an integer, or the bits of a double. -/
inductive Number
  | posInt (n : Nat)
  | negInt (i : Int)
  | float (bits : BitVec 64)

/-- `serde_json::Value`. -/
inductive Json
  | null
  | bool (b : Bool)
  | number (n : Number)
  | string (s : String)
  | array (items : List Json)
  | object (fields : List (String × Json))

namespace Json

/-- `Value::get` with a string index: the field of an object. -/
def get (key : String) : Json → Option Json
  | object fields => (fields.find? fun f => f.1 == key).map Prod.snd
  | _ => none

/-- `Value::as_str`. -/
def asStr : Json → Option String
  | string s => some s
  | _ => none

/-- `Value::as_bool`. -/
def asBool : Json → Option Bool
  | bool b => some b
  | _ => none

/-- `Value::as_u64`. -/
def asU64 : Json → Option Nat
  | number (.posInt n) => if n < 2 ^ 64 then some n else none
  | _ => none

theorem asU64_lt {value : Json} {n : Nat} (h : value.asU64 = some n) : n < 2 ^ 64 := by
  unfold asU64 at h
  split at h
  · split at h
    next hlt =>
      cases h
      exact hlt
    next => cases h
  · cases h

/-- `Map::contains_key`. -/
def hasKey (key : String) (fields : List (String × Json)) : Bool := fields.any fun f => f.1 == key

/-- `Map::insert`: replace the value of a present key, append an absent one. -/
def insertField (key : String) (value : Json) : List (String × Json) → List (String × Json)
  | [] => [(key, value)]
  | f :: fs => if f.1 = key then (key, value) :: fs else f :: insertField key value fs

/-! ## Fields after an insertion -/

section Fields

variable {key key' : String} {value : Json}

theorem get_insertField_self (fields : List (String × Json)) :
    (object (insertField key value fields)).get key = some value := by
  induction fields with
  | nil => simp [insertField, get]
  | cons f fs ih =>
    unfold insertField
    split
    · simp [get]
    · next hne =>
        simp only [get] at ih ⊢
        rw [List.find?_cons_of_neg (by simpa using hne)]
        exact ih

theorem get_insertField_ne (h : key' ≠ key) (fields : List (String × Json)) :
    (object (insertField key value fields)).get key' = (object fields).get key' := by
  induction fields with
  | nil => simp [insertField, get, Ne.symm h]
  | cons f fs ih =>
    unfold insertField
    split
    · next heq =>
        simp only [get]
        rw [List.find?_cons_of_neg (by simpa using Ne.symm h),
          List.find?_cons_of_neg (by rw [heq]; simpa using Ne.symm h)]
    · simp only [get] at ih ⊢
      by_cases hf : f.1 = key'
      · rw [List.find?_cons_of_pos (by simpa using hf), List.find?_cons_of_pos (by simpa using hf)]
      · rw [List.find?_cons_of_neg (by simpa using hf), List.find?_cons_of_neg (by simpa using hf)]
        exact ih

/-- Inserting the value a key already has changes nothing. -/
theorem insertField_of_get {fields : List (String × Json)} (h : (object fields).get key = some value) :
    insertField key value fields = fields := by
  induction fields with
  | nil => simp [get] at h
  | cons f fs ih =>
    unfold insertField
    split
    · next heq =>
        simp only [get] at h
        rw [List.find?_cons_of_pos (by simpa using heq)] at h
        have hv : f.2 = value := Option.some.inj h
        rw [← heq, ← hv]
    · next hne =>
        congr 1
        apply ih
        simp only [get] at h ⊢
        rw [List.find?_cons_of_neg (by simpa using hne)] at h
        exact h

end Fields

end Json
/-! ## What `#[derive(Deserialize)]` makes of a JSON value

A struct is read from an object by the names of its members, or from an array by their places. Members it does not know
are skipped, a member that is missing is an error unless it is an `Option` or has a default, and so is a member that is
there twice, under its name and an alias. No result is an error; its text is the caller's business. -/

namespace Serde

abbrev Decode (α : Type) := Json → Option α

section Decoders

variable {α : Type}

/-- A value that a struct with so many members can be read from. -/
def isStruct (members : Nat) : Json → Bool
  | .object _ => true
  | .array items => decide (items.length ≤ members)
  | _ => false

variable (names : List String)

/-- A member by its names or its place; none is an error. -/
def member (place : Nat) (j : Json) : Option (Option Json) :=
  match j with
  | .object _ =>
    match names.filterMap fun name => j.get name with
    | [] => some none
    | [v] => some (some v)
    | _ => none
  | .array items => some items[place]?
  | _ => none

def required (place : Nat) (decode : Decode α) : Decode α := fun j =>
  match member names place j with
  | some (some v) => decode v
  | _ => none

/-- `#[serde(default)]`. -/
def withDefault (place : Nat) (dflt : α) (decode : Decode α) : Decode α := fun j =>
  match member names place j with
  | some (some v) => decode v
  | some none => some dflt
  | none => none

/-- `Option`: null is none. -/
def nullable (decode : Decode α) : Decode (Option α)
  | .null => some none
  | j => (decode j).map some

/-- An `Option` without a default may be missing in an object. -/
def optional (place : Nat) (decode : Decode α) : Decode (Option α) := fun j =>
  match j with
  | .object _ => withDefault names place none (nullable decode) j
  | _ => required names place (nullable decode) j

def list (decode : Decode α) : Decode (List α)
  | .array items => items.mapM decode
  | _ => none

/-- A variant without data: its name, or an object with its name and null. -/
def unitVariant (variants : List (String × α)) : Decode α
  | .string s => variants.lookup s
  | .object [(name, .null)] => variants.lookup name
  | _ => none

/-- `serde_json::Value`. -/
def anyJson : Decode Json := some

/-! ## Members of an object -/

theorem member_object (name : String) (place : Nat) (fields : List (String × Json)) :
    member [name] place (.object fields) = some ((Json.object fields).get name) := by
  unfold member
  cases h : (Json.object fields).get name <;> simp [h]

theorem required_object (name : String) (place : Nat) (decode : Decode α) (fields : List (String × Json)) :
    required [name] place decode (.object fields) = ((Json.object fields).get name).bind decode := by
  unfold required
  rw [member_object]
  cases (Json.object fields).get name <;> rfl

theorem withDefault_object (name : String) (place : Nat) (dflt : α) (decode : Decode α) (fields : List (String × Json)) :
    withDefault [name] place dflt decode (.object fields) =
      match (Json.object fields).get name with
      | some v => decode v
      | none => some dflt := by
  unfold withDefault
  rw [member_object]
  cases (Json.object fields).get name <;> rfl

theorem optional_object (name : String) (place : Nat) (decode : Decode α) (fields : List (String × Json)) :
    optional [name] place decode (.object fields) =
      match (Json.object fields).get name with
      | some v => nullable decode v
      | none => some none := withDefault_object name place none (nullable decode) fields

/-- A list is read item by item. -/
theorem list_array_iff {decode : Decode α} {items : List Json} {values : List α} :
    list decode (.array items) = some values ↔ List.Forall₂ (fun j v => decode j = some v) items values := by
  show items.mapM decode = some values ↔ _
  induction items generalizing values with
  | nil => simp [List.forall₂_nil_left_iff, eq_comm]
  | cons j items ih =>
    rw [List.mapM_cons]
    cases hj : decode j with
    | none =>
      constructor
      · intro h
        simp at h
      · rintro (_ | ⟨hv, -⟩)
        rw [hj] at hv
        cases hv
    | some v =>
      cases hrest : items.mapM decode with
      | none =>
        constructor
        · intro h
          simp at h
        · rintro (_ | ⟨-, hvs⟩)
          rw [hrest] at ih
          exact absurd (ih.mpr hvs) (by simp)
      | some vs =>
        rw [hrest] at ih
        constructor
        · intro h
          obtain rfl : v :: vs = values := by simpa using h
          exact .cons hj (ih.mp rfl)
        · rintro (_ | ⟨hv, hvs⟩)
          obtain rfl := Option.some.inj (hj.symm.trans hv)
          obtain rfl := Option.some.inj (ih.mpr hvs)
          rfl

end Decoders

end Serde
end Freeclawdia.Rust
