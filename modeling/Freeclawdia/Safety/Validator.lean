import Freeclawdia.Rust.Json
import Freeclawdia.Rust.Str

/-!
# `Safety.Validator` — which texts are let in

`src/safety/validator.rs`. A text is refused when it is empty, too long or has a NUL in it, and the parameters of a
tool are refused when some text in them is. The safety layer makes its validator with `Validator::new`: these bounds,
and no forbidden pattern. Warnings refuse nothing and nothing modelled reads them, so a result is its errors.
-/

namespace Freeclawdia.Validator

open Rust

/-- A validation error. -/
structure ValidationError where
  field : String
  message : String
deriving DecidableEq

/-- How an error is told. -/
def ValidationError.display (e : ValidationError) : String := e.field ++ ": " ++ e.message

def maxLength : Nat := 100000

def minLength : Nat := 1

/-- `Validator::validate`. -/
def validate (input : String) : List ValidationError :=
  if input.toList.isEmpty then [⟨"input", "Input cannot be empty"⟩]
  else
    (if maxLength < byteLen input then
      [⟨"input", s!"Input too long: {byteLen input} bytes (max {maxLength})"⟩] else [])
      ++ (if byteLen input < minLength then
        [⟨"input", s!"Input too short: {byteLen input} bytes (min {minLength})"⟩] else [])
      ++ if input.toList.contains (Char.ofNat 0) then [⟨"input", "Input contains null bytes"⟩] else []

mutual

/-- `check_strings`: the errors of every text in a value. -/
def checkStrings : Json → List ValidationError
  | .string s => validate s
  | .array items => checkItems items
  | .object fields => checkFields fields
  | _ => []

def checkItems : List Json → List ValidationError
  | [] => []
  | item :: rest => checkStrings item ++ checkItems rest

def checkFields : List (String × Json) → List ValidationError
  | [] => []
  | (_, v) :: rest => checkStrings v ++ checkFields rest

end

/-- `Validator::validate_tool_params`. -/
def validateToolParams (params : Json) : List ValidationError := checkStrings params

/-- What a caller is told of refused parameters. -/
def details (params : Json) : List String := (validateToolParams params).map (·.display)

/-- A field is judged by its value. -/
theorem checkFields_insertField {v v' : Json} (h : checkStrings v = checkStrings v') (key : String)
    (fields : List (String × Json)) :
    checkFields (Json.insertField key v fields) = checkFields (Json.insertField key v' fields) := by
  induction fields with
  | nil => simp only [Json.insertField, checkFields, h]
  | cons f fs ih =>
    obtain ⟨k, value⟩ := f
    unfold Json.insertField
    split
    · simp only [checkFields, h]
    · simp only [checkFields, ih]

example : details (.object [("name", .string "token"), ("value", .string "")]) = ["input: Input cannot be empty"] := by
  decide

end Freeclawdia.Validator
