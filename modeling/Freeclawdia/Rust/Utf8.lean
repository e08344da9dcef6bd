import Freeclawdia.Rust.Str

/-!
# `Rust.Utf8` — decoding

`String::from_utf8_lossy`, where every maximal part of an ill-formed sequence becomes one U+FFFD, and the strict
`str::from_utf8`. UTF-8 is self-synchronizing: within the encoding of a text, another one stands only where its
characters do (`infix_of_encodeUtf8`).
-/

namespace Freeclawdia.Rust

/-- U+FFFD. -/
def replacementChar : Char := Char.ofNat 0xFFFD

/-- Is a byte a continuation byte? -/
def isContinuation (b : UInt8) : Bool := b &&& 192 = 128

/-- May `b` follow the first byte of a three-byte sequence? -/
def secondOfThree (a b : UInt8) : Bool :=
  if a = 0xE0 then 0xA0 ≤ b && b ≤ 0xBF else if a = 0xED then 0x80 ≤ b && b ≤ 0x9F else 0x80 ≤ b && b ≤ 0xBF

/-- May `b` follow the first byte of a four-byte sequence? -/
def secondOfFour (a b : UInt8) : Bool :=
  if a = 0xF0 then 0x90 ≤ b && b ≤ 0xBF else if a = 0xF4 then 0x80 ≤ b && b ≤ 0x8F else 0x80 ≤ b && b ≤ 0xBF

/-- The scalar value of a sequence: the payload of its first byte and its continuation bytes. -/
def assemble (first : Nat) (rest : List UInt8) : Char :=
  Char.ofNat (rest.foldl (fun n b => n * 64 + b.toNat % 64) first)

/-- The next character of a byte and what follows it, with the number of following bytes it takes. -/
def nextChar (a : UInt8) (rest : List UInt8) : Char × Nat :=
  if a < 0x80 then (Char.ofNat a.toNat, 0)
  else if 0xC2 ≤ a && a ≤ 0xDF then
    match rest with
    | b :: _ => if isContinuation b then (assemble (a.toNat % 32) [b], 1) else (replacementChar, 0)
    | [] => (replacementChar, 0)
  else if 0xE0 ≤ a && a ≤ 0xEF then
    match rest with
    | b :: c :: _ =>
      if !secondOfThree a b then (replacementChar, 0)
      else if isContinuation c then (assemble (a.toNat % 16) [b, c], 2)
      else (replacementChar, 1)
    | [b] => (replacementChar, if secondOfThree a b then 1 else 0)
    | [] => (replacementChar, 0)
  else if 0xF0 ≤ a && a ≤ 0xF4 then
    match rest with
    | b :: c :: d :: _ =>
      if !secondOfFour a b then (replacementChar, 0)
      else if !isContinuation c then (replacementChar, 1)
      else if isContinuation d then (assemble (a.toNat % 8) [b, c, d], 3)
      else (replacementChar, 2)
    | [b, c] => (replacementChar, if !secondOfFour a b then 0 else if isContinuation c then 2 else 1)
    | [b] => (replacementChar, if secondOfFour a b then 1 else 0)
    | [] => (replacementChar, 0)
  else (replacementChar, 0)

/-- The loop of `from_utf8_lossy`. -/
def lossyChars : (fuel : Nat) → List UInt8 → List Char
  | fuel + 1, a :: rest =>
    let (c, n) := nextChar a rest
    c :: lossyChars fuel (rest.drop n)
  | _, _ => []

/-- `String::from_utf8_lossy`. -/
def fromUtf8Lossy (bytes : List UInt8) : String := String.ofList (lossyChars bytes.length bytes)

example : fromUtf8Lossy [0x61, 0xC3, 0xA9, 0xFF, 0xE2, 0x82] =
    String.ofList ['a', Char.ofNat 0xE9, replacementChar, replacementChar] := by
  decide +kernel

/-! ## Strict decoding -/

/-- The bytes of a text. -/
def encodeUtf8 (text : List Char) : List UInt8 := text.flatMap String.utf8EncodeChar

/-- `str::from_utf8`. -/
def fromUtf8 (bytes : List UInt8) : Option String := String.fromUTF8? bytes.toByteArray

theorem encodeUtf8_cons (c : Char) (text : List Char) :
    encodeUtf8 (c :: text) = String.utf8EncodeChar c ++ encodeUtf8 text := List.flatMap_cons

theorem fromUtf8_eq_some_iff {bytes : List UInt8} {s : String} :
    fromUtf8 bytes = some s ↔ bytes = encodeUtf8 s.toList := by
  have hbytes : s.toByteArray = (encodeUtf8 s.toList).toByteArray := by
    have hencode := String.toByteArray_ofList (l := s.toList)
    rw [String.ofList_toList] at hencode
    exact hencode
  unfold fromUtf8 String.fromUTF8?
  constructor
  · intro h
    split at h
    next hvalid =>
      have hs : (String.fromUTF8 bytes.toByteArray hvalid).toByteArray = s.toByteArray := by rw [Option.some.inj h]
      rw [hbytes] at hs
      exact List.toByteArray_inj.mp hs
    next => cases h
  · rintro rfl
    rw [dif_pos ⟨s.toList, rfl⟩, Option.some.injEq]
    apply String.toByteArray_inj.mp
    rw [hbytes]
    rfl

/-- The first byte of a character tells it from what is inside one. -/
theorem drop_utf8EncodeChar {c d : Char} {k : Nat} {rest rest' : List UInt8} (hk : k < (String.utf8EncodeChar c).length)
    (h : (String.utf8EncodeChar c).drop k ++ rest = String.utf8EncodeChar d ++ rest') : k = 0 := by
  have hd : 0 < (String.utf8EncodeChar d).length := by
    rw [String.length_utf8EncodeChar]
    exact Char.utf8Size_pos d
  have hfirst : ((String.utf8EncodeChar c)[k]).IsUTF8FirstByte := by
    have hbyte := congrArg (fun bytes => bytes[0]?) h
    simp only [List.getElem?_append_left (show 0 < ((String.utf8EncodeChar c).drop k).length by
      rw [List.length_drop]; omega), List.getElem?_append_left hd, List.getElem?_drop, Nat.add_zero,
      List.getElem?_eq_getElem hk, List.getElem?_eq_getElem hd, Option.some.injEq] at hbyte
    rw [hbyte]
    exact UInt8.isUTF8FirstByte_getElem_utf8EncodeChar.mpr rfl
  exact UInt8.isUTF8FirstByte_getElem_utf8EncodeChar.mp hfirst

variable {text w : List Char}

theorem prefix_of_encodeUtf8 (h : encodeUtf8 w <+: encodeUtf8 text) : w <+: text := by
  obtain ⟨rest, hrest⟩ := h
  have hbytes : w.utf8Encode ++ rest.toByteArray = text.utf8Encode := by
    show (encodeUtf8 w).toByteArray ++ rest.toByteArray = (encodeUtf8 text).toByteArray
    rw [← hrest, List.toByteArray_append]
  exact List.isPrefix_of_utf8Encode_append_eq_utf8Encode _ hbytes

/-- **UTF-8 is self-synchronizing.** -/
theorem infix_of_encodeUtf8 (h : encodeUtf8 w <:+: encodeUtf8 text) : w <:+: text := by
  cases w with
  | nil => exact List.nil_infix
  | cons d w =>
    induction text with
    | nil =>
      have hsub := h.sublist.length_le
      have hpos := Char.utf8Size_pos d
      rw [encodeUtf8_cons, List.length_append, String.length_utf8EncodeChar] at hsub
      simp [encodeUtf8] at hsub
      omega
    | cons c text ih =>
      obtain ⟨before, after, heq⟩ := h
      by_cases hlong : (String.utf8EncodeChar c).length ≤ before.length
      · -- It stands behind the first character.
        refine (ih ?_).trans (List.suffix_cons c text).isInfix
        refine ⟨before.drop (String.utf8EncodeChar c).length, after, ?_⟩
        have hdrop := congrArg (List.drop (String.utf8EncodeChar c).length) heq
        rw [encodeUtf8_cons c text, List.drop_left, List.append_assoc, List.drop_append_of_le_length hlong] at hdrop
        rw [List.append_assoc]
        exact hdrop
      · -- It starts within the first character, so with it.
        have hdrop := congrArg (List.drop before.length) heq
        rw [List.append_assoc, List.drop_left, encodeUtf8_cons c text, encodeUtf8_cons d w, List.append_assoc,
          List.drop_append_of_le_length (by omega)] at hdrop
        have hzero := drop_utf8EncodeChar (by omega) hdrop.symm
        rw [List.length_eq_zero_iff] at hzero
        rw [hzero, List.nil_append] at heq
        exact (prefix_of_encodeUtf8 ⟨after, heq⟩).isInfix

theorem encodeUtf8_infix (h : w <:+: text) : encodeUtf8 w <:+: encodeUtf8 text := by
  obtain ⟨before, after, rfl⟩ := h
  refine ⟨encodeUtf8 before, encodeUtf8 after, ?_⟩
  unfold encodeUtf8
  rw [List.flatMap_append, List.flatMap_append]

end Freeclawdia.Rust
