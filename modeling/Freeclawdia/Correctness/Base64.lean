import Freeclawdia.Tools.Wasm.CredentialInjector
import Mathlib.Data.Nat.Bitwise

/-!
# `Correctness.Base64` — the encoder of basic authorization is the Base64 of RFC 4648

`decode` reads a text by the standard: groups of four characters, padding in the last one only, and nothing in the
bits that padding leaves over. It takes back whatever `base64Chars` writes.
-/

namespace Freeclawdia.Base64

/-- The place of a character in the alphabet. -/
def value (c : Char) : Option Nat :=
  if 'A' ≤ c ∧ c ≤ 'Z' then some (c.toNat - 65)
  else if 'a' ≤ c ∧ c ≤ 'z' then some (c.toNat - 71)
  else if '0' ≤ c ∧ c ≤ '9' then some (c.toNat + 4)
  else if c = '+' then some 62
  else if c = '/' then some 63
  else none

/-- The standard decoding. -/
def decode : List Char → Option (List UInt8)
  | [] => some []
  | a :: b :: c :: d :: rest =>
    if d ≠ '=' then do
      let n := (((← value a) * 64 + (← value b)) * 64 + (← value c)) * 64 + (← value d)
      return .ofNat (n / 65536) :: .ofNat (n / 256) :: .ofNat n :: (← decode rest)
    else if rest ≠ [] then none
    else if c ≠ '=' then do
      let n := ((← value a) * 64 + (← value b)) * 64 + (← value c)
      if n % 4 = 0 then return [.ofNat (n / 1024), .ofNat (n / 4)] else none
    else do
      let n := (← value a) * 64 + (← value b)
      if n % 16 = 0 then return [.ofNat (n / 16)] else none
  | _ => none

/-! ## Six bits -/

variable {i : UInt8}

theorem value_base64Char (h : i.toNat < 64) : value (base64Char i) = some i.toNat ∧ base64Char i ≠ '=' := by
  have key : ∀ n < 64, value (base64Char (UInt8.ofNat n)) = some n ∧ base64Char (UInt8.ofNat n) ≠ '=' := by
    decide +kernel
  simpa using key i.toNat h

theorem toNat_low (x : UInt8) : (x &&& 0x3F).toNat = x.toNat % 64 := by
  rw [UInt8.toNat_and]
  exact Nat.and_two_pow_sub_one_eq_mod x.toNat 6

theorem toNat_high (x : UInt8) : (x >>> 2).toNat = x.toNat / 4 := by
  rw [UInt8.toNat_shiftRight]
  exact Nat.shiftRight_eq_div_pow x.toNat 2

theorem toNat_two (x : UInt8) : ((x &&& 0x03) <<< 4).toNat = x.toNat % 4 * 2 ^ 4 := by
  have hlow : x.toNat &&& 3 = x.toNat % 4 := Nat.and_two_pow_sub_one_eq_mod x.toNat 2
  rw [UInt8.toNat_shiftLeft, UInt8.toNat_and]
  change (x.toNat &&& 3) <<< 4 % 256 = _
  rw [hlow, Nat.shiftLeft_eq]
  omega

theorem toNat_four (x : UInt8) : ((x &&& 0x0F) <<< 2).toNat = x.toNat % 16 * 2 ^ 2 := by
  have hlow : x.toNat &&& 15 = x.toNat % 16 := Nat.and_two_pow_sub_one_eq_mod x.toNat 4
  rw [UInt8.toNat_shiftLeft, UInt8.toNat_and]
  change (x.toNat &&& 15) <<< 2 % 256 = _
  rw [hlow, Nat.shiftLeft_eq]
  omega

variable {n : Nat}

/-- Bits that do not meet are added. -/
theorem toNat_or {x y : UInt8} {i : Nat} (hx : x.toNat = n * 2 ^ i) (hy : y.toNat < 2 ^ i) :
    (x ||| y).toNat = x.toNat + y.toNat := by
  rw [UInt8.toNat_or, hx, ← Nat.shiftLeft_eq, Nat.shiftLeft_add_eq_or_of_lt hy]

/-- The four sextets of three bytes, and what the standard says they are. -/
theorem toNat_sextets (b0 b1 b2 : UInt8) :
    (((b0 &&& 0x03) <<< 4) ||| (b1 >>> 4)).toNat = b0.toNat % 4 * 16 + b1.toNat / 16 ∧
      (((b1 &&& 0x0F) <<< 2) ||| (b2 >>> 6)).toNat = b1.toNat % 16 * 4 + b2.toNat / 64 := by
  have h1 := b1.toNat_lt
  have h2 := b2.toNat_lt
  have hfour : (b1 >>> 4).toNat = b1.toNat / 16 := by
    rw [UInt8.toNat_shiftRight]
    exact Nat.shiftRight_eq_div_pow b1.toNat 4
  have hsix : (b2 >>> 6).toNat = b2.toNat / 64 := by
    rw [UInt8.toNat_shiftRight]
    exact Nat.shiftRight_eq_div_pow b2.toNat 6
  constructor
  · rw [toNat_or (toNat_two b0) (by omega), toNat_two, hfour]
    rfl
  · rw [toNat_or (toNat_four b1) (by omega), toNat_four, hsix]
    rfl

/-! ## Texts -/

/-- Padding at the end only, of at most two characters. -/
def PaddedAtEnd (text : List Char) : Prop := ∃ front pad, text = front ++ List.replicate pad '=' ∧ pad ≤ 2 ∧ '=' ∉ front

/-- A sextet is written as a character that stands for it, and is not padding. -/
theorem value_of_toNat (h : i.toNat = n) (hn : n < 64) : value (base64Char i) = some n ∧ base64Char i ≠ '=' := by
  subst h
  exact value_base64Char hn

theorem ofNat_eq {b : UInt8} (h : n % 256 = b.toNat) : UInt8.ofNat n = b := by
  rw [← UInt8.toNat_inj, UInt8.toNat_ofNat', h]

theorem decode_base64Chars (bytes : List UInt8) : decode (base64Chars bytes) = some bytes := by
  induction bytes using base64Chars.induct with
  | case1 b0 b1 b2 rest ih =>
    have h0 := b0.toNat_lt
    have h1 := b1.toNat_lt
    have h2 := b2.toNat_lt
    obtain ⟨hv1, -⟩ := value_of_toNat (toNat_high b0) (by omega)
    obtain ⟨hv2, -⟩ := value_of_toNat (toNat_sextets b0 b1 b2).1 (by omega)
    obtain ⟨hv3, -⟩ := value_of_toNat (toNat_sextets b0 b1 b2).2 (by omega)
    obtain ⟨hv4, hne⟩ := value_of_toNat (toNat_low b2) (by omega)
    simp only [base64Chars, List.cons_append, List.nil_append, decode, if_pos hne, hv1, hv2, hv3, hv4, ih]
    refine congrArg some ?_
    rw [ofNat_eq (b := b0) (by omega), ofNat_eq (b := b1) (by omega), ofNat_eq (b := b2) (by omega)]
  | case2 b0 b1 =>
    have h0 := b0.toNat_lt
    have h1 := b1.toNat_lt
    obtain ⟨hv1, -⟩ := value_of_toNat (toNat_high b0) (by omega)
    obtain ⟨hv2, -⟩ := value_of_toNat (toNat_sextets b0 b1 0).1 (by omega)
    obtain ⟨hv3, hne⟩ := value_of_toNat (toNat_four b1) (by omega)
    simp only [base64Chars, decode, ne_eq, not_true_eq_false, if_false, if_pos hne, hv1, hv2, hv3]
    refine (if_pos ?_).trans (congrArg some ?_)
    · omega
    · rw [ofNat_eq (b := b0) (by omega), ofNat_eq (b := b1) (by omega)]
  | case3 b0 =>
    have h0 := b0.toNat_lt
    obtain ⟨hv1, -⟩ := value_of_toNat (toNat_high b0) (by omega)
    obtain ⟨hv2, -⟩ := value_of_toNat (toNat_two b0) (by omega)
    simp only [base64Chars, decode, ne_eq, not_true_eq_false, if_false, hv1, hv2]
    refine (if_pos ?_).trans (congrArg some ?_)
    · omega
    · rw [ofNat_eq (b := b0) (by omega)]
  | case4 => rfl

theorem length_base64Chars (bytes : List UInt8) : (base64Chars bytes).length = 4 * ((bytes.length + 2) / 3) := by
  induction bytes using base64Chars.induct with
  | case1 b0 b1 b2 rest ih =>
    rw [base64Chars, List.length_append, ih]
    simp only [List.length_cons, List.length_nil]
    omega
  | case2 b0 b1 => simp [base64Chars]
  | case3 b0 => simp [base64Chars]
  | case4 => simp [base64Chars]

theorem paddedAtEnd_base64Chars (bytes : List UInt8) : PaddedAtEnd (base64Chars bytes) := by
  induction bytes using base64Chars.induct with
  | case1 b0 b1 b2 rest ih =>
    obtain ⟨front, pad, hrest, hpad, hno⟩ := ih
    have h0 := b0.toNat_lt
    have h1 := b1.toNat_lt
    have h2 := b2.toNat_lt
    have hne1 := (value_of_toNat (toNat_high b0) (by omega)).2
    have hne2 := (value_of_toNat (toNat_sextets b0 b1 b2).1 (by omega)).2
    have hne3 := (value_of_toNat (toNat_sextets b0 b1 b2).2 (by omega)).2
    have hne4 := (value_of_toNat (toNat_low b2) (by omega)).2
    rw [base64Chars, hrest, ← List.append_assoc]
    refine ⟨_, pad, rfl, hpad, ?_⟩
    simp [hne1.symm, hne2.symm, hne3.symm, hne4.symm, hno]
  | case2 b0 b1 =>
    have h0 := b0.toNat_lt
    have h1 := b1.toNat_lt
    have hne1 := (value_of_toNat (toNat_high b0) (by omega)).2
    have hne2 := (value_of_toNat (toNat_sextets b0 b1 0).1 (by omega)).2
    have hne3 := (value_of_toNat (toNat_four b1) (by omega)).2
    refine ⟨[_, _, _], 1, rfl, by omega, ?_⟩
    simp [hne1.symm, hne2.symm, hne3.symm]
  | case3 b0 =>
    have h0 := b0.toNat_lt
    have hne1 := (value_of_toNat (toNat_high b0) (by omega)).2
    have hne2 := (value_of_toNat (toNat_two b0) (by omega)).2
    refine ⟨[_, _], 2, rfl, le_refl 2, ?_⟩
    simp [hne1.symm, hne2.symm]
  | case4 => exact ⟨[], 0, rfl, by omega, by simp⟩

/-- **The encoder is Base64**: decoding gives the bytes back, so no two byte strings are written alike. -/
theorem base64_correct (bytes : List UInt8) :
    decode (base64Chars bytes) = some bytes ∧ (base64Chars bytes).length = 4 * ((bytes.length + 2) / 3) ∧
      PaddedAtEnd (base64Chars bytes) ∧ ∀ other, base64Chars other = base64Chars bytes → other = bytes := by
  refine ⟨decode_base64Chars bytes, length_base64Chars bytes, paddedAtEnd_base64Chars bytes, ?_⟩
  intro other h
  have hdecoded := decode_base64Chars other
  rw [h, decode_base64Chars bytes] at hdecoded
  exact (Option.some.inj hdecoded).symm

end Freeclawdia.Base64
