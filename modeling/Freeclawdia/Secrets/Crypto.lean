import Freeclawdia.Rust.Utf8
import Freeclawdia.Rust.Uuid

/-!
# `Secrets.Crypto` — secrets and their encryption

`secrets/types.rs`. A time is a number of nanoseconds since 1970. When a secret was created, changed and last used is
written and returned, but nothing reads it: those columns are left out.
-/

namespace Freeclawdia.Secrets

open Rust

/-- A stored secret with encrypted value. -/
structure Secret where
  id : Uuid
  userId : String
  name : String
  encryptedValue : List UInt8
  keySalt : List UInt8
  provider : Option String
  expiresAt : Option Int
  usageCount : Nat

/-- A reference to a secret by name, without exposing the value. -/
structure SecretRef where
  name : String
  provider : Option String

inductive SecretError
  | notFound (name : String)
  | expired
  | decryptionFailed (reason : String)
  | encryptionFailed (reason : String)
  | invalidMasterKey
  | invalidUtf8
  | database (reason : String)
deriving DecidableEq

/-- Parameters for creating a new secret. -/
structure CreateSecretParams where
  name : String
  value : String
  provider : Option String
  expiresAt : Option Int

/-- The name is normalized to lowercase for case-insensitive matching. -/
def CreateSecretParams.new (name value : String) : CreateSecretParams := ⟨toLowercase name, value, none, none⟩

/-- `DecryptedSecret::from_bytes`. -/
def fromBytes (bytes : List UInt8) : Except SecretError String :=
  match fromUtf8 bytes with
  | some s => .ok s
  | none => .error .invalidUtf8

/-! ## Cryptographic operations for secret storage

`secrets/crypto.rs`. A value is sealed under a key of its own, derived from the master key and a salt; the stored text is
the nonce followed by what the cipher made, its tag at the end. HKDF-SHA256 and AES-256-GCM are parameters, and all that
is used of them is that what was sealed is opened again (`Primitives.Lawful`). -/

/-- HKDF-SHA256 and AES-256-GCM. -/
structure Primitives where
  /-- The key for a salt and a master key. -/
  expand : List UInt8 → List UInt8 → Option (List UInt8)
  aeadEncrypt : (key nonce plaintext : List UInt8) → Except String (List UInt8)
  aeadDecrypt : (key nonce ciphertext : List UInt8) → Except String (List UInt8)

def keySize : Nat := 32

def nonceSize : Nat := 12

def tagSize : Nat := 16

/-- The master key is long enough. -/
structure SecretsCrypto where
  primitives : Primitives
  masterKey : String
  long : keySize ≤ (encodeUtf8 masterKey.toList).length

namespace SecretsCrypto

/-- Create a new crypto instance from a master key. -/
def new (primitives : Primitives) (masterKey : String) : Except SecretError SecretsCrypto :=
  if h : keySize ≤ (encodeUtf8 masterKey.toList).length then .ok ⟨primitives, masterKey, h⟩ else .error .invalidMasterKey

variable (crypto : SecretsCrypto)

/-- Derive a per-secret key. -/
def deriveKey (salt : List UInt8) : Except SecretError (List UInt8) :=
  match crypto.primitives.expand salt (encodeUtf8 crypto.masterKey.toList) with
  | some key => .ok key
  | none => .error (.encryptionFailed "HKDF expansion failed")

/-- Encrypt a secret value, with the salt and the nonce that are drawn for it. -/
def encrypt (salt nonce plaintext : List UInt8) : Except SecretError (List UInt8 × List UInt8) :=
  match crypto.deriveKey salt with
  | .error e => .error e
  | .ok key =>
    match crypto.primitives.aeadEncrypt key nonce plaintext with
    | .error e => .error (.encryptionFailed ("Encryption failed: " ++ e))
    | .ok ciphertext => .ok (nonce ++ ciphertext, salt)

/-- Decrypt a secret value. -/
def decrypt (encryptedValue salt : List UInt8) : Except SecretError String :=
  if encryptedValue.length < nonceSize + tagSize then .error (.decryptionFailed "Encrypted value too short")
  else
    match crypto.deriveKey salt with
    | .error e => .error e
    | .ok key =>
      match crypto.primitives.aeadDecrypt key (encryptedValue.take nonceSize) (encryptedValue.drop nonceSize) with
      | .error e => .error (.decryptionFailed ("Decryption failed: " ++ e))
      | .ok plaintext => fromBytes plaintext

end SecretsCrypto

/-- What was sealed can be opened: a key is found for every salt, and what the cipher makes of a text is the text's
    length and a tag longer, and gives the text back. -/
structure Primitives.Lawful (p : Primitives) : Prop where
  expands : ∀ salt master, ∃ key, p.expand salt master = some key
  opens : ∀ key nonce plaintext, ∃ ciphertext, p.aeadEncrypt key nonce plaintext = .ok ciphertext ∧
    ciphertext.length = plaintext.length + tagSize ∧ p.aeadDecrypt key nonce ciphertext = .ok plaintext

/-- **A value is read back.** -/
theorem SecretsCrypto.decrypt_encrypt {crypto : SecretsCrypto} (hlawful : crypto.primitives.Lawful) {nonce : List UInt8}
    (hnonce : nonce.length = nonceSize) (salt : List UInt8) (value : String) :
    ∃ encryptedValue, crypto.encrypt salt nonce (encodeUtf8 value.toList) = .ok (encryptedValue, salt) ∧
      crypto.decrypt encryptedValue salt = .ok value := by
  obtain ⟨key, hkey⟩ := hlawful.expands salt (encodeUtf8 crypto.masterKey.toList)
  obtain ⟨ciphertext, hseal, hlength, hunseal⟩ := hlawful.opens key nonce (encodeUtf8 value.toList)
  have hderive : crypto.deriveKey salt = .ok key := by
    unfold deriveKey
    rw [hkey]
  refine ⟨nonce ++ ciphertext, ?_, ?_⟩
  · unfold encrypt
    simp only [hderive, hseal]
  · have hlong : ¬ (nonce ++ ciphertext).length < nonceSize + tagSize := by
      rw [List.length_append, hlength, hnonce]
      omega
    have htake : (nonce ++ ciphertext).take nonceSize = nonce := by
      rw [← hnonce]
      exact List.take_left
    have hdrop : (nonce ++ ciphertext).drop nonceSize = ciphertext := by
      rw [← hnonce]
      exact List.drop_left
    unfold decrypt fromBytes
    rw [if_neg hlong]
    simp only [hderive, htake, hdrop, hunseal, fromUtf8_eq_some_iff.mpr rfl]

end Freeclawdia.Secrets
