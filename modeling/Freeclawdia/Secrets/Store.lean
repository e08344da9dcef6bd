import Freeclawdia.Lib.Map
import Freeclawdia.Secrets.Crypto
import Mathlib.Data.String.Basic

/-!
# `Secrets.Store` — the three secret stores

`secrets/store.rs`: Postgres, libSQL and memory. The two databases share their table, of which the user and the name are
one key and the id another (`SecretsTable`); they differ in what they keep of an expiry, and in the order of names. The
store in memory is a map that replaces a secret as a whole and keeps no usage.

A database that fails is not modelled, but for the constraints of the table.
-/

namespace Freeclawdia.Secrets

open Rust

/-- What an operation draws, and the time it reads. -/
structure Draw where
  id : Uuid
  salt : List UInt8
  nonce : List UInt8
  now : Int

/-- Trait for secret storage operations. -/
structure SecretsStore (σ : Type) where
  create : σ → (userId : String) → CreateSecretParams → Draw → Except SecretError Secret × σ
  get : σ → (userId name : String) → (now : Int) → Except SecretError Secret
  getDecrypted : σ → (userId name : String) → (now : Int) → Except SecretError String
  exists? : σ → (userId name : String) → Bool
  list : σ → (userId : String) → List SecretRef
  delete : σ → (userId name : String) → Bool × σ
  recordUsage : σ → (secretId : Uuid) → σ

/-! ## The table -/

def Secret.key (s : Secret) : String × String := (s.userId, s.name)

/-- The columns `DO UPDATE` sets. -/
def Secret.overwrite (r new : Secret) : Secret :=
  { r with
    encryptedValue := new.encryptedValue, keySalt := new.keySalt, provider := new.provider, expiresAt := new.expiresAt }

/-- Table `secrets`. -/
structure SecretsTable where
  rows : List Secret
  /-- `UNIQUE (user_id, name)` -/
  keys : (rows.map Secret.key).Nodup
  /-- `PRIMARY KEY` -/
  ids : (rows.map Secret.id).Nodup

namespace SecretsTable

def empty : SecretsTable := ⟨[], .nil, .nil⟩

variable (t : SecretsTable)

/-- `WHERE user_id = ? AND name = ?` -/
def find? (userId name : String) : Option Secret := t.rows.find? fun r => r.key = (userId, name)

/-- Change rows without changing their keys. -/
def update (f : Secret → Secret) (hkey : ∀ r, (f r).key = r.key) (hid : ∀ r, (f r).id = r.id) : SecretsTable where
  rows := t.rows.map f
  keys := by
    rw [List.map_map, show Secret.key ∘ f = Secret.key from funext hkey]
    exact t.keys
  ids := by
    rw [List.map_map, show Secret.id ∘ f = Secret.id from funext hid]
    exact t.ids

/-- `INSERT … ON CONFLICT (user_id, name) DO UPDATE`. Nothing else may have the id. -/
def insertOrUpdate (new : Secret) : Option SecretsTable :=
  if hkey : new.key ∈ t.rows.map Secret.key then
    some (t.update (fun r => if r.key = new.key then r.overwrite new else r) (fun r => by split <;> rfl)
      (fun r => by split <;> rfl))
  else if hid : new.id ∈ t.rows.map Secret.id then none
  else
    some ⟨t.rows ++ [new],
      by
        rw [List.map_append, List.nodup_append]
        refine ⟨t.keys, List.nodup_singleton _, ?_⟩
        intro a ha b hb
        rw [List.map_cons, List.map_nil, List.mem_singleton] at hb
        rw [hb]
        rintro rfl
        exact hkey ha,
      by
        rw [List.map_append, List.nodup_append]
        refine ⟨t.ids, List.nodup_singleton _, ?_⟩
        intro a ha b hb
        rw [List.map_cons, List.map_nil, List.mem_singleton] at hb
        rw [hb]
        rintro rfl
        exact hid ha⟩

/-- Remove the rows of a key. -/
def remove (userId name : String) : SecretsTable where
  rows := t.rows.filter fun r => r.key ≠ (userId, name)
  keys := t.keys.sublist (List.filter_sublist.map _)
  ids := t.ids.sublist (List.filter_sublist.map _)

/-- `UPDATE secrets SET usage_count = usage_count + 1 WHERE id = ?` -/
def countUsage (secretId : Uuid) : SecretsTable :=
  t.update (fun r => if r.id = secretId then { r with usageCount := r.usageCount + 1 } else r)
    (fun r => by split <;> rfl) (fun r => by split <;> rfl)

/-- `SELECT name, provider … ORDER BY name` -/
def refs (nameLe : String → String → Bool) (userId : String) : List SecretRef :=
  ((t.rows.filter fun r => r.userId = userId).mergeSort fun a b => nameLe a.name b.name).map fun r => ⟨r.name, r.provider⟩

end SecretsTable

/-! ## Reading -/

/-- A secret whose expiry has passed is not returned. -/
def checkExpiry (now : Int) (secret : Secret) : Except SecretError Secret :=
  match secret.expiresAt with
  | some expiresAt => if expiresAt < now then .error .expired else .ok secret
  | none => .ok secret

def decryptSecret (crypto : SecretsCrypto) (secret : Except SecretError Secret) : Except SecretError String :=
  match secret with
  | .error e => .error e
  | .ok secret => crypto.decrypt secret.encryptedValue secret.keySalt

/-! ## Postgres -/

/-- `timestamptz` has microseconds, counted from 2000: the rest of a time is cut off. -/
def timestamptz (t : Int) : Int :=
  let year2000 : Int := 946684800 * 10 ^ 9
  year2000 + (t - year2000).tdiv 1000 * 1000

/-- What the databases have of their own. -/
structure SqlEnv where
  crypto : SecretsCrypto
  /-- The error of a taken id. -/
  idTaken : String
  /-- The collation of the Postgres database. -/
  collation : String → String → Bool

namespace PostgresSecretsStore

variable (env : SqlEnv)

def create (t : SecretsTable) (userId : String) (params : CreateSecretParams) (draw : Draw) :
    Except SecretError Secret × SecretsTable :=
  match env.crypto.encrypt draw.salt draw.nonce (encodeUtf8 params.value.toList) with
  | .error e => (.error e, t)
  | .ok (encryptedValue, keySalt) =>
    let new : Secret := ⟨draw.id, userId, params.name, encryptedValue, keySalt, params.provider,
      params.expiresAt.map timestamptz, 0⟩
    match t.insertOrUpdate new with
    | none => (.error (.database env.idTaken), t)
    -- `RETURNING` gives the row as it is now.
    | some t' => (.ok ((t'.find? userId params.name).getD new), t')

def get (t : SecretsTable) (userId name : String) (now : Int) : Except SecretError Secret :=
  let name := toLowercase name
  match t.find? userId name with
  | some row => checkExpiry now row
  | none => .error (.notFound name)

def store : SecretsStore SecretsTable where
  create := create env
  get := get
  getDecrypted t userId name now := decryptSecret env.crypto (get t userId name now)
  exists? t userId name := (t.find? userId (toLowercase name)).isSome
  list t userId := t.refs env.collation userId
  delete t userId name :=
    let name := toLowercase name
    ((t.find? userId name).isSome, t.remove userId name)
  recordUsage t secretId := t.countUsage secretId

end PostgresSecretsStore

/-! ## libSQL -/

/-- What an expiry reads back as: its text has milliseconds, and a year that is not four digits makes it unreadable. -/
def timestampText (t : Int) : Option Int :=
  if -62167219200 * 10 ^ 9 ≤ t ∧ t < 253402300800 * 10 ^ 9 then some (t / 10 ^ 6 * 10 ^ 6) else none

namespace LibSqlSecretsStore

variable (env : SqlEnv)

/-- `libsql_row_to_secret`: an empty provider is none. -/
def rowToSecret (row : Secret) : Secret := { row with provider := row.provider.filter (!·.isEmpty) }

def create (t : SecretsTable) (userId : String) (params : CreateSecretParams) (draw : Draw) :
    Except SecretError Secret × SecretsTable :=
  match env.crypto.encrypt draw.salt draw.nonce (encodeUtf8 params.value.toList) with
  | .error e => (.error e, t)
  | .ok (encryptedValue, keySalt) =>
    let new : Secret := ⟨draw.id, userId, params.name, encryptedValue, keySalt, params.provider,
      params.expiresAt.bind timestampText, 0⟩
    match t.insertOrUpdate new with
    | none => (.error (.database env.idTaken), t)
    | some t' =>
      -- Read back the row; the transaction is rolled back if it is not there.
      match t'.find? userId params.name with
      | none => (.error (.database "Insert succeeded but row not found"), t)
      | some row => (.ok (rowToSecret row), t')

def get (t : SecretsTable) (userId name : String) (now : Int) : Except SecretError Secret :=
  let name := toLowercase name
  match t.find? userId name with
  | some row => checkExpiry now (rowToSecret row)
  | none => .error (.notFound name)

/-- Names are compared byte by byte. -/
def binary (a b : String) : Bool := decide (a ≤ b)

def store : SecretsStore SecretsTable where
  create := create env
  get := get
  getDecrypted t userId name now := decryptSecret env.crypto (get t userId name now)
  exists? t userId name := (t.find? userId (toLowercase name)).isSome
  list t userId := t.refs binary userId
  delete t userId name :=
    let name := toLowercase name
    ((t.find? userId name).isSome, t.remove userId name)
  recordUsage t secretId := t.countUsage secretId

end LibSqlSecretsStore

/-! ## Memory -/

namespace InMemorySecretsStore

abbrev SecretMap := Map (String × String) Secret

/-- The crypto, and the order in which the map is visited. -/
structure Env where
  crypto : SecretsCrypto
  visit : SecretMap → List ((String × String) × Secret)

variable (env : Env)

def create (secrets : SecretMap) (userId : String) (params : CreateSecretParams) (draw : Draw) :
    Except SecretError Secret × SecretMap :=
  match env.crypto.encrypt draw.salt draw.nonce (encodeUtf8 params.value.toList) with
  | .error e => (.error e, secrets)
  | .ok (encryptedValue, keySalt) =>
    let secret : Secret := ⟨draw.id, userId, params.name, encryptedValue, keySalt, params.provider, params.expiresAt, 0⟩
    (.ok secret, secrets.insert (userId, params.name) secret)

def get (secrets : SecretMap) (userId name : String) (now : Int) : Except SecretError Secret :=
  let name := toLowercase name
  match secrets.lookup (userId, name) with
  | some secret => checkExpiry now secret
  | none => .error (.notFound name)

def store : SecretsStore SecretMap where
  create := create env
  get := get
  getDecrypted secrets userId name now := decryptSecret env.crypto (get secrets userId name now)
  exists? secrets userId name := (secrets.lookup (userId, toLowercase name)).isSome
  list secrets userId := ((env.visit secrets).filter fun e => e.1.1 = userId).map fun e => ⟨e.2.name, e.2.provider⟩
  delete secrets userId name :=
    let key := (userId, toLowercase name)
    ((secrets.lookup key).isSome, secrets.erase key)
  recordUsage secrets _ := secrets

end InMemorySecretsStore

end Freeclawdia.Secrets
