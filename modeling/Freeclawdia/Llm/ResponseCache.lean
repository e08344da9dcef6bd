import Freeclawdia.Lib.Map
import Freeclawdia.Llm.Failover
import Freeclawdia.Llm.Provider
import Freeclawdia.Rust.Utf8

/-!
# `Llm.ResponseCache` — the cache in front of a provider

`CachedProvider::complete` (`src/llm/response_cache.rs`) as a program of four operations: read the clock, look
the key up under the lock, call the inner provider, store under the lock. Calls interleave between them.
-/

namespace Freeclawdia.ResponseCache

open Rust Failover

structure ResponseCacheConfig where
  /-- Time-to-live, in the unit of the clock. -/
  ttl : Nat
  maxEntries : Nat

/-- What a completion is asked for; a temperature is the bits of its `f32`. -/
structure CompletionRequest where
  messages : List ChatMessage
  model : Option String
  maxTokens : Option UInt32
  temperature : Option UInt32
  stopSequences : Option (List String)

inductive FinishReason where
  | stop
  | length
  | toolUse
  | contentFilter
  | unknown

structure CompletionResponse where
  content : String
  inputTokens : UInt32
  outputTokens : UInt32
  finishReason : FinishReason
  cacheReadInputTokens : UInt32 := 0
  cacheCreationInputTokens : UInt32 := 0

/-- What a call of `complete` comes back with. -/
abbrev Answer := Except LlmError CompletionResponse

structure CacheEntry where
  response : CompletionResponse
  createdAt : Nat
  lastAccessed : Nat
  hitCount : Nat

/-- `serde_json::to_string` on messages, and SHA-256 as the hexadecimal text of its digest. -/
structure Hashing where
  messagesJson : List ChatMessage → Option String
  sha256 : List UInt8 → String

def leBytes (n : UInt32) : List UInt8 := [n.toUInt8, (n >>> 8).toUInt8, (n >>> 16).toUInt8, (n >>> 24).toUInt8]

/-- The bytes a request is hashed by. -/
def hashed (hashing : Hashing) (model : String) (request : CompletionRequest) : List UInt8 :=
  encodeUtf8 model.toList ++ [124] ++
    ((hashing.messagesJson request.messages).elim [] fun json => encodeUtf8 json.toList) ++ [124] ++
    request.maxTokens.elim [] leBytes ++ [124] ++ request.temperature.elim [] leBytes ++ [124] ++
    (request.stopSequences.getD []).flatMap fun s => encodeUtf8 s.toList ++ [0]

def cacheKey (hashing : Hashing) (model : String) (request : CompletionRequest) : String :=
  hashing.sha256 (hashed hashing model request)

/-! ## Storing -/

abbrev Cache := Map String CacheEntry

/-- An order in which the hash map is iterated over. -/
structure IterOrder where
  arrange : List (Sigma fun _ : String => CacheEntry) → List (Sigma fun _ : String => CacheEntry)
  perm : ∀ entries, (arrange entries).Perm entries

variable (config : ResponseCacheConfig) (order : IterOrder)

def unexpired (now : Nat) (entry : CacheEntry) : Bool := decide (now - entry.createdAt < config.ttl)

def oldestKey (cache : Cache) : Option String :=
  ((order.arrange cache.entries).argmin fun e => e.2.lastAccessed).map Sigma.fst

/-- LRU eviction while over capacity. -/
def evictOldest : (fuel : Nat) → Cache → Cache
  | 0, cache => cache
  | fuel + 1, cache =>
    if config.maxEntries ≤ cache.entries.length then
      match oldestKey order cache with
      | some k => evictOldest fuel (cache.erase k)
      | none => cache
    else cache

/-- What a miss leaves in the map; the loop ends after as many rounds as there are entries. -/
def storeResponse (cache : Cache) (key : String) (now : Nat) (response : CompletionResponse) : Cache :=
  let fresh := Map.retain (fun _ entry => unexpired config now entry) cache
  (evictOldest config order fresh.entries.length fresh).insert key ⟨response, now, now, 0⟩

/-! ## Calls that interleave -/

/-- A call on its way: the effective model, its request and the time it came in. -/
structure Lookup where
  model : String
  request : CompletionRequest
  now : Nat

/-- What happened, oldest first: the inner provider answered a call, or the cache did. -/
inductive Event where
  | answered (t : Nat) (call : Lookup) (response : CompletionResponse)
  | hit (t : Nat) (call : Lookup) (response : CompletionResponse)

structure Shared where
  cache : Cache
  requestCount : Nat
  totalHitCount : Nat
  history : List Event

def Shared.empty : Shared := ⟨∅, 0, 0, []⟩

inductive Op where
  | begin (request : CompletionRequest)
  | lookUp (call : Lookup)
  | callInner (call : Lookup)
  | store (call : Lookup) (response : CompletionResponse)

def Ans : Op → Type
  | .begin _ => Lookup
  | .lookUp _ => Option CompletionResponse
  | .callInner _ => Answer
  | .store _ _ => Unit

/-- What the environment contributes: the model in effect for the request, the clock, the inner provider's answer
    and the order of the map. -/
structure Input where
  model : String
  now : Nat
  answer : Answer
  order : IterOrder

variable (hashing : Hashing)

def perform (t : Nat) : (o : Op) → Input → Shared → Ans o × Shared
  | .begin request, i, s => (⟨i.model, request, i.now⟩, { s with requestCount := s.requestCount + 1 })
  | .lookUp call, _, s =>
    let key := cacheKey hashing call.model call.request
    match s.cache.lookup key with
    | some entry =>
      if unexpired config call.now entry then
        (some entry.response,
          { s with
            cache := s.cache.insert key { entry with lastAccessed := call.now, hitCount := entry.hitCount + 1 }
            totalHitCount := s.totalHitCount + 1
            history := s.history ++ [.hit t call entry.response] })
      else (none, { s with cache := s.cache.erase key })
    | none => (none, s)
  | .callInner call, i, s =>
    match i.answer with
    | .ok response => (.ok response, { s with history := s.history ++ [.answered t call response] })
    | .error e => (.error e, s)
  | .store call response, i, s =>
    ((), { s with
      cache := storeResponse config i.order s.cache (cacheKey hashing call.model call.request) call.now response })

def complete (request : CompletionRequest) : Prog Op Ans (Answer) := do
  let call ← perf (Op.begin request)
  match ← perf (Op.lookUp call) with
  | some cached => pure (.ok cached)
  | none =>
    match ← perf (Op.callInner call) with
    | .error e => pure (.error e)
    | .ok response =>
      perf (Op.store call response)
      pure (.ok response)

def machine : Machine where
  Shared := Shared
  Op := Op
  Ans := Ans
  Input := Input
  Call := CompletionRequest
  Out _ := Answer
  body := complete
  perform t o i s := some (perform config hashing t o i s)

end Freeclawdia.ResponseCache
