import Freeclawdia.Rust.Uuid
import Freeclawdia.Lib.Interleave
import Freeclawdia.Tools.Wasm.HttpRequest

/-!
# `Channels.Wasm.Router` — webhooks of WASM channels: signatures and the router

Discord's Ed25519 signatures and Slack's HMAC-SHA256 ones, each over a timestamp and the body. The two algorithms are
parameters; hexadecimal text, the messages and the check of the timestamp are the code's.
-/

namespace Freeclawdia.Webhook

open Rust

/-- `ed25519_dalek` and `hmac` with `sha2`. -/
structure Crypto where
  /-- `VerifyingKey::try_from`. -/
  isKey : List UInt8 → Bool
  verifyStrict : (key message signature : List UInt8) → Bool
  hmacSha256 : (secret message : List UInt8) → List UInt8

/-- `(now_secs - ts).abs() > limit`, with the wrapping of a release build. -/
def isStale (nowSecs : Int64) (ts : Int) (limit : Int64) : Bool := limit < (nowSecs - Int64.ofInt ts).abs

variable (crypto : Crypto)

/-- Verify a Discord interaction signature. -/
def verifyDiscordSignature (publicKeyHex signatureHex timestamp : String) (body : List UInt8)
    (nowSecs : Int64) : Bool :=
  match parseI64 timestamp with
  | none => false
  | some ts =>
    if isStale nowSecs ts 5 then false
    else
      match hexDecode signatureHex.toList, hexDecode publicKeyHex.toList with
      | some signature, some key =>
        signature.length = 64 && crypto.isKey key &&
          crypto.verifyStrict key (encodeUtf8 timestamp.toList ++ body) signature
      | _, _ => false

/-- Verify a Slack webhook signature. -/
def verifySlackSignature (signingSecret timestamp : String) (body : List UInt8)
    (signatureHeader : String) (nowSecs : Int64) : Bool :=
  match parseI64 timestamp with
  | none => false
  | some ts =>
    if isStale nowSecs ts 300 then false
    else
      let basestring := encodeUtf8 ("v0:".toList ++ timestamp.toList ++ [':']) ++ body
      signatureHeader = "v0=" ++ hexEncode (crypto.hmacSha256 (encodeUtf8 signingSecret.toList) basestring)

/-! ## The HTTP router for webhooks of WASM channels (`channels/wasm/router.rs`)

Requests and the calls that register and unregister channels run at the same time, as programs over the operations under
one lock. The lock of the paths is held for longer than one of them: a request keeps it until it has the channel, and
`register` until it has stored the secret.

For statements, the shared state keeps books on the requests under way (`Handling`) and on the calls of channels
(`Invocation`). No operation of the code reads these. -/

open WasmTool

/-! ## What is registered -/

/-- A registered HTTP endpoint for a WASM channel. -/
structure RegisteredEndpoint where
  channelName : String
  path : String
  /-- Allowed HTTP methods. -/
  methods : List String
  /-- Whether secret validation is required. -/
  requireSecret : Bool

/-- A channel object. Two of them can have one name. -/
structure WasmChannel where
  object : Nat
  name : String

/-- What a request can be authenticated with: the webhook secret, an Ed25519 public key, an HMAC-SHA256 signing secret. -/
inductive Credential
  | secret
  | signatureKey
  | hmacSecret
deriving DecidableEq

/-! ## Requests -/

/-- The names of the headers are in lower case. -/
structure WebhookRequest where
  method : String
  /-- The path below `/webhook/`. -/
  path : String
  query : Map String String
  headers : List (String × List UInt8)
  body : List UInt8

namespace WebhookRequest

variable (req : WebhookRequest)

def fullPath : String := "/webhook/" ++ req.path

/-- `headers.get(name).and_then(|v| v.to_str().ok())`. -/
def header (name : String) : Option String :=
  (req.headers.find? fun h => h.1 = toAsciiLowercase name).bind fun h => headerText h.2

/-- The secret from the query or the channel's header, with the generic header as a fallback. -/
def providedSecret (secretHeaderName : String) : Option String :=
  ((req.query.lookup "secret").or (req.header secretHeaderName)).or
    (if secretHeaderName ≠ "X-Webhook-Secret" then req.header "X-Webhook-Secret" else none)

/-- The verdict on the Ed25519 headers at a time; `none` when they are missing. -/
def discordSignature (crypto : Crypto) (key : String) : Option (Int64 → Bool) :=
  match req.header "x-signature-ed25519", req.header "x-signature-timestamp" with
  | some sig, some ts => some (verifyDiscordSignature crypto key sig ts req.body)
  | _, _ => none

/-- The verdict on the HMAC headers at a time; `none` when they are missing. -/
def slackSignature (crypto : Crypto) (secret : String) : Option (Int64 → Bool) :=
  match req.header "x-slack-request-timestamp", req.header "x-slack-signature" with
  | some ts, some sig => some (verifySlackSignature crypto secret ts req.body sig)
  | _, _ => none

end WebhookRequest

/-- What a channel gets to see of a request. -/
structure HttpCall where
  method : String
  path : String
  headers : List (String × String)
  query : Map String String
  body : List UInt8
  secretValidated : Bool

/-- A channel's response. -/
structure ChannelResponse where
  status : Nat
  body : List UInt8

/-- Why a request is unauthorized. -/
inductive Rejection
  | invalidSecret
  | secretRequired
  | invalidSignature
  | missingSignature
  | invalidSlackSignature
  | missingSlackSignature

def Rejection.text : Rejection → String
  | invalidSecret => "Invalid webhook secret"
  | secretRequired => "Webhook secret required"
  | invalidSignature => "Invalid signature"
  | missingSignature => "Missing signature headers"
  | invalidSlackSignature => "Invalid Slack signature"
  | missingSlackSignature => "Missing Slack signature headers"

/-- What a request is answered. -/
inductive Answer
  | notFound (path : String)
  | unauthorized (why : Rejection)
  | response (response : ChannelResponse)
  | callbackFailed (details : String)

/-- A status of a channel that is none becomes an internal error. -/
def Answer.status : Answer → Nat
  | notFound _ => 404
  | unauthorized _ => 401
  | response r => if 100 ≤ r.status ∧ r.status < 1000 then r.status else 500
  | callbackFailed _ => 500

/-! ## The router -/

/-- A request whose path has been resolved. -/
structure Handling where
  request : WebhookRequest
  channel : String
  /-- The endpoint its path is registered with. -/
  endpoint : Option RegisteredEndpoint
  /-- What was registered for the channel when the path was resolved. -/
  had : Credential → Bool
  /-- The values registered for the channel then, or since. -/
  seen : Credential → List String
  /-- The checks that are still to be made. -/
  awaiting : Credential → Bool
  /-- The secret that was compared with the registered one and matched. -/
  matched : Option String
  /-- The clock as it was read. -/
  times : List Int64

/-- A call of `call_on_http_request`, with what the request had met until then. -/
structure Invocation where
  channel : WasmChannel
  call : HttpCall
  handling : Option Handling

/-- The maps of the router and who holds the lock of the paths, with the books. -/
structure Shared where
  channels : Map String WasmChannel := ∅
  pathToChannel : Map String String := ∅
  pathWriter : Option Nat := none
  pathReaders : List Nat := []
  credentials : Credential → Map String String := fun _ => ∅
  secretHeaders : Map String String := ∅
  endpoints : Map String RegisteredEndpoint := ∅
  requests : Map Nat Handling := ∅
  invoked : List Invocation := []

/-! ## Operations -/

inductive Op
  | insertChannel (channel : WasmChannel)
  | removeChannel (name : String)
  | lockPaths
  | insertPath (endpoint : RegisteredEndpoint) (name : String)
  | unlockPaths
  | retainPaths (name : String)
  | readPath (path : String)
  | getChannel (req : WebhookRequest) (name : String)
  | releasePaths
  | insertCredential (kind : Credential) (name value : String)
  | removeCredential (kind : Credential) (name : String)
  | getCredential (kind : Credential) (name : String)
  | validateSecret (name provided : String)
  | insertHeader (name header : String)
  | removeHeader (name : String)
  | getHeader (name : String)
  | now
  | callOnHttpRequest (channel : WasmChannel) (call : HttpCall)
  | respond

abbrev Ans : Op → Type
  | .readPath _ => Option String
  | .getChannel _ _ => Option WasmChannel
  | .getCredential _ _ => Option String
  | .validateSecret _ _ => Bool
  | .getHeader _ => Option String
  | .now => Int64
  | .callOnHttpRequest _ _ => Except String ChannelResponse
  | _ => Unit

/-- The clock, and what a channel responds. -/
structure Input where
  nowSecs : Int64
  response : Except String ChannelResponse

/-- The books on one request are changed. -/
def Shared.note (s : Shared) (t : Nat) (f : Handling → Option Handling) : Shared :=
  match (s.requests.lookup t).bind f with
  | some h => { s with requests := s.requests.insert t h }
  | none => { s with requests := s.requests.erase t }

/-- A value is registered: the requests for its channel see it. -/
def Handling.sees (h : Handling) (kind : Credential) (name value : String) : Handling :=
  if h.channel = name then { h with seen := fun k => if k = kind then value :: h.seen k else h.seen k } else h

/-- A check has been made, or there is nothing to check. -/
def Handling.checked (h : Handling) (kind : Credential) : Handling :=
  { h with awaiting := fun k => if k = kind then false else h.awaiting k }

/-- The books on a request whose path is resolved to a channel. -/
def Shared.resolve (s : Shared) (req : WebhookRequest) (name : String) : Handling where
  request := req
  channel := name
  endpoint := s.endpoints.lookup req.fullPath
  had := fun k => ((s.credentials k).lookup name).isSome
  seen := fun k => ((s.credentials k).lookup name).toList
  awaiting := fun _ => true
  matched := none
  times := []

/-- What an operation answers and leaves behind; `none` while the lock of the paths is held. -/
def perform (t : Nat) : (o : Op) → Input → Shared → Option (Ans o × Shared)
  | .insertChannel channel, _, s => some ((), { s with channels := s.channels.insert channel.name channel })
  | .removeChannel name, _, s => some ((), { s with channels := s.channels.erase name })
  | .lockPaths, _, s =>
    if s.pathWriter = none ∧ s.pathReaders = [] then some ((), { s with pathWriter := some t }) else none
  | .insertPath endpoint name, _, s =>
    some ((),
      { s with
        pathToChannel := s.pathToChannel.insert endpoint.path name
        endpoints := s.endpoints.insert endpoint.path endpoint })
  | .unlockPaths, _, s => some ((), { s with pathWriter := none })
  | .retainPaths name, _, s =>
    if s.pathWriter = none ∧ s.pathReaders = [] then
      some ((), { s with pathToChannel := Map.retain (fun _ owner => owner ≠ name) s.pathToChannel })
    else none
  | .readPath path, _, s =>
    if s.pathWriter = none then some (s.pathToChannel.lookup path, { s with pathReaders := t :: s.pathReaders })
    else none
  | .getChannel req name, _, s =>
    match s.channels.lookup name with
    | some channel =>
      some (some channel, { s with requests := s.requests.insert t (s.resolve req channel.name) })
    | none => some (none, s)
  | .releasePaths, _, s => some ((), { s with pathReaders := s.pathReaders.erase t })
  | .insertCredential kind name value, _, s =>
    some ((),
      { s with
        credentials := Function.update s.credentials kind ((s.credentials kind).insert name value)
        requests := Map.mapValues (fun h => h.sees kind name value) s.requests })
  | .removeCredential kind name, _, s =>
    some ((), { s with credentials := Function.update s.credentials kind ((s.credentials kind).erase name) })
  | .getCredential kind name, _, s =>
    let found := (s.credentials kind).lookup name
    some (found, s.note t fun h =>
      -- A secret that is there remains to be compared.
      some (if h.channel = name ∧ (found = none ∨ kind ≠ .secret) then h.checked kind else h))
  | .validateSecret name provided, _, s =>
    match (s.credentials .secret).lookup name with
    | some expected =>
      if expected = provided then
        some (true, s.note t fun h => some { h.checked .secret with matched := some provided })
      else some (false, s.note t fun _ => none)
    -- No secret required
    | none => some (true, s.note t fun h => some (if h.channel = name then h.checked .secret else h))
  | .insertHeader name header, _, s => some ((), { s with secretHeaders := s.secretHeaders.insert name header })
  | .removeHeader name, _, s => some ((), { s with secretHeaders := s.secretHeaders.erase name })
  | .getHeader name, _, s => some (s.secretHeaders.lookup name, s)
  | .now, i, s => some (i.nowSecs, s.note t fun h => some { h with times := i.nowSecs :: h.times })
  | .callOnHttpRequest channel call, i, s =>
    some (i.response,
      { s with
        invoked := ⟨channel, call, s.requests.lookup t⟩ :: s.invoked
        requests := s.requests.erase t })
  | .respond, _, s => some ((), { s with requests := s.requests.erase t })

/-! ## Registration -/

/-- The paths of the endpoints, under one lock. -/
def insertPaths (name : String) : List RegisteredEndpoint → Prog Op Ans Unit
  | [] => pure ()
  | endpoint :: rest => do
      perf (Op.insertPath endpoint name)
      insertPaths name rest

/-- Register a channel with its endpoints. -/
def register (channel : WasmChannel) (endpoints : List RegisteredEndpoint) (secret secretHeader : Option String) :
    Prog Op Ans Unit := do
  perf (Op.insertChannel channel)
  perf Op.lockPaths
  insertPaths channel.name endpoints
  match secret with
  | some s => perf (Op.insertCredential .secret channel.name s)
  | none => pure ()
  match secretHeader with
  | some h => perf (Op.insertHeader channel.name h)
  | none => pure ()
  -- The lock of the paths is released only here.
  perf Op.unlockPaths

/-- Update the webhook secret for a channel. -/
def updateSecret (name secret : String) : Prog Op Ans Unit := perf (Op.insertCredential .secret name secret)

/-- Register an Ed25519 public key; what is none is refused. -/
def registerSignatureKey (name publicKeyHex : String) : Prog Op Ans (Except String Unit) :=
  match hexDecode publicKeyHex.toList with
  | none => pure (.error "invalid hex: ")
  | some bytes =>
    if crypto.isKey bytes then do
      perf (Op.insertCredential .signatureKey name publicKeyHex)
      pure (.ok ())
    else pure (.error "invalid Ed25519 public key: ")

/-- Register an HMAC-SHA256 signing secret. -/
def registerHmacSecret (name secret : String) : Prog Op Ans Unit := perf (Op.insertCredential .hmacSecret name secret)

/-- Unregister a channel and its endpoints. -/
def unregister (name : String) : Prog Op Ans Unit := do
  perf (Op.removeChannel name)
  perf (Op.removeCredential .secret name)
  perf (Op.removeHeader name)
  perf (Op.removeCredential .signatureKey name)
  perf (Op.removeCredential .hmacSecret name)
  perf (Op.retainPaths name)

/-! ## Requests -/

variable (req : WebhookRequest)

/-- Get the channel for the path of a request; the lock of the paths is held until it is there. -/
def getChannelForPath : Prog Op Ans (Option WasmChannel) := do
  match ← perf (Op.readPath req.fullPath) with
  | none =>
    perf Op.releasePaths
    pure none
  | some name =>
    let channel ← perf (Op.getChannel req name)
    perf Op.releasePaths
    pure channel

/-- Check if a channel requires a secret. -/
def requiresSecret (name : String) : Prog Op Ans Bool := do
  let found ← perf (Op.getCredential .secret name)
  pure found.isSome

/-- Get the secret header name for a channel. -/
def getSecretHeader (name : String) : Prog Op Ans String := do
  let header ← perf (Op.getHeader name)
  pure (header.getD "X-Webhook-Secret")

/-- Check the secret, if one is required. -/
def checkSecret (name : String) : Prog Op Ans (Option Rejection) := do
  if ← requiresSecret name then
    let secretHeaderName ← getSecretHeader name
    match req.providedSecret secretHeaderName with
    | some secret =>
      if ← perf (Op.validateSecret name secret) then pure none else pure (some .invalidSecret)
    | none => pure (some .secretRequired)
  else pure none

/-- Check a signature, if a value to check it with is registered. -/
def checkSigned (kind : Credential) (name : String) (missing invalid : Rejection)
    (verdict : String → Option (Int64 → Bool)) : Prog Op Ans (Option Rejection) := do
  match ← perf (Op.getCredential kind name) with
  | none => pure none
  | some value =>
    match verdict value with
    | none => pure (some missing)
    | some valid =>
      let nowSecs ← perf Op.now
      if valid nowSecs then pure none else pure (some invalid)

/-- Ed25519 signature verification (Discord-style). -/
def checkSignature (name : String) : Prog Op Ans (Option Rejection) :=
  checkSigned .signatureKey name .missingSignature .invalidSignature (req.discordSignature crypto)

/-- HMAC-SHA256 signature verification (Slack-style). -/
def checkHmac (name : String) : Prog Op Ans (Option Rejection) :=
  checkSigned .hmacSecret name .missingSlackSignature .invalidSlackSignature (req.slackSignature crypto)

/-- One check after the other; the first that rejects is the answer. -/
def checkAll : List (Prog Op Ans (Option Rejection)) → Prog Op Ans (Option Rejection)
  | [] => pure none
  | check :: rest => do
      match ← check with
      | some why => pure (some why)
      | none => checkAll rest

/-- Generic webhook handler. -/
def webhookHandler : Prog Op Ans Answer := do
  match ← getChannelForPath req with
  | none =>
    perf Op.respond
    pure (.notFound req.fullPath)
  | some channel =>
    let name := channel.name
    match ← checkAll [checkSecret req name, checkSignature crypto req name, checkHmac crypto req name] with
    | some why =>
      perf Op.respond
      pure (.unauthorized why)
    | none =>
      let secretValidated ← requiresSecret name
      match ← perf (Op.callOnHttpRequest channel
          ⟨req.method, req.fullPath, responseHeaders req.headers, req.query, req.body, secretValidated⟩) with
      | .ok response => pure (.response response)
      | .error e => pure (.callbackFailed e)

/-! ## The machine -/

inductive Call
  | webhook (req : WebhookRequest)
  | register (channel : WasmChannel) (endpoints : List RegisteredEndpoint) (secret secretHeader : Option String)
  | updateSecret (name secret : String)
  | registerSignatureKey (name publicKeyHex : String)
  | registerHmacSecret (name secret : String)
  | unregister (name : String)

abbrev Out : Call → Type
  | .webhook _ => Answer
  | .registerSignatureKey _ _ => Except String Unit
  | _ => Unit

def body : (c : Call) → Prog Op Ans (Out c)
  | .webhook req => webhookHandler crypto req
  | .register channel endpoints secret secretHeader => register channel endpoints secret secretHeader
  | .updateSecret name secret => updateSecret name secret
  | .registerSignatureKey name publicKeyHex => registerSignatureKey crypto name publicKeyHex
  | .registerHmacSecret name secret => registerHmacSecret name secret
  | .unregister name => unregister name

/-- Any number of requests and registrations at once. -/
def machine : Machine where
  Shared := Shared
  Op := Op
  Ans := Ans
  Input := Input
  Call := Call
  Out := Out
  body := body crypto
  perform := perform

end Freeclawdia.Webhook
