import Freeclawdia.Correctness.EventStreams
import Freeclawdia.Tools.Mcp.Connection

/-!
# `Correctness.McpSessions` — whose answers MCP calls get, and in which session

A call should get the answer to its own request, whatever pieces it comes in, and its request should go out in a
session that was set up, is not idle for too long and has not expired. The client compares no ids, and looks neither
at the age of a session that is marked as initialized nor at the status for an expired one. So this holds in the runs
whose answers are to the point and whose calls find the session alive: those that are `Lively`.
-/

namespace Freeclawdia.Mcp
namespace Connection

open Rust Tools

variable {fromJson : List UInt8 → Except String McpResponse} {client : McpClient} {maxIdleSecs : Nat} {t t' : Nat}
  {s s' s'' : Shared} {o : Op} {i : Input} {request : McpRequest} {answer : HttpAnswer}

/-! ## What should hold -/

/-- A session that is set up, not idle for too long and not expired. -/
structure SentIn.Live (maxIdleSecs : Nat) (session : SentIn) : Prop where
  current : session.replaced = false
  exchanged : session.exchanged = true
  awake : session.idle ≤ maxIdleSecs * 10 ^ 9
  unexpired : session.expired = false

/-- The responses that are read carry the ids of their requests and do not depend on the pieces of their answers, and
requests to the tools are sent in live sessions. -/
structure AsClaimed (fromJson : List UInt8 → Except String McpResponse) (client : McpClient) (maxIdleSecs : Nat)
    (s : Shared) : Prop where
  own : ∀ r ∈ s.received, ∀ response, readResponse fromJson r.answer = .ok response → response.id = r.request.id
  pieces : ∀ r ∈ s.received, readResponse fromJson r.answer = readResponse fromJson r.answer.inOnePiece
  sessions : client.sessionManager = true → ∀ r ∈ s.sent, toTools r.request = true → r.session.Live maxIdleSecs

/-! ## What is asked of a run -/

variable (fromJson client maxIdleSecs) in
/-- An answer that is cut well, and whose first message is the response to the request. -/
def ToThePoint (request : McpRequest) (answer : HttpAnswer) : Prop :=
  AnswerCutWell fromJson answer ∧
    (answer.isSuccess = true → ∀ response ∈ (messages fromJson answer).head?, response.id = request.id)

variable (client) in
/-- The session has not been idle for too long. -/
def Awake (now : Nat) (s : Shared) : Prop := s.idle client now ≤ s.manager.maxIdleSecs * 10 ^ 9

variable (fromJson client) in
/-- Time does not run out for a session while a call is underway in it. A call that takes the session for initialized
finds it awake and not expired, and so does one that tries again; a session is marked as initialized by a call whose
exchange was in it. Answers are to the point, and none says that the session has expired while a call is underway in
it. -/
def Lively (t : Nat) (o : Op) (i : Input) (s : Shared) : Prop :=
  (s.underway ≠ [] → Awake client i.now s) ∧
    match o with
    | .isInitialized =>
      s.manager.isInitialized client.serverName = true → Awake client i.now s ∧ s.created ∉ s.expired
    | .markInitialized => s.held t = s.created ∧ s.created ∉ s.expired
    | .refreshAccessToken request =>
      i.refreshed.isOk = true → client.sessionManager = true → toTools request = true →
        s.manager.isInitialized client.serverName = true ∧ Awake client i.now s ∧ s.created ∉ s.expired
    | .receive request =>
      match i.answer with
      | .error _ => True
      | .ok answer =>
        ToThePoint fromJson request answer ∧
          (answer.status = sessionExpired → s.held t = s.created → s.underway = [])
    | _ => True

/-! ## The invariant -/

variable (fromJson client maxIdleSecs) in
/-- An initialized session was set up by an exchange, and a session in which a call is underway is alive. -/
structure Inv (s : Shared) : Prop where
  claimed : AsClaimed fromJson client maxIdleSecs s
  limit : s.manager.maxIdleSecs = maxIdleSecs
  exchanged : ∀ e, s.session client = some e → e.initialized = true → s.created ∈ s.exchanged
  underway : s.underway ≠ [] →
    (∃ e, s.session client = some e ∧ e.initialized = true) ∧ Awake client s.clock s ∧ s.created ∉ s.expired

variable (client) in
/-- What the other tasks leave alone. -/
structure Rely (t : Nat) (s s' : Shared) : Prop where
  held : s'.held t = s.held t
  exchanged : ∀ g ∈ s.exchanged, g ∈ s'.exchanged
  underway : t ∈ s'.underway ↔ t ∈ s.underway
  created : t ∈ s.underway → s'.created = s.created
  session : (s.session client).isSome = true → (s'.session client).isSome = true
  received : ∀ r ∈ s.received, r ∈ s'.received

theorem Rely.refl (t : Nat) (s : Shared) : Rely client t s s :=
  ⟨rfl, fun _ h => h, Iff.rfl, fun _ => rfl, id, fun _ h => h⟩

theorem Rely.trans (h : Rely client t s s') (h' : Rely client t s' s'') : Rely client t s s'' where
  held := h'.held.trans h.held
  exchanged g hg := h'.exchanged g (h.exchanged g hg)
  underway := h'.underway.trans h.underway
  created ht := (h'.created (h.underway.mpr ht)).trans (h.created ht)
  session hs := h'.session (h.session hs)
  received r hr := h'.received r (h.received r hr)

theorem Rely.tick (t : Nat) (s : Shared) (now : Nat) : Rely client t s { s with clock := now } :=
  ⟨rfl, fun _ h => h, Iff.rfl, fun _ => rfl, id, fun _ h => h⟩

variable (client) in
/-- What a call knows when it comes to an operation. -/
def Knows (t : Nat) (o : Op) (s : Shared) : Prop :=
  match o with
  | .markInitialized => (s.session client).isSome = true ∧ s.held t ∈ s.exchanged
  | .send request _ _ => client.sessionManager = true → toTools request = true → t ∈ s.underway ∧ s.held t = s.created
  | _ => True

/-! ## Sessions -/

theorem isInitialized_iff :
    s.manager.isInitialized client.serverName = true ↔ ∃ e, s.session client = some e ∧ e.initialized = true := by
  unfold McpSessionManager.isInitialized
  show _ ↔ ∃ e, s.manager.sessions.lookup client.serverName = some e ∧ _
  cases h : s.manager.sessions.lookup client.serverName with
  | none => simp
  | some e => simp

/-- The session after a change. -/
theorem session_modify (f : McpSession → McpSession) :
    (s.manager.modify client.serverName f).sessions.lookup client.serverName = (s.session client).map f := by
  rw [McpSessionManager.lookup_modify, if_pos rfl]
  rfl

variable {response : McpResponse}

theorem isOk_initializeResult {serde : Json → String} {r : InitializeResult}
    (h : initializeResult serde response = .ok r) :
    (initializeResult (fun _ => "") response).isOk = true := by
  unfold initializeResult at h ⊢
  cases herror : response.error with
  | some error =>
    simp only [herror] at h
    cases h
  | none =>
    simp only [herror] at h
    cases hresult : response.result with
    | none =>
      simp only [hresult] at h
      cases h
    | some result =>
      simp only [hresult] at h
      cases hdecode : decodeInitializeResult result with
      | none =>
        simp only [hdecode] at h
        cases h
      | some r' =>
        simp only [hdecode]
        rfl

/-! ## One operation -/

/-- What changes nothing about the session keeps the invariant. -/
theorem Inv.frame (hinv : Inv fromJson client maxIdleSecs s) (hclaimed : AsClaimed fromJson client maxIdleSecs s')
    (hmanager : s'.manager = s.manager) (hclock : s'.clock = s.clock) (hcreated : s'.created = s.created)
    (hexchanged : ∀ g ∈ s.exchanged, g ∈ s'.exchanged)
    (hunderway : s'.underway ≠ [] → s.underway ≠ [] ∧ (s'.created ∈ s'.expired → s.created ∈ s.expired)) :
    Inv fromJson client maxIdleSecs s' := by
  have hsession : s'.session client = s.session client := by
    unfold Shared.session
    rw [hmanager]
  refine ⟨hclaimed, hmanager ▸ hinv.limit, fun e he hinit => ?_, fun hne => ?_⟩
  · rw [hcreated]
    exact hexchanged _ (hinv.exchanged e (hsession ▸ he) hinit)
  · obtain ⟨hne', hexpired⟩ := hunderway hne
    obtain ⟨hthere, hawake, hnot⟩ := hinv.underway hne'
    refine ⟨hsession ▸ hthere, ?_, fun h => hnot (hexpired h)⟩
    unfold Awake Shared.idle at hawake ⊢
    rw [hsession, hmanager, hclock]
    exact hawake

theorem Inv.tick (hinv : Inv fromJson client maxIdleSecs s) {now : Nat} (h : s.underway ≠ [] → Awake client now s) :
    Inv fromJson client maxIdleSecs { s with clock := now } where
  claimed := ⟨hinv.claimed.own, hinv.claimed.pieces, hinv.claimed.sessions⟩
  limit := hinv.limit
  exchanged := hinv.exchanged
  underway hne := ⟨(hinv.underway hne).1, h hne, (hinv.underway hne).2.2⟩

/-- A call comes underway in a session that is alive. -/
theorem Inv.join (hinv : Inv fromJson client maxIdleSecs s) (t : Nat)
    (hthere : ∃ e, s.session client = some e ∧ e.initialized = true) (hawake : Awake client s.clock s)
    (hnot : s.created ∉ s.expired) : Inv fromJson client maxIdleSecs { s with underway := t :: s.underway } where
  claimed := ⟨hinv.claimed.own, hinv.claimed.pieces, hinv.claimed.sessions⟩
  limit := hinv.limit
  exchanged := hinv.exchanged
  underway _ := ⟨hthere, hawake, hnot⟩

theorem ne_nil_of_filter {p : Nat → Bool} {ts : List Nat} (h : ts.filter p ≠ []) : ts ≠ [] := by
  rintro rfl
  exact h rfl

variable {f : McpSession → McpSession}

/-- The session has just been used. -/
theorem awake_modify (hf : ∀ e, (f e).lastActivity = s.clock) (hthere : ∃ e, s.session client = some e) {s' : Shared}
    (hmanager : s'.manager = s.manager.modify client.serverName f) : Awake client s.clock s' := by
  obtain ⟨e, he⟩ := hthere
  have hsession : s'.session client = some (f e) := by
    unfold Shared.session
    rw [hmanager, session_modify, he]
    rfl
  unfold Awake Shared.idle
  rw [hsession, Option.elim_some, hf, Nat.sub_self]
  exact Nat.zero_le _

/-- A session in which a call is underway is neither missing nor stale. -/
theorem Inv.not_lacks (hinv : Inv fromJson client maxIdleSecs s) (hnow : i.now = s.clock) (hne : s.underway ≠ []) :
    ¬s.manager.lacks client.serverName i.now = true := by
  intro hlacks
  obtain ⟨⟨e, he, -⟩, hawake, -⟩ := hinv.underway hne
  have hlookup : s.manager.sessions.lookup client.serverName = some e := he
  unfold McpSessionManager.lacks at hlacks
  rw [hlookup] at hlacks
  have hidle := McpSession.idle_of_isStale hlacks
  unfold Awake Shared.idle at hawake
  rw [he, Option.elim_some, ← hnow] at hawake
  omega

variable {a : Unit}

theorem inv_getOrCreate (hinv : Inv fromJson client maxIdleSecs s)
    (h : act fromJson client t .getOrCreate i s = some (a, s')) (hnow : i.now = s.clock) :
    Inv fromJson client maxIdleSecs s' := by
  cases h
  by_cases hlacks : s.manager.lacks client.serverName i.now = true
  · have hsession : (s.manager.getOrCreate client.serverName client.serverUrl i.now).sessions.lookup client.serverName =
        some (.new client.serverUrl i.now) := by
      rw [McpSessionManager.lookup_getOrCreate, if_pos ⟨rfl, hlacks⟩]
    refine ⟨⟨hinv.claimed.own, hinv.claimed.pieces, hinv.claimed.sessions⟩, ?_, fun e he hinit => ?_, fun hne => ?_⟩
    · exact (McpSessionManager.maxIdleSecs_getOrCreate).trans hinv.limit
    · cases (hsession.symm.trans he)
      cases hinit
    · exact absurd hlacks (hinv.not_lacks hnow hne)
  · have hmanager : s.manager.getOrCreate client.serverName client.serverUrl i.now = s.manager := if_neg hlacks
    refine hinv.frame ⟨hinv.claimed.own, hinv.claimed.pieces, hinv.claimed.sessions⟩ hmanager rfl (if_neg hlacks)
      (fun _ hg => hg) fun hne => ⟨hne, fun hmem => ?_⟩
    have hcreated : (if s.manager.lacks client.serverName i.now then s.created + 1 else s.created) ∈ s.expired := hmem
    rwa [if_neg hlacks] at hcreated

theorem inv_markInitialized (hinv : Inv fromJson client maxIdleSecs s)
    (h : act fromJson client t .markInitialized i s = some (a, s')) (hnow : i.now = s.clock)
    (hlively : Lively fromJson client t .markInitialized i s) (hknows : Knows client t .markInitialized s) :
    Inv fromJson client maxIdleSecs s' := by
  obtain ⟨-, hheld, hnot⟩ := hlively
  obtain ⟨hthere, hexchanged⟩ := hknows
  obtain ⟨e, he⟩ := Option.isSome_iff_exists.mp hthere
  cases h
  have hsession : (s.manager.markInitialized client.serverName i.now).sessions.lookup client.serverName =
      some (e.markInitialized i.now) := by
    unfold McpSessionManager.markInitialized
    rw [session_modify, he]
    rfl
  refine ⟨⟨hinv.claimed.own, hinv.claimed.pieces, hinv.claimed.sessions⟩, ?_, fun e' _ _ => ?_, fun _ => ⟨?_, ?_, hnot⟩⟩
  · exact (McpSessionManager.maxIdleSecs_modify _).trans hinv.limit
  · exact hheld ▸ hexchanged
  · exact ⟨_, hsession, rfl⟩
  · exact awake_modify (f := McpSession.markInitialized i.now) (fun _ => hnow) ⟨e, he⟩ rfl

theorem inv_updateSessionId (hinv : Inv fromJson client maxIdleSecs s) {sessionId : String}
    (h : act fromJson client t (.updateSessionId sessionId) i s = some (a, s')) (hnow : i.now = s.clock) :
    Inv fromJson client maxIdleSecs s' := by
  cases h
  have hsession : (s.manager.updateSessionId client.serverName (some sessionId) i.now).sessions.lookup client.serverName =
      (s.session client).map (McpSession.updateSessionId (some sessionId) i.now) := session_modify _
  refine ⟨⟨hinv.claimed.own, hinv.claimed.pieces, hinv.claimed.sessions⟩, ?_, fun e' he' hinit => ?_, fun hne => ?_⟩
  · exact (McpSessionManager.maxIdleSecs_modify _).trans hinv.limit
  · obtain ⟨e, he, rfl⟩ := Option.map_eq_some_iff.mp (hsession.symm.trans he')
    exact hinv.exchanged e he hinit
  · obtain ⟨⟨e, he, hinit⟩, -, hnot⟩ := hinv.underway hne
    refine ⟨⟨e.updateSessionId (some sessionId) i.now, hsession.trans (by rw [he]; rfl), hinit⟩, ?_, hnot⟩
    exact awake_modify (f := McpSession.updateSessionId (some sessionId) i.now) (fun _ => hnow) ⟨e, he⟩ rfl

theorem inv_send (hinv : Inv fromJson client maxIdleSecs s) {authorization sessionId : Option String}
    (h : act fromJson client t (.send request authorization sessionId) i s = some (a, s')) (hnow : i.now = s.clock)
    (hknows : Knows client t (.send request authorization sessionId) s) : Inv fromJson client maxIdleSecs s' := by
  cases h
  refine hinv.frame ⟨hinv.claimed.own, hinv.claimed.pieces, fun hmanager r hr htools => ?_⟩ rfl rfl rfl (fun _ hg => hg)
    fun hne => ⟨?_, id⟩
  · rcases List.mem_cons.mp hr with rfl | hr
    · -- The call is underway, so its session is alive.
      obtain ⟨hmem, hheld⟩ := hknows hmanager htools
      obtain ⟨⟨e, he, hinit⟩, hawake, hnot⟩ := hinv.underway (List.ne_nil_of_mem hmem)
      refine ⟨?_, ?_, ?_, ?_⟩
      · exact decide_eq_false (not_not_intro hheld)
      · exact decide_eq_true (hheld ▸ hinv.exchanged e he hinit)
      · unfold Awake at hawake
        rw [hinv.limit, ← hnow] at hawake
        exact hawake
      · exact decide_eq_false (hheld ▸ hnot)
    · exact hinv.claimed.sessions hmanager r hr htools
  · by_cases htools : toTools request = true
    · exact ne_nil_of_filter (p := (· ≠ t)) ((if_pos htools).symm.trans_ne hne)
    · exact (if_neg htools).symm.trans_ne hne

/-- The books after an answer: what was exchanged stays, and the session expires only by the answer itself. -/
theorem book_spec (fromJson : List UInt8 → Except String McpResponse) (s : Shared) (t : Nat) (request : McpRequest)
    (answer : HttpAnswer) :
    ∃ exchanged expired, s.book fromJson t request answer =
        { s with received := ⟨t, request, answer⟩ :: s.received, exchanged, expired } ∧
      (∀ g ∈ s.exchanged, g ∈ exchanged) ∧
      (∀ g ∈ expired, g ∈ s.expired ∨ (g = s.held t ∧ answer.status = sessionExpired)) ∧
      (request.method = "initialize" → accepts fromJson answer = true → s.held t ∈ exchanged) := by
  unfold Shared.book
  split
  next h =>
    refine ⟨_, _, rfl, fun g hg => List.mem_cons_of_mem _ hg, fun g hg => ?_, fun _ _ => List.mem_cons_self⟩
    exact .inl (List.mem_filter.mp hg).1
  next h =>
    split
    next hstatus =>
      refine ⟨_, _, rfl, fun _ hg => hg, fun g hg => ?_, fun hmethod haccepts => absurd ⟨hmethod, haccepts⟩ h⟩
      rcases List.mem_cons.mp hg with rfl | hg
      · exact .inr ⟨rfl, hstatus⟩
      · exact .inl hg
    next => exact ⟨_, _, rfl, fun _ hg => hg, fun _ hg => .inl hg, fun hmethod haccepts => absurd ⟨hmethod, haccepts⟩ h⟩

theorem inv_receive (hinv : Inv fromJson client maxIdleSecs s) {a : Except String HttpAnswer}
    (h : act fromJson client t (.receive request) i s = some (a, s'))
    (hlively : Lively fromJson client t (.receive request) i s) : Inv fromJson client maxIdleSecs s' := by
  obtain ⟨-, hlively⟩ := hlively
  dsimp only at hlively
  simp only [act] at h
  cases hanswer : i.answer with
  | error e =>
    simp only [hanswer] at h
    cases h
    exact hinv
  | ok answer =>
    simp only [hanswer] at h hlively
    obtain ⟨⟨hcut, hfirst⟩, hcalm⟩ := hlively
    cases h
    obtain ⟨exchanged, expired, hbook, hexchanged, hexpired, -⟩ := book_spec fromJson s t request answer
    rw [hbook]
    refine hinv.frame ⟨fun r hr response hread => ?_, fun r hr => ?_, hinv.claimed.sessions⟩ rfl rfl rfl hexchanged
      fun hne => ⟨hne, fun hmem => ?_⟩
    · rcases List.mem_cons.mp hr with rfl | hr
      · have hsuccess : answer.isSuccess = true := by
          unfold readResponse at hread
          split at hread
          next h => exact h
          next => cases hread
        exact hfirst hsuccess response (head?_messages hcut hread)
      · exact hinv.claimed.own r hr response hread
    · rcases List.mem_cons.mp hr with rfl | hr
      · exact readResponse_inOnePiece hcut
      · exact hinv.claimed.pieces r hr
    · rcases hexpired _ hmem with hmem | ⟨hheld, hstatus⟩
      · exact hmem
      · exact absurd (hcalm hstatus hheld.symm) hne

/-- A change of a clone. -/
theorem onClone_spec {α : Type} {k : Nat} {f : Clone → α × Clone} {a : α} (h : s.onClone k f = some (a, s')) :
    ∃ clones, s' = { s with clones := clones } := by
  obtain ⟨c, -, hc⟩ := Option.map_eq_some_iff.mp h
  exact ⟨_, (Prod.mk.inj hc).2.symm⟩

theorem Inv.clones (hinv : Inv fromJson client maxIdleSecs s) (clones : List Clone) :
    Inv fromJson client maxIdleSecs { s with clones := clones } :=
  hinv.frame ⟨hinv.claimed.own, hinv.claimed.pieces, hinv.claimed.sessions⟩ rfl rfl rfl
    (fun _ hg => hg) fun hne => ⟨hne, id⟩

/-- Every operation keeps the invariant. -/
theorem inv_act (hinv : Inv fromJson client maxIdleSecs s) {a : Ans o} (h : act fromJson client t o i s = some (a, s'))
    (hnow : i.now = s.clock) (hlively : Lively fromJson client t o i s) (hknows : Knows client t o s) :
    Inv fromJson client maxIdleSecs s' := by
  cases o with
  | nextRequestId k =>
    obtain ⟨clones, rfl⟩ := onClone_spec h
    exact hinv.clones clones
  | cacheTools k tools =>
    obtain ⟨clones, rfl⟩ := onClone_spec h
    exact hinv.clones clones
  | cachedTools k =>
    obtain ⟨c, -, hc⟩ := Option.map_eq_some_iff.mp h
    exact (Prod.mk.inj hc).2 ▸ hinv
  | clone k =>
    obtain ⟨c, -, hc⟩ := Option.map_eq_some_iff.mp h
    exact (Prod.mk.inj hc).2 ▸ hinv.clones _
  | isInitialized =>
    simp only [act] at h
    split at h
    next hinit =>
      obtain ⟨hawake, hnot⟩ := hlively.2 hinit
      cases h
      exact hinv.join t (isInitialized_iff.mp hinit) (hnow ▸ hawake) hnot
    next =>
      cases h
      exact hinv
  | getOrCreate => exact inv_getOrCreate hinv h hnow
  | markInitialized => exact inv_markInitialized hinv h hnow hlively hknows
  | getSessionId =>
    cases h
    exact hinv.frame ⟨hinv.claimed.own, hinv.claimed.pieces, hinv.claimed.sessions⟩ rfl rfl rfl (fun _ hg => hg)
      fun hne => ⟨hne, id⟩
  | updateSessionId sessionId => exact inv_updateSessionId hinv h hnow
  | getDecrypted request =>
    simp only [act] at h
    split at h
    · cases h
      exact hinv
    · cases h
      refine hinv.frame ⟨hinv.claimed.own, hinv.claimed.pieces, hinv.claimed.sessions⟩ rfl rfl rfl (fun _ hg => hg)
        fun hne => ⟨?_, id⟩
      by_cases htools : toTools request = true
      · exact ne_nil_of_filter (p := (· ≠ t)) ((if_pos htools).symm.trans_ne hne)
      · exact (if_neg htools).symm.trans_ne hne
  | refreshAccessToken request =>
    simp only [act] at h
    cases hrefreshed : i.refreshed with
    | error e =>
      simp only [hrefreshed] at h
      cases h
      exact hinv
    | ok u =>
      simp only [hrefreshed] at h
      cases h
      cases hagain : client.sessionManager && toTools request with
      | false => exact hinv
      | true =>
        obtain ⟨hmanager, htools⟩ := Bool.and_eq_true_iff.mp hagain
        obtain ⟨hinit, hawake, hnot⟩ := hlively.2 (by rw [hrefreshed]; rfl) hmanager htools
        exact hinv.join t (isInitialized_iff.mp hinit) (hnow ▸ hawake) hnot
  | send request authorization sessionId => exact inv_send hinv h hnow hknows
  | receive request => exact inv_receive hinv h hlively

/-! ## What the other tasks see of an operation -/

theorem mem_join (hne : t' ≠ t) (ts : List Nat) : t' ∈ t :: ts ↔ t' ∈ ts :=
  ⟨fun h => (List.mem_cons.mp h).resolve_left hne, List.mem_cons_of_mem _⟩

theorem mem_leave (hne : t' ≠ t) (b : Bool) (ts : List Nat) :
    (t' ∈ if b = true then ts.filter (· ≠ t) else ts) ↔ t' ∈ ts := by
  split
  · rw [List.mem_filter]
    exact ⟨fun h => h.1, fun h => ⟨h, decide_eq_true hne⟩⟩
  · exact Iff.rfl

/-- What changes only who is underway. -/
theorem Rely.of_underway {underway : List Nat} (h : t' ∈ underway ↔ t' ∈ s.underway) :
    Rely client t' s { s with underway := underway } := 
  ⟨rfl, fun _ hg => hg, h, fun _ => rfl, id, fun _ hr => hr⟩

theorem isSome_getOrCreate :
    ((s.manager.getOrCreate client.serverName client.serverUrl i.now).sessions.lookup client.serverName).isSome =
      true := by
  rw [McpSessionManager.lookup_getOrCreate]
  split
  next => rfl
  next hkept =>
    have hthere : ¬s.manager.lacks client.serverName i.now = true := fun h => hkept ⟨rfl, h⟩
    unfold McpSessionManager.lacks at hthere
    split at hthere
    next e he =>
      rw [he]
      rfl
    next => exact absurd rfl hthere

theorem rely_getOrCreate (hinv : Inv fromJson client maxIdleSecs s)
    (h : act fromJson client t .getOrCreate i s = some (a, s')) (hnow : i.now = s.clock) : Rely client t' s s' := by
  cases h
  refine ⟨rfl, fun _ hg => hg, Iff.rfl, fun ht' => ?_, fun _ => ?_, fun _ hr => hr⟩
  · exact if_neg (hinv.not_lacks hnow (List.ne_nil_of_mem ht'))
  · exact isSome_getOrCreate

theorem isSome_modify (h : (s.session client).isSome = true) :
    ((s.manager.modify client.serverName f).sessions.lookup client.serverName).isSome = true := by
  rw [session_modify, Option.isSome_map]
  exact h

theorem rely_act (hinv : Inv fromJson client maxIdleSecs s) {a : Ans o} (h : act fromJson client t o i s = some (a, s'))
    (hnow : i.now = s.clock) (hne : t' ≠ t) : Rely client t' s s' := by
  cases o with
  | nextRequestId k =>
    obtain ⟨clones, rfl⟩ := onClone_spec h
    exact ⟨rfl, fun _ hg => hg, Iff.rfl, fun _ => rfl, id, fun _ hr => hr⟩
  | cacheTools k tools =>
    obtain ⟨clones, rfl⟩ := onClone_spec h
    exact ⟨rfl, fun _ hg => hg, Iff.rfl, fun _ => rfl, id, fun _ hr => hr⟩
  | cachedTools k =>
    obtain ⟨c, -, hc⟩ := Option.map_eq_some_iff.mp h
    exact (Prod.mk.inj hc).2 ▸ Rely.refl t' s
  | clone k =>
    obtain ⟨c, -, hc⟩ := Option.map_eq_some_iff.mp h
    exact (Prod.mk.inj hc).2 ▸ ⟨rfl, fun _ hg => hg, Iff.rfl, fun _ => rfl, id, fun _ hr => hr⟩
  | isInitialized =>
    simp only [act] at h
    split at h
    · cases h
      exact Rely.of_underway (mem_join hne _)
    · cases h
      exact Rely.refl t' s
  | getOrCreate => exact rely_getOrCreate hinv h hnow
  | markInitialized =>
    cases h
    exact ⟨rfl, fun _ hg => hg, mem_join hne _, fun _ => rfl, isSome_modify, fun _ hr => hr⟩
  | getSessionId =>
    cases h
    exact ⟨Function.update_of_ne hne _ _, fun _ hg => hg, Iff.rfl, fun _ => rfl, id, fun _ hr => hr⟩
  | updateSessionId sessionId =>
    cases h
    exact ⟨rfl, fun _ hg => hg, Iff.rfl, fun _ => rfl, isSome_modify, fun _ hr => hr⟩
  | getDecrypted request =>
    simp only [act] at h
    split at h
    · cases h
      exact Rely.refl t' s
    · cases h
      exact Rely.of_underway (mem_leave hne _ _)
  | refreshAccessToken request =>
    simp only [act] at h
    split at h
    · cases h
      refine Rely.of_underway ?_
      split
      · exact mem_join hne _
      · exact Iff.rfl
    · cases h
      exact Rely.refl t' s
  | send request authorization sessionId =>
    cases h
    exact ⟨rfl, fun _ hg => hg, mem_leave hne _ _, fun _ => rfl, id, fun _ hr => hr⟩
  | receive request =>
    simp only [act] at h
    split at h
    · cases h
      exact Rely.refl t' s
    next answer _ =>
      cases h
      obtain ⟨exchanged, expired, hbook, hexchanged, -⟩ := book_spec fromJson s t request answer
      rw [hbook]
      exact ⟨rfl, hexchanged, Iff.rfl, fun _ => rfl, id, fun _ hr => List.mem_cons_of_mem _ hr⟩

/-! ## The calls -/

variable {serde : Json → String} {version : String} (fromJson) in
/-- A response that was read from an answer to this request of the task. -/
def ReadBy (t : Nat) (request : McpRequest) (response : McpResponse) (s : Shared) : Prop :=
  ∃ e ∈ s.received, e.task = t ∧ e.request = request ∧ readResponse fromJson e.answer = .ok response

theorem ReadBy.rely (h : ReadBy fromJson t request response s) (hr : Rely client t' s s') :
    ReadBy fromJson t request response s' := by
  obtain ⟨e, he, hread⟩ := h
  exact ⟨e, hr.received e he, hread⟩

variable (fromJson serde) in
/-- The result of a tool is the one in the response to the request for it. -/
def Promise (t : Nat) : (c : Call) → Out c → Shared → Prop
  | .callTool _ name arguments, out, s =>
    ∀ result, out = .ok result → ∃ id response, ReadBy fromJson t (.callTool id name arguments) response s ∧
      readToolResult serde (.ok response) = .ok result
  | .listTools _, _, _ | .clone _, _, _ | .createTools _, _, _ => True

theorem Promise.rely {c : Call} {out : Out c} (h : Promise fromJson serde t c out s) (hr : Rely client t s s') :
    Promise fromJson serde t c out s' := by
  cases c with
  | callTool k name arguments =>
    intro result hout
    obtain ⟨id, response, hread, hresult⟩ := h result hout
    exact ⟨id, response, hread.rely hr, hresult⟩
  | listTools k => trivial
  | clone k => trivial
  | createTools k => trivial

variable (fromJson serde version client maxIdleSecs) in
def sessions : Outline (machine fromJson serde version client) where
  Inv := Inv fromJson client maxIdleSecs
  Rely := Rely client
  Pre _ _ := True
  Allowed := Lively fromJson client
  Post := Promise fromJson serde
  rely_refl := Rely.refl
  rely_trans := Rely.trans
  pre_stable _ _ := trivial
  post_stable hpost hr _ := hpost.rely hr

/-- One operation: the others may have come in before it. -/
theorem holds_perf (o : Op) {Q : Ans o → Shared → Prop}
    (h : ∀ s' i a s'', Rely client t s s' → Lively fromJson client t o i s' → i.now = s'.clock →
      act fromJson client t o i s' = some (a, s'') → Knows client t o s' ∧ Q a s'') :
    (sessions fromJson client maxIdleSecs serde version).Holds t Q (perf o) s := by
  apply Outline.holds_op
  intro s' hrely hinv i a s'' hop hlively
  have hop : perform fromJson client t o i s' = some (a, s'') := hop
  unfold perform at hop
  split at hop
  next => cases hop
  next =>
    have hinv := Inv.tick hinv hlively.1
    have htick : Rely client t s { s' with clock := i.now } := hrely.trans (Rely.tick t s' i.now)
    obtain ⟨hknows, hQ⟩ := h _ i a s'' htick hlively rfl hop
    refine ⟨⟨inv_act hinv hop rfl hlively hknows, fun t' hne => ?_⟩, Outline.holds_ret hQ⟩
    have hafter : Rely client t' { s' with clock := i.now } s'' := rely_act hinv hop rfl hne
    exact (Rely.tick t' s' i.now).trans hafter

/-- One operation of which nothing needs to be known. -/
theorem holds_any (o : Op) (hknows : ∀ s', Knows client t o s') :
    (sessions fromJson client maxIdleSecs serde version).Holds t (fun _ _ => True) (perf o) s :=
  holds_perf o fun s' _ _ _ _ _ _ _ => ⟨hknows s', trivial⟩

/-- What is read of an answer that has come in. -/
theorem holds_parseResponse (hanswer : ∃ e ∈ s.received, e.task = t ∧ e.request = request ∧ e.answer = answer) :
    (sessions fromJson client maxIdleSecs serde version).Holds t
      (fun r s => ∀ response, r = .ok response → ReadBy fromJson t request response s)
      (parseResponse fromJson client answer) s := by
  have hread : ∀ response, readResponse fromJson answer = .ok response → ReadBy fromJson t request response s := by
    intro response hresponse
    obtain ⟨e, he, htask, hrequest, rfl⟩ := hanswer
    exact ⟨e, he, htask, hrequest, hresponse⟩
  unfold parseResponse
  split
  next sessionId _ =>
    split
    · refine (holds_perf (Q := fun _ s => ∀ response, readResponse fromJson answer = .ok response →
        ReadBy fromJson t request response s) (.updateSessionId sessionId)
        fun s' i a s'' hr _ _ hop => ⟨trivial, fun response hresponse => ?_⟩).bind fun _ s h => Outline.holds_ret h
      obtain ⟨e, he, hread⟩ := (hread response hresponse).rely hr
      cases hop
      exact ⟨e, he, hread⟩
    · exact Outline.holds_ret hread
  next => exact Outline.holds_ret hread

/-! ### Requests to the tools -/

variable (client) in
/-- The call is underway, if there are sessions at all. -/
def Joined (t : Nat) (s : Shared) : Prop := client.sessionManager = true → t ∈ s.underway

theorem Joined.rely (h : Joined client t s) (hr : Rely client t s s') : Joined client t s' :=
  fun hmanager => hr.underway.mpr (h hmanager)

theorem holds_getAccessToken (h : Joined client t s) :
    (sessions fromJson client maxIdleSecs serde version).Holds t (fun r s => r.isOk = true → Joined client t s)
      (getAccessToken client request) s := by
  unfold getAccessToken
  split
  · refine (holds_perf (Q := fun r s => r.isOk = true → Joined client t s) (.getDecrypted request)
      fun s' i a s'' hr _ _ hop => ⟨trivial, fun hok => ?_⟩).bind fun r s hr => ?_
    · simp only [act] at hop
      split at hop
      · cases hop
        exact h.rely hr
      · cases hop
        cases hok
    · cases r with
      | ok token => exact Outline.holds_ret fun _ => hr rfl
      | error e => exact Outline.holds_ret fun hok => by cases hok
  · exact Outline.holds_ret fun _ => h

/-- The id that is read is that of the session the call is underway in. -/
theorem holds_currentSessionId (h : Joined client t s) : (sessions fromJson client maxIdleSecs serde version).Holds t
      (fun _ s => client.sessionManager = true → t ∈ s.underway ∧ s.held t = s.created) (currentSessionId client) s := by
  unfold currentSessionId
  split
  · refine holds_perf .getSessionId fun s' i a s'' hr _ _ hop => ⟨trivial, fun hmanager => ?_⟩
    have hjoined : Joined client t s' := h.rely hr
    cases hop
    exact ⟨hjoined hmanager, Function.update_self ..⟩
  next hmanager => exact Outline.holds_ret fun h => absurd h hmanager

/-- A call that tries again takes the session for alive. -/
theorem holds_refresh (htools : toTools request = true) :
    (sessions fromJson client maxIdleSecs serde version).Holds t (fun r s => r.isOk = true → Joined client t s)
      (perf (Op.refreshAccessToken request)) s := by
  refine holds_perf (.refreshAccessToken request) fun s' i a s'' _ _ _ hop => ⟨trivial, fun hok hmanager => ?_⟩
  simp only [act] at hop
  split at hop
  · cases hop
    simp only [hmanager, htools, Bool.and_self, if_true]
    exact List.mem_cons_self
  · cases hop
    cases hok

variable {s : Shared}

/-- A request to the tools is sent by a call that is underway, in the session whose id it has read; and its response
is read from an answer to it. -/
theorem holds_attempt_toTools (htools : toTools request = true) (left : Nat) (h : Joined client t s) :
    (sessions fromJson client maxIdleSecs serde version).Holds t
      (fun r s => ∀ response, r = .ok response → ReadBy fromJson t request response s)
      (attempt fromJson client request left) s := by
  induction left generalizing s with
  | zero => exact Outline.holds_ret fun _ h => by cases h
  | succ left ih =>
    unfold attempt
    refine (holds_getAccessToken h).bind fun r s hr => ?_
    cases r with
    | error e => exact Outline.holds_ret fun _ h => by cases h
    | ok token =>
      refine (holds_currentSessionId (hr rfl)).bind fun sessionId s hheld => ?_
      refine (holds_perf (Q := fun _ _ => True) (.send request _ sessionId) fun s' i a s'' hrely _ _ _ =>
        ⟨fun hmanager _ => ?_, trivial⟩).bind fun _ s _ => ?_
      · obtain ⟨hmem, heq⟩ := hheld hmanager
        exact ⟨hrely.underway.mpr hmem, hrely.held.trans (heq.trans (hrely.created hmem).symm)⟩
      refine (holds_perf (Q := fun r s => ∀ answer, r = .ok answer →
        ∃ e ∈ s.received, e.task = t ∧ e.request = request ∧ e.answer = answer) (.receive request)
        fun s' i a s'' _ _ _ hop => ⟨trivial, fun answer heq => ?_⟩).bind fun r s hr => ?_
      · simp only [act] at hop
        split at hop
        · cases hop
          cases heq
        next =>
          cases hop
          cases heq
          obtain ⟨exchanged, expired, hbook, -⟩ := book_spec fromJson s' t request answer
          rw [hbook]
          exact ⟨_, List.mem_cons_self, rfl, rfl, rfl⟩
      cases r with
      | error e => exact Outline.holds_ret fun _ h => by cases h
      | ok answer =>
        refine Outline.holds_ite (fun _ => ?_) fun _ => holds_parseResponse (hr answer rfl)
        refine Outline.holds_ite (fun _ => ?_) fun _ => Outline.holds_ret fun _ h => by cases h
        refine (holds_refresh htools).bind fun r s hr => ?_
        cases r with
        | ok u => exact ih (hr rfl)
        | error e => exact Outline.holds_ret fun _ h => by cases h

/-! ### The handshake -/

variable (client) in
/-- There is a session, and the call may be underway in it. -/
structure Ready (joined : Bool) (t : Nat) (s : Shared) : Prop where
  session : (s.session client).isSome = true
  underway : joined = true → t ∈ s.underway

variable {joined : Bool}

theorem Ready.rely (h : Ready client joined t s) (hr : Rely client t s s') : Ready client joined t s' :=
  ⟨hr.session h.session, fun hj => hr.underway.mpr (h.underway hj)⟩

/-- An operation that does not send a call off. -/
def Stays : Op → Prop
  | .getDecrypted request | .send request _ _ => toTools request = false
  | _ => True

theorem ready_act {a : Ans o} (h : act fromJson client t o i s = some (a, s')) (hstays : Stays o)
    (hready : Ready client joined t s) : Ready client joined t s' := by
  cases o with
  | nextRequestId k =>
    obtain ⟨clones, rfl⟩ := onClone_spec h
    exact ⟨hready.session, hready.underway⟩
  | cacheTools k tools =>
    obtain ⟨clones, rfl⟩ := onClone_spec h
    exact ⟨hready.session, hready.underway⟩
  | cachedTools k =>
    obtain ⟨c, -, hc⟩ := Option.map_eq_some_iff.mp h
    exact (Prod.mk.inj hc).2 ▸ hready
  | clone k =>
    obtain ⟨c, -, hc⟩ := Option.map_eq_some_iff.mp h
    exact (Prod.mk.inj hc).2 ▸ ⟨hready.session, hready.underway⟩
  | isInitialized =>
    simp only [act] at h
    split at h
    · cases h
      exact ⟨hready.session, fun hj => List.mem_cons_of_mem _ (hready.underway hj)⟩
    · cases h
      exact hready
  | getOrCreate =>
    cases h
    exact ⟨isSome_getOrCreate, hready.underway⟩
  | markInitialized =>
    cases h
    exact ⟨isSome_modify hready.session, fun hj => List.mem_cons_of_mem _ (hready.underway hj)⟩
  | getSessionId =>
    cases h
    exact ⟨hready.session, hready.underway⟩
  | updateSessionId sessionId =>
    cases h
    exact ⟨isSome_modify hready.session, hready.underway⟩
  | getDecrypted request =>
    simp only [act] at h
    split at h
    · cases h
      exact hready
    · cases h
      refine ⟨hready.session, fun hj => ?_⟩
      rw [show toTools request = false from hstays]
      exact hready.underway hj
  | refreshAccessToken request =>
    simp only [act] at h
    split at h
    · cases h
      refine ⟨hready.session, fun hj => ?_⟩
      show t ∈ if _ then _ else _
      split
      · exact List.mem_cons_self
      · exact hready.underway hj
    · cases h
      exact hready
  | send request authorization sessionId =>
    cases h
    refine ⟨hready.session, fun hj => ?_⟩
    show t ∈ if _ then _ else _
    rw [show toTools request = false from hstays]
    exact hready.underway hj
  | receive request =>
    simp only [act] at h
    split at h
    · cases h
      exact hready
    next answer _ =>
      cases h
      obtain ⟨exchanged, expired, hbook, -⟩ := book_spec fromJson s t request answer
      rw [hbook]
      exact ⟨hready.session, hready.underway⟩

theorem holds_ready (o : Op) (hknows : ∀ s', Knows client t o s') (hstays : Stays o) (h : Ready client joined t s) :
    (sessions fromJson client maxIdleSecs serde version).Holds t (fun _ s => Ready client joined t s) (perf o) s :=
  holds_perf o fun s' _ _ _ hr _ _ hop => ⟨hknows s', ready_act hop hstays (h.rely hr)⟩

/-- What has come of a request that is not to the tools: if it was for an exchange, and this succeeded, it is in the
    books. -/
def Settled (fromJson : List UInt8 → Except String McpResponse) (request : McpRequest) (t : Nat)
    (answer : HttpAnswer) (s : Shared) : Prop :=
  request.method = "initialize" → accepts fromJson answer = true → s.held t ∈ s.exchanged

/-- The same of a response. -/
def Exchanged (request : McpRequest) (t : Nat) (r : Except Tools.ToolError McpResponse) (s : Shared) : Prop :=
  request.method = "initialize" → ∀ response, r = .ok response →
    (initializeResult (fun _ => "") response).isOk = true → s.held t ∈ s.exchanged

theorem Settled.exchanged (h : Settled fromJson request t answer s) :
    Exchanged request t (readResponse fromJson answer) s := by
  intro hmethod response hread hok
  refine h hmethod ?_
  unfold accepts
  rw [hread]
  exact hok

theorem holds_parseAnswer (hready : Ready client joined t s) (hsettled : Settled fromJson request t answer s) :
    (sessions fromJson client maxIdleSecs serde version).Holds t
      (fun r s => Ready client joined t s ∧ Exchanged request t r s) (parseResponse fromJson client answer) s := by
  unfold parseResponse
  split
  next sessionId _ =>
    split
    · refine (holds_perf (Q := fun _ s => Ready client joined t s ∧ Settled fromJson request t answer s)
        (.updateSessionId sessionId) fun s' i a s'' hr _ _ hop => ⟨trivial, ?_, fun hmethod haccepts => ?_⟩).bind
        fun _ s h => Outline.holds_ret ⟨h.1, h.2.exchanged⟩
      · exact ready_act hop trivial (hready.rely hr)
      · have hexchanged := hsettled hmethod haccepts
        rw [← hr.held] at hexchanged
        have hkept := hr.exchanged _ hexchanged
        cases hop
        exact hkept
    · exact Outline.holds_ret ⟨hready, hsettled.exchanged⟩
  next => exact Outline.holds_ret ⟨hready, hsettled.exchanged⟩

/-- A request that is not to the tools leaves the call underway, and an exchange that succeeds is in the books. -/
theorem holds_attempt_other (htools : toTools request = false) (left : Nat) (h : Ready client joined t s) :
    (sessions fromJson client maxIdleSecs serde version).Holds t
      (fun r s => Ready client joined t s ∧ Exchanged request t r s) (attempt fromJson client request left) s := by
  induction left generalizing s with
  | zero => exact Outline.holds_ret ⟨h, fun _ _ heq => by cases heq⟩
  | succ left ih =>
    unfold attempt
    refine Outline.Holds.bind (Q := fun _ s => Ready client joined t s) ?_ fun r s h => ?_
    · unfold getAccessToken
      split
      · refine (holds_ready (.getDecrypted request) (fun _ => trivial) htools h).bind fun r s h => ?_
        cases r with
        | ok token => exact Outline.holds_ret h
        | error e => exact Outline.holds_ret h
      · exact Outline.holds_ret h
    cases r with
    | error e => exact Outline.holds_ret ⟨h, fun _ _ heq => by cases heq⟩
    | ok token =>
      refine Outline.Holds.bind (Q := fun _ s => Ready client joined t s) ?_ fun sessionId s h => ?_
      · unfold currentSessionId
        split
        · exact holds_ready .getSessionId (fun _ => trivial) trivial h
        · exact Outline.holds_ret h
      refine (holds_ready (.send request _ sessionId) (fun _ _ hto => ?_) htools h).bind fun _ s h => ?_
      · rw [htools] at hto
        cases hto
      refine (holds_perf (Q := fun r s => Ready client joined t s ∧
        ∀ answer, r = .ok answer → Settled fromJson request t answer s) (.receive request)
        fun s' i a s'' hr _ _ hop => ⟨trivial, ready_act hop trivial (h.rely hr), ?_⟩).bind fun r s h => ?_
      · intro answer heq hmethod haccepts
        simp only [act] at hop
        split at hop
        · cases hop
          cases heq
        next =>
          cases hop
          cases heq
          obtain ⟨exchanged, expired, hbook, -, -, hexchanged⟩ := book_spec fromJson s' t request answer
          rw [hbook]
          exact hexchanged hmethod haccepts
      obtain ⟨h, hsettled⟩ := h
      cases r with
      | error e => exact Outline.holds_ret ⟨h, fun _ _ heq => by cases heq⟩
      | ok answer =>
        refine Outline.holds_ite (fun _ => ?_) fun _ => holds_parseAnswer h (hsettled answer rfl)
        refine Outline.holds_ite (fun _ => ?_) fun _ => Outline.holds_ret ⟨h, fun _ _ heq => by cases heq⟩
        refine (holds_ready (.refreshAccessToken request) (fun _ => trivial) trivial h).bind fun r s h => ?_
        cases r with
        | ok u => exact ih h
        | error e => exact Outline.holds_ret ⟨h, fun _ _ heq => by cases heq⟩

/-- After an initialization that has succeeded, the call is underway. -/
theorem holds_exchangeInitialize (hmanager : client.sessionManager = true) (k : Nat) (h : Ready client false t s) :
    (sessions fromJson client maxIdleSecs serde version).Holds t (fun r s => r.isOk = true → t ∈ s.underway)
      (exchangeInitialize fromJson serde version client k) s := by
  unfold exchangeInitialize
  refine (holds_ready (.nextRequestId k) (fun _ => trivial) trivial h).bind fun id s h => ?_
  refine (holds_attempt_other rfl 2 h).bind fun r s ⟨h, hexchanged⟩ => ?_
  cases r with
  | error e => exact Outline.holds_ret fun hok => by cases hok
  | ok response =>
    dsimp only
    cases hresult : initializeResult serde response with
    | error e => exact Outline.holds_ret fun hok => by cases hok
    | ok result =>
      have hheld := hexchanged rfl response rfl (isOk_initializeResult hresult)
      dsimp only
      rw [if_pos hmanager]
      refine (holds_perf (Q := fun _ s => Ready client true t s) .markInitialized
        fun s' i a s'' hr _ _ hop => ⟨⟨hr.session h.session, ?_⟩, ?_⟩).bind fun _ s h => ?_
      · rw [hr.held]
        exact hr.exchanged _ hheld
      · have hready := ready_act hop trivial (h.rely hr)
        cases hop
        exact ⟨hready.session, fun _ => List.mem_cons_self⟩
      refine (holds_attempt_other rfl 2 h).bind fun _ s h => ?_
      exact Outline.holds_ret fun _ => h.1.underway rfl

theorem holds_ensureInitialized (k : Nat) :
    (sessions fromJson client maxIdleSecs serde version).Holds t (fun r s => r.isOk = true → Joined client t s)
      (ensureInitialized fromJson serde version client k) s := by
  unfold ensureInitialized
  split
  next hmanager =>
    refine Outline.Holds.bind (Q := fun (r : Except Tools.ToolError InitializeResult) (s : Shared) =>
      r.isOk = true → t ∈ s.underway) ?_ fun r s hr => ?_
    · unfold initializeConnection
      rw [if_pos hmanager]
      refine (holds_perf (Q := fun a s => a = true → t ∈ s.underway) .isInitialized
        fun s' i a s'' _ _ _ hop => ⟨trivial, fun ha => ?_⟩).bind fun a s ha => ?_
      · simp only [act] at hop
        split at hop
        · cases hop
          exact List.mem_cons_self
        · cases hop
          cases ha
      · refine Outline.holds_ite (fun h => Outline.holds_ret fun _ => ha h) fun _ => ?_
        refine (holds_perf (Q := fun _ s => Ready client false t s) .getOrCreate
          fun s' i a s'' _ _ _ hop => ⟨trivial, ?_⟩).bind fun _ s h => holds_exchangeInitialize hmanager k h
        cases hop
        exact ⟨isSome_getOrCreate, fun h => by cases h⟩
    · cases r with
      | error e => exact Outline.holds_ret fun hok => by cases hok
      | ok result => exact Outline.holds_ret fun _ _ => hr rfl
  next hmanager => exact Outline.holds_ret fun _ h => absurd h hmanager

/-! ### Tools -/

/-- The id of a request is drawn before it is sent. -/
theorem holds_nextRequestId (k : Nat) (h : Joined client t s) :
    (sessions fromJson client maxIdleSecs serde version).Holds t (fun _ s => Joined client t s)
      (perf (Op.nextRequestId k)) s := by
  refine holds_perf (.nextRequestId k) fun s' i a s'' hr _ _ hop => ⟨trivial, ?_⟩
  have hjoined : Joined client t s' := h.rely hr
  obtain ⟨clones, rfl⟩ := onClone_spec hop
  exact hjoined

theorem holds_listTools (k : Nat) : (sessions fromJson client maxIdleSecs serde version).Holds t (fun _ _ => True)
      (listTools fromJson serde version client k) s := by
  unfold listTools
  refine (holds_any (.cachedTools k) fun _ => trivial).bind fun cached s _ => ?_
  cases cached with
  | some tools => exact Outline.holds_ret trivial
  | none =>
    refine (holds_ensureInitialized k).bind fun r s hr => ?_
    cases r with
    | error e => exact Outline.holds_ret trivial
    | ok u =>
      refine (holds_nextRequestId k (hr rfl)).bind fun id s h => ?_
      refine (holds_attempt_toTools rfl 2 h).bind fun response s _ => ?_
      cases readToolsList serde response with
      | error e => exact Outline.holds_ret trivial
      | ok tools => exact (holds_any (.cacheTools k tools) fun _ => trivial).bind fun _ _ _ => Outline.holds_ret trivial

theorem holds_callTool (k : Nat) (name : String) (arguments : Json) :
    (sessions fromJson client maxIdleSecs serde version).Holds t (Promise fromJson serde t (.callTool k name arguments))
      (callTool fromJson serde version client k name arguments) s := by
  unfold callTool
  refine (holds_ensureInitialized k).bind fun r s hr => ?_
  cases r with
  | error e => exact Outline.holds_ret fun _ h => by cases h
  | ok u =>
    refine (holds_nextRequestId k (hr rfl)).bind fun id s h => ?_
    refine (holds_attempt_toTools rfl 2 h).bind fun sent s hsent => Outline.holds_ret fun result hresult => ?_
    cases sent with
    | error e => cases hresult
    | ok response => exact ⟨id, response, hsent response rfl, hresult⟩

theorem holds_body (c : Call) :
    (sessions fromJson client maxIdleSecs serde version).Holds t (Promise fromJson serde t c)
      (body fromJson serde version client c) s := by
  cases c with
  | listTools k => exact holds_listTools k
  | callTool k name arguments => exact holds_callTool k name arguments
  | clone k => exact holds_any (.clone k) fun _ => trivial
  | createTools k =>
    refine (holds_listTools k).bind fun r s _ => ?_
    cases r with
    | error e => exact Outline.holds_ret trivial
    | ok tools => exact (holds_any (.clone k) fun _ => trivial).bind fun _ _ _ => Outline.holds_ret trivial

/-! ## Every interleaving -/

/-- The client has just been created, with a session manager that has this idle timeout. -/
def start (maxIdleSecs : Nat) : Shared := { manager := .withIdleTimeout maxIdleSecs }

theorem inv_start (maxIdleSecs : Nat) : Inv fromJson client maxIdleSecs (start maxIdleSecs) where
  claimed := ⟨fun _ hr => absurd hr List.not_mem_nil, fun _ hr => absurd hr List.not_mem_nil,
    fun _ _ hr => absurd hr List.not_mem_nil⟩
  limit := rfl
  exchanged e he := by cases he
  underway hne := absurd rfl hne

/-- **MCP calls get their own answers in a live session**, in every lively interleaving of calls on the clones of a
client; and the result of a tool is read from the response to the request for it. -/
theorem calls_get_their_own_answers {ls : List (machine fromJson serde version client).Label}
    {cfg : (machine fromJson serde version client).Config}
    (run : Runs (machine fromJson serde version client).step (Machine.StepsMeet (Lively fromJson client))
      ((machine fromJson serde version client).initial (start maxIdleSecs)) ls cfg) :
    AsClaimed fromJson client maxIdleSecs cfg.shared ∧
      ∀ t k name arguments result, cfg.Returned t (.callTool k name arguments) (.ok result) →
        ∃ id response, response.id = id ∧ ReadBy fromJson t (.callTool id name arguments) response cfg.shared ∧
          readToolResult serde (.ok response) = .ok result := by
  have hgood := Outline.run (P := sessions fromJson client maxIdleSecs serde version) run (inv_start maxIdleSecs)
    (fun _ => trivial) (fun _ hmeet htask => hmeet _ _ _ htask) (fun c _ _ => holds_body c)
  refine ⟨hgood.inv.claimed, fun t k name arguments result hreturned => ?_⟩
  obtain ⟨id, response, hread, hresult⟩ := hgood.post hreturned result rfl
  have ⟨e, he, _, hrequest, hresponse⟩ := hread
  have hid := hgood.inv.claimed.own e he response hresponse
  rw [hrequest] at hid
  exact ⟨id, response, hid, hread, hresult⟩

/-! ## A call in time, and one too late -/

variable (fromJson) in
/-- A check that is enough for `ToThePoint`. -/
def toThePoint (request : McpRequest) (answer : HttpAnswer) : Bool :=
  !answer.isSuccess ||
    ((!answer.isEventStream || cutWell fromJson answer.chunks) &&
      (messages fromJson answer).head?.all fun response => response.id = request.id)

theorem toThePoint_sound (h : toThePoint fromJson request answer = true) : ToThePoint fromJson request answer := by
  unfold toThePoint at h
  cases hsuccess : answer.isSuccess with
  | false =>
    refine ⟨fun hok => ?_, fun hok => ?_⟩
    · rw [hsuccess] at hok
      cases hok
    · rw [hsuccess] at hok
      cases hok
  | true =>
    rw [hsuccess, Bool.not_true, Bool.false_or] at h
    obtain ⟨hcut, hfirst⟩ := Bool.and_eq_true_iff.mp h
    refine ⟨fun _ hevents => cutWell_sound ?_, fun _ response hresponse => ?_⟩
    · rwa [hevents, Bool.not_true, Bool.false_or] at hcut
    · rw [Option.mem_def.mp hresponse, Option.all_some] at hfirst
      exact of_decide_eq_true hfirst

instance (now : Nat) (s : Shared) : Decidable (Awake client now s) := inferInstanceAs (Decidable (_ ≤ _))

variable (fromJson client) in
/-- A check that is enough for `Lively`. -/
def lively (t : Nat) (o : Op) (i : Input) (s : Shared) : Bool :=
  (s.underway.isEmpty || Awake client i.now s) &&
    match o with
    | .isInitialized =>
      !s.manager.isInitialized client.serverName || (decide (Awake client i.now s) && decide (s.created ∉ s.expired))
    | .markInitialized => decide (s.held t = s.created) && decide (s.created ∉ s.expired)
    | .refreshAccessToken _ =>
      s.manager.isInitialized client.serverName && decide (Awake client i.now s) && decide (s.created ∉ s.expired)
    | .receive request =>
      match i.answer with
      | .error _ => true
      | .ok answer => toThePoint fromJson request answer && decide (answer.status ≠ sessionExpired)
    | _ => true

theorem lively_sound (t : Nat) (o : Op) (i : Input) (s : Shared) (h : lively fromJson client t o i s = true) :
    Lively fromJson client t o i s := by
  obtain ⟨htime, hop⟩ := Bool.and_eq_true_iff.mp h
  refine ⟨fun hne => ?_, ?_⟩
  · rcases Bool.or_eq_true_iff.mp htime with hempty | hawake
    · exact absurd (List.isEmpty_iff.mp hempty) hne
    · exact of_decide_eq_true hawake
  cases o with
  | isInitialized =>
    intro hinit
    dsimp only at hop
    rw [hinit, Bool.not_true, Bool.false_or] at hop
    obtain ⟨hawake, hnot⟩ := Bool.and_eq_true_iff.mp hop
    exact ⟨of_decide_eq_true hawake, of_decide_eq_true hnot⟩
  | markInitialized =>
    obtain ⟨hheld, hnot⟩ := Bool.and_eq_true_iff.mp hop
    exact ⟨of_decide_eq_true hheld, of_decide_eq_true hnot⟩
  | refreshAccessToken request =>
    intro _ _ _
    obtain ⟨hfirst, hnot⟩ := Bool.and_eq_true_iff.mp hop
    obtain ⟨hinit, hawake⟩ := Bool.and_eq_true_iff.mp hfirst
    exact ⟨hinit, of_decide_eq_true hawake, of_decide_eq_true hnot⟩
  | receive request =>
    dsimp only at hop ⊢
    split at hop
    next => trivial
    next =>
      obtain ⟨hpoint, hstatus⟩ := Bool.and_eq_true_iff.mp hop
      exact ⟨toThePoint_sound hpoint, fun h => absurd h (of_decide_eq_true hstatus)⟩
  | _ => trivial

/-- A response with this id and result. -/
def responseText (id result : String) : String :=
  "\x7b\"jsonrpc\":\"2.0\",\"id\":" ++ id ++ ",\"result\":" ++ result ++ "\x7d"

def initialized : String := responseText "1" "\x7b\x7d"

def called : String := responseText "2" "\x7b\"content\":[]\x7d"

/-- What the two texts are parsed as. -/
def twoMessages (bytes : List UInt8) : Except String McpResponse :=
  if bytes = encodeUtf8 initialized.toList then .ok ⟨"2.0", 1, some (.object []), none⟩
  else if bytes = encodeUtf8 called.toList then .ok ⟨"2.0", 2, some (.object [("content", .array [])]), none⟩
  else .error "expected value"

def notes : McpClient := ⟨"https://mcp.notes.example", "notes", true, true⟩

def noText : Json → String := fun _ => ""

abbrev Label : Type := (machine twoMessages noText "0.1.0" notes).Label

def stream (chunks : List String) : HttpAnswer :=
  { status := 200, contentType := "text/event-stream", chunks := chunks.map fun c => encodeUtf8 c.toList }

/-- The answer to the initialize request, with an id for the session. -/
def welcome : HttpAnswer :=
  { status := 200, sessionId := some "s-1", contentType := "application/json", chunks := [encodeUtf8 initialized.toList] }

/-- So many steps of a task, at a time in seconds. -/
def steps (t secs n : Nat) : List Label := List.replicate n (.step t { now := secs * 10 ^ 9 })

/-- A task receives an answer. -/
def gets (t secs : Nat) (answer : HttpAnswer) : List Label := [.step t { now := secs * 10 ^ 9, answer := .ok answer }]

/-- The first call initializes the session, and gets its answer in three pieces. -/
def firstCall : List Label :=
  .start 0 (.callTool 0 "search" .null) :: steps 0 10 6 ++ gets 0 10 welcome ++ steps 0 10 5 ++
    gets 0 10 { status := 202 } ++ steps 0 11 4 ++ gets 0 11 (stream ["event: message\ndata: ", called ++ "\n", "\n"])

/-- The next call comes an hour later. Its answer is for the first one, and is a message only up to a cut. -/
def lateCall : List Label :=
  .start 1 (.callTool 0 "search" .null) :: steps 1 3600 5 ++ gets 1 3600 (stream ["data: " ++ called, ","])

/-- The requests that were sent, and the ids of requests with those of the responses that are read, from the pieces
and from the whole. -/
def seen (s : Shared) : List (String × Bool × Nat) × List (Nat × Option Nat × Option Nat) :=
  (s.sent.map fun r => (r.request.method, r.session.exchanged, r.session.idle),
    s.received.map fun r => (r.request.id, (readResponse twoMessages r.answer).toOption.map McpResponse.id,
      (readResponse twoMessages r.answer.inOnePiece).toOption.map McpResponse.id))

theorem first_call_is_answered : ∃ cfg, Runs (machine twoMessages noText "0.1.0" notes).step
      (Machine.StepsMeet (Lively twoMessages notes)) ((machine twoMessages noText "0.1.0" notes).initial (start 1800))
      firstCall cfg ∧
    seen cfg.shared =
      ([("tools/call", true, 10 ^ 9), ("notifications/initialized", true, 0), ("initialize", false, 0)],
        [(2, some 2, some 2), (0, none, none), (1, some 1, some 1)]) ∧
    AsClaimed twoMessages notes 1800 cfg.shared := by
  have hchecked : (firstCall.foldlM
      (fun cfg l => if Machine.stepsMeet (lively twoMessages notes) cfg l
        then (machine twoMessages noText "0.1.0" notes).step cfg l else none)
      ((machine twoMessages noText "0.1.0" notes).initial (start 1800))).isSome = true := by
    decide +kernel
  have hseen : (firstCall.foldlM (machine twoMessages noText "0.1.0" notes).step
      ((machine twoMessages noText "0.1.0" notes).initial (start 1800))).map (fun cfg => seen cfg.shared) =
      some ([("tools/call", true, 10 ^ 9), ("notifications/initialized", true, 0), ("initialize", false, 0)],
        [(2, some 2, some 2), (0, none, none), (1, some 1, some 1)]) := by
    decide +kernel
  obtain ⟨cfg, hls⟩ := Option.isSome_iff_exists.mp hchecked
  have run := Runs.of_checked (C := Machine.StepsMeet (Lively twoMessages notes))
    (Machine.stepsMeet_sound lively_sound) hls
  rw [run.foldlM, Option.map_some, Option.some.injEq] at hseen
  exact ⟨cfg, run, hseen, (calls_get_their_own_answers run).1⟩

/-- An hour later the session is still taken for initialized; and the call gets the answer to another request, which
is read only because of where it is cut. -/
theorem late_call_is_not : ∃ cfg, Runs (machine twoMessages noText "0.1.0" notes).step (fun _ _ => True)
      ((machine twoMessages noText "0.1.0" notes).initial (start 1800)) (firstCall ++ lateCall) cfg ∧
    (∃ r ∈ cfg.shared.sent, toTools r.request = true ∧ 1800 * 10 ^ 9 < r.session.idle) ∧
    (∃ r ∈ cfg.shared.received, ∃ response, readResponse twoMessages r.answer = .ok response ∧
      response.id ≠ r.request.id ∧ (readResponse twoMessages r.answer.inOnePiece).toOption = none) ∧
    ¬AsClaimed twoMessages notes 1800 cfg.shared := by
  have hcomputed : ((firstCall ++ lateCall).foldlM (machine twoMessages noText "0.1.0" notes).step
      ((machine twoMessages noText "0.1.0" notes).initial (start 1800))).map (fun cfg =>
        (cfg.shared.sent.head?.map fun r => (toTools r.request, r.session.idle),
          cfg.shared.received.head?.map fun r =>
            (r.request.id, (readResponse twoMessages r.answer).toOption.map McpResponse.id,
              (readResponse twoMessages r.answer.inOnePiece).toOption.isNone))) =
      some (some (true, 3590 * 10 ^ 9), some (3, some 2, true)) := by
    decide +kernel
  obtain ⟨cfg, hls, hseen⟩ := Option.map_eq_some_iff.mp hcomputed
  obtain ⟨hsent, hreceived⟩ := Prod.mk.inj hseen
  obtain ⟨r, hr, hrequest⟩ := Option.map_eq_some_iff.mp hsent
  obtain ⟨htools, hidle⟩ := Prod.mk.inj hrequest
  obtain ⟨e, he, hread⟩ := Option.map_eq_some_iff.mp hreceived
  obtain ⟨hid, hread⟩ := Prod.mk.inj hread
  obtain ⟨hpieces, hwhole⟩ := Prod.mk.inj hread
  obtain ⟨response, hresponse, hother⟩ := Option.map_eq_some_iff.mp hpieces
  have hok : readResponse twoMessages e.answer = .ok response := by
    cases h : readResponse twoMessages e.answer with
    | error error =>
      rw [h] at hresponse
      cases hresponse
    | ok response' =>
      rw [h] at hresponse
      cases hresponse
      rfl
  have hlate : 1800 * 10 ^ 9 < r.session.idle := by
    rw [hidle]
    decide
  have hne : response.id ≠ e.request.id := by
    rw [hid, hother]
    decide
  have hmem := List.mem_of_head? hr
  refine ⟨cfg, Runs.of_foldlM hls, ⟨r, hmem, htools, hlate⟩,
    ⟨e, List.mem_of_head? he, response, hok, hne, Option.isNone_iff_eq_none.mp hwhole⟩, fun hclaimed => ?_⟩
  exact absurd (hclaimed.sessions rfl r hmem htools).awake (Nat.not_le.mpr hlate)

end Connection
end Freeclawdia.Mcp
