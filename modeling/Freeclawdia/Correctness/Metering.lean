import Freeclawdia.Correctness.JobRuns
import Freeclawdia.Correctness.Naming
import Freeclawdia.Correctness.RateLimits
import Freeclawdia.Lib.Runs

/-!
# `Correctness.Metering` — rate limits on every path to a tool

A tool with a rate limit is to run only after a `check_and_record` of its own that was answered `Allowed`, in chat
turns and in jobs alike. The account is kept in checks: an allowed check is earned, a run spends the check it was
admitted with (`allowed`, `spent`). What the limiter admits in a window then bounds what runs.

`Process` is one agent process: chat messages and the workers of jobs share the registry, the surroundings and the
limiter, and a worker's call is admitted in one step and runs in another. The worker keeps the account. The chat path
never asks the limiter, so the account balances in runs in which the model asks, in chat, only for tools without a
limit (`limits_bind`), and `chat_ignores_the_limit` is a run in which it asks for another one.
-/

namespace Freeclawdia.Metering

open Rust RateLimits Window

variable {W : Type}

/-! ## One process -/

/-- What happened to tools, in order. -/
inductive ToolEvent
  | checked (call : RateCall) (result : RateLimitResult)
  /-- `Tool::execute` for a user, with the tool's limit and the check the call was admitted with. -/
  | ran (userId toolName : String) (config : Option ToolRateLimitConfig) (check : Option RateCall)

/-- A worker's call that was admitted and has not met the hooks yet. -/
structure InFlight where
  deps : WorkerDeps
  toolName : String
  params : Json
  admitted : Admitted
  check : Option RateCall

/-- The agent, the jobs, the limiter, and the calls of workers under way. The log is a ghost. -/
structure Process (W : Type) where
  agent : AgentState W
  contextManager : ContextManager
  rateLimiter : RateLimiter := .new
  inFlight : List InFlight := []
  log : List ToolEvent := []

def Process.start (store : ConversationStore) (w : W) (contextManager : ContextManager) : Process W :=
  { agent := AgentState.start store w, contextManager }

inductive Act (W : Type)
  /-- A chat message is handled. -/
  | message (msg : IncomingMessage) (now : Time)
  /-- A worker's call is looked up, approved and checked against the limit. -/
  | gate (deps : WorkerDeps) (toolName : String) (params : Json) (clk : Reads)
  /-- An admitted call meets the hooks and runs. -/
  | run (index : Nat) (clock : ToolClock)
  /-- Jobs are created, moved and recovered; the surroundings change on their own. -/
  | jobs (contextManager : ContextManager)
  | elsewhere (w : W)

/-- A chat execution; it was admitted with no check. -/
def chatRun (userId : String) : Event → Option ToolEvent
  | .executed call tool _ _ => some (.ran userId call.name tool.rateLimitConfig none)
  | _ => none

/-- The limiter's answers. -/
def jobCheck : JobToolEvent → Option (RateCall × RateLimitResult)
  | .checked call result => some (call, result)
  | _ => none

/-- A worker's execution. -/
def jobRun (f : InFlight) : JobToolEvent → Option ToolEvent
  | .executed userId toolName _ => some (.ran userId toolName f.admitted.tool.rateLimitConfig f.check)
  | _ => none

/-- What a worker sees of the process. -/
def Process.runtime (s : Process W) : JobRuntime W :=
  ⟨s.agent.trace.world, s.agent.trace.drawn, s.contextManager, s.rateLimiter, []⟩

/-- The process with a worker's changes. -/
def Process.absorb (s : Process W) (rt : JobRuntime W) : Process W :=
  { s with
    agent := { s.agent with trace := { s.agent.trace with world := rt.world, drawn := rt.drawn } }
    contextManager := rt.contextManager
    rateLimiter := rt.rateLimiter }

def Process.step (env : Env W) (cmds : CommandEnv W) (s : Process W) : Act W → Option (Process W)
  | .message msg now =>
      let agent := (handleMessage env cmds msg now s.agent).2
      some { s with
        agent
        log := s.log ++ (agent.trace.log.drop s.agent.trace.log.length).filterMap (chatRun msg.userId) }
  | .gate deps toolName params clk =>
      match admitTool env deps toolName params clk s.runtime with
      | (result, rt) =>
          let checks := rt.log.filterMap jobCheck
          let logged := { s.absorb rt with log := s.log ++ checks.map fun c => .checked c.1 c.2 }
          match result with
          | .error _ => some logged
          | .ok admitted =>
              some { logged with
                inFlight := s.inFlight ++ [⟨deps, toolName, params, admitted, checks.getLast?.map Prod.fst⟩] }
  | .run index clock =>
      (s.inFlight[index]?).map fun f =>
        let rt := (runAdmitted env f.deps f.toolName f.params f.admitted clock s.runtime).2
        { s.absorb rt with
          inFlight := s.inFlight.eraseIdx index
          log := s.log ++ rt.log.filterMap (jobRun f) }
  | .jobs contextManager => some { s with contextManager }
  | .elsewhere w => some { s with agent := { s.agent with trace := { s.agent.trace with world := w } } }

/-! ## The account -/

/-- The check an event earns. -/
def allowed : ToolEvent → Multiset RateCall
  | .checked call result => if records call && result.isAllowed then {call} else 0
  | .ran .. => 0

/-- The check an event spends. -/
def spent : ToolEvent → Multiset RateCall
  | .checked .. => 0
  | .ran _ _ _ check => single check

/-- The calls of the limiter, with their answers. -/
def checkOf : ToolEvent → Option (RateCall × RateLimitResult)
  | .checked call result => some (call, result)
  | .ran .. => none

variable (p : String × String)

/-- The moments at which the runs for a pair were checked. -/
def checkedAt : ToolEvent → Option Instant
  | .checked .. => none
  | .ran _ _ _ check => check.bind fun c => if c.pair = p then some c.clk.answered else none

/-- A run for a user of a tool with a limit was admitted with a check of that user, tool and limit. -/
def OwnCheck : ToolEvent → Prop
  | .ran userId toolName (some config) check => ∃ clk, check = some ⟨.checkAndRecord, userId, toolName, config, clk⟩
  | _ => True

/-- **The limits bind.** Every run of a limited tool has its own check; at no moment more checks were spent than
    allowed; so with a monotone clock and one limit per tool, at most twice the limit is run out of the checks of an
    interval shorter than the window. -/
structure Metered (log : List ToolEvent) : Prop where
  own : ∀ e ∈ log, OwnCheck e
  preceded : ∀ past, past <+: log → Log.total spent past ≤ Log.total allowed past
  bounded : ∀ config : String → ToolRateLimitConfig, Clocked ((log.filterMap checkOf).map Prod.fst) →
    (∀ c ∈ (log.filterMap checkOf).map Prod.fst, c.config = config c.toolName) →
    ∀ (p : String × String) (a b : Instant),
      (b < a + Nanos.fromSecs MINUTE_SECS →
        within a b (log.filterMap (checkedAt p)) ≤ 2 * (config p.2).requestsPerMinute.toNat)
      ∧ (b < a + Nanos.fromSecs HOUR_SECS →
        within a b (log.filterMap (checkedAt p)) ≤ 2 * (config p.2).requestsPerHour.toNat)

/-! ## What the account bounds -/

/-- A check for the pair, in the interval. -/
def inInterval (a b : Instant) (c : RateCall) : Bool :=
  decide (c.pair = p) && decide (a ≤ c.clk.answered ∧ c.clk.answered ≤ b)

theorem countP_check (a b : Instant) (c : RateCall) :
    ({c} : Multiset RateCall).countP (fun c => inInterval p a b c = true)
      = if c.pair = p then within a b [c.clk.answered] else 0 := by
  rw [← Multiset.coe_singleton, Multiset.coe_countP]
  by_cases hp : c.pair = p
  · simp [within, inInterval, hp, List.countP_cons]
  · simp [inInterval, hp]

theorem within_spent (a b : Instant) (log : List ToolEvent) :
    within a b (log.filterMap (checkedAt p)) = (Log.total spent log).countP fun c => inInterval p a b c = true := by
  induction log with
  | nil => rfl
  | cons e log ih =>
    rw [show Log.total spent (e :: log) = spent e + Log.total spent log from List.sum_cons, Multiset.countP_add, ← ih]
    rcases e with ⟨call, result⟩ | ⟨u, name, config, _ | c⟩
    · rw [List.filterMap_cons_none (show checkedAt p (.checked call result) = none from rfl),
        show spent (.checked call result) = 0 from rfl, Multiset.countP_zero, zero_add]
    · rw [List.filterMap_cons_none (show checkedAt p (.ran u name config none) = none from rfl),
        show spent (.ran u name config none) = 0 from rfl, Multiset.countP_zero, zero_add]
    · rw [show spent (.ran u name config (some c)) = {c} from rfl, countP_check]
      by_cases hp : c.pair = p
      · rw [List.filterMap_cons_some (show checkedAt p (.ran u name config (some c)) = some c.clk.answered from
          if_pos hp), if_pos hp, ← within_append]
        rfl
      · rw [List.filterMap_cons_none (show checkedAt p (.ran u name config (some c)) = none from if_neg hp),
          if_neg hp, zero_add]

theorem within_allowed (a b : Instant) (log : List ToolEvent) :
    within a b (admissions p (log.filterMap checkOf))
      = (Log.total allowed log).countP fun c => inInterval p a b c = true := by
  induction log with
  | nil => rfl
  | cons e log ih =>
    rw [show Log.total allowed (e :: log) = allowed e + Log.total allowed log from List.sum_cons,
      Multiset.countP_add, ← ih]
    rcases e with ⟨c, result⟩ | ⟨u, name, config, check⟩
    · rw [List.filterMap_cons_some (show checkOf (.checked c result) = some (c, result) from rfl)]
      by_cases hgranted : (records c && result.isAllowed) = true
      · rw [show allowed (.checked c result) = {c} from if_pos hgranted, countP_check]
        by_cases hp : c.pair = p
        · rw [admissions_cons_self hp, within_append, if_pos hp,
            show granted c result = [c.clk.answered] from if_pos hgranted]
        · rw [admissions_cons_ne hp, if_neg hp, zero_add]
      · rw [show allowed (.checked c result) = 0 from if_neg hgranted, Multiset.countP_zero, zero_add]
        by_cases hp : c.pair = p
        · rw [admissions_cons_self hp, show granted c result = [] from if_neg hgranted, List.nil_append]
        · rw [admissions_cons_ne hp]
    · rw [List.filterMap_cons_none (show checkOf (.ran u name config check) = none from rfl),
        show allowed (.ran u name config check) = 0 from rfl, Multiset.countP_zero, zero_add]

variable {log : List ToolEvent}

/-- **Checks in hand bound the runs**: if the answers are the limiter's and no more was spent than allowed. -/
theorem runs_bounded {config : String → ToolRateLimitConfig}
    (hanswers : log.filterMap checkOf = RateLimiter.new.answers ((log.filterMap checkOf).map Prod.fst))
    (hspent : Log.total spent log ≤ Log.total allowed log) (hclock : Clocked ((log.filterMap checkOf).map Prod.fst))
    (hconfig : ∀ c ∈ (log.filterMap checkOf).map Prod.fst, c.config = config c.toolName) (p : String × String)
    (a b : Instant) :
    (b < a + Nanos.fromSecs MINUTE_SECS →
        within a b (log.filterMap (checkedAt p)) ≤ 2 * (config p.2).requestsPerMinute.toNat)
      ∧ (b < a + Nanos.fromSecs HOUR_SECS →
        within a b (log.filterMap (checkedAt p)) ≤ 2 * (config p.2).requestsPerHour.toNat) := by
  have hle : within a b (log.filterMap (checkedAt p)) ≤ within a b (admissions p (log.filterMap checkOf)) := by
    rw [within_spent, within_allowed]
    exact Multiset.countP_le_of_le _ hspent
  have hbound := admissions_bounded hclock hconfig p a b
  rw [← hanswers] at hbound
  exact ⟨fun h => le_trans hle (hbound.1 h), fun h => le_trans hle (hbound.2 h)⟩

/-! ## The limiter's answers -/

/-- The limiter after a sequence of calls. -/
def after (l : RateLimiter) (cs : List RateCall) : RateLimiter := cs.foldl (fun l c => (l.call c).2) l

theorem answers_snoc (l : RateLimiter) (cs : List RateCall) (c : RateCall) :
    l.answers (cs ++ [c]) = l.answers cs ++ [(c, ((after l cs).call c).1)] := by
  induction cs generalizing l with
  | nil => rfl
  | cons d cs ih => exact congrArg ((d, (l.call d).1) :: ·) (ih (l.call d).2)

/-- The answers in a log are those of the limiter, and it is where they leave it. -/
structure Replays (l : RateLimiter) (log : List ToolEvent) : Prop where
  answers : log.filterMap checkOf = RateLimiter.new.answers ((log.filterMap checkOf).map Prod.fst)
  limiter : l = after .new ((log.filterMap checkOf).map Prod.fst)

variable {l : RateLimiter}

theorem Replays.quiet {later : List ToolEvent} (h : Replays l log) (hquiet : later.filterMap checkOf = []) :
    Replays l (log ++ later) := by
  have hsame : (log ++ later).filterMap checkOf = log.filterMap checkOf := by
    rw [List.filterMap_append, hquiet, List.append_nil]
  exact ⟨by rw [hsame]; exact h.answers, by rw [hsame]; exact h.limiter⟩

theorem Replays.check (h : Replays l log) (c : RateCall) :
    Replays (l.call c).2 (log ++ [.checked c (l.call c).1]) := by
  have hsnoc : (log ++ [ToolEvent.checked c (l.call c).1]).filterMap checkOf
      = log.filterMap checkOf ++ [(c, (l.call c).1)] := List.filterMap_append
  refine ⟨?_, ?_⟩
  · rw [hsnoc, List.map_append, List.map_singleton, answers_snoc, ← h.answers, ← h.limiter]
  · rw [hsnoc, List.map_append, List.map_singleton]
    unfold after
    rw [List.foldl_append]
    show (l.call c).2 = ((after .new _).call c).2
    rw [← h.limiter]

/-! ## What a worker's call does -/

section Worker

variable (env : Env W) (deps : WorkerDeps) (toolName : String) (params : Json) {rt : JobRuntime W}

/-- **Admission asks the limiter once for a limited tool, and not at all for another one.** -/
theorem admitTool_checks (clk : Reads) (hlog : rt.log = []) :
    ((admitTool env deps toolName params clk rt).2.log.filterMap jobCheck = []
        ∧ (admitTool env deps toolName params clk rt).2.rateLimiter = rt.rateLimiter
        ∧ ∀ a, (admitTool env deps toolName params clk rt).1 = .ok a → a.tool.rateLimitConfig = none)
      ∨ ∃ userId config,
        (admitTool env deps toolName params clk rt).2.log.filterMap jobCheck
            = [(⟨.checkAndRecord, userId, toolName, config, clk⟩,
                (rt.rateLimiter.call ⟨.checkAndRecord, userId, toolName, config, clk⟩).1)]
          ∧ (admitTool env deps toolName params clk rt).2.rateLimiter
            = (rt.rateLimiter.call ⟨.checkAndRecord, userId, toolName, config, clk⟩).2
          ∧ ∀ a, (admitTool env deps toolName params clk rt).1 = .ok a →
            a.tool.rateLimitConfig = some config ∧ a.job.userId = userId
              ∧ (rt.rateLimiter.call ⟨.checkAndRecord, userId, toolName, config, clk⟩).1.isAllowed = true := by
  have hfirst : (rt.emit (.approval toolName params)).log.filterMap jobCheck = [] := by
    show (rt.log ++ [_]).filterMap jobCheck = []
    rw [hlog]
    rfl
  unfold admitTool
  split
  · exact Or.inl ⟨by rw [hlog]; rfl, rfl, fun a h => by cases h⟩
  · next tool _ =>
      dsimp only
      split
      · exact Or.inl ⟨hfirst, rfl, fun a h => by cases h⟩
      · split
        · exact Or.inl ⟨hfirst, rfl, fun a h => by cases h⟩
        · next job _ =>
            unfold checkRate
            cases hconfig : tool.rateLimitConfig with
            | none =>
              refine Or.inl ⟨hfirst, rfl, ?_⟩
              rintro a ⟨rfl⟩
              exact hconfig
            | some config =>
              right
              refine ⟨job.userId, config, ?_⟩
              dsimp only
              rw [show (rt.emit (.approval toolName params)).rateLimiter = rt.rateLimiter from rfl]
              rcases hcall : rt.rateLimiter.call ⟨.checkAndRecord, job.userId, toolName, config, clk⟩ with
                ⟨_ | _, limiter⟩
              · refine ⟨?_, rfl, ?_⟩
                · show ((rt.emit (.approval toolName params)).log ++ [_]).filterMap jobCheck = _
                  rw [List.filterMap_append, hfirst]
                  rfl
                · rintro a ⟨rfl⟩
                  exact ⟨hconfig, rfl, rfl⟩
              · refine ⟨?_, rfl, fun a h => by cases h⟩
                show ((rt.emit (.approval toolName params)).log ++ [_]).filterMap jobCheck = _
                rw [List.filterMap_append, hfirst]
                rfl

/-- **An admitted call runs once or not at all, and asks the limiter nothing.** -/
theorem runAdmitted_runs (f : InFlight) (clock : ToolClock) (hlog : rt.log = []) :
    (runAdmitted env f.deps f.toolName f.params f.admitted clock rt).2.rateLimiter = rt.rateLimiter
      ∧ ((runAdmitted env f.deps f.toolName f.params f.admitted clock rt).2.log.filterMap (jobRun f) = []
        ∨ (runAdmitted env f.deps f.toolName f.params f.admitted clock rt).2.log.filterMap (jobRun f)
          = [.ran f.admitted.job.userId f.toolName f.admitted.tool.rateLimitConfig f.check]) := by
  refine ⟨runAdmitted_rateLimiter env f.deps f.toolName f.params f.admitted clock rt, ?_⟩
  rcases runAdmitted_log env f.deps f.toolName f.params f.admitted clock rt with
    ⟨executed, _, _, _, saved, hrun, hsaved⟩ | ⟨_, hrun⟩
  · right
    have hquiet : saved.filterMap (jobRun f) = [] := by
      refine List.filterMap_eq_nil_iff.mpr fun e he => ?_
      obtain ⟨action, rfl⟩ := hsaved e he
      rfl
    rw [hrun, hlog, List.nil_append]
    show ToolEvent.ran _ _ _ _ :: saved.filterMap (jobRun f) = _
    rw [hquiet]
  · left
    rw [hrun, hlog]
    rfl

end Worker

/-! ## The invariant -/

/-- A tool that, whenever it is registered, has no limit. -/
def Unlimited (env : Env W) (toolName : String) : Prop :=
  ∀ w tool, env.tool w toolName = some tool → tool.rateLimitConfig = none

/-- The checks the calls under way were admitted with. -/
def held (inFlight : List InFlight) : Multiset RateCall := (inFlight.map fun f => single f.check).sum

/-- What a call under way will log, if it runs. -/
def InFlight.event (f : InFlight) : ToolEvent :=
  .ran f.admitted.job.userId f.toolName f.admitted.tool.rateLimitConfig f.check

structure Sound (env : Env W) (s : Process W) : Prop where
  stored : s.agent.StoresNames (Unlimited env)
  underWay : ∀ f ∈ s.inFlight, OwnCheck f.event
  own : ∀ e ∈ s.log, OwnCheck e
  funded : Log.Funded allowed spent (held s.inFlight) s.log
  replays : Replays s.rateLimiter s.log

theorem Sound.start (env : Env W) (store : ConversationStore) (w : W) (cm : ContextManager) :
    Sound env (Process.start store w cm) where
  stored := fun user tid p hp => by cases hp
  underWay := fun f hf => absurd hf List.not_mem_nil
  own := fun e he => absurd he List.not_mem_nil
  funded := Log.Funded.nil
  replays := ⟨rfl, rfl⟩

section Steps

variable {env : Env W} {cmds : CommandEnv W} {s : Process W}

/-- What a message runs has no limit and asks no check. -/
theorem chatRun_unlimited {userId : String} {events : List Event}
    (h : ∀ e ∈ events, e.Names env (Unlimited env)) :
    ∀ e ∈ events.filterMap (chatRun userId), ∃ toolName, e = .ran userId toolName none none := by
  intro e he
  obtain ⟨event, hevent, hrun⟩ := List.mem_filterMap.mp he
  cases event with
  | executed call tool auto cause =>
    obtain ⟨hname, w, htool⟩ := h _ hevent
    cases hrun
    exact ⟨call.name, by rw [hname w tool htool]⟩
  | llm messages => cases hrun
  | asked user content => cases hrun
  | answered user content => cases hrun
  | hooked original sensitive result => cases hrun
  | raised pending => cases hrun

/-- A handler that runs tools without a limit keeps the account. -/
theorem Sound.named {agent : AgentState W} (h : Sound env s) (hnamed : Named env (Unlimited env) s.agent agent)
    (userId : String) :
    Sound env { s with
      agent
      log := s.log ++ (agent.trace.log.drop s.agent.trace.log.length).filterMap (chatRun userId) } := by
  obtain ⟨ev, hlog, hev⟩ := hnamed.log
  have hruns : ∀ e ∈ (agent.trace.log.drop s.agent.trace.log.length).filterMap (chatRun userId),
      ∃ toolName, e = .ran userId toolName none none := by
    rw [hlog, List.drop_left]
    exact chatRun_unlimited hev
  refine ⟨hnamed.stores h.stored, h.underWay, ?_, ?_, ?_⟩
  · intro e he
    rcases List.mem_append.mp he with hin | hin
    · exact h.own e hin
    · obtain ⟨toolName, rfl⟩ := hruns e hin
      trivial
  · refine h.funded.grows (P := fun e => ∃ toolName, e = .ran userId toolName none none) ⟨_, rfl, hruns⟩ ?_
    rintro e ⟨toolName, rfl⟩
    exact ⟨rfl, rfl⟩
  · refine h.replays.quiet (List.filterMap_eq_nil_iff.mpr fun e he => ?_)
    obtain ⟨toolName, rfl⟩ := hruns e he
    rfl

/-- The limiter's state and the calls under way are what the account depends on, besides the log. -/
theorem Sound.absorb (h : Sound env s) (rt : JobRuntime W) {inFlight : List InFlight} {later : List ToolEvent}
    (hunderWay : ∀ f ∈ inFlight, OwnCheck f.event) (hown : ∀ e ∈ later, OwnCheck e)
    (hfunded : Log.Funded allowed spent (held inFlight) (s.log ++ later))
    (hreplays : Replays rt.rateLimiter (s.log ++ later)) :
    Sound env { s.absorb rt with inFlight, log := s.log ++ later } where
  stored := h.stored
  underWay := hunderWay
  own := fun e he => (List.mem_append.mp he).elim (h.own e) (hown e)
  funded := hfunded
  replays := hreplays

theorem held_snoc (fs : List InFlight) (f : InFlight) : held (fs ++ [f]) = held fs + single f.check := by
  unfold held
  rw [List.map_append, List.sum_append, List.map_singleton, List.sum_singleton]

theorem held_eraseIdx {fs : List InFlight} {i : Nat} {f : InFlight} (h : fs[i]? = some f) :
    held fs = held (fs.eraseIdx i) + single f.check := by
  obtain ⟨hlt, hget⟩ := List.getElem?_eq_some_iff.mp h
  have hperm := (List.getElem_cons_eraseIdx_perm hlt).map fun f => single f.check
  unfold held
  rw [← hperm.sum_eq, List.map_cons, List.sum_cons, hget, add_comm]

variable {s' : Process W}

/-- **Admission keeps the account**: what the limiter allows is in the hands of the call that asked. -/
theorem gate_sound (h : Sound env s) {deps : WorkerDeps} {toolName : String} {params : Json} {clk : Reads}
    (hstep : s.step env cmds (.gate deps toolName params clk) = some s') : Sound env s' := by
  have hchecks := admitTool_checks env deps toolName params clk (show s.runtime.log = [] from rfl)
  dsimp only [Process.step] at hstep
  rcases hgate : admitTool env deps toolName params clk s.runtime with ⟨result, rt⟩
  rw [hgate] at hchecks hstep
  dsimp only at hchecks hstep
  rcases hchecks with ⟨hnone, hlimiter, hadmitted⟩ | ⟨userId, config, hone, hlimiter, hadmitted⟩
  · -- no question asked
    rw [hnone, List.map_nil] at hstep
    have hreplays : Replays rt.rateLimiter (s.log ++ []) := by
      rw [hlimiter, List.append_nil]
      exact h.replays
    cases result with
    | error e =>
      obtain rfl := Option.some.inj hstep
      refine h.absorb rt h.underWay (fun e he => absurd he List.not_mem_nil) ?_ hreplays
      rw [List.append_nil]
      exact h.funded
    | ok a =>
      obtain rfl := Option.some.inj hstep
      refine h.absorb rt ?_ (fun e he => absurd he List.not_mem_nil) ?_ hreplays
      · intro f hf
        rcases List.mem_append.mp hf with hin | hin
        · exact h.underWay f hin
        · obtain rfl := List.mem_singleton.mp hin
          unfold InFlight.event
          rw [hadmitted a rfl]
          trivial
      · rw [List.append_nil, held_snoc]
        exact h.funded.mono (le_of_eq (add_zero _))
  · -- one question, and the call is admitted if it was allowed
    rw [hone, List.map_singleton] at hstep
    have hreplays := h.replays.check ⟨.checkAndRecord, userId, toolName, config, clk⟩
    have hown : ∀ e ∈ [ToolEvent.checked ⟨.checkAndRecord, userId, toolName, config, clk⟩
        (s.rateLimiter.call ⟨.checkAndRecord, userId, toolName, config, clk⟩).1], OwnCheck e := by
      intro e he
      rw [List.mem_singleton.mp he]
      trivial
    have hearned := h.funded.earn (e := ToolEvent.checked ⟨.checkAndRecord, userId, toolName, config, clk⟩
      (s.rateLimiter.call ⟨.checkAndRecord, userId, toolName, config, clk⟩).1) rfl
    have hlimiter' : rt.rateLimiter = (s.rateLimiter.call ⟨.checkAndRecord, userId, toolName, config, clk⟩).2 :=
      hlimiter
    rw [← hlimiter'] at hreplays
    cases result with
    | error e =>
      obtain rfl := Option.some.inj hstep
      exact h.absorb rt h.underWay hown (hearned.mono (Multiset.le_add_right _ _)) hreplays
    | ok a =>
      obtain rfl := Option.some.inj hstep
      obtain ⟨hconfig, huser, hallowed⟩ := hadmitted a rfl
      refine h.absorb rt ?_ hown ?_ hreplays
      · intro f hf
        rcases List.mem_append.mp hf with hin | hin
        · exact h.underWay f hin
        · obtain rfl := List.mem_singleton.mp hin
          unfold InFlight.event
          rw [hconfig, ← huser]
          exact ⟨clk, rfl⟩
      · rw [held_snoc]
        refine hearned.mono (le_of_eq ?_)
        congr 1
        exact (if_pos hallowed).symm

/-- **A run keeps the account**: it spends the check of its call, or the check is dropped with the call. -/
theorem run_sound (h : Sound env s) {index : Nat} {clock : ToolClock}
    (hstep : s.step env cmds (.run index clock) = some s') :
    Sound env s' := by
  obtain ⟨f, hf, rfl⟩ := Option.map_eq_some_iff.mp hstep
  have hmem : f ∈ s.inFlight := List.mem_of_getElem? hf
  have hrest : ∀ g ∈ s.inFlight.eraseIdx index, OwnCheck g.event :=
    fun g hg => h.underWay g (List.mem_of_mem_eraseIdx hg)
  have hfunded := h.funded
  rw [held_eraseIdx hf] at hfunded
  obtain ⟨hlimiter, hquiet | hrun⟩ := runAdmitted_runs env f clock (show s.runtime.log = [] from rfl)
  · dsimp only
    rw [hquiet]
    refine h.absorb _ hrest (fun e he => absurd he List.not_mem_nil) ?_ ?_
    · rw [List.append_nil]
      exact hfunded.mono (Multiset.le_add_right _ _)
    · rw [hlimiter, List.append_nil]
      exact h.replays
  · dsimp only
    rw [hrun]
    refine h.absorb _ hrest ?_ ?_ ?_
    · intro e he
      rw [List.mem_singleton.mp he]
      exact h.underWay f hmem
    · exact Log.Funded.pay (e := f.event) hfunded rfl
    · rw [hlimiter]
      exact h.replays.quiet rfl

/-- **Every step keeps the account.** -/
theorem step_sound (hnames : NamesOnly env (Unlimited env)) (h : Sound env s) {act : Act W}
    (hstep : s.step env cmds act = some s') : Sound env s' := by
  cases act with
  | message msg now =>
    obtain rfl := Option.some.inj hstep
    exact h.named (handleMessage_named hnames h.stored cmds msg now) msg.userId
  | gate deps toolName params clk => exact gate_sound h hstep
  | run index clock => exact run_sound h hstep
  | jobs contextManager =>
    obtain rfl := Option.some.inj hstep
    exact ⟨h.stored, h.underWay, h.own, h.funded, h.replays⟩
  | elsewhere w =>
    obtain rfl := Option.some.inj hstep
    exact ⟨h.stored, h.underWay, h.own, h.funded, h.replays⟩

end Steps

/-- **Rate limits bind in every run in which the model asks, in chat, only for tools without a limit.** -/
theorem limits_bind (env : Env W) (cmds : CommandEnv W) (hnames : NamesOnly env (Unlimited env))
    (store : ConversationStore) (w : W) (cm : ContextManager) (acts : List (Act W)) (s : Process W)
    (run : Runs (Process.step env cmds) (fun _ _ => True) (Process.start store w cm) acts s) : Metered s.log := by
  have hsound : Sound env s :=
    run.invariant (P := fun _ s => Sound env s) (Sound.start env store w cm) fun h _ hstep => step_sound hnames h hstep
  refine ⟨hsound.own, hsound.funded.always, ?_⟩
  intro config hclock hconfig p a b
  exact runs_bounded hsound.replays.answers (hsound.funded.always s.log List.prefix_rfl) hclock hconfig p a b

/-! ## A chat and a job -/

/-- `shell` may run once a minute, `echo` as often as it likes; neither needs approval. The model asks for a tool in
    chat, once. -/
def meteredEnv (wanted : String) : Env Nat :=
  { Env.scripted [⟨none, [⟨"call_1", wanted, .object []⟩]⟩] with
    tool := fun _ name =>
      if name = "shell" then some ⟨"run a command", [], fun _ => .never, some ⟨1, 10⟩⟩
      else if name = "echo" then some ⟨"repeat a text", [], fun _ => .never, none⟩
      else none
    toolDefinitions := fun _ => [⟨"shell", "run a command", .null⟩, ⟨"echo", "repeat a text", .null⟩] }

/-- One job in progress. -/
def oneJob : ContextManager where
  contexts := (∅ : Map Uuid JobContext).insert 1
    { jobId := 1, userId := "ann", title := "", description := "", state := .inProgress }
  maxJobs := 5

/-- The user asks for something in chat. -/
def askInChat : Act Nat := .message { channel := "cli", userId := "ann", content := "do it" } 0

/-- A run of a limited tool without a check. -/
def unchecked : ToolEvent → Bool
  | .ran _ _ (some _) none => true
  | _ => false

theorem not_metered_of_unchecked (h : log.any unchecked = true) : ¬ Metered log := by
  intro hmetered
  obtain ⟨e, he, hunchecked⟩ := List.any_eq_true.mp h
  have hown := hmetered.own e he
  rcases e with ⟨call, result⟩ | ⟨u, name, _ | config, _ | check⟩
  · cases hunchecked
  · cases hunchecked
  · cases hunchecked
  · obtain ⟨clk, hcheck⟩ := hown
    cases hcheck
  · cases hunchecked

/-- **The limit is not looked at in chat.** -/
theorem chat_ignores_the_limit :
    ∃ s, Runs (Process.step (meteredEnv "shell") (CommandEnv.idle Nat)) (fun _ _ => True)
        (Process.start {} 0 oneJob) [askInChat] s
      ∧ s.log.any unchecked = true ∧ ¬ Metered s.log := by
  have hrun : (match [askInChat].foldlM (Process.step (meteredEnv "shell") (CommandEnv.idle Nat))
      (Process.start {} 0 oneJob) with
    | some s => s.log.any unchecked
    | none => false) = true := by decide
  exact ⟨_, .snoc (.refl _) _ trivial rfl, hrun, not_metered_of_unchecked hrun⟩

/-- The chat runs `echo`, a job of the user runs `shell`. -/
def echoAndShell : List (Act Nat) :=
  [askInChat, .gate ⟨1, none, fun _ => ""⟩ "shell" (.object []) (.at 0), .run 0 ⟨.at 0, 0, 0⟩]

theorem meteredEnv_namesOnly : NamesOnly (meteredEnv "echo") (Unlimited (meteredEnv "echo")) := by
  rintro calls content ⟨w₀, messages, w, response, hcomplete, hread⟩ tc htc
  have hresponse : ([⟨none, [⟨"call_1", "echo", .object []⟩]⟩] : List LlmResponse)[w]?.getD ⟨some "ok", []⟩ = response :=
    Except.ok.inj hcomplete
  have hcalls : ∀ tc ∈ response.toolCalls, tc.name = "echo" := by
    rw [← hresponse]
    cases w with
    | zero => exact fun tc htc => by rw [List.mem_singleton.mp htc]
    | succ n => exact fun tc htc => absurd htc List.not_mem_nil
  have hname : tc.name = "echo" := by
    unfold readToolAnswer at hread
    split at hread
    · cases hread
      exact hcalls tc htc
    · cases hread
  rw [hname]
  rintro w' tool ⟨rfl⟩
  rfl

/-- One run of `shell`, out of its own check. -/
theorem limits_bind_echoAndShell :
    ∃ s : Process Nat, (s.log.filterMap (checkedAt ("ann", "shell"))).length = 1 ∧ Metered s.log := by
  have hrun : ((echoAndShell.foldlM (Process.step (meteredEnv "echo") (CommandEnv.idle Nat))
      (Process.start {} 0 oneJob)).map fun s => (s.log.filterMap (checkedAt ("ann", "shell"))).length) = some 1 := by
    decide
  obtain ⟨s, hs, hlength⟩ := Option.map_eq_some_iff.mp hrun
  exact ⟨s, hlength, limits_bind (meteredEnv "echo") (CommandEnv.idle Nat) meteredEnv_namesOnly {} 0 oneJob echoAndShell
    s (Runs.of_foldlM hs)⟩

end Freeclawdia.Metering
