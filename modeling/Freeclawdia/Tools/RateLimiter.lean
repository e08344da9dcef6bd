import Freeclawdia.Lib.Map

/-!
# `Tools.RateLimiter` — the per-user, per-tool rate limiter

`tools/rate_limiter.rs`. A limiter keeps two fixed windows for each `(user, tool)` pair, of a minute and of an
hour, and restarts a window lazily, when a call finds it expired. Counts and limits are `u32`, as in the
source; instants and durations count nanoseconds of the monotonic clock. One call reads the clock several
times, so a call carries its readings, in order (`Reads`).
-/

namespace Freeclawdia

/-- A reading of the monotonic clock. -/
abbrev Instant := Nat

/-- A `Duration`, in nanoseconds. -/
abbrev Nanos := Nat

/-- `Duration::from_secs`. -/
def Nanos.fromSecs (secs : Nat) : Nanos := secs * 1000000000

/-- `Instant::elapsed`, which saturates at zero. -/
def Instant.elapsed (start now : Instant) : Nanos := now - start

def MINUTE_SECS : Nat := 60
def HOUR_SECS : Nat := 3600

/-- `ToolRateLimitConfig`. -/
structure ToolRateLimitConfig where
  requestsPerMinute : UInt32
  requestsPerHour : UInt32

/-- Which rate limit was exceeded. -/
inductive LimitType
  | perMinute
  | perHour

/-- Result of a rate limit check. -/
inductive RateLimitResult
  | allowed (remainingMinute remainingHour : UInt32)
  | limited (retryAfter : Nanos) (limitType : LimitType)

def RateLimitResult.isAllowed : RateLimitResult → Bool
  | .allowed .. => true
  | .limited .. => false

/-- The clock readings of one call, in the order in which the call takes them. A branch that is not taken
    leaves its reading unused. -/
structure Reads where
  /-- `WindowState::new` of the minute window, and of the hour window. -/
  minuteNew : Instant
  hourNew : Instant
  /-- `maybe_reset` of the minute window: `elapsed`, then the new start. -/
  minuteElapsed : Instant
  minuteNow : Instant
  /-- `maybe_reset` of the hour window. -/
  hourElapsed : Instant
  hourNow : Instant
  /-- `time_until_reset`, and the moment of the answer. -/
  answered : Instant
  sorted : [minuteNew, hourNew, minuteElapsed, minuteNow, hourElapsed, hourNow, answered].Pairwise (· ≤ ·)

/-- Every reading of the call at one moment. -/
def Reads.at (t : Instant) : Reads := ⟨t, t, t, t, t, t, t, by simp⟩

/-! ## Windows -/

/-- State of a single rate limit window. -/
structure WindowState where
  windowStart : Instant
  count : UInt32

namespace WindowState

def new (now : Instant) : WindowState := ⟨now, 0⟩

variable (w : WindowState)

/-- Has the window run out at this reading? -/
def expired (windowDuration : Nanos) (now : Instant) : Prop :=
  windowDuration ≤ w.windowStart.elapsed now

instance (w : WindowState) (d : Nanos) (now : Instant) : Decidable (w.expired d now) :=
  inferInstanceAs (Decidable (d ≤ w.windowStart.elapsed now))

/-- Reset the window if it has expired. -/
def maybeReset (windowDuration : Nanos) (elapsedAt now : Instant) : WindowState :=
  if w.expired windowDuration elapsedAt then new now else w

/-- Time until the window resets. -/
def timeUntilReset (windowDuration : Nanos) (now : Instant) : Nanos :=
  if windowDuration ≤ w.windowStart.elapsed now then 0 else windowDuration - w.windowStart.elapsed now

/-- `count += 1`, in `u32`. -/
def increment : WindowState := { w with count := w.count + 1 }

end WindowState

/-- Rate limit state for a single `(user, tool)` pair. -/
structure ToolRateLimitState where
  minuteWindow : WindowState
  hourWindow : WindowState

namespace ToolRateLimitState

def new (clk : Reads) : ToolRateLimitState := ⟨.new clk.minuteNew, .new clk.hourNew⟩

variable (s : ToolRateLimitState)

/-- Reset windows if expired. -/
def resetExpired (clk : Reads) : ToolRateLimitState where
  minuteWindow := s.minuteWindow.maybeReset (.fromSecs MINUTE_SECS) clk.minuteElapsed clk.minuteNow
  hourWindow := s.hourWindow.maybeReset (.fromSecs HOUR_SECS) clk.hourElapsed clk.hourNow

/-- Count the request in both windows, if it is to be recorded. -/
def count (record : Bool) : ToolRateLimitState :=
  if record then ⟨s.minuteWindow.increment, s.hourWindow.increment⟩ else s

/-- The limit that refuses a request in this state, if any: the minute's is looked at first. -/
def exceeded (config : ToolRateLimitConfig) : Option LimitType :=
  if config.requestsPerMinute ≤ s.minuteWindow.count then some .perMinute
  else if config.requestsPerHour ≤ s.hourWindow.count then some .perHour
  else none

/-- Both limits, and the record: what `check_internal` does with the pair's state after the resets. -/
def decideOn (config : ToolRateLimitConfig) (record : Bool) (clk : Reads) :
    RateLimitResult × ToolRateLimitState :=
  match s.exceeded config with
  | some .perMinute =>
    (.limited (s.minuteWindow.timeUntilReset (.fromSecs MINUTE_SECS) clk.answered) .perMinute, s)
  | some .perHour =>
    (.limited (s.hourWindow.timeUntilReset (.fromSecs HOUR_SECS) clk.answered) .perHour, s)
  | none =>
    (.allowed (config.requestsPerMinute - (s.count record).minuteWindow.count)
      (config.requestsPerHour - (s.count record).hourWindow.count), s.count record)

end ToolRateLimitState

/-! ## The limiter -/

/-- In-memory rate limiter, keyed by `(user_id, tool_name)`. -/
structure RateLimiter where
  state : Map (String × String) ToolRateLimitState

namespace RateLimiter

def new : RateLimiter := ⟨∅⟩

variable (l : RateLimiter)

/-- The pair's state as a call finds it: its entry, or a new one, with expired windows reset. -/
def entry (key : String × String) (clk : Reads) : ToolRateLimitState :=
  ((l.state.lookup key).getD (.new clk)).resetExpired clk

/-- Shared logic: reset windows, check limits, and optionally record the request. -/
def checkInternal (userId toolName : String) (config : ToolRateLimitConfig) (record : Bool)
    (clk : Reads) : RateLimitResult × RateLimiter :=
  let key := (userId, toolName)
  let answer := (l.entry key clk).decideOn config record clk
  (answer.1, ⟨l.state.insert key answer.2⟩)

/-- Check if a request is allowed and record it if so. -/
def checkAndRecord (userId toolName : String) (config : ToolRateLimitConfig) (clk : Reads) :
    RateLimitResult × RateLimiter :=
  l.checkInternal userId toolName config true clk

/-- Check without recording (for preview/estimation). -/
def check (userId toolName : String) (config : ToolRateLimitConfig) (clk : Reads) :
    RateLimitResult × RateLimiter :=
  l.checkInternal userId toolName config false clk

end RateLimiter

/-! ## Sequences of calls -/

/-- Which of the two methods a call is to. -/
inductive RateMethod
  | check
  | checkAndRecord
  deriving DecidableEq

/-- One timed call. -/
structure RateCall where
  method : RateMethod
  userId : String
  toolName : String
  config : ToolRateLimitConfig
  clk : Reads

/-- The pair a call is for. -/
def RateCall.pair (c : RateCall) : String × String := (c.userId, c.toolName)

namespace RateLimiter

def call (l : RateLimiter) (c : RateCall) : RateLimitResult × RateLimiter :=
  match c.method with
  | .check => l.check c.userId c.toolName c.config c.clk
  | .checkAndRecord => l.checkAndRecord c.userId c.toolName c.config c.clk

/-- The calls of a sequence with their answers. -/
def answers (l : RateLimiter) : List RateCall → List (RateCall × RateLimitResult)
  | [] => []
  | c :: cs => (c, (l.call c).1) :: (l.call c).2.answers cs

end RateLimiter
end Freeclawdia
