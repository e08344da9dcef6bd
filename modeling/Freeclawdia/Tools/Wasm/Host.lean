import Freeclawdia.Lib.Quota
import Freeclawdia.Rust.Slice

/-!
# `Tools.Wasm.Host` — what the host keeps of a WASM execution

The logs of `HostState` (`tools/wasm/host.rs`): the first entries are kept, and long messages are cut. Where the code
panics there is no next state.
-/

namespace Freeclawdia

open Rust

/-- Maximum log entries per execution. -/
def MAX_LOG_ENTRIES : Nat := 1000

/-- Maximum bytes per log message. -/
def MAX_LOG_MESSAGE_BYTES : Nat := 4096

inductive LogLevel
  | trace
  | debug
  | info
  | warn
  | error

/-- A log entry. -/
structure LogEntry where
  level : LogLevel
  message : String
  timestampMillis : Nat

/-- What is put behind a text that was cut. -/
def truncationMarker : String := "... (truncated)"

/-- Truncate an overly long text: a slice of bytes, and the marker. -/
def truncateTo (limit : Nat) (text : String) : Option String :=
  if limit < byteLen text then (sliceTo text limit).map (· ++ truncationMarker) else some text

/-- Host state maintained during WASM execution: the logs, and whether logging is still enabled. -/
structure HostState where
  logs : Quota LogEntry := {}

namespace HostState

/-- The entry that is kept for a message. -/
def entryOf (entry : LogEntry) : Option LogEntry :=
  (truncateTo MAX_LOG_MESSAGE_BYTES entry.message).map fun message => { entry with message }

/-- Log a message from WASM. -/
def log (level : LogLevel) (message : String) (nowMillis : Nat) (h : HostState) : Option HostState :=
  (h.logs.offer MAX_LOG_ENTRIES entryOf ⟨level, message, nowMillis⟩).map fun logs => { h with logs }

/-- Get collected logs after execution. -/
def takeLogs (h : HostState) : List LogEntry × HostState := (h.logs.kept, { h with logs := h.logs.takeAll.2 })

end HostState

/-! ## What the host keeps of a channel's callback

The messages of `ChannelHostState` (`channels/wasm/host.rs`), on top of the logs of `HostState`. -/

/-- Maximum emitted messages per callback execution. -/
def MAX_EMITS_PER_EXECUTION : Nat := 100

/-- Maximum message content size (64 KB). -/
def MAX_MESSAGE_CONTENT_SIZE : Nat := 64 * 1024

/-- A message emitted by a WASM channel to be sent to the agent. -/
structure EmittedMessage where
  userId : String
  userName : Option String := none
  content : String
  threadId : Option String := none
  metadataJson : String := "\x7b\x7d"
  emittedAtMillis : Nat

/-- Host state for WASM channel callbacks. -/
structure ChannelHostState where
  base : HostState := {}
  emittedMessages : Quota EmittedMessage := {}

namespace ChannelHostState

/-- The message that is queued. -/
def messageOf (msg : EmittedMessage) : Option EmittedMessage :=
  (truncateTo MAX_MESSAGE_CONTENT_SIZE msg.content).map fun content => { msg with content }

/-- Emit a message from the channel. -/
def emitMessage (msg : EmittedMessage) (h : ChannelHostState) : Option ChannelHostState :=
  (h.emittedMessages.offer MAX_EMITS_PER_EXECUTION messageOf msg).map fun messages =>
    { h with emittedMessages := messages }

/-- Take all emitted messages (clears the queue). -/
def takeEmittedMessages (h : ChannelHostState) : List EmittedMessage × ChannelHostState :=
  (h.emittedMessages.kept, { h with emittedMessages := h.emittedMessages.takeAll.2 })

end ChannelHostState

/-! ## How often a channel may emit

The rate limiter of `channels/wasm/host.rs`. Times are milliseconds; a count grows below a limit of `u32` only. -/

structure EmitRateLimitConfig where
  messagesPerMinute : Nat
  messagesPerHour : Nat

structure RateWindow where
  count : Nat
  windowStart : Nat
  windowDurationMs : Nat

namespace RateWindow

def new (durationMs : Nat) : RateWindow := ⟨0, 0, durationMs⟩

/-- Reset window if expired. -/
def restarted (w : RateWindow) (nowMs : Nat) : RateWindow :=
  if w.windowDurationMs < nowMs - w.windowStart then { w with count := 0, windowStart := nowMs } else w

def checkAndRecord (w : RateWindow) (nowMs limit : Nat) : Bool × RateWindow :=
  let w := w.restarted nowMs
  if limit ≤ w.count then (false, w) else (true, { w with count := w.count + 1 })

end RateWindow

/-- Rate limiter for channel message emission. -/
structure ChannelEmitRateLimiter where
  config : EmitRateLimitConfig
  minuteWindow : RateWindow
  hourWindow : RateWindow

namespace ChannelEmitRateLimiter

def new (config : EmitRateLimitConfig) : ChannelEmitRateLimiter := ⟨config, .new 60000, .new 3600000⟩

/-- Check if an emit is allowed and record it if so. -/
def checkAndRecord (l : ChannelEmitRateLimiter) (now : Nat) : Bool × ChannelEmitRateLimiter :=
  let minute := l.minuteWindow.checkAndRecord now l.config.messagesPerMinute
  let hour := l.hourWindow.checkAndRecord now l.config.messagesPerHour
  (minute.1 && hour.1, { l with minuteWindow := minute.2, hourWindow := hour.2 })

end ChannelEmitRateLimiter
end Freeclawdia
