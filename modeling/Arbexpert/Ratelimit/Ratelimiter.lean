import Mathlib.Algebra.GroupWithZero.Nat
import Mathlib.Data.Int.Notation

/-!
# The rate limiter

A bucket of tokens is refilled at the ticks of an interval. The limiter keeps the last tick
in nanoseconds from a start instant on the monotonic clock; a caller that finds whole
intervals elapsed since then moves the tick forward and adds their tokens, and those that
exceed the capacity are counted as dropped. The arithmetic is that of 64-bit words.
-/

namespace Arbexpert.Ratelimit

/-- The sum of two words. -/
def addU64 (a b : ℕ) : ℕ := (a + b) % 2 ^ 64

/-- The product of two words. -/
def mulU64 (a b : ℕ) : ℕ := a * b % 2 ^ 64

/-- The windows to which the ticks are aligned. -/
inductive Alignment
  | interval
  | minute
  | second
  deriving DecidableEq

/-- The parameters of a limiter. Durations and instants are in nanoseconds. -/
structure Parameters where
  capacity : ℕ
  refillAmount : ℕ
  refillInterval : ℕ
  alignment : Alignment
  startInstant : ℤ
  deriving DecidableEq

/-- A rate limiter. -/
structure Ratelimiter where
  available : ℕ
  dropped : ℕ
  parameters : Parameters
  lastTick : ℕ
  deriving DecidableEq

/-- What can be wrong with the arguments of the builder. -/
inductive Error
  | availableTokensTooHigh
  | maxTokensTooLow
  | refillAmountTooHigh
  | refillIntervalTooLong
  deriving DecidableEq

namespace Parameters

variable (parameters : Parameters)

/-- The interval as a word. -/
def intervalNanos : ℕ := parameters.refillInterval % 2 ^ 64

/-- The time from the start instant, as a word. -/
def elapsedNanos (now : ℤ) : ℕ := (now - parameters.startInstant).toNat % 2 ^ 64

/-- The number of whole intervals between the last tick and a later time. -/
def ticksPassed (last nowNanos : ℕ) : ℕ := (nowNanos - last) / parameters.intervalNanos

/-- The tick after a number of intervals. -/
def newLastTick (last ticks : ℕ) : ℕ := addU64 last (mulU64 ticks parameters.intervalNanos)

/-- The tokens of a number of intervals. -/
def tokensToAdd (ticks : ℕ) : ℕ := mulU64 ticks parameters.refillAmount

/-- The tokens available after some have been added. -/
def newAvailable (current tokens : ℕ) : ℕ := min (addU64 current tokens) parameters.capacity

/-- The time since the start of the window that contains a time since the epoch. -/
def timeSinceWindowStart (sinceUnixEpoch : ℕ) : ℕ :=
  (match parameters.alignment with
    | .minute => sinceUnixEpoch % 60000000000
    | .second => sinceUnixEpoch % 1000000000
    | .interval =>
      if parameters.refillInterval = 0 then 0
      else sinceUnixEpoch % parameters.refillInterval) % 2 ^ 64

end Parameters

namespace Ratelimiter

/-- Refill the bucket, when no other thread interferes. -/
def maybeRefill (r : Ratelimiter) (now : ℤ) : Ratelimiter :=
  if r.parameters.intervalNanos = 0 then r
  else
    let ticks := r.parameters.ticksPassed r.lastTick (r.parameters.elapsedNanos now)
    if ticks = 0 then r
    else
      let sum := addU64 r.available (r.parameters.tokensToAdd ticks)
      { r with
        lastTick := r.parameters.newLastTick r.lastTick ticks
        available := min sum r.parameters.capacity
        dropped :=
          if r.parameters.capacity < sum then addU64 r.dropped (sum - r.parameters.capacity)
          else r.dropped }

/-- The instant of the next refill. -/
def nextRefill (r : Ratelimiter) : ℤ :=
  r.parameters.startInstant + addU64 r.lastTick r.parameters.intervalNanos

/-- Take tokens, when no other thread interferes; or a hint how long to wait, counted from a
second reading of the clock. -/
def tryWaitN (r : Ratelimiter) (now hintNow : ℤ) (tokens : ℕ) :
    Ratelimiter × Except ℕ Unit :=
  let r := r.maybeRefill now
  if tokens ≤ r.available then ({ r with available := r.available - tokens }, .ok ())
  else (r, .error (r.nextRefill - hintNow).toNat)

/-- Take one token. -/
def tryWait (r : Ratelimiter) (now hintNow : ℤ) : Ratelimiter × Except ℕ Unit :=
  r.tryWaitN now hintNow 1

/-- Change the capacity. The difference is added to the available tokens when it grows. -/
def setMaxTokens (r : Ratelimiter) (amount : ℕ) : Ratelimiter × Except Error Unit :=
  if amount < r.parameters.refillAmount then (r, .error .maxTokensTooLow)
  else
    let oldCapacity := r.parameters.capacity
    let r := { r with parameters := { r.parameters with capacity := amount } }
    if oldCapacity < amount then
      let newAmount := min (r.available + (amount - oldCapacity)) (2 ^ 64 - 1)
      if newAmount ≤ r.available then (r, .ok ()) else ({ r with available := newAmount }, .ok ())
    else (r, .ok ())

/-- Change the tokens of an interval. -/
def setRefillAmount (r : Ratelimiter) (amount : ℕ) : Ratelimiter × Except Error Unit :=
  if r.parameters.capacity < amount then (r, .error .refillAmountTooHigh)
  else ({ r with parameters := { r.parameters with refillAmount := amount } }, .ok ())

/-- Change the available tokens. -/
def setAvailable (r : Ratelimiter) (amount : ℕ) : Ratelimiter × Except Error Unit :=
  if r.parameters.capacity < amount then (r, .error .availableTokensTooHigh)
  else ({ r with available := amount }, .ok ())

/-- Move the start instant and the last tick to the window of a server time. -/
def syncTime (r : Ratelimiter) (now : ℤ) (serverMs : ℕ) : Ratelimiter :=
  let sinceWindowStart := r.parameters.timeSinceWindowStart (serverMs * 1000000)
  { r with
    parameters := { r.parameters with startInstant := now - sinceWindowStart }
    lastTick := sinceWindowStart }

end Ratelimiter

/-- A builder of limiters. A server time comes with the instant of its capture. -/
structure Builder where
  initialAvailable : ℕ
  maxTokens : ℕ
  refillAmount : ℕ
  refillInterval : ℕ
  alignment : Alignment
  syncInfo : Option (ℕ × ℤ)
  deriving DecidableEq

namespace Builder

/-- A builder with the default values. -/
def new (amount interval : ℕ) : Builder := ⟨0, amount, amount, interval, .interval, none⟩

/-- Note a server time and the instant of its capture. -/
def syncTime (builder : Builder) (now : ℤ) (serverMs : ℕ) : Builder :=
  { builder with syncInfo := some (serverMs, now) }

/-- The time since the epoch at an instant: from the server time, if there is one, and the
whole milliseconds elapsed since its capture, else from the system clock. -/
def sinceUnixEpoch (builder : Builder) (now : ℤ) (system : ℕ) : ℕ :=
  match builder.syncInfo with
  | some (serverMs, capture) =>
    min (serverMs + (now - capture).toNat / 1000000 % 2 ^ 64) (2 ^ 64 - 1) * 1000000
  | none => system

/-- Build a limiter at an instant. -/
def build (builder : Builder) (now : ℤ) (system : ℕ) : Except Error Ratelimiter :=
  if builder.maxTokens < builder.refillAmount then .error .maxTokensTooLow
  else if 2 ^ 64 - 1 < builder.refillInterval then .error .refillIntervalTooLong
  else if builder.maxTokens < builder.initialAvailable then .error .availableTokensTooHigh
  else
    let parameters : Parameters :=
      ⟨builder.maxTokens, builder.refillAmount, builder.refillInterval, builder.alignment, now⟩
    let sinceWindowStart := parameters.timeSinceWindowStart (builder.sinceUnixEpoch now system)
    .ok {
      available := builder.initialAvailable
      dropped := 0
      parameters := { parameters with startInstant := now - sinceWindowStart }
      lastTick := sinceWindowStart }

end Builder

end Arbexpert.Ratelimit
