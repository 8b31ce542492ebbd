import Arbexpert.Ratelimit.Threads

/-!
# The arithmetic of a refill

The tick that a refill moves to is not later than the clock, so it is a word. The tokens of
the elapsed intervals are multiplied and added in words without a check, so the tokens are
those of unbounded integers exactly if their sum is a word.
-/

namespace Arbexpert.Ratelimit

namespace Ratelimiter

/-- The whole intervals that a refill finds elapsed. -/
def ticksAt (r : Ratelimiter) (now : ℤ) : ℕ :=
  r.parameters.ticksPassed r.lastTick (r.parameters.elapsedNanos now)

/-- The tokens after the elapsed intervals, if all of them fitted. -/
def refilled (r : Ratelimiter) (now : ℤ) : ℕ :=
  r.available + r.ticksAt now * r.parameters.refillAmount

/-- A refill leaves the tokens of unbounded integers, and all its products, sums and ticks up to
them are words. -/
structure ExactRefill (r : Ratelimiter) (now : ℤ) : Prop where
  available : (r.maybeRefill now).available = min r.parameters.capacity (r.refilled now)
  interval : r.ticksAt now * r.parameters.intervalNanos < 2 ^ 64
  lastTick : r.lastTick + r.ticksAt now * r.parameters.intervalNanos < 2 ^ 64
  tokens : r.ticksAt now * r.parameters.refillAmount < 2 ^ 64
  sum : r.refilled now < 2 ^ 64

/-- A refill counts the tokens that do not fit as in unbounded integers. -/
def CountsDropped (r : Ratelimiter) (now : ℤ) : Prop :=
  (r.maybeRefill now).dropped = r.dropped + (r.refilled now - r.parameters.capacity)

variable {r : Ratelimiter} {now : ℤ}

/-- Where an interval has elapsed there is one, and the tick of the last one has come. -/
theorem tick_le_of_ticksAt (hticks : r.ticksAt now ≠ 0) : r.parameters.intervalNanos ≠ 0 ∧
    r.lastTick + r.ticksAt now * r.parameters.intervalNanos ≤ r.parameters.elapsedNanos now := by
  have hclaim := Thread.claimsElapsed_refillClaim r.parameters now 0 r.lastTick hticks
  have hle := Nat.div_mul_le_self (r.parameters.elapsedNanos now - r.lastTick)
    r.parameters.intervalNanos
  have hpos : 0 < r.parameters.elapsedNanos now - r.lastTick := by
    by_contra hzero
    apply hticks
    rw [ticksAt, Parameters.ticksPassed, Nat.eq_zero_of_not_pos hzero, Nat.zero_div]
  refine ⟨hclaim.interval, ?_⟩
  simp only [ticksAt, Parameters.ticksPassed]
  omega

/-- A refill that finds no interval elapsed changes nothing. -/
theorem maybeRefill_of_ticksAt (hticks : r.ticksAt now = 0) : r.maybeRefill now = r := by
  unfold maybeRefill
  split
  · rfl
  · exact if_pos hticks

/-- What a refill does when it finds intervals elapsed. -/
theorem maybeRefill_of_ticksAt_ne (hticks : r.ticksAt now ≠ 0) :
    r.maybeRefill now =
      let sum := addU64 r.available (r.parameters.tokensToAdd (r.ticksAt now))
      { r with
        lastTick := r.parameters.newLastTick r.lastTick (r.ticksAt now)
        available := min sum r.parameters.capacity
        dropped :=
          if r.parameters.capacity < sum then addU64 r.dropped (sum - r.parameters.capacity)
          else r.dropped } := by
  rw [maybeRefill, if_neg (tick_le_of_ticksAt hticks).1]
  exact if_neg hticks

/-- A refill leaves the parameters alone. -/
theorem parameters_maybeRefill (r : Ratelimiter) (now : ℤ) :
    (r.maybeRefill now).parameters = r.parameters := by
  by_cases hticks : r.ticksAt now = 0
  · rw [maybeRefill_of_ticksAt hticks]
  · rw [maybeRefill_of_ticksAt_ne hticks]

/-- After a refill that finds intervals elapsed the tokens fit. -/
theorem available_le_capacity (hticks : r.ticksAt now ≠ 0) :
    (r.maybeRefill now).available ≤ r.parameters.capacity := by
  rw [maybeRefill_of_ticksAt_ne hticks]
  exact Nat.min_le_right _ _

/-- A refill leaves no more tokens than fit. -/
theorem available_maybeRefill_fits (hfits : r.available ≤ r.parameters.capacity) (now : ℤ) :
    (r.maybeRefill now).available ≤ r.parameters.capacity := by
  by_cases hticks : r.ticksAt now = 0
  · rwa [maybeRefill_of_ticksAt hticks]
  · exact available_le_capacity hticks

/-- The last tick after a refill, which does not wrap around. -/
theorem lastTick_add (r : Ratelimiter) (now : ℤ) : (r.maybeRefill now).lastTick =
    r.lastTick + r.ticksAt now * r.parameters.intervalNanos := by
  by_cases hticks : r.ticksAt now = 0
  · rw [maybeRefill_of_ticksAt hticks, hticks, Nat.zero_mul, Nat.add_zero]
  · rw [maybeRefill_of_ticksAt_ne hticks]
    exact Thread.newLastTick_eq
      (Thread.claimsElapsed_refillClaim r.parameters now 0 r.lastTick hticks)

/-- The sum of a refill in words, when it is a word. -/
theorem addU64_tokensToAdd (hsum : r.refilled now < 2 ^ 64) :
    addU64 r.available (r.parameters.tokensToAdd (r.ticksAt now)) = r.refilled now := by
  have htokens : r.parameters.tokensToAdd (r.ticksAt now) =
      r.ticksAt now * r.parameters.refillAmount :=
    Thread.mulU64_eq (Nat.lt_of_le_of_lt (Nat.le_add_left _ _) hsum)
  rw [htokens]
  exact Thread.addU64_eq hsum

/-- The tokens after a refill whose sum is a word. -/
theorem available_maybeRefill (hticks : r.ticksAt now ≠ 0) (hsum : r.refilled now < 2 ^ 64) :
    (r.maybeRefill now).available = min r.parameters.capacity (r.refilled now) ∧
      (r.maybeRefill now).dropped =
        if r.parameters.capacity < r.refilled now then
          addU64 r.dropped (r.refilled now - r.parameters.capacity)
        else r.dropped := by
  simp only [maybeRefill_of_ticksAt_ne hticks, addU64_tokensToAdd hsum, Nat.min_comm, true_and]

/-- A refill that finds intervals elapsed is exact exactly if the tokens of all of them and those
available make a word; then the dropped tokens are counted exactly if their sum is a word. -/
theorem refill_exact_iff (hticks : r.ticksAt now ≠ 0) :
    (r.ExactRefill now ↔ r.refilled now < 2 ^ 64) ∧
      (r.ExactRefill now → (r.CountsDropped now ↔ r.parameters.capacity < r.refilled now →
        r.dropped + (r.refilled now - r.parameters.capacity) < 2 ^ 64)) := by
  obtain ⟨_, htick⟩ := tick_le_of_ticksAt hticks
  have hword : r.parameters.elapsedNanos now < 2 ^ 64 := Nat.mod_lt _ (by decide)
  constructor
  · constructor
    · exact ExactRefill.sum
    · intro hsum
      exact ⟨(available_maybeRefill hticks hsum).1, by omega, by omega,
        Nat.lt_of_le_of_lt (Nat.le_add_left _ _) hsum, hsum⟩
  · intro hexact
    rw [CountsDropped, (available_maybeRefill hticks hexact.sum).2]
    by_cases hover : r.parameters.capacity < r.refilled now
    · rw [if_pos hover, addU64]
      constructor
      · intro hcount _
        rw [← hcount]
        exact Nat.mod_lt _ (by decide)
      · exact fun hfits => Nat.mod_eq_of_lt (hfits hover)
    · rw [if_neg hover]
      exact iff_of_true (by omega) fun h => absurd h hover

/-- Two tokens for each of two intervals. -/
theorem smallRefill_exact : (⟨3, 0, ⟨6, 2, 10, .interval, 0⟩, 0⟩ : Ratelimiter).ExactRefill 25 :=
  (refill_exact_iff (by decide)).1.mpr (by decide)

/-- A builder accepts a limiter whose refill after two intervals wraps around and adds nothing. -/
theorem doubled_refill_wraps : ∃ r, (Builder.new (2 ^ 63) 1).build 0 0 = .ok r ∧
    r.ticksAt 2 = 2 ∧ (r.maybeRefill 2).available = 0 ∧
      min r.parameters.capacity (r.refilled 2) = 2 ^ 63 ∧ ¬r.ExactRefill 2 := by
  refine ⟨_, rfl, rfl, rfl, rfl, fun hexact => ?_⟩
  exact absurd hexact.available (by decide)

end Ratelimiter

end Arbexpert.Ratelimit
