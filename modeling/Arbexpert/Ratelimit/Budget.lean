import Arbexpert.Foundation.TokenBudget
import Arbexpert.Ratelimit.Refill

/-!
# The tokens of a limiter since a moment

Every call brings the limiter up to date before it takes its tokens. So the tokens that are taken
since a moment keep to the budget of a bucket, as long as the clock fits in a word.
-/

namespace Arbexpert.Ratelimit

/-- The nanoseconds from the start instant. -/
def Parameters.sinceStart (parameters : Parameters) (now : ℤ) : ℕ :=
  (now - parameters.startInstant).toNat

namespace Ratelimiter

/-- The tokens taken since a moment keep to the budget of a bucket with some parameters. -/
def Within (parameters : Parameters) (since : ℤ) (r : Ratelimiter) (now : ℤ) (taken : ℕ) : Prop :=
  TokenBudget.Within parameters.capacity parameters.refillAmount parameters.intervalNanos
    (parameters.sinceStart since) r.lastTick r.available taken (parameters.sinceStart now)

/-- The tokens that were taken since a moment at which the limiter was as it is given: none, when
nobody has called, or those of a budget. -/
def Budget (first : Ratelimiter) (since : ℤ) (r : Ratelimiter) (now : ℤ) (taken : ℕ) : Prop :=
  r.parameters = first.parameters ∧
    (r = first ∧ taken = 0 ∨ Within first.parameters since r now taken)

variable {first r : Ratelimiter} {since now next hintNow : ℤ} {taken tokens : ℕ}

/-- The tokens after a refill, when words may wrap around. -/
theorem available_maybeRefill_le (r : Ratelimiter) (now : ℤ) :
    (r.maybeRefill now).available ≤ r.available + r.ticksAt now * r.parameters.refillAmount := by
  by_cases hticks : r.ticksAt now = 0
  · rw [maybeRefill_of_ticksAt hticks]
    omega
  · have hsum : addU64 r.available (r.parameters.tokensToAdd (r.ticksAt now)) ≤
        r.available + r.parameters.tokensToAdd (r.ticksAt now) := Nat.mod_le _ _
    have htokens : r.parameters.tokensToAdd (r.ticksAt now) ≤
        r.ticksAt now * r.parameters.refillAmount := Nat.mod_le _ _
    rw [maybeRefill_of_ticksAt_ne hticks]
    dsimp only
    omega

/-- After a refill less than an interval has passed since the last tick. -/
theorem sinceStart_lt_lastTick (hinterval : 0 < r.parameters.intervalNanos)
    (hword : r.parameters.sinceStart now < 2 ^ 64) :
    r.parameters.sinceStart now < (r.maybeRefill now).lastTick + r.parameters.intervalNanos := by
  have helapsed : r.parameters.elapsedNanos now = r.parameters.sinceStart now :=
    Nat.mod_eq_of_lt hword
  have hdiv := Nat.lt_div_mul_add (a := r.parameters.sinceStart now - r.lastTick) hinterval
  rw [lastTick_add]
  simp only [ticksAt, Parameters.ticksPassed, helapsed]
  omega

/-- Bringing the limiter up to date keeps the budget. -/
theorem Budget.maybeRefill (h : Budget first since r now taken) (hnow : since ≤ now)
    (hinterval : 0 < first.parameters.intervalNanos)
    (hword : first.parameters.sinceStart now < 2 ^ 64)
    (hfirst : first.available ≤ first.parameters.capacity) :
    Within first.parameters since (r.maybeRefill now) now taken := by
  obtain ⟨hparameters, hcase⟩ := h
  rw [← hparameters] at hinterval hword hfirst hcase ⊢
  rcases hcase with ⟨rfl, rfl⟩ | hwithin
  · have hsince : r.parameters.sinceStart since ≤ r.parameters.sinceStart now := by
      unfold Parameters.sinceStart
      omega
    exact .first (Nat.lt_of_le_of_lt hsince (sinceStart_lt_lastTick hinterval hword))
      (available_maybeRefill_fits hfirst now)
  · by_cases hticks : r.ticksAt now = 0
    · rwa [maybeRefill_of_ticksAt hticks]
    · have helapsed : r.parameters.elapsedNanos now = r.parameters.sinceStart now :=
        Nat.mod_eq_of_lt hword
      unfold Within
      rw [lastTick_add]
      refine TokenBudget.Within.refill hwithin ?_ (available_maybeRefill_le r now)
      rw [← helapsed]
      exact (tick_le_of_ticksAt hticks).2

/-- A call keeps the budget with the tokens that it takes. -/
theorem Budget.tryWaitN (h : Budget first since r now taken) (hnow : since ≤ now)
    (hinterval : 0 < first.parameters.intervalNanos)
    (hword : first.parameters.sinceStart now < 2 ^ 64)
    (hfirst : first.available ≤ first.parameters.capacity) (hintNow : ℤ) (tokens : ℕ) :
    (∀ t, r.tryWaitN now hintNow tokens = (t, .ok ()) →
        Budget first since t now (taken + tokens)) ∧
      ∀ t hint, r.tryWaitN now hintNow tokens = (t, .error hint) →
        Budget first since t now taken := by
  have hwithin := h.maybeRefill hnow hinterval hword hfirst
  have hparameters : (r.maybeRefill now).parameters = first.parameters :=
    (parameters_maybeRefill r now).trans h.1
  unfold Ratelimiter.tryWaitN
  by_cases htokens : tokens ≤ (r.maybeRefill now).available
  · simp only [if_pos htokens]
    refine ⟨fun t ht => ?_, fun t hint ht => by cases ht⟩
    cases ht
    exact ⟨hparameters, .inr (TokenBudget.Within.take hwithin htokens)⟩
  · simp only [if_neg htokens]
    refine ⟨fun t ht => ?_, fun t hint ht => ?_⟩
    · cases ht
    · cases ht
      exact ⟨hparameters, .inr hwithin⟩

/-- A call keeps the parameters, and no more tokens than fit. -/
theorem tryWaitN_fits (hfits : r.available ≤ r.parameters.capacity) (now hintNow : ℤ)
    (tokens : ℕ) : (r.tryWaitN now hintNow tokens).1.parameters = r.parameters ∧
      (r.tryWaitN now hintNow tokens).1.available ≤ r.parameters.capacity := by
  have hparameters := parameters_maybeRefill r now
  have hrefilled := available_maybeRefill_fits hfits now
  unfold Ratelimiter.tryWaitN
  by_cases htokens : tokens ≤ (r.maybeRefill now).available
  · simp only [if_pos htokens]
    exact ⟨hparameters, by omega⟩
  · simp only [if_neg htokens]
    exact ⟨hparameters, hrefilled⟩

/-- The budget is kept while time passes. -/
theorem Budget.later (h : Budget first since r now taken) (hnext : now ≤ next) :
    Budget first since r next taken := by
  refine ⟨h.1, h.2.imp_right fun hwithin => TokenBudget.Within.later hwithin ?_⟩
  unfold Parameters.sinceStart
  omega

/-- The tokens that are taken in some time are at most those of a full bucket and of as many refills
as this time touches intervals. -/
theorem Budget.taken_le (h : Budget first since r now taken)
    (hinterval : 0 < first.parameters.intervalNanos) :
    taken ≤ first.parameters.capacity +
      ((now - since).toNat + (first.parameters.intervalNanos - 1)) /
        first.parameters.intervalNanos * first.parameters.refillAmount := by
  rcases h.2 with ⟨_, rfl⟩ | hwithin
  · exact Nat.zero_le _
  · have hle := TokenBudget.Within.taken_le hwithin hinterval
    have htime : first.parameters.sinceStart now - first.parameters.sinceStart since ≤
        (now - since).toNat := by
      unfold Parameters.sinceStart
      omega
    refine Nat.le_trans hle (Nat.add_le_add_left (Nat.mul_le_mul_right _ ?_) _)
    exact Nat.div_le_div_right (Nat.add_le_add_right htime _)

end Ratelimiter

end Arbexpert.Ratelimit
