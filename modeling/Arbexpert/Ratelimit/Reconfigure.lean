import Arbexpert.Foundation.GuardedRun
import Arbexpert.Ratelimit.Refill

/-!
# Changing the capacity

A lowered capacity leaves the available tokens above it, and a raised one adds the difference
to them, also when they exceed the old capacity already. So a cut and a raise back make tokens
that no capacity ever allowed, unless the tokens above the old capacity fit between the new
capacity and the largest one.
-/

namespace Arbexpert.Ratelimit

/-- A limiter, and the largest capacity that it has had. -/
structure Configured where
  limiter : Ratelimiter
  largest : ℕ

/-- What can happen next: a change of a parameter, a refill or a call. -/
inductive ConfigureAction
  | setMaxTokens (amount : ℕ)
  | setRefillAmount (amount : ℕ)
  | setAvailable (amount : ℕ)
  | maybeRefill (now : ℤ)
  | tryWaitN (now reading : ℤ) (tokens : ℕ)

namespace Configured

/-- A limiter as it was built. -/
def start (limiter : Ratelimiter) : Configured := ⟨limiter, limiter.parameters.capacity⟩

/-- A limiter after an operation, which may have set its capacity. -/
def after (s : Configured) (limiter : Ratelimiter) : Configured :=
  ⟨limiter, max s.largest limiter.parameters.capacity⟩

/-- One step; an operation may reject its argument. -/
def step (s : Configured) : ConfigureAction → Option Configured
  | .setMaxTokens amount => some (s.after (s.limiter.setMaxTokens amount).1)
  | .setRefillAmount amount => some (s.after (s.limiter.setRefillAmount amount).1)
  | .setAvailable amount => some (s.after (s.limiter.setAvailable amount).1)
  | .maybeRefill now => some (s.after (s.limiter.maybeRefill now))
  | .tryWaitN now reading tokens => some (s.after (s.limiter.tryWaitN now reading tokens).1)

/-- No more tokens are available than the largest capacity. -/
def Bounded (s : Configured) : Prop := s.limiter.available ≤ s.largest

/-- Whether the bound holds is computed. -/
instance (s : Configured) : Decidable s.Bounded := Nat.decLe _ _

/-- When the capacity is raised, the tokens above the old one fit between the new capacity and
the largest one, or that is the largest word. -/
def RaisesWithin (s : Configured) : ConfigureAction → Prop
  | .setMaxTokens amount => s.limiter.parameters.refillAmount ≤ amount →
    s.limiter.parameters.capacity < amount →
      s.limiter.available - s.limiter.parameters.capacity ≤ max s.largest amount - amount ∨
        2 ^ 64 - 1 ≤ max s.largest amount
  | _ => True

/-- Whether a raise keeps the bound is computed. -/
instance (s : Configured) (action : ConfigureAction) : Decidable (s.RaisesWithin action) := by
  cases action <;> simp only [RaisesWithin] <;> infer_instance

/-- The capacity is one of those that the limiter has had. -/
def Covers (s : Configured) : Prop := s.limiter.parameters.capacity ≤ s.largest

variable {s t : Configured} {action : ConfigureAction}

/-- Every step covers the capacity. -/
theorem covers_step (hstep : s.step action = some t) : t.Covers := by
  cases action <;> cases hstep <;> exact Nat.le_max_right _ _

/-- A refill makes no more tokens available than before or than the capacity. -/
theorem available_maybeRefill_le (r : Ratelimiter) (now : ℤ) :
    (r.maybeRefill now).available ≤ max r.available r.parameters.capacity := by
  by_cases hticks : r.ticksAt now = 0
  · rw [Ratelimiter.maybeRefill_of_ticksAt hticks]
    exact Nat.le_max_left _ _
  · exact Nat.le_trans (Ratelimiter.available_le_capacity hticks) (Nat.le_max_right _ _)

/-- A raise of the capacity keeps the bound exactly if the tokens above the old one fit. -/
theorem raise_bounded_iff (h : s.Bounded) (hcovers : s.Covers) {amount : ℕ}
    (haccepted : s.limiter.parameters.refillAmount ≤ amount)
    (hraise : s.limiter.parameters.capacity < amount) :
    (s.after (s.limiter.setMaxTokens amount).1).Bounded ↔
      s.limiter.available - s.limiter.parameters.capacity ≤ max s.largest amount - amount ∨
        2 ^ 64 - 1 ≤ max s.largest amount := by
  simp only [Bounded, Covers] at h hcovers
  rw [Ratelimiter.setMaxTokens, if_neg (Nat.not_lt.mpr haccepted)]
  simp only [if_pos hraise]
  split
  · simp only [Bounded, after]
    omega
  · simp only [Bounded, after]
    omega

/-- An operation that makes no more tokens available than before or than the capacity keeps the
bound. -/
theorem Bounded.after (h : s.Bounded) (hcovers : s.Covers) {r : Ratelimiter}
    (hle : r.available ≤ max s.limiter.available s.limiter.parameters.capacity) :
    (s.after r).Bounded :=
  Nat.le_trans hle (Nat.le_trans (Nat.max_le.mpr ⟨h, hcovers⟩) (Nat.le_max_left _ _))

/-- A step keeps the bound exactly if it raises the capacity within it. -/
theorem bounded_step_iff (h : s.Bounded) (hcovers : s.Covers) (hstep : s.step action = some t) :
    t.Bounded ↔ s.RaisesWithin action := by
  cases action with
  | setMaxTokens amount =>
    cases hstep
    by_cases haccepted : s.limiter.parameters.refillAmount ≤ amount
    · by_cases hraise : s.limiter.parameters.capacity < amount
      · simp only [RaisesWithin, haccepted, hraise, true_imp_iff]
        exact raise_bounded_iff h hcovers haccepted hraise
      · refine iff_of_true (h.after hcovers ?_) fun _ habove => absurd habove hraise
        rw [Ratelimiter.setMaxTokens, if_neg (Nat.not_lt.mpr haccepted)]
        simp only [if_neg hraise]
        exact Nat.le_max_left _ _
    · refine iff_of_true (h.after hcovers ?_) fun hle => absurd hle haccepted
      rw [Ratelimiter.setMaxTokens, if_pos (Nat.not_le.mp haccepted)]
      exact Nat.le_max_left _ _
  | setRefillAmount amount =>
    cases hstep
    refine iff_of_true (h.after hcovers ?_) trivial
    unfold Ratelimiter.setRefillAmount
    split <;> exact Nat.le_max_left _ _
  | setAvailable amount =>
    cases hstep
    refine iff_of_true (h.after hcovers ?_) trivial
    unfold Ratelimiter.setAvailable
    split
    · exact Nat.le_max_left _ _
    · rename_i hle
      exact Nat.le_trans (Nat.not_lt.mp hle) (Nat.le_max_right _ _)
  | maybeRefill now =>
    cases hstep
    exact iff_of_true (h.after hcovers (available_maybeRefill_le _ now)) trivial
  | tryWaitN now reading tokens =>
    cases hstep
    refine iff_of_true (h.after hcovers ?_) trivial
    have hrefill := available_maybeRefill_le s.limiter now
    unfold Ratelimiter.tryWaitN
    simp only
    split
    · exact Nat.le_trans (Nat.sub_le _ _) hrefill
    · exact hrefill

/-- A limiter that was built has no more tokens than its capacity. -/
theorem bounded_start {builder : Builder} {now : ℤ} {system : ℕ} {r : Ratelimiter}
    (hbuild : builder.build now system = .ok r) : (start r).Bounded := by
  unfold Builder.build at hbuild
  split at hbuild
  · cases hbuild
  · split at hbuild
    · cases hbuild
    · split at hbuild
      · cases hbuild
      · rename_i hinitial
        cases hbuild
        exact Nat.not_lt.mp hinitial

/-- In every run of operations on a limiter that was built, the available tokens never exceed the
largest capacity exactly if every raise of the capacity keeps them within it. -/
theorem reconfigured_bounded_iff {builder : Builder} {now : ℤ} {system : ℕ} {r : Ratelimiter}
    (hbuild : builder.build now system = .ok r) (actions : List ConfigureAction) :
    GuardedRun.StatesSatisfy step Bounded (start r) actions ↔
      GuardedRun.StepsSatisfy step RaisesWithin (start r) actions :=
  GuardedRun.statesSatisfy_iff_stepsSatisfy (I := Covers)
    (fun _ _ _ _ _ hstep => covers_step hstep)
    (fun _ _ _ hcovers h hstep => bounded_step_iff h hcovers hstep)
    (Nat.le_refl _) (bounded_start hbuild)

/-- The capacity is lowered and raised back after half of the tokens have been taken. -/
theorem halfTaken_bounded :
    GuardedRun.StatesSatisfy step Bounded (start ⟨6, 0, ⟨6, 2, 10, .interval, 0⟩, 0⟩)
      [.tryWaitN 0 0 3, .setMaxTokens 4, .setMaxTokens 6] := by
  have hbuild : Builder.build ⟨6, 6, 2, 10, .interval, none⟩ 0 0 =
      .ok ⟨6, 0, ⟨6, 2, 10, .interval, 0⟩, 0⟩ := rfl
  exact (reconfigured_bounded_iff hbuild _).mpr (by decide)

/-- Five tokens are made by lowering the capacity from ten to five and raising it back. -/
theorem lowered_and_raised_exceeds : ∃ r s, (Builder.build ⟨10, 10, 5, 10, .interval, none⟩ 0 0) =
    .ok r ∧ GuardedRun.exec step (start r) [.setMaxTokens 5, .setMaxTokens 10] = some s ∧
      s.limiter.available = 15 ∧ s.largest = 10 ∧ ¬s.Bounded :=
  ⟨_, _, rfl, rfl, rfl, rfl, by decide⟩

end Configured

end Arbexpert.Ratelimit
