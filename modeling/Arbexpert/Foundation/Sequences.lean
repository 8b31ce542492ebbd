import Mathlib.Algebra.Order.Archimedean.Basic
import Mathlib.Algebra.Order.Field.Basic
import Mathlib.Order.Lattice.Nat
import Mathlib.Order.Monotone.Basic
import Mathlib.Tactic.Linarith
import Mathlib.Tactic.Ring

/-!
# Sequences produced by endless loops

A loop that never ends drives its cursors through bounded monotone sequences and
its remainders through geometric ones. The first kind is eventually constant; the
second kind cannot stay away from zero and bounded from below at once, unless it
oscillates between two opposite values.
-/

namespace Sequences

/-- A bounded monotone sequence of natural numbers is eventually constant. -/
theorem eventually_constant {f : ℕ → ℕ} {bound : ℕ} (hmono : Monotone f)
    (hbound : ∀ n, f n ≤ bound) : ∃ N, ∀ n, N ≤ n → f n = f N := by
  have hne : (Set.range f).Nonempty := ⟨f 0, 0, rfl⟩
  have hbdd : BddAbove (Set.range f) := ⟨bound, by rintro _ ⟨n, rfl⟩; exact hbound n⟩
  obtain ⟨N, hN⟩ := Nat.sSup_mem hne hbdd
  refine ⟨N, fun n hn => le_antisymm ?_ (hmono hn)⟩
  rw [hN]
  exact le_csSup hbdd ⟨n, rfl⟩

variable {K : Type*} [Field K]

/-- A sequence multiplied by `a` at each step is a geometric sequence. -/
theorem eq_pow_mul {r : ℕ → K} {a : K} (hstep : ∀ n, r (n + 1) = a * r n) (n : ℕ) :
    r n = a ^ n * r 0 := by
  induction n with
  | zero => simp
  | succ n ih =>
    rw [hstep, ih]
    ring

variable [LinearOrder K] [IsStrictOrderedRing K] [Archimedean K]

/-- A geometric sequence of ratio under one in absolute value comes under every
positive threshold. -/
theorem exists_abs_lt_of_contracting {r : ℕ → K} {a threshold : K} (ha : |a| < 1)
    (hthreshold : 0 < threshold) (hstep : ∀ n, r (n + 1) = a * r n) :
    ∃ n, |r (n + 1)| < threshold := by
  have hr0 : 0 < |r 1| + 1 := by positivity
  obtain ⟨n, hn⟩ := exists_pow_lt_of_lt_one (div_pos hthreshold hr0) ha
  refine ⟨n, ?_⟩
  have hgeom : r (n + 1) = a ^ n * r 1 := by
    have := eq_pow_mul (r := fun k => r (k + 1)) (fun k => hstep (k + 1)) n
    simpa using this
  calc |r (n + 1)| = |a| ^ n * |r 1| := by rw [hgeom, abs_mul, abs_pow]
    _ ≤ |a| ^ n * (|r 1| + 1) := by gcongr; linarith
    _ < threshold / (|r 1| + 1) * (|r 1| + 1) := by gcongr
    _ = threshold := div_mul_cancel₀ _ hr0.ne'

/-- A geometric sequence with ratio under minus one that starts below zero comes
under every bound. -/
theorem exists_lt_of_alternating {r : ℕ → K} {a : K} (bound : K) (ha : a < -1) (hr0 : r 0 < 0)
    (hstep : ∀ n, r (n + 1) = a * r n) : ∃ n, r n < bound := by
  have hsquare : 1 < a ^ 2 := by nlinarith
  obtain ⟨n, hn⟩ := pow_unbounded_of_one_lt (bound / r 0) hsquare
  refine ⟨2 * n, ?_⟩
  rw [eq_pow_mul hstep, pow_mul]
  exact (div_lt_iff_of_neg hr0).mp hn

/-- The remainders `r` that are multiplied by `1 - c` at each step cannot all stay
at least `threshold` away from zero and above a bound, except for `c = 2`. -/
theorem scaled_remainders_absurd {r : ℕ → K} {c threshold bound : K} (hc : 0 < c)
    (hne : c ≠ 2) (hthreshold : 0 < threshold) (hstep : ∀ n, r (n + 1) = (1 - c) * r n)
    (haway : ∀ n, threshold ≤ |r (n + 1)|) (hbound : ∀ n, bound ≤ r n) : False := by
  rcases lt_or_gt_of_ne hne with hlt | hgt
  · have habs : |1 - c| < 1 := abs_lt.mpr ⟨by linarith, by linarith⟩
    obtain ⟨n, hn⟩ := exists_abs_lt_of_contracting habs hthreshold hstep
    exact absurd (haway n) (not_le.mpr hn)
  · have hratio : 1 - c < -1 := by linarith
    -- one of the first two remainders is negative, since the sign alternates
    have hsign : r 1 < 0 ∨ r 2 < 0 := by
      by_contra hnot
      rw [not_or, not_lt, not_lt] at hnot
      have hr1 : r 1 ≠ 0 := by
        intro hzero
        have := haway 0
        simp only [zero_add, hzero, abs_zero] at this
        linarith
      have hpos : 0 < r 1 := lt_of_le_of_ne hnot.1 hr1.symm
      have hneg : r 2 < 0 := by
        rw [hstep 1]
        exact mul_neg_of_neg_of_pos (by linarith) hpos
      linarith [hnot.2]
    rcases hsign with h | h
    · obtain ⟨n, hn⟩ := exists_lt_of_alternating (r := fun k => r (k + 1)) bound
        hratio h fun k => hstep (k + 1)
      exact absurd (hbound (n + 1)) (not_le.mpr hn)
    · obtain ⟨n, hn⟩ := exists_lt_of_alternating (r := fun k => r (k + 2)) bound
        hratio h fun k => hstep (k + 2)
      exact absurd (hbound (n + 2)) (not_le.mpr hn)

end Sequences
