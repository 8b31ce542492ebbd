import Mathlib.Data.Nat.Basic

/-!
# The budget of a token bucket

A bucket gets an amount of tokens at the end of each interval, up to its capacity, but only when a
caller comes and finds that intervals have ended. Whatever is taken since some moment comes from a
full bucket and from the ends of intervals after that moment.
-/

namespace TokenBudget

/-- What has been taken since a moment, when the bucket was brought up to date at or after it: the
last end of an interval that was seen, the tokens there are and those that were taken. -/
def Within (capacity amount interval since last available taken now : ℕ) : Prop :=
  ∃ first ends, last = first + ends * interval ∧ since < first + interval ∧
    taken + available ≤ capacity + ends * amount ∧ (ends = 0 ∨ last ≤ now)

variable {capacity amount interval since last available taken now next n ends : ℕ}

/-- The bucket has just been brought up to date. -/
theorem Within.first (hlast : since < last + interval) (havailable : available ≤ capacity) :
    Within capacity amount interval since last available 0 now :=
  ⟨last, 0, by omega, hlast, by omega, .inl rfl⟩

/-- Intervals have ended. -/
theorem Within.refill (h : Within capacity amount interval since last available taken now)
    (hlast : last + ends * interval ≤ next) {refilled : ℕ}
    (hrefilled : refilled ≤ available + ends * amount) :
    Within capacity amount interval since (last + ends * interval) refilled taken next := by
  obtain ⟨first, before, rfl, hfirst, hsum, _⟩ := h
  refine ⟨first, before + ends, by rw [Nat.add_mul, Nat.add_assoc], hfirst, ?_, .inr hlast⟩
  rw [Nat.add_mul]
  omega

/-- Time passes. -/
theorem Within.later (h : Within capacity amount interval since last available taken now)
    (hnext : now ≤ next) : Within capacity amount interval since last available taken next := by
  obtain ⟨first, ends, hlast, hfirst, hsum, hnow⟩ := h
  exact ⟨first, ends, hlast, hfirst, hsum, hnow.imp_right fun hle => Nat.le_trans hle hnext⟩

/-- Tokens are taken. -/
theorem Within.take (h : Within capacity amount interval since last available taken now)
    (hn : n ≤ available) :
    Within capacity amount interval since last (available - n) (taken + n) now := by
  obtain ⟨first, ends, hlast, hfirst, hsum, hnow⟩ := h
  exact ⟨first, ends, hlast, hfirst, by omega, hnow⟩

/-- What has been taken in some time is at most a full bucket, and the amount of as many intervals
as this time touches. -/
theorem Within.taken_le (h : Within capacity amount interval since last available taken now)
    (hinterval : 0 < interval) :
    taken ≤ capacity + (now - since + (interval - 1)) / interval * amount := by
  obtain ⟨first, ends, hlast, hfirst, hsum, hnow⟩ := h
  rcases hnow with rfl | hnow
  · omega
  · have hends : ends ≤ (now - since + (interval - 1)) / interval := by
      rw [Nat.le_div_iff_mul_le hinterval]
      omega
    calc
      taken ≤ capacity + ends * amount := by omega
      _ ≤ capacity + (now - since + (interval - 1)) / interval * amount :=
        Nat.add_le_add_left (Nat.mul_le_mul_right amount hends) capacity

end TokenBudget
