import Arbexpert.Arbitrage.Common
import Arbexpert.Foundation.Staircase
import Mathlib.Tactic.FieldSimp
import Mathlib.Tactic.Ring

/-!
# The limit prices

`find_max_price` scans the rising list once, while its index into the falling list only moves
down. The pairs at which it stops are the candidates of a staircase search, and the pair that it
returns is the first candidate of least excess. A falling price that is under the required price
of a level is positive, so it is under the required price of every later level, whatever the sign
of the percentage.
-/

namespace Arbexpert.Arbitrage

/-- The falling price reaches `percentage` percent over the rising price. -/
def Reaches (percentage incPrice decPrice : ℚ) : Prop :=
  incPrice * (1 + percentage / 100) ≤ decPrice

instance (percentage incPrice decPrice : ℚ) : Decidable (Reaches percentage incPrice decPrice) :=
  inferInstanceAs (Decidable (_ ≤ _))

/-- By how many percent points a pair of prices exceeds `percentage`. -/
def excess (percentage incPrice decPrice : ℚ) : ℚ :=
  (decPrice - incPrice) / incPrice * 100 - percentage

/-- A pair of positive rising price reaches the percentage when its excess is not negative. -/
theorem reaches_iff {percentage incPrice decPrice : ℚ} (hpos : 0 < incPrice) :
    Reaches percentage incPrice decPrice ↔ percentage ≤ (decPrice - incPrice) / incPrice * 100 := by
  have hspread : (decPrice - incPrice) / incPrice * 100 =
      (decPrice - incPrice) * 100 / incPrice := by ring
  unfold Reaches
  rw [hspread, le_div_iff₀ hpos]
  constructor <;> intro h <;> linarith

/-- A pair that reaches the percentage also reaches it at a lower rising price, as long as the
prices are positive. -/
theorem Reaches.mono {percentage low high decPrice : ℚ} (h : Reaches percentage high decPrice)
    (hlow : 0 < low) (hle : low ≤ high) (hdec : 0 < decPrice) :
    Reaches percentage low decPrice := by
  unfold Reaches at h ⊢
  by_cases hsign : 0 ≤ 1 + percentage / 100
  · exact (mul_le_mul_of_nonneg_right hle hsign).trans h
  · exact (mul_neg_of_pos_of_neg hlow (not_le.mp hsign)).le.trans hdec.le

/-- The excess over a rising price grows with the falling price. -/
theorem excess_mono {percentage incPrice low high : ℚ} (hpos : 0 < incPrice) (hle : low ≤ high) :
    excess percentage incPrice low ≤ excess percentage incPrice high := by
  have hdiff : (low - incPrice) / incPrice ≤ (high - incPrice) / incPrice :=
    div_le_div_of_nonneg_right (by linarith) hpos.le
  unfold excess
  linarith

/-- Two levels reach the percentage. -/
def levelsReach (percentage : ℚ) (inc dec : Level) : Bool :=
  decide (Reaches percentage inc.1 dec.1)

/-- The excess of two levels. -/
def levelsExcess (percentage : ℚ) (levels : Level × Level) : ℚ :=
  excess percentage levels.1.1 levels.2.1

/-- The limit prices of two levels. -/
def levelsLimit (levels : Level × Level) : MaxPrice := ⟨levels.1.1, levels.2.1⟩

/-- The levels up to an index, from the last one on. -/
theorem reverse_take_succ {orders : List Level} {j : ℕ} {level : Level}
    (hlevel : orders[j]? = some level) :
    (orders.take (j + 1)).reverse = level :: (orders.take j).reverse := by
  rw [List.take_add_one, hlevel]
  simp

/-- The inner loop of `find_max_price` drops the levels that do not reach the percentage. -/
theorem reverse_take_retreat {decreasing : List Level} (percentage incPrice volume : ℚ) {j : ℕ}
    (hj : j ≤ decreasing.length) :
    (decreasing.take (retreat decreasing (incPrice * (1 + percentage / 100)) j)).reverse =
      (decreasing.take j).reverse.dropWhile fun dec =>
        !levelsReach percentage (incPrice, volume) dec := by
  induction j with
  | zero => rfl
  | succ j ih =>
    obtain ⟨level, hlevel⟩ : ∃ level, decreasing[j]? = some level :=
      ⟨_, List.getElem?_eq_getElem hj⟩
    simp only [retreat, hlevel]
    by_cases hunder : level.1 < incPrice * (1 + percentage / 100)
    · have hreach : levelsReach percentage (incPrice, volume) level = false :=
        decide_eq_false (not_le.mpr hunder)
      rw [if_pos hunder, ih (by omega), reverse_take_succ hlevel,
        List.dropWhile_cons_of_pos (by simp [hreach])]
    · have hreach : levelsReach percentage (incPrice, volume) level = true :=
        decide_eq_true (not_lt.mp hunder)
      rw [if_neg hunder, reverse_take_succ hlevel, List.dropWhile_cons_of_neg (by simp [hreach])]

/-- The index of the inner loop stays within the list. -/
theorem retreat_le (decreasing : List Level) (required : ℚ) (j : ℕ) :
    retreat decreasing required j ≤ j := by
  induction j with
  | zero => exact le_rfl
  | succ j ih =>
    unfold retreat
    split
    · split
      · omega
      · exact le_rfl
    · exact le_rfl

/-- With the best of the pairs `seen` so far, the scan returns the first candidate of least excess
among these and the ones that are still to come. -/
theorem scanMaxPrice_eq {decreasing : List Level} (percentage : ℚ) (increasing : List Level)
    {j : ℕ} (hj : j ≤ decreasing.length) (seen : List (Level × Level)) :
    scanMaxPrice decreasing percentage increasing j
        ((seen.argmin (levelsExcess percentage)).map (levelsExcess percentage))
        ((seen.argmin (levelsExcess percentage)).map levelsLimit) =
      ((seen ++ Staircase.candidates (levelsReach percentage) increasing
        (decreasing.take j).reverse).argmin (levelsExcess percentage)).map levelsLimit := by
  induction increasing generalizing j seen with
  | nil => simp [scanMaxPrice, Staircase.candidates]
  | cons inc rest ih =>
    obtain ⟨incPrice, volume⟩ := inc
    cases j with
    | zero => simp [scanMaxPrice, Staircase.candidates]
    | succ j =>
      have hdrop := reverse_take_retreat percentage incPrice volume hj
      have hle := retreat_le decreasing (incPrice * (1 + percentage / 100)) (j + 1)
      cases hk : retreat decreasing (incPrice * (1 + percentage / 100)) (j + 1) with
      | zero =>
        rw [hk] at hdrop
        simp [scanMaxPrice, hk, Staircase.candidates, ← hdrop]
      | succ k =>
        obtain ⟨level, hlevel⟩ : ∃ level, decreasing[k]? = some level :=
          ⟨_, List.getElem?_eq_getElem (by omega)⟩
        rw [hk, reverse_take_succ hlevel] at hdrop
        have hnext := ih (j := k + 1) (by omega) (seen ++ [((incPrice, volume), level)])
        rw [reverse_take_succ hlevel, List.append_assoc, List.singleton_append] at hnext
        have hexcess : (level.1 - incPrice) / incPrice * 100 - percentage =
            levelsExcess percentage ((incPrice, volume), level) := rfl
        simp only [scanMaxPrice, hk, hlevel, Staircase.candidates, ← hdrop, hexcess]
        rw [← hnext, List.argmin_concat]
        cases seen.argmin (levelsExcess percentage) with
        | none => rfl
        | some best =>
          by_cases hless : levelsExcess percentage ((incPrice, volume), level) <
              levelsExcess percentage best
          · simp [hless, levelsLimit]
          · simp [hless]

/-- The limit prices are those of the first candidate of least excess. -/
theorem findMaxPrice_eq (increasing decreasing : List Level) (percentage : ℚ) :
    findMaxPrice increasing decreasing percentage =
      ((Staircase.candidates (levelsReach percentage) increasing decreasing.reverse).argmin
        (levelsExcess percentage)).map levelsLimit := by
  have h := scanMaxPrice_eq percentage increasing (le_refl decreasing.length) []
  rwa [List.take_length] at h

/-- Prices that do not fall along a list. -/
def RisingPrices (orders : List Level) : Prop :=
  orders.Pairwise fun level later => level.1 ≤ later.1

/-- Prices that do not rise along a list. -/
def FallingPrices (orders : List Level) : Prop :=
  orders.Pairwise fun level later => later.1 ≤ level.1

/-- All prices of a list are positive. -/
def PositivePrices (orders : List Level) : Prop := ∀ level ∈ orders, 0 < level.1

section Sorted

variable {increasing decreasing : List Level} {percentage : ℚ}

/-- Along rising prices, acceptance passes on to earlier levels. -/
theorem levelsReach_pairwise (hinc : RisingPrices increasing) (hincpos : PositivePrices increasing)
    (hdecpos : PositivePrices decreasing) :
    increasing.Pairwise fun level later => ∀ dec ∈ decreasing.reverse,
      levelsReach percentage later dec = true → levelsReach percentage level dec = true := by
  refine hinc.imp_of_mem fun {level later} hlevel _ hle dec hdec hreach => ?_
  exact decide_eq_true ((of_decide_eq_true hreach).mono (hincpos level hlevel) hle
    (hdecpos dec (List.mem_reverse.mp hdec)))

/-- From the last level of falling prices on, the excess grows. -/
theorem levelsExcess_pairwise (hincpos : PositivePrices increasing)
    (hdec : FallingPrices decreasing) :
    decreasing.reverse.Pairwise fun level later => ∀ inc ∈ increasing,
      levelsExcess percentage (inc, level) ≤ levelsExcess percentage (inc, later) := by
  refine List.pairwise_reverse.mpr (hdec.imp fun hle inc hmem => ?_)
  exact excess_mono (hincpos inc hmem) hle

/-- There are no limit prices exactly when no pair of levels reaches the percentage. -/
theorem findMaxPrice_eq_none_iff (hinc : RisingPrices increasing)
    (hincpos : PositivePrices increasing) (hdecpos : PositivePrices decreasing) :
    findMaxPrice increasing decreasing percentage = none ↔
      ∀ inc ∈ increasing, ∀ dec ∈ decreasing, ¬ Reaches percentage inc.1 dec.1 := by
  rw [findMaxPrice_eq, Option.map_eq_none_iff,
    Staircase.argmin_eq_none_iff (levelsReach_pairwise hinc hincpos hdecpos)]
  simp only [List.mem_reverse, levelsReach, decide_eq_false_iff_not]

/-- The limit prices are prices of two levels that reach the percentage with the least excess. -/
theorem findMaxPrice_least (hinc : RisingPrices increasing) (hincpos : PositivePrices increasing)
    (hdec : FallingPrices decreasing) (hdecpos : PositivePrices decreasing) {limit : MaxPrice}
    (hlimit : findMaxPrice increasing decreasing percentage = some limit) :
    ((∃ inc ∈ increasing, ∃ dec ∈ decreasing, limit = ⟨inc.1, dec.1⟩) ∧
      Reaches percentage limit.spot limit.future) ∧
        ∀ inc ∈ increasing, ∀ dec ∈ decreasing, Reaches percentage inc.1 dec.1 →
          excess percentage limit.spot limit.future ≤ excess percentage inc.1 dec.1 := by
  rw [findMaxPrice_eq, Option.map_eq_some_iff] at hlimit
  obtain ⟨⟨inc, dec⟩, hargmin, rfl⟩ := hlimit
  obtain ⟨⟨hmem, hmem', hreach⟩, hleast⟩ := Staircase.argmin_least
    (levelsReach_pairwise hinc hincpos hdecpos) (levelsExcess_pairwise hincpos hdec) hargmin
  refine ⟨⟨⟨inc, hmem, dec, List.mem_reverse.mp hmem', rfl⟩, of_decide_eq_true hreach⟩, ?_⟩
  intro inc' hinc' dec' hdec' hreach'
  exact hleast inc' hinc' dec' (List.mem_reverse.mpr hdec') (decide_eq_true hreach')

/-- On sorted positive prices and for every percentage, the scan finds a pair whenever an
exhaustive search does, and the pair that it finds has the least excess of all. -/
theorem findMaxPrice_exhaustive (hinc : RisingPrices increasing)
    (hincpos : PositivePrices increasing) (hdec : FallingPrices decreasing)
    (hdecpos : PositivePrices decreasing) :
    (findMaxPrice increasing decreasing percentage = none ↔
      ∀ inc ∈ increasing, ∀ dec ∈ decreasing, ¬ Reaches percentage inc.1 dec.1) ∧
    ∀ limit, findMaxPrice increasing decreasing percentage = some limit →
      ((∃ inc ∈ increasing, ∃ dec ∈ decreasing, limit = ⟨inc.1, dec.1⟩) ∧
        Reaches percentage limit.spot limit.future) ∧
          ∀ inc ∈ increasing, ∀ dec ∈ decreasing, Reaches percentage inc.1 dec.1 →
            excess percentage limit.spot limit.future ≤ excess percentage inc.1 dec.1 :=
  ⟨findMaxPrice_eq_none_iff hinc hincpos hdecpos,
    fun _ hlimit => findMaxPrice_least hinc hincpos hdec hdecpos hlimit⟩

/-- At a percentage under minus one hundred, every pair reaches it and the scan still compares all
rising prices. -/
theorem findMaxPrice_negative : findMaxPrice [(100, 1), (200, 1)] [(60, 1), (50, 1)] (-150) =
    some ⟨200, 50⟩ ∧ ∀ inc ∈ [((100 : ℚ), (1 : ℚ)), (200, 1)],
      ∀ dec ∈ [((60 : ℚ), (1 : ℚ)), (50, 1)], Reaches (-150) inc.1 dec.1 →
        excess (-150) 200 50 ≤ excess (-150) inc.1 dec.1 := by
  have hlimit : findMaxPrice [(100, 1), (200, 1)] [(60, 1), (50, 1)] (-150) =
      some ⟨200, 50⟩ := by decide +kernel
  refine ⟨hlimit, ((findMaxPrice_exhaustive ?_ ?_ ?_ ?_).2 _ hlimit).2⟩ <;>
    norm_num [RisingPrices, FallingPrices, PositivePrices]

end Sorted

end Arbexpert.Arbitrage
