import Arbexpert.Arbitrage.Profit

/-!
# When an entry is completed

An exit is completed when nothing is left to close. An entry compares both of its totals with the
amount, on either side of it: what was bought must not be too little, and what was sold, which
contains the profit, must not be too much. The margin decides about both.
-/

namespace Arbexpert.Arbitrage

open DepthCurve (Positive)

/-- What `margin_quantity_percent` allows around the amount. -/
def EntryRequest.tolerance (request : EntryRequest) : ℚ :=
  request.amount * request.marginQuantityPercent / 100

/-- A total is within the tolerance when it is on neither side outside of it. -/
theorem isOutsideTolerance_eq_false_iff {request : EntryRequest} {total : ℚ} :
    isOutsideTolerance request.amount total request.marginQuantityPercent = false ↔
      request.amount - request.tolerance ≤ total ∧
        total ≤ request.amount + request.tolerance := by
  unfold isOutsideTolerance EntryRequest.tolerance
  rw [decide_eq_false_iff_not, not_or, not_lt, not_lt]

/-- After an iteration, the flag is that of the totals. -/
theorem entry_completed_of_path {request : EntryRequest} {visited : List EntryState}
    {s : EntryState} (hpath : WhileLoop.Path (entryStep request) (entryStart request) visited s)
    (hvisited : visited ≠ []) : s.completed = true ↔
      (request.amount - request.tolerance ≤ s.totalSpot ∧
        s.totalSpot ≤ request.amount + request.tolerance) ∧
      request.amount - request.tolerance ≤ s.totalFuture ∧
        s.totalFuture ≤ request.amount + request.tolerance := by
  obtain ⟨earlier, last, rfl⟩ := List.eq_nil_or_concat visited |>.resolve_left hvisited
  rw [List.concat_eq_append] at hpath
  obtain ⟨spot, future, hiter⟩ := entryStep_eq_some_iff.mp hpath.last.2
  rw [← isOutsideTolerance_eq_false_iff, ← isOutsideTolerance_eq_false_iff, hiter.next]
  simp only [entryFill, Bool.and_eq_true, Bool.not_eq_true']

/-- A budget that is spent up to a residual is less than the residual threshold. -/
theorem available_lt_eps {available : ℚ} (h : cleanResidual available eps = 0) : available < eps :=
  (le_abs_self available).trans_lt (cleanResidual_eq_zero_iff.mp h)

/-- An entry whose books are positive, in single units, is completed exactly when the unspent rest
and the excess of what was sold over the amount are within the margin. -/
theorem entry_completed_iff_within {request : EntryRequest} (hspot : Positive request.spotOrders)
    (hfuture : Positive request.futureOrders) (hamount : 0 < request.amount)
    (hsize : request.contractSize = 1) (hpercent : 0 < request.percent)
    (hmargin : 0 ≤ request.marginQuantityPercent) {visited : List EntryState} {s : EntryState}
    (hpath : WhileLoop.Path (entryStep request) (entryStart request) visited s)
    (hvisited : visited ≠ []) (hexecuted : cleanResidual s.qty eps ≠ 0) :
    (entryResult request s).completed = true ↔
      s.available ≤ request.tolerance ∧ s.totalFuture ≤ request.amount + request.tolerance := by
  have hwf : request.WellFormed :=
    ⟨offersLevels_of_positive hspot, offersLevels_of_positive hfuture, hamount.le,
      hsize ▸ one_pos⟩
  have hbudget := entry_budget hpath
  have havailable := (entryInvariant_of_path hwf hpath).available
  have htolerance : 0 ≤ request.tolerance :=
    div_nonneg (mul_nonneg hamount.le hmargin) (by norm_num)
  obtain ⟨hprofitable, hpaid⟩ := entryProfitable_of_path hwf hsize.le hpath
  have hprofit : s.totalSpot ≤ s.totalFuture := by
    have hfactor : 1 ≤ 1 + request.percent / 100 := by linarith
    exact (le_mul_of_one_le_right hpaid hfactor).trans hprofitable.ratio
  have hresult : (entryResult request s).completed = s.completed := by
    simp only [entryResult, if_neg hexecuted]
  rw [hresult, entry_completed_of_path hpath hvisited]
  constructor
  · rintro ⟨⟨hlow, _⟩, _, hhigh⟩
    exact ⟨by linarith, hhigh⟩
  · rintro ⟨hrest, hhigh⟩
    exact ⟨⟨by linarith, by linarith⟩, by linarith, hhigh⟩

/-- An entry that has spent its budget up to a residual is completed exactly when the unspent rest
and the excess of what was sold over the amount are within the margin; with a margin of at least
the residual threshold, what was sold decides alone. -/
theorem entry_spent_completed_iff {request : EntryRequest} (hspot : Positive request.spotOrders)
    (hfuture : Positive request.futureOrders) (hamount : 0 < request.amount)
    (hsize : request.contractSize = 1) (hpercent : 0 < request.percent)
    (hmargin : 0 ≤ request.marginQuantityPercent) {visited : List EntryState} {s : EntryState}
    (hends : WhileLoop.Ends (entryStep request) (entryStart request) visited s)
    (hspent : cleanResidual s.available eps = 0) (hvisited : visited ≠ [])
    (hexecuted : cleanResidual s.qty eps ≠ 0) :
    ((entryResult request s).completed = true ↔
      s.available ≤ request.tolerance ∧ s.totalFuture ≤ request.amount + request.tolerance) ∧
    (eps ≤ request.tolerance → ((entryResult request s).completed = true ↔
      s.totalFuture ≤ request.amount + request.tolerance)) := by
  have hiff := entry_completed_iff_within hspot hfuture hamount hsize hpercent hmargin hends.1
    hvisited hexecuted
  refine ⟨hiff, fun htolerance => hiff.trans (and_iff_right ?_)⟩
  exact (available_lt_eps hspent).le.trans htolerance

/-- An entry that spends a hundred on one unit and sells it at `futurePrice`, with a margin of one
percent. -/
def spentEntry (futurePrice : ℚ) : EntryRequest where
  spotOrders := [(100, 1)]
  futureOrders := [(futurePrice, 1)]
  amount := 100
  marginQuantityPercent := 1
  percent := 1 / 2
  contractSize := 1

/-- The variables of this entry when its loop is left. -/
def spentEntryEnd (futurePrice : ℚ) (completed : Bool) : EntryState where
  spotClone := [(100, 0)]
  futureClone := [(futurePrice, 0)]
  i := 1
  j := 1
  totalSpot := 100
  totalFuture := futurePrice
  available := 0
  spotResults := [⟨100, 1⟩]
  futureResults := [⟨futurePrice, 1⟩]
  qty := 1
  completed

/-- A profit of one percent is within the margin. -/
theorem spentEntry_completed : (entryResult (spentEntry 101) (spentEntryEnd 101 true)).completed =
    true ∧ WhileLoop.Ends (entryStep (spentEntry 101)) (entryStart (spentEntry 101))
      [entryStart (spentEntry 101)] (spentEntryEnd 101 true) := by
  have hfirst : entryStep (spentEntry 101) (entryStart (spentEntry 101)) =
      some (spentEntryEnd 101 true) := by decide +kernel
  have hlast : entryStep (spentEntry 101) (spentEntryEnd 101 true) = none := by decide +kernel
  have hends : WhileLoop.Ends (entryStep (spentEntry 101)) (entryStart (spentEntry 101))
      [entryStart (spentEntry 101)] (spentEntryEnd 101 true) :=
    ⟨.cons hfirst (.nil _), hlast⟩
  refine ⟨((entry_spent_completed_iff ?_ ?_ ?_ rfl ?_ ?_ hends ?_ ?_ ?_).2 ?_).mpr ?_, hends⟩
  · norm_num [spentEntry, Positive]
  · norm_num [spentEntry, Positive]
  · norm_num [spentEntry]
  · norm_num [spentEntry]
  · norm_num [spentEntry]
  · decide +kernel
  · simp
  · decide +kernel
  · norm_num [spentEntry, EntryRequest.tolerance, eps]
  · norm_num [spentEntry, spentEntryEnd, EntryRequest.tolerance]

/-- A profit of two percent is not: the whole budget is spent in one fill, nothing is left, and
the entry is reported as not completed. -/
theorem spentEntry_not_completed : Positive (spentEntry 102).spotOrders ∧
    Positive (spentEntry 102).futureOrders ∧ 0 < (spentEntry 102).amount ∧
      (spentEntry 102).contractSize = 1 ∧ 0 < (spentEntry 102).percent ∧
        0 ≤ (spentEntry 102).marginQuantityPercent ∧
          WhileLoop.Ends (entryStep (spentEntry 102)) (entryStart (spentEntry 102))
            [entryStart (spentEntry 102)] (spentEntryEnd 102 false) ∧
          cleanResidual (spentEntryEnd 102 false).available eps = 0 ∧
            cleanResidual (spentEntryEnd 102 false).qty eps ≠ 0 ∧
              (entryResult (spentEntry 102) (spentEntryEnd 102 false)).completed = false := by
  have hfirst : entryStep (spentEntry 102) (entryStart (spentEntry 102)) =
      some (spentEntryEnd 102 false) := by decide +kernel
  have hlast : entryStep (spentEntry 102) (spentEntryEnd 102 false) = none := by decide +kernel
  refine ⟨by norm_num [spentEntry, Positive], by norm_num [spentEntry, Positive],
    by norm_num [spentEntry], rfl, by norm_num [spentEntry], by norm_num [spentEntry],
    ⟨.cons hfirst (.nil _), hlast⟩, by decide +kernel, by decide +kernel, by decide +kernel⟩

end Arbexpert.Arbitrage
