import Arbexpert.Arbitrage.Common
import Arbexpert.Foundation.WhileLoop

/-!
# The entry planner

`do_entry_arbitrage` walks down the asks of the spot book and the bids of the
futures book with two cursors, filling the smallest of the affordable quantity,
the spot volume and the futures volume. The futures remainder is stored in
contracts, but a fill in base units is subtracted from it.
-/

namespace Arbexpert.Arbitrage

/-- The variables of the loop of `do_entry_arbitrage`. -/
structure EntryState where
  spotClone : List Level
  futureClone : List Level
  i : ℕ
  j : ℕ
  totalSpot : ℚ
  totalFuture : ℚ
  available : ℚ
  spotResults : List ArbitrageOrder
  futureResults : List ArbitrageOrder
  qty : ℚ
  completed : Bool
  deriving DecidableEq

/-- The variables before the first iteration. -/
def entryStart (request : EntryRequest) : EntryState where
  spotClone := request.spotOrders
  futureClone := request.futureOrders
  i := 0
  j := 0
  totalSpot := 0
  totalFuture := 0
  available := request.amount
  spotResults := []
  futureResults := []
  qty := 0
  completed := false

/-- The spread, in percent, of buying spot and selling the future. -/
def entryDiff (spotPrice futurePrice : ℚ) : ℚ := (futurePrice - spotPrice) / spotPrice * 100

/-- The quantity an entry iteration fills: what the budget affords, at most the
spot volume and at most the futures volume in base units. -/
def entryQty (request : EntryRequest) (s : EntryState) (spot future : Level) : ℚ :=
  min (min (s.available / spot.1) spot.2) (future.2 * request.contractSize)

/-- The part of an iteration after the last `break`: execute `currentQty` on both
legs and advance the cursors of the exhausted levels. -/
def entryFill (request : EntryRequest) (s : EntryState) (spot future : Level)
    (currentQty : ℚ) : EntryState :=
  let totalSpot := s.totalSpot + spot.1 * currentQty
  let totalFuture := s.totalFuture + future.1 * currentQty
  { spotClone := s.spotClone.modify s.i (takeVolume currentQty)
    futureClone := s.futureClone.modify s.j (takeVolume currentQty)
    i := if cleanResidual (spot.2 - currentQty) eps = 0 then s.i + 1 else s.i
    j := if cleanResidual (future.2 - currentQty) eps = 0 then s.j + 1 else s.j
    totalSpot
    totalFuture
    available := s.available - spot.1 * currentQty
    spotResults := pushOrder s.spotResults spot.1 currentQty
    futureResults := pushOrder s.futureResults future.1 currentQty
    qty := s.qty + currentQty
    completed :=
      !isOutsideTolerance request.amount totalSpot request.marginQuantityPercent &&
        !isOutsideTolerance request.amount totalFuture request.marginQuantityPercent }

/-- One iteration of the loop of `do_entry_arbitrage`, its test included; `none`
when the test fails or the iteration breaks. -/
def entryStep (request : EntryRequest) (s : EntryState) : Option EntryState :=
  match s.spotClone[s.i]?, s.futureClone[s.j]? with
  | some spot, some future =>
    if 0 < cleanResidual s.available eps then
      let diff := entryDiff spot.1 future.1
      if cleanResidual diff eps = 0 ∨ diff < request.percent then none
      else
        let currentQty := entryQty request s spot future
        if cleanResidual currentQty eps = 0 then none
        else some (entryFill request s spot future currentQty)
    else none
  | _, _ => none

/-- The result computed from the variables with which the loop was left. -/
def entryResult (request : EntryRequest) (s : EntryState) : EntryResult :=
  let profit := s.totalFuture - s.totalSpot
  let profitPercent := if 0 < s.totalSpot then profit / s.totalSpot * 100 else 0
  if cleanResidual s.qty eps = 0 then
    { spotOrders := []
      futureOrders := []
      maxPrice := ⟨0, 0⟩
      executed := 0
      completed := false
      profitPercent := 0 }
  else
    let maxPrice := findMaxPrice request.spotOrders request.futureOrders request.percent
    { spotOrders := s.spotResults
      futureOrders := s.futureResults
      maxPrice := ⟨maxPrice.elim 0 MaxPrice.spot, maxPrice.elim 0 MaxPrice.future⟩
      executed := s.qty
      completed := s.completed
      profitPercent }

/-- `do_entry_arbitrage`, with a bound on the iterations of its loop. -/
def doEntryArbitrage (fuel : ℕ) (request : EntryRequest) : Option EntryResult :=
  (WhileLoop.run (entryStep request) fuel (entryStart request)).map (entryResult request)

/-- What an entry iteration finds and does: the levels under the cursors, a budget
that is not a residual, a spread that reaches the requested one, and a fill. -/
structure EntryIteration (request : EntryRequest) (s t : EntryState) (spot future : Level) :
    Prop where
  spot_level : s.spotClone[s.i]? = some spot
  future_level : s.futureClone[s.j]? = some future
  budget : eps ≤ s.available
  diff_clean : eps ≤ |entryDiff spot.1 future.1|
  diff_percent : request.percent ≤ entryDiff spot.1 future.1
  qty_clean : eps ≤ |entryQty request s spot future|
  next : t = entryFill request s spot future (entryQty request s spot future)

/-- An iteration of the entry loop is executed exactly under these conditions. -/
theorem entryStep_eq_some_iff {request : EntryRequest} {s t : EntryState} :
    entryStep request s = some t ↔ ∃ spot future, EntryIteration request s t spot future := by
  constructor
  · intro h
    unfold entryStep at h
    split at h
    · rename_i spot future hspot hfuture
      split at h
      · rename_i hbudget
        simp only [cleanResidual_eq_zero_iff] at h
        split at h
        · cases h
        · rename_i hdiff
          rw [not_or, not_lt, not_lt] at hdiff
          split at h
          · cases h
          · rename_i hqty
            exact ⟨spot, future, hspot, hfuture, cleanResidual_pos_iff.mp hbudget, hdiff.1,
              hdiff.2, not_lt.mp hqty, (Option.some.inj h).symm⟩
      · cases h
    · cases h
  · rintro ⟨spot, future, h⟩
    have hbudget := cleanResidual_pos_iff.mpr h.budget
    have hdiff : ¬ (|entryDiff spot.1 future.1| < eps ∨
        entryDiff spot.1 future.1 < request.percent) := by
      rw [not_or, not_lt, not_lt]
      exact ⟨h.diff_clean, h.diff_percent⟩
    simp only [entryStep, h.spot_level, h.future_level, if_pos hbudget,
      cleanResidual_eq_zero_iff, if_neg hdiff, if_neg (not_lt.mpr h.qty_clean), ← h.next]

end Arbexpert.Arbitrage
