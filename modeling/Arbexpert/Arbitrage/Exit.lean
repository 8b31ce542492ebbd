import Arbexpert.Arbitrage.Common
import Arbexpert.Foundation.WhileLoop

/-!
# The exit planner

`do_exit_arbitrage` walks down the bids of the spot book and the asks of the
futures book until the executed quantity is closed. Unlike the entry it does not
break on a residual fill, and it reduces the level remainders only by positive
fills, although `available` is reduced by every fill.
-/

namespace Arbexpert.Arbitrage

/-- The variables of the loop of `do_exit_arbitrage`. -/
structure ExitState where
  spotClone : List Level
  futureClone : List Level
  i : ℕ
  j : ℕ
  available : ℚ
  spotResults : List ArbitrageOrder
  futureResults : List ArbitrageOrder
  deriving DecidableEq

/-- The variables before the first iteration. -/
def exitStart (request : ExitRequest) : ExitState where
  spotClone := request.spotOrders
  futureClone := request.futureOrders
  i := 0
  j := 0
  available := request.executed
  spotResults := []
  futureResults := []

/-- The spread, in percent, of buying the future back and selling spot. -/
def exitDiff (spotPrice futurePrice : ℚ) : ℚ := (spotPrice - futurePrice) / futurePrice * 100

/-- The quantity an exit iteration fills: what is left to close, at most the spot
volume and at most the futures volume in base units. -/
def exitQty (request : ExitRequest) (s : ExitState) (spot future : Level) : ℚ :=
  min (min s.available spot.2) (future.2 * request.contractSize)

/-- The volume left at a level after an exit fill: only positive fills count. -/
def exitRest (qty : ℚ) (level : Level) : Level := if 0 < qty then takeVolume qty level else level

/-- The part of an iteration after its `break`: execute `qty` on both legs and
advance the cursors of the exhausted levels. -/
def exitFill (s : ExitState) (spot future : Level) (qty : ℚ) : ExitState where
  spotClone := s.spotClone.modify s.i (exitRest qty)
  futureClone := s.futureClone.modify s.j (exitRest qty)
  i := if cleanResidual (exitRest qty spot).2 eps = 0 then s.i + 1 else s.i
  j := if cleanResidual (exitRest qty future).2 eps = 0 then s.j + 1 else s.j
  available := s.available - qty
  spotResults := pushOrder s.spotResults spot.1 qty
  futureResults := pushOrder s.futureResults future.1 qty

/-- One iteration of the loop of `do_exit_arbitrage`, its test included; `none`
when the test fails or the iteration breaks. -/
def exitStep (request : ExitRequest) (s : ExitState) : Option ExitState :=
  match s.spotClone[s.i]?, s.futureClone[s.j]? with
  | some spot, some future =>
    if 0 < cleanResidual s.available eps then
      if exitDiff spot.1 future.1 < request.percent then none
      else some (exitFill s spot future (exitQty request s spot future))
    else none
  | _, _ => none

/-- The result computed from the variables with which the loop was left; the
fields of the limit pair are exchanged. -/
def exitResult (request : ExitRequest) (s : ExitState) : ExitResult :=
  let maxPrice := findMaxPrice request.futureOrders request.spotOrders request.percent
  { spotOrders := s.spotResults
    futureOrders := s.futureResults
    maxPrice := ⟨maxPrice.elim 0 MaxPrice.future, maxPrice.elim 0 MaxPrice.spot⟩
    executed := request.executed - s.available
    completed := cleanResidual s.available eps = 0 }

/-- `do_exit_arbitrage`, with a bound on the iterations of its loop. -/
def doExitArbitrage (fuel : ℕ) (request : ExitRequest) : Option ExitResult :=
  (WhileLoop.run (exitStep request) fuel (exitStart request)).map (exitResult request)

/-- What an exit iteration finds and does: the levels under the cursors, a
remainder to close that is not a residual, a sufficient spread, and a fill. -/
structure ExitIteration (request : ExitRequest) (s t : ExitState) (spot future : Level) :
    Prop where
  spot_level : s.spotClone[s.i]? = some spot
  future_level : s.futureClone[s.j]? = some future
  budget : eps ≤ s.available
  diff_percent : request.percent ≤ exitDiff spot.1 future.1
  next : t = exitFill s spot future (exitQty request s spot future)

/-- An iteration of the exit loop is executed exactly under these conditions. -/
theorem exitStep_eq_some_iff {request : ExitRequest} {s t : ExitState} :
    exitStep request s = some t ↔ ∃ spot future, ExitIteration request s t spot future := by
  constructor
  · intro h
    unfold exitStep at h
    split at h
    · rename_i spot future hspot hfuture
      split at h
      · rename_i hbudget
        split at h
        · cases h
        · rename_i hdiff
          exact ⟨spot, future, hspot, hfuture, cleanResidual_pos_iff.mp hbudget,
            not_lt.mp hdiff, (Option.some.inj h).symm⟩
      · cases h
    · cases h
  · rintro ⟨spot, future, h⟩
    have hbudget := cleanResidual_pos_iff.mpr h.budget
    simp only [exitStep, h.spot_level, h.future_level, if_pos hbudget,
      if_neg (not_lt.mpr h.diff_percent), ← h.next]

end Arbexpert.Arbitrage
