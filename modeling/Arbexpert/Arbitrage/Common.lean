import Mathlib.Algebra.Order.Field.Basic
import Mathlib.Data.Rat.Defs
import Mathlib.Algebra.Order.Ring.Unbundled.Rat
import Mathlib.Tactic.Linarith
import Mathlib.Tactic.NormNum

/-!
# Requests, results and helpers of the arbitrage planner

Prices, volumes and percentages are read as exact rationals: the conversions
between `f64` and `Decimal` in the source are then the identity. A level of an
order list is a price with a volume. The order lists of a result are built by
pushing a fill, or by merging it into the last order when the prices agree.
-/

namespace Arbexpert.Arbitrage

/-- One level of a request's order list: a price and the volume offered there. -/
abbrev Level := ℚ × ℚ

/-- One order of a plan. -/
structure ArbitrageOrder where
  price : ℚ
  quantity : ℚ
  deriving DecidableEq

/-- A pair of limit prices. -/
structure MaxPrice where
  spot : ℚ
  future : ℚ
  deriving DecidableEq

/-- The plan returned for an entry. -/
structure EntryResult where
  spotOrders : List ArbitrageOrder
  futureOrders : List ArbitrageOrder
  maxPrice : MaxPrice
  executed : ℚ
  completed : Bool
  profitPercent : ℚ
  deriving DecidableEq

/-- The plan returned for an exit. -/
structure ExitResult where
  spotOrders : List ArbitrageOrder
  futureOrders : List ArbitrageOrder
  maxPrice : MaxPrice
  executed : ℚ
  completed : Bool
  deriving DecidableEq

/-- The order lists, the budget and the limits of an entry. -/
structure EntryRequest where
  spotOrders : List Level
  futureOrders : List Level
  amount : ℚ
  marginQuantityPercent : ℚ
  percent : ℚ
  contractSize : ℚ

/-- The order lists, the quantity to close and the limits of an exit. -/
structure ExitRequest where
  spotOrders : List Level
  futureOrders : List Level
  executed : ℚ
  percent : ℚ
  contractSize : ℚ

/-- A request of either direction. -/
inductive ArbitrageRequest
  | entry (request : EntryRequest)
  | exit (request : ExitRequest)

/-- A result of either direction. -/
inductive ArbitrageResult
  | entry (result : EntryResult)
  | exit (result : ExitResult)

/-- The residual threshold `Decimal::new(1, 12)` of both loops. -/
def eps : ℚ := 1 / 10 ^ 12

/-- `f64::EPSILON`, the tolerance under which two order prices are merged. -/
def f64Epsilon : ℚ := 1 / 2 ^ 52

/-- A value whose absolute value is under `epsilon` is read as zero. -/
def cleanResidual (value epsilon : ℚ) : ℚ := if |value| < epsilon then 0 else value

/-- The residual threshold is positive. -/
theorem eps_pos : 0 < eps := by norm_num [eps]

/-- The merge tolerance is positive. -/
theorem f64Epsilon_pos : 0 < f64Epsilon := by norm_num [f64Epsilon]

/-- A value is read as zero exactly when it is under the threshold. -/
theorem cleanResidual_eq_zero_iff {value : ℚ} : cleanResidual value eps = 0 ↔ |value| < eps := by
  unfold cleanResidual
  split
  · simpa
  · rename_i h
    refine iff_of_false (fun hzero => h ?_) h
    simpa [hzero] using eps_pos

/-- A value is read as positive exactly when it reaches the threshold. -/
theorem cleanResidual_pos_iff {value : ℚ} : 0 < cleanResidual value eps ↔ eps ≤ value := by
  unfold cleanResidual
  split
  · rename_i h
    exact iff_of_false (lt_irrefl 0) (not_le.mpr (abs_lt.mp h).2)
  · rename_i h
    constructor
    · intro hpos
      simpa [abs_of_pos hpos] using h
    · exact fun h => eps_pos.trans_le h

/-- Retreat from index `j - 1` over the prices under `required`; the result is
one more than the index where the inner loop of `find_max_price` stops. -/
def retreat (decreasing : List Level) (required : ℚ) : ℕ → ℕ
  | 0 => 0
  | j + 1 =>
    match decreasing[j]? with
    | some level => if level.1 < required then retreat decreasing required j else j + 1
    | none => j + 1

/-- The scan of `find_max_price` over `increasing`: `j` is one more than the
source's signed index, and `none` for the least excess stands for infinity. -/
def scanMaxPrice (decreasing : List Level) (percentage : ℚ) :
    List Level → ℕ → Option ℚ → Option MaxPrice → Option MaxPrice
  | [], _, _, best => best
  | _ :: _, 0, _, best => best
  | (incPrice, _) :: rest, j + 1, minExcess, best =>
    match retreat decreasing (incPrice * (1 + percentage / 100)) (j + 1) with
    | 0 => best
    | k + 1 =>
      match decreasing[k]? with
      | none => best
      | some (decPrice, _) =>
        let excess := (decPrice - incPrice) / incPrice * 100 - percentage
        if minExcess.all (fun least => excess < least) then
          scanMaxPrice decreasing percentage rest (k + 1) (some excess)
            (some ⟨incPrice, decPrice⟩)
        else scanMaxPrice decreasing percentage rest (k + 1) minExcess best

/-- The pair of prices that reaches `percentage` with the least excess. -/
def findMaxPrice (increasing decreasing : List Level) (percentage : ℚ) : Option MaxPrice :=
  scanMaxPrice decreasing percentage increasing decreasing.length none none

/-- `target` lies outside the tolerance of `percent` percent around `base`. -/
def isOutsideTolerance (base target percent : ℚ) : Bool :=
  let tolerance := base * percent / 100
  decide (target < base - tolerance ∨ base + tolerance < target)

/-- Add a fill to an order list: the last order takes it when its price agrees up
to `f64::EPSILON`, otherwise it becomes a new order. -/
def pushOrder : List ArbitrageOrder → ℚ → ℚ → List ArbitrageOrder
  | [], price, quantity => [⟨price, quantity⟩]
  | [last], price, quantity =>
    if |last.price - price| < f64Epsilon then [{ last with quantity := last.quantity + quantity }]
    else [last, ⟨price, quantity⟩]
  | first :: second :: rest, price, quantity => first :: pushOrder (second :: rest) price quantity

/-- The volume left at a level, after `quantity` of it was executed. -/
def takeVolume (quantity : ℚ) (level : Level) : Level := (level.1, level.2 - quantity)

/-- Taking volume keeps the price of the level. -/
theorem takeVolume_fst (quantity : ℚ) (level : Level) : (takeVolume quantity level).1 = level.1 :=
  rfl

end Arbexpert.Arbitrage
