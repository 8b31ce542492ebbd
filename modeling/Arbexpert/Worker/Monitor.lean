import Arbexpert.Base.Feed
import Arbexpert.Foundation.GuardedRun

/-!
# The two legs of a monitored arbitrage

Two tasks, one for each leg, wait for books and write one shared snapshot. A step of a
task reads the stored snapshot, replaces the prices of its own leg, recomputes both
percentages, perhaps sends a notification, and stores the result. The failure path
stores the snapshot with which the step began, which is the default one.
-/

namespace Arbexpert.Worker

open Arbexpert.Base

/-- The decimal operations that a monitor uses; `literal m k` is `m` with `k` decimals. -/
class DecimalArith (D : Type*) extends Zero D, Sub D, Mul D, Div D where
  literal : ℕ → ℕ → D
  abs : D → D
  truncWithScale : ℕ → D → D
  truncWithScale_zero : ∀ k, truncWithScale k 0 = 0

/-- An asset of an exchange. -/
structure Asset where
  symbol : String
  base : String
  quote : String
  market : MarketType
  exchange : String
  deriving DecidableEq

/-- The prices of both legs, with the percentages computed from them. -/
structure ArbitrageSnaphot (D : Type*) where
  base : String
  quote : String
  spotAsk : D
  spotBid : D
  futureAsk : D
  futureBid : D
  futureBidQty : D
  entryPercent : D
  exitPercent : D
  deriving DecidableEq

/-- A spot asset of one exchange with a futures asset of another, and the snapshot. -/
structure Arbitrage (D : Type*) where
  spot : Asset
  future : Asset
  snapshot : ArbitrageSnaphot D
  deriving DecidableEq

/-- A monitored arbitrage with the notifications that were sent. The book that the last
successful step of each leg has read is recorded beside it. -/
structure Monitor (D : Type*) where
  arbitrage : Arbitrage D
  notifications : List (Arbitrage D)
  lastBook : MarketType → Option (OrderBook D)

/-- The watch of a task ends, with the symbol of the task and the book or an error. -/
structure MonitorAction (D : Type*) where
  symbol : String
  result : Option (OrderBook D)

variable {D : Type*}

/-- The asset of a leg. -/
def Arbitrage.leg (item : Arbitrage D) : MarketType → Asset
  | .spot => item.spot
  | .future => item.future

/-- The symbol that the task of a leg watches. -/
def Arbitrage.symbol (item : Arbitrage D) : MarketType → String
  | .spot => item.spot.base ++ "/" ++ item.spot.quote
  | .future => item.future.base ++ "/" ++ item.future.quote ++ ":USDT"

variable [DecimalArith D]

/-- The default snapshot. -/
def ArbitrageSnaphot.default : ArbitrageSnaphot D := ⟨"", "", 0, 0, 0, 0, 0, 0, 0⟩

/-- The state of an arbitrage whose monitor has not made a step. -/
def Monitor.start (spot future : Asset) : Monitor D where
  arbitrage := ⟨spot, future, ArbitrageSnaphot.default⟩
  notifications := []
  lastBook := fun _ => none

variable [LinearOrder D]

/-- The gain of an entry in percent: buy on the spot market, sell on the futures one. -/
def entryPercent (spotAsk futureBid : D) : D :=
  DecimalArith.truncWithScale 2
    (if spotAsk ≠ 0 then (futureBid - spotAsk) / spotAsk * DecimalArith.literal 100 0 else 0)

/-- The gain of an exit in percent. -/
def exitPercent (futureAsk spotBid : D) : D :=
  DecimalArith.truncWithScale 2
    (if futureAsk ≠ 0 then (spotBid - futureAsk) / futureAsk * DecimalArith.literal 100 0 else 0)

/-- The prices after a successful step: those of the book for its leg, and the stored ones
for the other leg. -/
def newPrices (old : ArbitrageSnaphot D) (symbol : String) (ask : D × D) (bid : Dᵒᵈ × D) :
    ArbitrageSnaphot D :=
  match marketOf symbol with
  | .future =>
    { ArbitrageSnaphot.default with
      spotAsk := old.spotAsk
      spotBid := old.spotBid
      futureAsk := ask.1
      futureBid := OrderDual.ofDual bid.1
      futureBidQty := bid.2 }
  | .spot =>
    { ArbitrageSnaphot.default with
      spotAsk := ask.1
      spotBid := OrderDual.ofDual bid.1
      futureAsk := old.futureAsk
      futureBid := old.futureBid
      futureBidQty := old.futureBidQty }

/-- The snapshot of a successful step; `none` where the source stops with "no price". -/
def newSnapshot (old : ArbitrageSnaphot D) (symbol : String) (book : OrderBook D) :
    Option (ArbitrageSnaphot D) :=
  (getPrice book.asks).bind fun ask =>
    (getPrice book.bids).map fun bid =>
      let prices := newPrices old symbol ask bid
      { prices with
        entryPercent := entryPercent prices.spotAsk prices.futureBid
        exitPercent := exitPercent prices.futureAsk prices.spotBid }

/-- Whether a step sends a notification: a percentage changed by more than 0.05, all
prices are known, and both percentages are below 50. -/
def needNotification (old new : ArbitrageSnaphot D) : Bool :=
  let percent : D := DecimalArith.literal 5 2
  let entryDelta := DecimalArith.abs (new.entryPercent - old.entryPercent)
  let exitDelta := DecimalArith.abs (new.exitPercent - old.exitPercent)
  let notFirst := 0 < new.spotAsk ∧ 0 < new.spotBid ∧ 0 < new.futureAsk ∧ 0 < new.futureBid
  let max : D := DecimalArith.literal 50 0
  let valid := DecimalArith.abs new.entryPercent < max ∧ DecimalArith.abs new.exitPercent < max
  (percent < entryDelta ∨ percent < exitDelta) ∧ notFirst ∧ valid

/-- One step of a task, from the end of its watch to the next one. The notification
serialises the arbitrage before the new snapshot is stored. -/
def Monitor.step (s : Monitor D) (action : MonitorAction D) : Option (Monitor D) :=
  match action.result with
  | none => some { s with arbitrage.snapshot := ArbitrageSnaphot.default }
  | some book =>
    (newSnapshot s.arbitrage.snapshot action.symbol book).map fun new =>
      { arbitrage := { s.arbitrage with snapshot := new }
        notifications :=
          if needNotification s.arbitrage.snapshot new then s.notifications ++ [s.arbitrage]
          else s.notifications
        lastBook := Function.update s.lastBook (marketOf action.symbol) (some book) }

end Arbexpert.Worker
