import Arbexpert.Worker.Monitor
import Mathlib.Algebra.Order.Ring.Unbundled.Rat
import Mathlib.Algebra.Order.Group.Unbundled.Abs
import Mathlib.Algebra.Field.Rat

/-!
# The stored prices of both legs

A successful step keeps the prices of the other leg and takes its own from the book. A
failed one stores zeros for both legs, so the stored prices are those of the last
successful steps exactly as long as no failed step finds anything else than zeros.
-/

namespace Arbexpert.Worker

open Arbexpert.Base

variable {D : Type*} [DecimalArith D] [LinearOrder D]

/-- The best ask of the last book of a leg; zero before the first. -/
def bestAsk (book : Option (OrderBook D)) : D :=
  (book.bind fun book => getPrice book.asks).elim 0 Prod.fst

/-- The best bid of the last book of a leg; zero before the first. -/
def bestBid (book : Option (OrderBook D)) : D :=
  (book.bind fun book => getPrice book.bids).elim 0 fun level => OrderDual.ofDual level.1

/-- The quantity at the best bid of the last book of a leg; zero before the first. -/
def bestBidQty (book : Option (OrderBook D)) : D :=
  (book.bind fun book => getPrice book.bids).elim 0 Prod.snd

/-- The stored prices are those of the last successful step of each leg, and the stored
percentages are computed from the stored prices. -/
structure Monitor.Agrees (s : Monitor D) : Prop where
  spotAsk : s.arbitrage.snapshot.spotAsk = bestAsk (s.lastBook .spot)
  spotBid : s.arbitrage.snapshot.spotBid = bestBid (s.lastBook .spot)
  futureAsk : s.arbitrage.snapshot.futureAsk = bestAsk (s.lastBook .future)
  futureBid : s.arbitrage.snapshot.futureBid = bestBid (s.lastBook .future)
  futureBidQty : s.arbitrage.snapshot.futureBidQty = bestBidQty (s.lastBook .future)
  entryPercent : s.arbitrage.snapshot.entryPercent =
    entryPercent s.arbitrage.snapshot.spotAsk s.arbitrage.snapshot.futureBid
  exitPercent : s.arbitrage.snapshot.exitPercent =
    exitPercent s.arbitrage.snapshot.futureAsk s.arbitrage.snapshot.spotBid

/-- A failed watch finds only zeros among the stored prices and quantities. -/
def Monitor.KeepsPrices (s : Monitor D) (action : MonitorAction D) : Prop :=
  action.result = none →
    s.arbitrage.snapshot.spotAsk = 0 ∧ s.arbitrage.snapshot.spotBid = 0 ∧
      s.arbitrage.snapshot.futureAsk = 0 ∧ s.arbitrage.snapshot.futureBid = 0 ∧
        s.arbitrage.snapshot.futureBidQty = 0

/-- The percentages of unknown prices are zero. -/
theorem percents_zero : entryPercent (0 : D) 0 = 0 ∧ exitPercent (0 : D) 0 = 0 := by
  simp [entryPercent, exitPercent, DecimalArith.truncWithScale_zero]

/-- The default snapshot agrees with legs that have made no successful step. -/
theorem Monitor.agrees_start (spot future : Asset) :
    (Monitor.start spot future : Monitor D).Agrees :=
  ⟨rfl, rfl, rfl, rfl, rfl, percents_zero.1.symm, percents_zero.2.symm⟩

variable {s t : Monitor D} {action : MonitorAction D}

/-- A successful step keeps the agreement of both legs. -/
theorem Monitor.Agrees.success (h : s.Agrees) {book : OrderBook D}
    (hresult : action.result = some book) (hstep : s.step action = some t) : t.Agrees := by
  simp only [Monitor.step, hresult] at hstep
  obtain ⟨new, hnew, rfl⟩ := Option.map_eq_some_iff.mp hstep
  obtain ⟨ask, hask, hrest⟩ := Option.bind_eq_some_iff.mp hnew
  obtain ⟨bid, hbid, rfl⟩ := Option.map_eq_some_iff.mp hrest
  cases hleg : marketOf action.symbol with
  | spot =>
    refine ⟨?_, ?_, ?_, ?_, ?_, rfl, rfl⟩
    · simp [newPrices, hleg, bestAsk, hask]
    · simp [newPrices, hleg, bestBid, hbid]
    · simpa [newPrices, hleg] using h.futureAsk
    · simpa [newPrices, hleg] using h.futureBid
    · simpa [newPrices, hleg] using h.futureBidQty
  | future =>
    refine ⟨?_, ?_, ?_, ?_, ?_, rfl, rfl⟩
    · simpa [newPrices, hleg] using h.spotAsk
    · simpa [newPrices, hleg] using h.spotBid
    · simp [newPrices, hleg, bestAsk, hask]
    · simp [newPrices, hleg, bestBid, hbid]
    · simp [newPrices, hleg, bestBidQty, hbid]

/-- A failed step keeps the agreement exactly if it finds only zeros. -/
theorem Monitor.Agrees.failure_iff (h : s.Agrees) (hresult : action.result = none)
    (hstep : s.step action = some t) : t.Agrees ↔ s.KeepsPrices action := by
  simp only [Monitor.step, hresult, Option.some.injEq] at hstep
  subst hstep
  constructor
  · intro ht _
    exact ⟨h.spotAsk.trans ht.spotAsk.symm, h.spotBid.trans ht.spotBid.symm,
      h.futureAsk.trans ht.futureAsk.symm, h.futureBid.trans ht.futureBid.symm,
      h.futureBidQty.trans ht.futureBidQty.symm⟩
  · intro hzero
    obtain ⟨hspotAsk, hspotBid, hfutureAsk, hfutureBid, hqty⟩ := hzero hresult
    exact ⟨hspotAsk.symm.trans h.spotAsk, hspotBid.symm.trans h.spotBid,
      hfutureAsk.symm.trans h.futureAsk, hfutureBid.symm.trans h.futureBid,
      hqty.symm.trans h.futureBidQty, percents_zero.1.symm, percents_zero.2.symm⟩

/-- In a run of the two tasks of an arbitrage, whatever the order of their steps, every
stored snapshot has the prices of the last successful step of each leg, and the
percentages of these prices, exactly if every failed watch finds only zeros stored. -/
theorem snapshot_agrees_iff (spot future : Asset) (actions : List (MonitorAction D)) :
    GuardedRun.StatesSatisfy Monitor.step Monitor.Agrees (Monitor.start spot future) actions ↔
      GuardedRun.StepsSatisfy Monitor.step Monitor.KeepsPrices (Monitor.start spot future)
        actions := by
  refine GuardedRun.statesSatisfy_iff_stepsSatisfy (I := fun _ => True) (fun _ _ _ _ _ _ => trivial)
    (fun s action t _ hs hstep => ?_) trivial (Monitor.agrees_start spot future)
  cases hresult : action.result with
  | some book =>
    refine iff_of_true (hs.success hresult hstep) fun hnone => ?_
    rw [hresult] at hnone
    cases hnone
  | none => exact hs.failure_iff hresult hstep

/-- Decimals read as exact rationals. -/
instance : DecimalArith ℚ where
  literal m k := m / 10 ^ k
  abs x := |x|
  truncWithScale k x := ((x * 10 ^ k).num.tdiv (x * 10 ^ k).den : ℤ) / 10 ^ k
  truncWithScale_zero k := by simp

/-- A spot book with one level on both sides. -/
def spotBook : OrderBook ℚ :=
  ⟨(∅ : BTreeMap ℚᵒᵈ ℚ).insert (OrderDual.toDual 99) 1, (∅ : BTreeMap ℚ ℚ).insert 100 2, 7⟩

/-- A failed watch of the futures leg erases the prices of the spot leg. -/
theorem failed_watch_erases_prices :
    (GuardedRun.exec Monitor.step
        (Monitor.start ⟨"BTC/USDT", "BTC", "USDT", .spot, "Gate"⟩
          ⟨"BTC/USDT:USDT", "BTC", "USDT", .future, "Gate"⟩)
        [⟨"BTC/USDT", some spotBook⟩, ⟨"BTC/USDT:USDT", none⟩]).map
      (fun s => (s.arbitrage.snapshot.spotAsk, s.arbitrage.snapshot.spotBid,
        bestAsk (s.lastBook .spot), bestBid (s.lastBook .spot))) = some (0, 0, 100, 99) := by
  decide +kernel

end Arbexpert.Worker
