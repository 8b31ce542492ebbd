import Arbexpert.Base.Ledger
import Arbexpert.Foundation.Fills
import Mathlib.Algebra.Order.Monoid.Unbundled.Pow
import Mathlib.Algebra.Order.Ring.Int

/-!
# Short positions

A futures order that sells opens a short position, and one that buys closes it. When as much has
been bought as was sold, the profit is what was received less what was paid. The account counts
futures the other way around than spot orders, so its balance changes by the loss instead: this
is right exactly if there is neither a profit nor a loss.
-/

namespace Arbexpert.Base

variable {D : Type*} [Ring D]

/-- The accepted orders of a side. -/
def ordersOf (side : String) (accepted : List (TimedOrder D)) : List (TimedOrder D) :=
  accepted.filter fun timed => timed.order.side.toLower = side

/-- The amount of the orders of a side. -/
def amountOf (side : String) (accepted : List (TimedOrder D)) : D :=
  Fills.total (fun timed => timed.order.amount) (ordersOf side accepted)

/-- The notional of the orders of a side. -/
def notionalOf (side : String) (accepted : List (TimedOrder D)) : D :=
  Fills.notional (fun timed => timed.order.amount) (fun timed => timed.order.price)
    (ordersOf side accepted)

/-- The notional of a side when one more order is accepted. -/
theorem notionalOf_cons (side : String) (timed : TimedOrder D) (accepted : List (TimedOrder D)) :
    notionalOf side (timed :: accepted) =
      (if timed.order.side.toLower = side then timed.order.amount * timed.order.price else 0) +
        notionalOf side accepted := by
  by_cases hside : timed.order.side.toLower = side
  · simp [notionalOf, ordersOf, Fills.notional, hside]
  · simp [notionalOf, ordersOf, Fills.notional, hside]

/-- The signed notional of a futures order. -/
theorem signedNotional_future (order : OrderRequest D)
    (hfuture : marketOf order.symbol = .future) : order.signedNotional =
      (if order.side.toLower = "buy" then order.amount * order.price else 0) -
        if order.side.toLower = "sell" then order.amount * order.price else 0 := by
  unfold OrderRequest.signedNotional
  rw [hfuture]
  by_cases hsell : order.side.toLower = "sell"
  · have hbuy : order.side.toLower ≠ "buy" := by
      rw [hsell]
      decide
    simp only [if_pos hsell, if_neg hbuy, zero_sub]
  · simp only [if_neg hsell, sub_zero]

/-- The signed notionals of futures add up to what was bought less what was sold. -/
theorem sum_notionals_future {accepted : List (TimedOrder D)}
    (hfuture : ∀ timed ∈ accepted, marketOf timed.order.symbol = .future) :
    (notionals .future accepted).sum = notionalOf "buy" accepted - notionalOf "sell" accepted := by
  induction accepted with
  | nil => exact (sub_self 0).symm
  | cons timed accepted ih =>
    have hfirst := hfuture timed List.mem_cons_self
    have hrest := ih fun other hother => hfuture other (List.mem_cons_of_mem _ hother)
    have hsum : (notionals .future (timed :: accepted)).sum =
        timed.order.request.signedNotional + (notionals .future accepted).sum := by
      simp [notionals, hfirst]
    have hvalue := signedNotional_future timed.order.request hfirst
    rw [hsum, hrest, notionalOf_cons, notionalOf_cons, hvalue]
    exact (add_sub_add_comm _ _ _ _).symm

namespace Ledger

/-- An account of which nothing is recorded yet. -/
def resume (account : SharedState D) (clock : ℕ) : Ledger D := ⟨account, clock, []⟩

/-- The entry of a market in the actual balance. -/
def actual (s : Ledger D) (market : MarketType) : D :=
  usdt (s.account.actualBalance.market market)

variable {s t : Ledger D} {account : SharedState D} {clock : ℕ} {call : AccountCall D}
  {calls : List (AccountCall D)} {symbol : String}

/-- The balances have changed by the signed notionals of the recorded orders. -/
def Counts (account : SharedState D) (s : Ledger D) : Prop :=
  ∀ market, s.actual market =
    usdt (account.actualBalance.market market) + (notionals market s.accepted).sum

/-- Every call records the orders that it counts. -/
theorem Counts.step (h : Counts account s) (hstep : s.step call = some t) : Counts account t := by
  cases steps_of_step hstep with
  | @accept now order hclock haccepts =>
    intro market
    have hsum : (notionals market (s.accepted ++ [⟨order, now⟩])).sum =
        (notionals market s.accepted).sum +
          if marketOf order.symbol = market then order.request.signedNotional else 0 := by
      rw [notionals_concat, List.sum_append]
      split <;> simp
    rw [hsum, ← add_assoc, ← h market]
    exact usdt_applyOrder s.account.actualBalance order.request market
  | reject hclock hrejects => exact h
  | temporary balance hcall => exact h

/-- Whatever calls are made, the balances change by the signed notionals of the accepted orders. -/
theorem counts_of_exec (hrun : GuardedRun.exec step (resume account clock) calls = some t) :
    Counts account t :=
  GuardedRun.invariant_of_exec (I := fun s : Ledger D => Counts account s)
    (fun _ _ _ hcounts hstep => hcounts.step hstep) hrun fun _ => (add_zero _).symm

/-- The accepted orders are those of a position in one future that was opened and closed again:
its fills have positive amounts, some was sold, and as much was bought. -/
structure ClosedShort [LT D] (s : Ledger D) (symbol : String) : Prop where
  future : marketOf symbol = .future
  symbol : ∀ timed ∈ s.accepted, timed.order.symbol = symbol
  positive : ∀ timed ∈ s.accepted, 0 < timed.order.amount
  opened : ordersOf "sell" s.accepted ≠ []
  closed : amountOf "buy" s.accepted = amountOf "sell" s.accepted

/-- The balance of futures has changed by what was received less what was paid; and it has grown
if every order that buys is cheaper than every order that sells. -/
structure RealisesProfit [LT D] (account : SharedState D) (s : Ledger D) : Prop where
  profit : s.actual .future - usdt account.actualBalance.future =
    notionalOf "sell" s.accepted - notionalOf "buy" s.accepted
  gains : (∀ buy ∈ ordersOf "buy" s.accepted, ∀ sell ∈ ordersOf "sell" s.accepted,
    buy.order.price < sell.order.price) → 0 < s.actual .future - usdt account.actualBalance.future

/-- The balance of futures changes by what was paid less what was received. -/
theorem ClosedShort.change [LT D] (hshort : s.ClosedShort symbol) (hcounts : Counts account s) :
    s.actual .future - usdt account.actualBalance.future =
      notionalOf "buy" s.accepted - notionalOf "sell" s.accepted := by
  have hfuture : ∀ timed ∈ s.accepted, marketOf timed.order.symbol = .future := by
    intro timed htimed
    rw [hshort.symbol timed htimed]
    exact hshort.future
  rw [hcounts .future, sum_notionals_future hfuture]
  exact add_sub_cancel_left _ _

variable [LinearOrder D] [IsStrictOrderedRing D]

/-- What is bought more cheaply than it was sold costs less. -/
theorem ClosedShort.notional_lt (hshort : s.ClosedShort symbol)
    (hcheaper : ∀ buy ∈ ordersOf "buy" s.accepted, ∀ sell ∈ ordersOf "sell" s.accepted,
      buy.order.price < sell.order.price) :
    notionalOf "buy" s.accepted < notionalOf "sell" s.accepted :=
  Fills.notional_lt (fun buy hbuy => hshort.positive buy (List.mem_filter.mp hbuy).1)
    (fun sell hsell => hshort.positive sell (List.mem_filter.mp hsell).1) hshort.opened
    hshort.closed hcheaper

/-- When the accepted orders open and close a short position, the balance realises its profit
exactly if as much was received as was paid. -/
theorem short_profit_iff
    (hrun : GuardedRun.exec step (resume account clock) calls = some s)
    (hshort : s.ClosedShort symbol) : RealisesProfit account s ↔
      notionalOf "sell" s.accepted = notionalOf "buy" s.accepted := by
  have hchange := hshort.change (counts_of_exec hrun)
  constructor
  · intro hrealises
    have hopposite := hchange.symm.trans hrealises.profit
    rw [← neg_sub] at hopposite
    exact sub_eq_zero.mp (neg_eq_self.mp hopposite)
  · intro hequal
    constructor
    · rw [hchange, hequal]
    · intro hcheaper
      exact absurd hequal (hshort.notional_lt hcheaper).ne'

/-- An order of one unit of a future. -/
def futureOrder (id side : String) (price : ℤ) : Order ℤ :=
  ⟨id, "BTC/USDT:USDT", side, 1, price, "filled", 0, 0, 0⟩

/-- One unit is sold at a price of ten and bought again. -/
def roundTrip (price : ℤ) : List (AccountCall ℤ) :=
  [.insertOrder 0 (futureOrder "1" "sell" 10), .insertOrder 0 (futureOrder "2" "buy" price)]

/-- The orders of a round trip. -/
def roundTripOrders (price : ℤ) : List (TimedOrder ℤ) :=
  [⟨futureOrder "1" "sell" 10, 0⟩, ⟨futureOrder "2" "buy" price, 0⟩]

/-- What a round trip sells and what it buys. -/
theorem ordersOf_roundTrip (price : ℤ) :
    ordersOf "sell" (roundTripOrders price) = [⟨futureOrder "1" "sell" 10, 0⟩] ∧
      ordersOf "buy" (roundTripOrders price) = [⟨futureOrder "2" "buy" price, 0⟩] := by
  have hsell : "sell".toLower = "sell" := by decide +kernel
  have hbuy : "buy".toLower = "buy" := by decide +kernel
  simp [ordersOf, roundTripOrders, futureOrder, hsell, hbuy]

/-- A round trip opens and closes a short position. -/
theorem exists_roundTrip (price : ℤ) : ∃ s, GuardedRun.exec step (resume .new 0) (roundTrip price) =
    some s ∧ s.accepted = roundTripOrders price ∧ s.ClosedShort "BTC/USDT:USDT" := by
  obtain ⟨hsells, hbuys⟩ := ordersOf_roundTrip price
  have hopened : ordersOf "sell" (roundTripOrders price) ≠ [] := by
    rw [hsells]
    exact List.cons_ne_nil _ _
  have hclosed : amountOf "buy" (roundTripOrders price) =
      amountOf "sell" (roundTripOrders price) := by
    rw [amountOf, amountOf, hsells, hbuys]
    rfl
  refine ⟨⟨((SharedState.new).insertOrder 0 (futureOrder "1" "sell" 10)).insertOrder 0
    (futureOrder "2" "buy" price), 0, roundTripOrders price⟩, rfl, rfl, by decide, ?_, ?_,
    hopened, hclosed⟩
  · simp [roundTripOrders, futureOrder]
  · simp [roundTripOrders, futureOrder]

/-- A position that is closed at the price at which it was opened. -/
theorem evenRoundTrip_realises : ∃ s, GuardedRun.exec step (resume .new 0) (roundTrip 10) =
    some s ∧ s.accepted = roundTripOrders 10 ∧ RealisesProfit .new s := by
  obtain ⟨s, hrun, haccepted, hshort⟩ := exists_roundTrip 10
  refine ⟨s, hrun, haccepted, (short_profit_iff hrun hshort).mpr ?_⟩
  rw [haccepted, notionalOf, notionalOf, (ordersOf_roundTrip 10).1, (ordersOf_roundTrip 10).2]
  rfl

/-- A position that is closed at half its price costs the account what it should gain. -/
theorem closed_short_loses : ∃ s, GuardedRun.exec step (resume .new 0) (roundTrip 5) = some s ∧
    s.ClosedShort "BTC/USDT:USDT" ∧ (∀ buy ∈ ordersOf "buy" s.accepted,
      ∀ sell ∈ ordersOf "sell" s.accepted, buy.order.price < sell.order.price) ∧
        notionalOf "sell" s.accepted - notionalOf "buy" s.accepted = 5 ∧
          s.actual .future - usdt (SharedState.new (D := ℤ)).actualBalance.future = -5 ∧
            ¬RealisesProfit .new s := by
  obtain ⟨s, hrun, haccepted, hshort⟩ := exists_roundTrip 5
  have hprofit : notionalOf "sell" s.accepted - notionalOf "buy" s.accepted = 5 := by
    rw [haccepted, notionalOf, notionalOf, (ordersOf_roundTrip 5).1, (ordersOf_roundTrip 5).2]
    rfl
  have hchange : s.actual .future - usdt (SharedState.new (D := ℤ)).actualBalance.future = -5 := by
    rw [hshort.change (counts_of_exec hrun), ← neg_sub, hprofit]
  refine ⟨s, hrun, hshort, ?_, hprofit, hchange, fun hrealises => ?_⟩
  · rw [haccepted, (ordersOf_roundTrip 5).1, (ordersOf_roundTrip 5).2]
    simp [futureOrder]
  · have hsame := hchange.symm.trans (hrealises.profit.trans hprofit)
    exact absurd hsame (by decide)

end Ledger

end Arbexpert.Base
