import Arbexpert.Base.Feed
import Arbexpert.Base.HashMap
import Arbexpert.Foundation.ExpiringLog
import Mathlib.Algebra.BigOperators.Group.List.Basic
import Mathlib.Algebra.Ring.Defs

/-!
# Accounts

An account keeps a balance for each kind of market, and the orders of the last thirty seconds
in a queue with the times of their insertion. An order whose id is not in the queue is applied
to the actual balance; a request is applied to a temporary balance. Times are in nanoseconds,
and decimals are exact.
-/

namespace Arbexpert.Base

/-- The balances of an account. -/
structure Balance (D : Type*) where
  spot : HashMap String D
  future : HashMap String D

/-- An order with the time of its insertion. -/
structure TimedOrder (D : Type*) where
  order : Order D
  insertedAt : ℕ

/-- What the threads that use an account share, behind a lock. -/
structure SharedState (D : Type*) where
  actualBalance : Balance D
  temporaryBalance : Balance D
  orders : List (TimedOrder D)

variable {D : Type*}

/-- The time that an order stays in the queue. -/
def orderAge : ℕ := 30000000000

/-- The request with the data of an order. -/
def Order.request (order : Order D) : OrderRequest D :=
  ⟨order.symbol, order.side, order.amount, order.price⟩

/-- The map of a market. -/
def Balance.market (balance : Balance D) : MarketType → HashMap String D
  | .spot => balance.spot
  | .future => balance.future

/-- Balances with the same maps are equal. -/
theorem Balance.ext_market {balance other : Balance D}
    (hsame : ∀ market, balance.market market = other.market market) : balance = other := by
  cases balance
  cases other
  exact congrArg₂ _ (hsame .spot) (hsame .future)

/-- Whether an order with an id is in the queue. -/
def orderExists (orders : List (TimedOrder D)) (id : String) : Bool :=
  orders.any fun timed => timed.order.id = id

/-- An order with an id is in the queue. -/
theorem orderExists_iff {orders : List (TimedOrder D)} {id : String} :
    orderExists orders id ↔ ∃ timed ∈ orders, timed.order.id = id := by
  simp [orderExists]

/-- Remove the old orders from the front of the queue. -/
def cleanUp (now : ℕ) (orders : List (TimedOrder D)) : List (TimedOrder D) :=
  ExpiringLog.evict TimedOrder.insertedAt orderAge now orders

/-- What is in the queue after old orders have left it was there before. -/
theorem orderExists_of_cleanUp {now : ℕ} {orders : List (TimedOrder D)} {id : String}
    (h : orderExists (cleanUp now orders) id) : orderExists orders id := by
  obtain ⟨timed, htimed, hid⟩ := orderExists_iff.mp h
  exact orderExists_iff.mpr ⟨timed, (List.dropWhile_sublist _).mem htimed, hid⟩

section Arithmetic

variable [Ring D]

/-- The entry that an order changes, with its default. -/
def usdt (map : HashMap String D) : D := (map.lookup "USDT").getD 0

/-- Apply an order to a balance. -/
def applyOrder (balance : Balance D) (order : OrderRequest D) : Balance D :=
  let value := order.amount * order.price
  let side := order.side.toLower
  match marketOf order.symbol with
  | .future =>
    let entry := usdt balance.future
    { balance with future := balance.future.insert "USDT" <|
        if side = "sell" then entry - value -- open short
        else if side = "buy" then entry + value -- close short
        else entry }
  | .spot =>
    let entry := usdt balance.spot
    { balance with spot := balance.spot.insert "USDT" <|
        if side = "buy" then entry - value
        else if side = "sell" then entry + value
        else entry }

namespace SharedState

/-- A new account. -/
def new : SharedState D := ⟨⟨∅, ∅⟩, ⟨∅, ∅⟩, []⟩

/-- Insert an order at a time, unless an order with its id is in the queue. -/
def insertOrder (s : SharedState D) (now : ℕ) (order : Order D) : SharedState D :=
  let orders := cleanUp now s.orders
  if orderExists orders order.id then { s with orders }
  else
    { s with
      orders := orders ++ [⟨order, now⟩]
      actualBalance := applyOrder s.actualBalance order.request }

/-- Apply a request to the temporary balance. -/
def simulateOrder (s : SharedState D) (order : OrderRequest D) : SharedState D :=
  { s with temporaryBalance := applyOrder s.temporaryBalance order }

/-- Start the temporary balance anew. -/
def resetTemporaryBalance (s : SharedState D) : SharedState D :=
  { s with temporaryBalance := s.actualBalance }

end SharedState

/-- What an order adds to the balance of its market: its notional with the sign of its side, and
nothing when the side is unknown. -/
def OrderRequest.signedNotional (order : OrderRequest D) : D :=
  let value := order.amount * order.price
  if order.side.toLower = "sell" then
    match marketOf order.symbol with
    | .spot => value
    | .future => -value
  else if order.side.toLower = "buy" then
    match marketOf order.symbol with
    | .spot => -value
    | .future => value
  else 0

/-- An order adds its signed notional to the entry of its market, and leaves the other market
alone. -/
theorem market_applyOrder (balance : Balance D) (order : OrderRequest D) (market : MarketType) :
    (applyOrder balance order).market market =
      if marketOf order.symbol = market then
        (balance.market market).insert "USDT"
          (usdt (balance.market market) + order.signedNotional)
      else balance.market market := by
  have hsides : ¬(order.side.toLower = "buy" ∧ order.side.toLower = "sell") := by
    rintro ⟨hbuy, hsell⟩
    exact absurd (hbuy.symm.trans hsell) (by decide)
  unfold applyOrder OrderRequest.signedNotional
  cases marketOf order.symbol <;> cases market
  all_goals simp only [Balance.market, reduceCtorEq, ↓reduceIte]
  · congr 1
    by_cases hbuy : order.side.toLower = "buy"
    · have hsell : order.side.toLower ≠ "sell" := fun hsell => hsides ⟨hbuy, hsell⟩
      simp only [if_pos hbuy, if_neg hsell, sub_eq_add_neg]
    · by_cases hsell : order.side.toLower = "sell"
      · simp only [if_neg hbuy, if_pos hsell]
      · simp only [if_neg hbuy, if_neg hsell, add_zero]
  · congr 1
    by_cases hsell : order.side.toLower = "sell"
    · simp only [if_pos hsell, sub_eq_add_neg]
    · by_cases hbuy : order.side.toLower = "buy"
      · simp only [if_neg hsell, if_pos hbuy]
      · simp only [if_neg hbuy, if_neg hsell, add_zero]

/-- What an order adds to the entry of a market. -/
theorem usdt_applyOrder (balance : Balance D) (order : OrderRequest D) (market : MarketType) :
    usdt ((applyOrder balance order).market market) = usdt (balance.market market) +
      if marketOf order.symbol = market then order.signedNotional else 0 := by
  rw [market_applyOrder]
  split
  · rw [usdt, Finmap.lookup_insert, Option.getD_some]
  · rw [add_zero]

end Arithmetic

end Arbexpert.Base
