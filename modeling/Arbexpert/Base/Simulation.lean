import Arbexpert.Base.Account
import Mathlib.Algebra.Ring.Int.Defs

/-!
# The simulation of orders

Requests are simulated on the temporary balance, and later the orders are inserted as they
arrive. Orders commute: they add to one entry of their market. So the temporary balance tells
the actual balance after the orders were inserted, in whatever order and at whatever times they
arrive, as long as the queue lets each of them in.
-/

namespace Arbexpert.Base

variable {D : Type*} [Ring D]

namespace SharedState

/-- Insert orders one after the other, each at its time. -/
def insertOrders (account : SharedState D) (orders : List (TimedOrder D)) : SharedState D :=
  orders.foldl (fun s timed => s.insertOrder timed.insertedAt timed.order) account

/-- Simulate requests one after the other. -/
def simulateOrders (account : SharedState D) (requests : List (OrderRequest D)) :
    SharedState D := requests.foldl simulateOrder account

end SharedState

variable {account : SharedState D}

/-- Two orders can be applied to a balance in either order. -/
theorem applyOrder_right_comm (balance : Balance D) (first second : OrderRequest D) :
    applyOrder (applyOrder balance first) second =
      applyOrder (applyOrder balance second) first := by
  apply Balance.ext_market
  intro market
  simp only [market_applyOrder]
  by_cases hfirst : marketOf first.symbol = market
  · by_cases hsecond : marketOf second.symbol = market
    · -- both add to the entry that the first of them has left
      simp only [if_pos hfirst, if_pos hsecond, Finmap.insert_insert, usdt,
        Finmap.lookup_insert, Option.getD_some]
      rw [add_right_comm]
    · simp only [if_neg hsecond]
  · simp only [if_neg hfirst]

/-- Requests lead to the same balance in whatever order they are applied. -/
theorem foldl_applyOrder_perm {requests others : List (OrderRequest D)}
    (hperm : requests.Perm others) (balance : Balance D) :
    requests.foldl applyOrder balance = others.foldl applyOrder balance := by
  apply hperm.foldl_eq'
  intro first _ second _ current
  exact applyOrder_right_comm current first second

/-- Simulations change the temporary balance only, by the requests. -/
theorem simulateOrders_eq (requests : List (OrderRequest D)) (account : SharedState D) :
    account.simulateOrders requests = { account with
      temporaryBalance := requests.foldl applyOrder account.temporaryBalance } := by
  induction requests generalizing account with
  | nil => rfl
  | cons request rest ih => exact ih (account.simulateOrder request)

/-- An order whose id is not in the queue joins it and is applied. -/
theorem insertOrder_of_new {order : Order D} (h : ¬orderExists account.orders order.id) (now : ℕ) :
    account.insertOrder now order = { account with
      orders := cleanUp now account.orders ++ [⟨order, now⟩]
      actualBalance := applyOrder account.actualBalance order.request } := by
  unfold SharedState.insertOrder
  exact if_neg (mt orderExists_of_cleanUp h)

/-- Another order stays outside the queue when one joins it. -/
theorem not_orderExists_insertOrder {order : Order D} {id : String}
    (horder : ¬orderExists account.orders order.id) (hid : ¬orderExists account.orders id)
    (hne : order.id ≠ id) (now : ℕ) : ¬orderExists (account.insertOrder now order).orders id := by
  rw [insertOrder_of_new horder]
  intro hexists
  obtain ⟨timed, htimed, hsame⟩ := orderExists_iff.mp hexists
  rcases List.mem_append.mp htimed with hold | hadded
  · exact hid (orderExists_of_cleanUp (orderExists_iff.mpr ⟨timed, hold, hsame⟩))
  · rw [List.mem_singleton.mp hadded] at hsame
    exact hne hsame

/-- Orders with distinct ids that are not in the queue are applied one after the other, whatever
leaves the queue meanwhile. -/
theorem actualBalance_insertOrders {orders : List (TimedOrder D)}
    (hids : (orders.map fun timed => timed.order.id).Nodup)
    (hnew : ∀ timed ∈ orders, ¬orderExists account.orders timed.order.id) :
    (account.insertOrders orders).actualBalance =
      (orders.map fun timed => timed.order.request).foldl applyOrder account.actualBalance := by
  induction orders generalizing account with
  | nil => rfl
  | cons timed rest ih =>
    obtain ⟨hid, hrest⟩ := List.nodup_cons.mp hids
    have hfirst : ¬orderExists account.orders timed.order.id := hnew timed List.mem_cons_self
    have hstill : ∀ other ∈ rest, ¬orderExists
        (account.insertOrder timed.insertedAt timed.order).orders other.order.id := by
      intro other hother
      apply not_orderExists_insertOrder hfirst (hnew other (List.mem_cons_of_mem _ hother))
      exact fun hsame => hid (List.mem_map.mpr ⟨other, hother, hsame.symm⟩)
    have hstep : (account.insertOrder timed.insertedAt timed.order).actualBalance =
        applyOrder account.actualBalance timed.order.request := by
      rw [insertOrder_of_new hfirst]
    rw [List.map_cons, List.foldl_cons, ← hstep]
    exact ih hrest hstill

/-- Once the temporary balance was reset, simulating the requests of some orders, in any order,
leaves the actual balance as it is, and leads the temporary balance to the actual balance that
inserting these orders would lead to, at any times, when their ids are distinct and none of them
is in the queue. -/
theorem simulation_predicts_execution (account : SharedState D) {orders : List (TimedOrder D)}
    {requests : List (OrderRequest D)}
    (hids : (orders.map fun timed => timed.order.id).Nodup)
    (hnew : ∀ timed ∈ orders, ¬orderExists account.orders timed.order.id)
    (hperm : requests.Perm (orders.map fun timed => timed.order.request)) :
    (account.resetTemporaryBalance.simulateOrders requests).actualBalance =
        account.actualBalance ∧
      (account.resetTemporaryBalance.simulateOrders requests).temporaryBalance =
        (account.insertOrders orders).actualBalance := by
  rw [simulateOrders_eq, actualBalance_insertOrders hids hnew, ← foldl_applyOrder_perm hperm]
  exact ⟨rfl, rfl⟩

/-- An order with a side, for a symbol, of two units at a price of five. -/
def sampleOrder (id symbol side : String) : Order ℤ := ⟨id, symbol, side, 2, 5, "filled", 0, 0, 0⟩

/-- Orders of both markets, one of them with an unknown side, that arrive after the queue has had
another one for longer than it keeps it. -/
def arrivals : List (TimedOrder ℤ) :=
  [⟨sampleOrder "2" "BTC/USDT:USDT" "SELL", 2 * orderAge⟩,
    ⟨sampleOrder "3" "BTC/USDT" "buy", 2 * orderAge⟩,
    ⟨sampleOrder "4" "BTC/USDT" "hold", 3 * orderAge⟩]

/-- The simulation of these orders in the reverse order predicts them. -/
theorem arrivals_predicted :
    let account := (SharedState.new).insertOrder 0 (sampleOrder "1" "BTC/USDT" "sell")
    let requests := (arrivals.map fun timed => timed.order.request).reverse
    (account.resetTemporaryBalance.simulateOrders requests).actualBalance =
        account.actualBalance ∧
      (account.resetTemporaryBalance.simulateOrders requests).temporaryBalance =
        (account.insertOrders arrivals).actualBalance :=
  simulation_predicts_execution _ (by decide) (by decide +kernel) (List.reverse_perm _)

end Arbexpert.Base
