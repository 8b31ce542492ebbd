import Arbexpert.Arbitrage.Planner
import Mathlib.Tactic.Ring

/-!
# Both legs of a plan

Every iteration pushes one fill onto both order lists and counts it once more as executed. The
total of a list grows by the fill whether it becomes an order of its own or is merged into the
last one, so the two legs and the executed quantity stay equal.
-/

namespace Arbexpert.Arbitrage

/-- The quantity of all orders of a list. -/
def totalQuantity (orders : List ArbitrageOrder) : ℚ := (orders.map ArbitrageOrder.quantity).sum

/-- Two legs that total the same quantity. -/
structure Balanced (spotOrders futureOrders : List ArbitrageOrder) (quantity : ℚ) : Prop where
  spot : totalQuantity spotOrders = quantity
  future : totalQuantity futureOrders = quantity

/-- Both legs of a result total the quantity that it reports. -/
def ArbitrageResult.Balanced : ArbitrageResult → Prop
  | .entry result => Arbitrage.Balanced result.spotOrders result.futureOrders result.executed
  | .exit result => Arbitrage.Balanced result.spotOrders result.futureOrders result.executed

/-- A fill adds its quantity to the total of a list, merged or not. -/
@[simp] theorem totalQuantity_pushOrder (orders : List ArbitrageOrder) (price quantity : ℚ) :
    totalQuantity (pushOrder orders price quantity) = totalQuantity orders + quantity := by
  fun_induction pushOrder orders price quantity with
  | case1 => simp [totalQuantity]
  | case2 last price quantity hmerge => simp [totalQuantity]
  | case3 last price quantity hmerge => simp [totalQuantity]
  | case4 first second rest price quantity ih =>
    simp only [totalQuantity, List.map_cons, List.sum_cons] at ih ⊢
    rw [ih]
    ring

/-- Legs without orders total nothing. -/
theorem balanced_nil : Balanced [] [] 0 := ⟨rfl, rfl⟩

/-- A fill that is pushed onto both legs adds to the total of both. -/
theorem Balanced.push {spotOrders futureOrders : List ArbitrageOrder} {quantity : ℚ}
    (h : Balanced spotOrders futureOrders quantity) (spotPrice futurePrice fill : ℚ) :
    Balanced (pushOrder spotOrders spotPrice fill) (pushOrder futureOrders futurePrice fill)
      (quantity + fill) := by
  constructor
  · rw [totalQuantity_pushOrder, h.spot]
  · rw [totalQuantity_pushOrder, h.future]

/-- The order lists of the entry loop total its running quantity. -/
theorem entry_balanced_of_path {request : EntryRequest} {visited : List EntryState}
    {s : EntryState} (hpath : WhileLoop.Path (entryStep request) (entryStart request) visited s) :
    Balanced s.spotResults s.futureResults s.qty := by
  refine hpath.invariant (I := fun u => Balanced u.spotResults u.futureResults u.qty)
    balanced_nil fun u v h hstep => ?_
  obtain ⟨spot, future, hiter⟩ := entryStep_eq_some_iff.mp hstep
  rw [hiter.next]
  exact h.push spot.1 future.1 _

/-- The order lists of the exit loop total what was taken from the quantity to close. -/
theorem exit_balanced_of_path {request : ExitRequest} {visited : List ExitState} {s : ExitState}
    (hpath : WhileLoop.Path (exitStep request) (exitStart request) visited s) :
    Balanced s.spotResults s.futureResults (request.executed - s.available) := by
  refine hpath.invariant
    (I := fun u => Balanced u.spotResults u.futureResults (request.executed - u.available))
    ?_ fun u v h hstep => ?_
  · have hnothing : request.executed - (exitStart request).available = 0 := sub_self _
    rw [hnothing]
    exact balanced_nil
  · obtain ⟨spot, future, hiter⟩ := exitStep_eq_some_iff.mp hstep
    have hclosed : request.executed - v.available =
        request.executed - u.available + exitQty request u spot future := by
      rw [hiter.next]
      simp only [exitFill]
      ring
    rw [hclosed, hiter.next]
    exact h.push spot.1 future.1 _

/-- The result of balanced variables is balanced, the empty one included. -/
theorem entryResult_balanced {request : EntryRequest} {s : EntryState}
    (h : Balanced s.spotResults s.futureResults s.qty) :
    (ArbitrageResult.entry (entryResult request s)).Balanced := by
  unfold entryResult
  dsimp only
  split
  · exact balanced_nil
  · exact h

/-- An entry whose loop ends returns the result of a state that the loop reached. -/
theorem exists_path_of_doEntryArbitrage {fuel : ℕ} {request : EntryRequest} {result : EntryResult}
    (h : doEntryArbitrage fuel request = some result) : ∃ visited s,
      WhileLoop.Ends (entryStep request) (entryStart request) visited s ∧
        entryResult request s = result := by
  obtain ⟨s, hrun, hresult⟩ := Option.map_eq_some_iff.mp h
  obtain ⟨visited, hends⟩ := WhileLoop.ends_of_run hrun
  exact ⟨visited, s, hends, hresult⟩

/-- An exit whose loop ends returns the result of a state that the loop reached. -/
theorem exists_path_of_doExitArbitrage {fuel : ℕ} {request : ExitRequest} {result : ExitResult}
    (h : doExitArbitrage fuel request = some result) : ∃ visited s,
      WhileLoop.Ends (exitStep request) (exitStart request) visited s ∧
        exitResult request s = result := by
  obtain ⟨s, hrun, hresult⟩ := Option.map_eq_some_iff.mp h
  obtain ⟨visited, hends⟩ := WhileLoop.ends_of_run hrun
  exact ⟨visited, s, hends, hresult⟩

/-- On every request on which the planner's loop ends, the quantities of the spot orders and
those of the futures orders add up to the executed quantity. -/
theorem doArbitrage_balanced {fuel : ℕ} {request : ArbitrageRequest} {result : ArbitrageResult}
    (h : doArbitrage fuel request = some result) : result.Balanced := by
  cases request with
  | entry r =>
    obtain ⟨plan, hplan, rfl⟩ := Option.map_eq_some_iff.mp h
    obtain ⟨_, s, hends, rfl⟩ := exists_path_of_doEntryArbitrage hplan
    exact entryResult_balanced (entry_balanced_of_path hends.1)
  | exit r =>
    obtain ⟨plan, hplan, rfl⟩ := Option.map_eq_some_iff.mp h
    obtain ⟨_, s, hends, rfl⟩ := exists_path_of_doExitArbitrage hplan
    exact exit_balanced_of_path hends.1

/-- An entry at two spot levels whose prices are merged, against one futures level. -/
def mergedEntry : EntryRequest where
  spotOrders := [(100, 1), (100, 2)]
  futureOrders := [(110, 3)]
  amount := 10000
  marginQuantityPercent := 1
  percent := 1
  contractSize := 1

/-- Two fills become one spot order and one futures order of three units. -/
theorem mergedEntry_balanced : ∃ result, doArbitrage 3 (.entry mergedEntry) =
    some (.entry result) ∧ result.spotOrders = [⟨100, 3⟩] ∧ result.futureOrders = [⟨110, 3⟩] ∧
      (ArbitrageResult.entry result).Balanced := by
  have hrun : (doEntryArbitrage 3 mergedEntry).map
      (fun result => (result.spotOrders, result.futureOrders)) =
        some ([⟨100, 3⟩], [⟨110, 3⟩]) := by decide +kernel
  obtain ⟨result, hresult, horders⟩ := Option.map_eq_some_iff.mp hrun
  obtain ⟨hspot, hfuture⟩ := Prod.mk.inj horders
  have hdo : doArbitrage 3 (.entry mergedEntry) = some (.entry result) := by
    simp only [doArbitrage, hresult, Option.map_some]
  exact ⟨result, hdo, hspot, hfuture, doArbitrage_balanced hdo⟩

end Arbexpert.Arbitrage
