import Arbexpert.Arbitrage.Entry
import Arbexpert.Arbitrage.Exit
import Arbexpert.Foundation.DepthCurve

/-!
# Requests of both directions and the invariants of their loops

`do_arbitrage` hands a request to the planner of its direction. Both loops keep
the prices of their level lists, move each cursor at most one level at a time,
and never take more from a spot level or from the budget than is left there.
-/

namespace Arbexpert.Arbitrage

/-- `do_arbitrage`, with a bound on the iterations of the planner's loop. -/
def doArbitrage (fuel : ℕ) : ArbitrageRequest → Option ArbitrageResult
  | .entry request => (doEntryArbitrage fuel request).map .entry
  | .exit request => (doExitArbitrage fuel request).map .exit

/-- Every level has a positive price and a volume that is not negative. -/
def OffersLevels (orders : List Level) : Prop := ∀ level ∈ orders, 0 < level.1 ∧ 0 ≤ level.2

/-- Positive levels are offered levels. -/
theorem offersLevels_of_positive {orders : List Level} (h : DepthCurve.Positive orders) :
    OffersLevels orders :=
  fun level hlevel => ⟨(h level hlevel).1, (h level hlevel).2.le⟩

/-- Positive prices and contract size; volumes and budget that are not negative. -/
structure EntryRequest.WellFormed (request : EntryRequest) : Prop where
  spot : OffersLevels request.spotOrders
  future : OffersLevels request.futureOrders
  amount : 0 ≤ request.amount
  contractSize : 0 < request.contractSize

/-- Positive prices and contract size; volumes and quantity that are not negative. -/
structure ExitRequest.WellFormed (request : ExitRequest) : Prop where
  spot : OffersLevels request.spotOrders
  future : OffersLevels request.futureOrders
  executed : 0 ≤ request.executed
  contractSize : 0 < request.contractSize

/-- Well-formedness of a request of either direction. -/
def ArbitrageRequest.WellFormed : ArbitrageRequest → Prop
  | .entry request => request.WellFormed
  | .exit request => request.WellFormed

/-- Changing the volume of one level changes no price. -/
theorem map_fst_modify {clone : List Level} {i : ℕ} {f : Level → Level}
    (hf : ∀ level, (f level).1 = level.1) :
    (clone.modify i f).map Prod.fst = clone.map Prod.fst := by
  apply List.ext_getElem?
  intro k
  rw [List.getElem?_map, List.getElem?_map, List.getElem?_modify]
  cases clone[k]? with
  | none => rfl
  | some level =>
    by_cases hk : i = k
    · simp [hk, hf]
    · simp [hk]

/-- Taking no more than is left at one level leaves no level negative. -/
theorem left_modify {clone : List Level} {i : ℕ} {f : Level → Level}
    (hleft : ∀ (k : ℕ) (level : Level), clone[k]? = some level → 0 ≤ level.2)
    (hf : ∀ level, clone[i]? = some level → 0 ≤ (f level).2) :
    ∀ (k : ℕ) (level : Level), (clone.modify i f)[k]? = some level → 0 ≤ level.2 := by
  intro k level hlevel
  rw [List.getElem?_modify] at hlevel
  obtain ⟨old, hold, rfl⟩ := Option.map_eq_some_iff.mp hlevel
  split
  · rename_i hk
    subst hk
    exact hf old hold
  · exact hleft k old hold

/-- An exit fill keeps the price of its level. -/
theorem exitRest_fst (qty : ℚ) (level : Level) : (exitRest qty level).1 = level.1 := by
  unfold exitRest takeVolume
  split <;> rfl

/-- Only the positive part of an exit fill is taken from its levels. -/
theorem exitRest_snd (q : ℚ) (level : Level) : (exitRest q level).2 = level.2 - max q 0 := by
  unfold exitRest takeVolume
  split
  · rename_i h
    rw [max_eq_left h.le]
  · rename_i h
    rw [max_eq_right (not_lt.mp h), sub_zero]

/-- The prices of a working list are those of the request's list. -/
theorem price_of_getElem? {orders clone : List Level} {k : ℕ} {level : Level}
    (hprices : clone.map Prod.fst = orders.map Prod.fst) (hlevel : clone[k]? = some level) :
    ∃ original, orders[k]? = some original ∧ original.1 = level.1 := by
  have hmap : (orders.map Prod.fst)[k]? = some level.1 := by
    rw [← hprices, List.getElem?_map, hlevel]
    rfl
  rw [List.getElem?_map] at hmap
  exact Option.map_eq_some_iff.mp hmap

/-- Working lists keep their length. -/
theorem length_of_prices {orders clone : List Level}
    (hprices : clone.map Prod.fst = orders.map Prod.fst) : clone.length = orders.length := by
  simpa using congrArg List.length hprices

/-- What every iteration of the entry loop keeps. -/
structure EntryInvariant (request : EntryRequest) (s : EntryState) : Prop where
  spot_prices : s.spotClone.map Prod.fst = request.spotOrders.map Prod.fst
  future_prices : s.futureClone.map Prod.fst = request.futureOrders.map Prod.fst
  spot_left : ∀ (k : ℕ) (level : Level), s.spotClone[k]? = some level → 0 ≤ level.2
  available : 0 ≤ s.available
  i_le : s.i ≤ request.spotOrders.length
  j_le : s.j ≤ request.futureOrders.length

/-- The entry invariant holds before the first iteration. -/
theorem entryInvariant_start {request : EntryRequest} (h : request.WellFormed) :
    EntryInvariant request (entryStart request) where
  spot_prices := rfl
  future_prices := rfl
  spot_left _ level hlevel := (h.spot level (List.mem_of_getElem? hlevel)).2
  available := h.amount
  i_le := Nat.zero_le _
  j_le := Nat.zero_le _

/-- The level under the spot cursor of an entry has a positive price. -/
theorem EntryInvariant.spot_price {request : EntryRequest} {s : EntryState} {k : ℕ}
    {level : Level} (hinv : EntryInvariant request s) (h : request.WellFormed)
    (hlevel : s.spotClone[k]? = some level) : 0 < level.1 := by
  obtain ⟨original, horiginal, hprice⟩ := price_of_getElem? hinv.spot_prices hlevel
  rw [← hprice]
  exact (h.spot original (List.mem_of_getElem? horiginal)).1

/-- A cursor that is on a level can move one level further. -/
theorem cursor_step_le {orders clone : List Level} {k : ℕ} {level : Level} {exhausted : Prop}
    [Decidable exhausted] (hprices : clone.map Prod.fst = orders.map Prod.fst)
    (hlevel : clone[k]? = some level) :
    (if exhausted then k + 1 else k) ≤ orders.length := by
  have hk : k < orders.length := by
    rw [← length_of_prices hprices]
    exact (List.getElem?_eq_some_iff.mp hlevel).1
  split <;> omega

/-- The entry fill is at most what the budget affords. -/
theorem entryQty_le_budget (request : EntryRequest) (s : EntryState) (spot future : Level) :
    entryQty request s spot future ≤ s.available / spot.1 :=
  (min_le_left _ _).trans (min_le_left _ _)

/-- The entry fill is at most the spot volume. -/
theorem entryQty_le_spot (request : EntryRequest) (s : EntryState) (spot future : Level) :
    entryQty request s spot future ≤ spot.2 :=
  (min_le_left _ _).trans (min_le_right _ _)

/-- The entry fill is at most the futures remainder times the contract size. -/
theorem entryQty_le_future (request : EntryRequest) (s : EntryState) (spot future : Level) :
    entryQty request s spot future ≤ future.2 * request.contractSize :=
  min_le_right _ _

/-- The entry fill never costs more than the budget. -/
theorem entryQty_cost_le (request : EntryRequest) (s : EntryState) (future : Level)
    {spot : Level} (hprice : 0 < spot.1) :
    spot.1 * entryQty request s spot future ≤ s.available := by
  have h := (le_div_iff₀ hprice).mp (entryQty_le_budget request s spot future)
  linarith

/-- One iteration of the entry loop keeps the invariant. -/
theorem EntryInvariant.step {request : EntryRequest} {s t : EntryState} (h : request.WellFormed)
    (hinv : EntryInvariant request s) (hstep : entryStep request s = some t) :
    EntryInvariant request t := by
  obtain ⟨spot, future, hiter⟩ := entryStep_eq_some_iff.mp hstep
  have hprice := hinv.spot_price h hiter.spot_level
  rw [hiter.next]
  refine ⟨?_, ?_, ?_, ?_, ?_, ?_⟩
  · exact (map_fst_modify (takeVolume_fst _)).trans hinv.spot_prices
  · exact (map_fst_modify (takeVolume_fst _)).trans hinv.future_prices
  · refine left_modify hinv.spot_left fun level hlevel => ?_
    cases Option.some.inj (hiter.spot_level.symm.trans hlevel)
    exact sub_nonneg.mpr (entryQty_le_spot request s spot future)
  · have := entryQty_cost_le request s future hprice
    simp only [entryFill]
    linarith
  · exact cursor_step_le hinv.spot_prices hiter.spot_level
  · exact cursor_step_le hinv.future_prices hiter.future_level

/-- Every state on a path of the entry loop satisfies the invariant. -/
theorem entryInvariant_of_path {request : EntryRequest} {visited : List EntryState}
    {s : EntryState} (h : request.WellFormed)
    (hpath : WhileLoop.Path (entryStep request) (entryStart request) visited s) :
    EntryInvariant request s :=
  hpath.invariant (entryInvariant_start h) fun _ _ hinv hstep => hinv.step h hstep

/-- What every iteration of the exit loop keeps. -/
structure ExitInvariant (request : ExitRequest) (s : ExitState) : Prop where
  spot_prices : s.spotClone.map Prod.fst = request.spotOrders.map Prod.fst
  future_prices : s.futureClone.map Prod.fst = request.futureOrders.map Prod.fst
  spot_left : ∀ (k : ℕ) (level : Level), s.spotClone[k]? = some level → 0 ≤ level.2
  available : 0 ≤ s.available
  i_le : s.i ≤ request.spotOrders.length
  j_le : s.j ≤ request.futureOrders.length

/-- The exit invariant holds before the first iteration. -/
theorem exitInvariant_start {request : ExitRequest} (h : request.WellFormed) :
    ExitInvariant request (exitStart request) where
  spot_prices := rfl
  future_prices := rfl
  spot_left _ level hlevel := (h.spot level (List.mem_of_getElem? hlevel)).2
  available := h.executed
  i_le := Nat.zero_le _
  j_le := Nat.zero_le _

/-- The exit fill is at most what is left to close. -/
theorem exitQty_le_available (request : ExitRequest) (s : ExitState) (spot future : Level) :
    exitQty request s spot future ≤ s.available :=
  (min_le_left _ _).trans (min_le_left _ _)

/-- The exit fill is at most the spot volume. -/
theorem exitQty_le_spot (request : ExitRequest) (s : ExitState) (spot future : Level) :
    exitQty request s spot future ≤ spot.2 :=
  (min_le_left _ _).trans (min_le_right _ _)

/-- The exit fill is at most the futures remainder times the contract size. -/
theorem exitQty_le_future (request : ExitRequest) (s : ExitState) (spot future : Level) :
    exitQty request s spot future ≤ future.2 * request.contractSize :=
  min_le_right _ _

/-- One iteration of the exit loop keeps the invariant. -/
theorem ExitInvariant.step {request : ExitRequest} {s t : ExitState}
    (hinv : ExitInvariant request s) (hstep : exitStep request s = some t) :
    ExitInvariant request t := by
  obtain ⟨spot, future, hiter⟩ := exitStep_eq_some_iff.mp hstep
  rw [hiter.next]
  refine ⟨?_, ?_, ?_, ?_, ?_, ?_⟩
  · exact (map_fst_modify (exitRest_fst _)).trans hinv.spot_prices
  · exact (map_fst_modify (exitRest_fst _)).trans hinv.future_prices
  · refine left_modify hinv.spot_left fun level hlevel => ?_
    cases Option.some.inj (hiter.spot_level.symm.trans hlevel)
    have hspot := hinv.spot_left _ _ hiter.spot_level
    rw [exitRest_snd, sub_nonneg]
    exact max_le (exitQty_le_spot request s spot future) hspot
  · have := exitQty_le_available request s spot future
    simp only [exitFill]
    linarith
  · exact cursor_step_le hinv.spot_prices hiter.spot_level
  · exact cursor_step_le hinv.future_prices hiter.future_level

/-- Every state on a path of the exit loop satisfies the invariant. -/
theorem exitInvariant_of_path {request : ExitRequest} {visited : List ExitState}
    {s : ExitState} (h : request.WellFormed)
    (hpath : WhileLoop.Path (exitStep request) (exitStart request) visited s) :
    ExitInvariant request s :=
  hpath.invariant (exitInvariant_start h) fun _ _ hinv hstep => hinv.step hstep

end Arbexpert.Arbitrage
