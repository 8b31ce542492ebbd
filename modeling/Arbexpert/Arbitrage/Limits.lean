import Arbexpert.Arbitrage.Balance
import Arbexpert.Arbitrage.MaxPrice
import Arbexpert.Foundation.DepthCurve

/-!
# A plan and its limit prices

The planner walks down both books and the limit prices come from a search that ignores depth. All
orders of a plan are priced before the last pair of levels that the walk filled, and this pair
reaches the percentage. The limit pair has the least excess of all, so it cannot be better than
the last pair on both legs at once: at least one leg stays within it.
-/

namespace Arbexpert.Arbitrage

open DepthCurve (Positive)

/-- The last pair of levels filled by a walk through a rising and a falling list: it reaches the
percentage, and no order made so far, nor any level ahead, is on the other side of it. -/
structure Frontier (percentage : ℚ) (increasing decreasing : List Level) (i j : ℕ)
    (incOrders decOrders : List ArbitrageOrder) (inc dec : Level) : Prop where
  inc_mem : inc ∈ increasing
  dec_mem : dec ∈ decreasing
  reach : Reaches percentage inc.1 dec.1
  inc_orders : ∀ order ∈ incOrders, order.price ≤ inc.1
  dec_orders : ∀ order ∈ decOrders, dec.1 ≤ order.price
  inc_ahead : ∀ level ∈ increasing.drop i, inc.1 ≤ level.1
  dec_ahead : ∀ level ∈ decreasing.drop j, level.1 ≤ dec.1

/-- A walk that has made no orders, or has a last pair of levels. -/
def Walked (percentage : ℚ) (increasing decreasing : List Level) (i j : ℕ)
    (incOrders decOrders : List ArbitrageOrder) : Prop :=
  (incOrders = [] ∧ decOrders = []) ∨
    ∃ inc dec, Frontier percentage increasing decreasing i j incOrders decOrders inc dec

/-- Every order has the price of the fill that was pushed, or that of an order before it. -/
theorem price_of_mem_pushOrder {orders : List ArbitrageOrder} {price quantity : ℚ}
    {order : ArbitrageOrder} (h : order ∈ pushOrder orders price quantity) :
    order.price = price ∨ ∃ old ∈ orders, old.price = order.price := by
  fun_induction pushOrder orders price quantity with
  | case1 =>
    cases List.mem_singleton.mp h
    exact Or.inl rfl
  | case2 last price quantity hmerge =>
    cases List.mem_singleton.mp h
    exact Or.inr ⟨last, List.mem_cons_self, rfl⟩
  | case3 last price quantity hmerge =>
    rcases List.mem_cons.mp h with rfl | h
    · exact Or.inr ⟨order, List.mem_cons_self, rfl⟩
    · cases List.mem_singleton.mp h
      exact Or.inl rfl
  | case4 first second rest price quantity ih =>
    rcases List.mem_cons.mp h with rfl | h
    · exact Or.inr ⟨order, List.mem_cons_self, rfl⟩
    · rcases ih h with hprice | ⟨old, hold, hprice⟩
      · exact Or.inl hprice
      · exact Or.inr ⟨old, List.mem_cons_of_mem _ hold, hprice⟩

/-- In a sorted list, the level at an index bounds the levels from there on. -/
theorem pairwise_drop {R : Level → Level → Prop} {orders : List Level} {i i' : ℕ} {level : Level}
    (hsorted : orders.Pairwise R) (hrefl : R level level) (hlevel : orders[i]? = some level)
    (hle : i ≤ i') : ∀ later ∈ orders.drop i', R level later := by
  intro later hlater
  obtain ⟨hi, rfl⟩ := List.getElem?_eq_some_iff.mp hlevel
  have hmem : later ∈ orders.drop i := by
    rw [← Nat.add_sub_cancel' hle, ← List.drop_drop] at hlater
    exact List.mem_of_mem_drop hlater
  rw [List.drop_eq_getElem_cons hi] at hmem
  rcases List.mem_cons.mp hmem with rfl | hmem
  · exact hrefl
  · have hrest := hsorted.sublist (List.drop_sublist i orders)
    rw [List.drop_eq_getElem_cons hi] at hrest
    exact (List.pairwise_cons.mp hrest).1 later hmem

section Walk

variable {percentage : ℚ} {increasing decreasing : List Level} {i j : ℕ}
  {incOrders decOrders : List ArbitrageOrder} {inc dec : Level}

/-- The orders of a walk are priced before the levels ahead. -/
theorem Walked.before (h : Walked percentage increasing decreasing i j incOrders decOrders)
    (hinc : inc ∈ increasing.drop i) (hdec : dec ∈ decreasing.drop j) :
    (∀ order ∈ incOrders, order.price ≤ inc.1) ∧ ∀ order ∈ decOrders, dec.1 ≤ order.price := by
  rcases h with ⟨rfl, rfl⟩ | ⟨_, _, hfrontier⟩
  · exact ⟨List.forall_mem_nil _, List.forall_mem_nil _⟩
  · have hincs := hfrontier.inc_ahead inc hinc
    have hdecs := hfrontier.dec_ahead dec hdec
    exact ⟨fun order horder => (hfrontier.inc_orders order horder).trans hincs,
      fun order horder => hdecs.trans (hfrontier.dec_orders order horder)⟩

/-- A fill at the levels under the cursors makes them the last pair of the walk. -/
theorem Walked.fill (h : Walked percentage increasing decreasing i j incOrders decOrders)
    (hincreasing : RisingPrices increasing) (hdecreasing : FallingPrices decreasing)
    (hinc : increasing[i]? = some inc) (hdec : decreasing[j]? = some dec)
    (hreach : Reaches percentage inc.1 dec.1) {i' j' : ℕ} (hi : i ≤ i') (hj : j ≤ j') (q : ℚ) :
    Walked percentage increasing decreasing i' j' (pushOrder incOrders inc.1 q)
      (pushOrder decOrders dec.1 q) := by
  have hahead {orders : List Level} {k : ℕ} {level : Level} (hlevel : orders[k]? = some level) :
      level ∈ orders.drop k := by
    apply List.mem_of_mem_head?
    rw [List.head?_drop]
    exact hlevel
  obtain ⟨hincs, hdecs⟩ := h.before (hahead hinc) (hahead hdec)
  refine Or.inr ⟨inc, dec, List.mem_of_getElem? hinc, List.mem_of_getElem? hdec, hreach, ?_, ?_,
    pairwise_drop hincreasing le_rfl hinc hi, pairwise_drop hdecreasing le_rfl hdec hj⟩
  · intro order horder
    rcases price_of_mem_pushOrder horder with hprice | ⟨old, hold, hprice⟩
    · exact hprice.le
    · exact hprice ▸ hincs old hold
  · intro order horder
    rcases price_of_mem_pushOrder horder with hprice | ⟨old, hold, hprice⟩
    · exact hprice.ge
    · exact hprice ▸ hdecs old hold

/-- A pair that is better on both legs has a greater excess. -/
theorem excess_lt {incLow incHigh decLow decHigh : ℚ} (hpos : 0 < incLow) (hdec : 0 < decLow)
    (hinc : incLow < incHigh) (hlt : decLow < decHigh) :
    excess percentage incHigh decLow < excess percentage incLow decHigh := by
  have hhigh : 0 < incHigh := hpos.trans hinc
  have hsplit (a b : ℚ) (ha : 0 < a) : (b - a) / a = b / a - 1 := by
    rw [sub_div, div_self ha.ne']
  have hratio : decLow / incHigh < decHigh / incLow :=
    div_lt_div₀ hlt hinc.le (hdec.trans hlt).le hpos
  unfold excess
  rw [hsplit _ _ hpos, hsplit _ _ hhigh]
  linarith

/-- A walk with orders has limit prices, within which at least one of its legs stays. -/
theorem Frontier.limit
    (h : Frontier percentage increasing decreasing i j incOrders decOrders inc dec)
    (hincreasing : RisingPrices increasing) (hincpos : PositivePrices increasing)
    (hdecreasing : FallingPrices decreasing) (hdecpos : PositivePrices decreasing) :
    ∃ limit, findMaxPrice increasing decreasing percentage = some limit ∧
      (∃ inc ∈ increasing, ∃ dec ∈ decreasing, limit = ⟨inc.1, dec.1⟩) ∧
        ((∀ order ∈ incOrders, order.price ≤ limit.spot) ∨
          ∀ order ∈ decOrders, limit.future ≤ order.price) := by
  have hsome : findMaxPrice increasing decreasing percentage ≠ none := by
    rw [ne_eq, findMaxPrice_eq_none_iff hincreasing hincpos hdecpos]
    exact fun hnone => hnone inc h.inc_mem dec h.dec_mem h.reach
  obtain ⟨limit, hlimit⟩ := Option.ne_none_iff_exists'.mp hsome
  obtain ⟨⟨hlevels, _⟩, hleast⟩ :=
    findMaxPrice_least hincreasing hincpos hdecreasing hdecpos hlimit
  refine ⟨limit, hlimit, hlevels, ?_⟩
  obtain ⟨incLimit, hincLimit, decLimit, _, rfl⟩ := hlevels
  have hle := hleast inc h.inc_mem dec h.dec_mem h.reach
  rcases le_or_gt inc.1 incLimit.1 with hwithin | houtside
  · exact Or.inl fun order horder => (h.inc_orders order horder).trans hwithin
  · right
    intro order horder
    refine (not_lt.mp fun hlt => ?_).trans (h.dec_orders order horder)
    exact absurd hle (not_le.mpr
      (excess_lt (hincpos incLimit hincLimit) (hdecpos dec h.dec_mem) houtside hlt))

end Walk

/-- The prices of the working lists of an entry never change. -/
theorem entry_prices_of_path {request : EntryRequest} {visited : List EntryState}
    {s : EntryState} (hpath : WhileLoop.Path (entryStep request) (entryStart request) visited s) :
    s.spotClone.map Prod.fst = request.spotOrders.map Prod.fst ∧
      s.futureClone.map Prod.fst = request.futureOrders.map Prod.fst := by
  refine hpath.invariant (I := fun u => u.spotClone.map Prod.fst = request.spotOrders.map Prod.fst ∧
    u.futureClone.map Prod.fst = request.futureOrders.map Prod.fst) ⟨rfl, rfl⟩ ?_
  rintro u v ⟨hspot, hfuture⟩ hstep
  obtain ⟨spot, future, hiter⟩ := entryStep_eq_some_iff.mp hstep
  rw [hiter.next]
  exact ⟨(map_fst_modify (takeVolume_fst _)).trans hspot,
    (map_fst_modify (takeVolume_fst _)).trans hfuture⟩

/-- The prices of the working lists of an exit never change. -/
theorem exit_prices_of_path {request : ExitRequest} {visited : List ExitState} {s : ExitState}
    (hpath : WhileLoop.Path (exitStep request) (exitStart request) visited s) :
    s.spotClone.map Prod.fst = request.spotOrders.map Prod.fst ∧
      s.futureClone.map Prod.fst = request.futureOrders.map Prod.fst := by
  refine hpath.invariant (I := fun u => u.spotClone.map Prod.fst = request.spotOrders.map Prod.fst ∧
    u.futureClone.map Prod.fst = request.futureOrders.map Prod.fst) ⟨rfl, rfl⟩ ?_
  rintro u v ⟨hspot, hfuture⟩ hstep
  obtain ⟨spot, future, hiter⟩ := exitStep_eq_some_iff.mp hstep
  rw [hiter.next]
  exact ⟨(map_fst_modify (exitRest_fst _)).trans hspot,
    (map_fst_modify (exitRest_fst _)).trans hfuture⟩

/-- Cursors do not move back. -/
theorem cursor_le {exhausted : Prop} [Decidable exhausted] (k : ℕ) :
    k ≤ if exhausted then k + 1 else k := by
  split <;> omega

/-- An entry walks up the spot prices and down the futures prices. -/
theorem entry_walked_of_path {request : EntryRequest} (hspot : RisingPrices request.spotOrders)
    (hspotpos : PositivePrices request.spotOrders) (hfuture : FallingPrices request.futureOrders)
    {visited : List EntryState} {s : EntryState}
    (hpath : WhileLoop.Path (entryStep request) (entryStart request) visited s) :
    Walked request.percent request.spotOrders request.futureOrders s.i s.j s.spotResults
      s.futureResults := by
  refine hpath.invariant_visited (I := fun u => Walked request.percent request.spotOrders
    request.futureOrders u.i u.j u.spotResults u.futureResults) (Or.inl ⟨rfl, rfl⟩) ?_
  intro u hu v hwalked hstep
  obtain ⟨earlier, _, _, _, hearlier, _, _⟩ := hpath.split hu
  obtain ⟨hspots, hfutures⟩ := entry_prices_of_path hearlier
  obtain ⟨spot, future, hiter⟩ := entryStep_eq_some_iff.mp hstep
  obtain ⟨inc, hinc, hincPrice⟩ := price_of_getElem? hspots hiter.spot_level
  obtain ⟨dec, hdec, hdecPrice⟩ := price_of_getElem? hfutures hiter.future_level
  have hreach : Reaches request.percent inc.1 dec.1 := by
    rw [reaches_iff (hspotpos inc (List.mem_of_getElem? hinc)), hincPrice, hdecPrice]
    exact hiter.diff_percent
  have hfill {i' j' : ℕ} (hi : u.i ≤ i') (hj : u.j ≤ j') :=
    hwalked.fill hspot hfuture hinc hdec hreach hi hj (entryQty request u spot future)
  rw [hincPrice, hdecPrice] at hfill
  rw [hiter.next]
  exact hfill (cursor_le u.i) (cursor_le u.j)

/-- An exit walks up the futures prices and down the spot prices. -/
theorem exit_walked_of_path {request : ExitRequest} (hspot : FallingPrices request.spotOrders)
    (hfuture : RisingPrices request.futureOrders) (hfuturepos : PositivePrices request.futureOrders)
    {visited : List ExitState} {s : ExitState}
    (hpath : WhileLoop.Path (exitStep request) (exitStart request) visited s) :
    Walked request.percent request.futureOrders request.spotOrders s.j s.i s.futureResults
      s.spotResults := by
  refine hpath.invariant_visited (I := fun u => Walked request.percent request.futureOrders
    request.spotOrders u.j u.i u.futureResults u.spotResults) (Or.inl ⟨rfl, rfl⟩) ?_
  intro u hu v hwalked hstep
  obtain ⟨earlier, _, _, _, hearlier, _, _⟩ := hpath.split hu
  obtain ⟨hspots, hfutures⟩ := exit_prices_of_path hearlier
  obtain ⟨spot, future, hiter⟩ := exitStep_eq_some_iff.mp hstep
  obtain ⟨inc, hinc, hincPrice⟩ := price_of_getElem? hfutures hiter.future_level
  obtain ⟨dec, hdec, hdecPrice⟩ := price_of_getElem? hspots hiter.spot_level
  have hreach : Reaches request.percent inc.1 dec.1 := by
    rw [reaches_iff (hfuturepos inc (List.mem_of_getElem? hinc)), hincPrice, hdecPrice]
    exact hiter.diff_percent
  have hfill {i' j' : ℕ} (hi : u.j ≤ i') (hj : u.i ≤ j') :=
    hwalked.fill hfuture hspot hinc hdec hreach hi hj (exitQty request u spot future)
  rw [hincPrice, hdecPrice] at hfill
  rw [hiter.next]
  exact hfill (cursor_le u.j) (cursor_le u.i)

/-- The spot levels of a request. -/
def ArbitrageRequest.spotOrders : ArbitrageRequest → List Level
  | .entry request => request.spotOrders
  | .exit request => request.spotOrders

/-- The futures levels of a request. -/
def ArbitrageRequest.futureOrders : ArbitrageRequest → List Level
  | .entry request => request.futureOrders
  | .exit request => request.futureOrders

/-- Asks rise and bids fall: an entry buys spot and sells the future, an exit does the opposite. -/
def ArbitrageRequest.SortedBooks : ArbitrageRequest → Prop
  | .entry request => RisingPrices request.spotOrders ∧ FallingPrices request.futureOrders
  | .exit request => FallingPrices request.spotOrders ∧ RisingPrices request.futureOrders

/-- The limit prices of a result. -/
def ArbitrageResult.maxPrice : ArbitrageResult → MaxPrice
  | .entry result => result.maxPrice
  | .exit result => result.maxPrice

/-- A result with orders. -/
def ArbitrageResult.HasOrders : ArbitrageResult → Prop
  | .entry result => result.spotOrders ≠ [] ∨ result.futureOrders ≠ []
  | .exit result => result.spotOrders ≠ [] ∨ result.futureOrders ≠ []

/-- No spot order is priced worse than the limit. -/
def ArbitrageResult.SpotWithin : ArbitrageResult → Prop
  | .entry result => ∀ order ∈ result.spotOrders, order.price ≤ result.maxPrice.spot
  | .exit result => ∀ order ∈ result.spotOrders, result.maxPrice.spot ≤ order.price

/-- No futures order is priced worse than the limit. -/
def ArbitrageResult.FutureWithin : ArbitrageResult → Prop
  | .entry result => ∀ order ∈ result.futureOrders, result.maxPrice.future ≤ order.price
  | .exit result => ∀ order ∈ result.futureOrders, order.price ≤ result.maxPrice.future

/-- The limit prices are prices of a spot level and of a futures level. -/
def ArbitrageRequest.OffersLimit (request : ArbitrageRequest) (limit : MaxPrice) : Prop :=
  ∃ spot ∈ request.spotOrders, ∃ future ∈ request.futureOrders, limit = ⟨spot.1, future.1⟩

/-- Prices of positive levels are a real pair. -/
theorem ArbitrageRequest.OffersLimit.ne_zero {request : ArbitrageRequest} {limit : MaxPrice}
    (h : request.OffersLimit limit) (hspot : PositivePrices request.spotOrders) :
    limit ≠ ⟨0, 0⟩ := by
  obtain ⟨spot, hmem, future, _, rfl⟩ := h
  intro hzero
  exact (hspot spot hmem).ne' (congrArg MaxPrice.spot hzero)

/-- An entry with orders returns the orders of its variables and the limit prices of its books. -/
theorem entryResult_of_orders {request : EntryRequest} {s : EntryState}
    (horders : (ArbitrageResult.entry (entryResult request s)).HasOrders) {limit : MaxPrice}
    (hlimit : findMaxPrice request.spotOrders request.futureOrders request.percent = some limit) :
    (entryResult request s).spotOrders = s.spotResults ∧
      (entryResult request s).futureOrders = s.futureResults ∧
        (entryResult request s).maxPrice = limit := by
  unfold entryResult ArbitrageResult.HasOrders at horders
  dsimp only at horders
  split at horders
  · simp at horders
  · rename_i hclean
    simp [entryResult, hclean, hlimit]

/-- On sorted books with positive prices, the limit prices of every plan with orders are prices of
the books, and all orders of at least one leg lie within them. -/
theorem doArbitrage_one_leg_within {request : ArbitrageRequest} (hsorted : request.SortedBooks)
    (hspot : PositivePrices request.spotOrders) (hfuture : PositivePrices request.futureOrders)
    {fuel : ℕ} {result : ArbitrageResult} (h : doArbitrage fuel request = some result)
    (horders : result.HasOrders) :
    request.OffersLimit result.maxPrice ∧ result.maxPrice ≠ ⟨0, 0⟩ ∧
      (result.SpotWithin ∨ result.FutureWithin) := by
  suffices hwithin : request.OffersLimit result.maxPrice ∧
      (result.SpotWithin ∨ result.FutureWithin) from
    ⟨hwithin.1, hwithin.1.ne_zero hspot, hwithin.2⟩
  cases request with
  | entry r =>
    obtain ⟨plan, hplan, rfl⟩ := Option.map_eq_some_iff.mp h
    obtain ⟨_, s, hends, rfl⟩ := exists_path_of_doEntryArbitrage hplan
    rcases entry_walked_of_path hsorted.1 hspot hsorted.2 hends.1 with ⟨hs, hf⟩ | ⟨_, _, hlast⟩
    · exfalso
      unfold entryResult ArbitrageResult.HasOrders at horders
      dsimp only at horders
      split at horders <;> simp [hs, hf] at horders
    · obtain ⟨limit, hlimit, hlevels, hwithin⟩ := hlast.limit hsorted.1 hspot hsorted.2 hfuture
      obtain ⟨hs, hf, hmax⟩ := entryResult_of_orders horders hlimit
      simp only [ArbitrageResult.maxPrice, ArbitrageResult.SpotWithin,
        ArbitrageResult.FutureWithin, hs, hf, hmax]
      exact ⟨hlevels, hwithin⟩
  | exit r =>
    obtain ⟨plan, hplan, rfl⟩ := Option.map_eq_some_iff.mp h
    obtain ⟨_, s, hends, rfl⟩ := exists_path_of_doExitArbitrage hplan
    rcases exit_walked_of_path hsorted.1 hsorted.2 hfuture hends.1 with ⟨hf, hs⟩ | ⟨_, _, hlast⟩
    · simp [ArbitrageResult.HasOrders, exitResult, hs, hf] at horders
    · obtain ⟨limit, hlimit, hlevels, hwithin⟩ := hlast.limit hsorted.2 hfuture hsorted.1 hspot
      have hmax : (exitResult r s).maxPrice = ⟨limit.future, limit.spot⟩ := by
        simp [exitResult, hlimit]
      simp only [ArbitrageResult.maxPrice, ArbitrageResult.SpotWithin,
        ArbitrageResult.FutureWithin, hmax]
      obtain ⟨future, hfutureMem, spot, hspotMem, rfl⟩ := hlevels
      exact ⟨⟨spot, hspotMem, future, hfutureMem, rfl⟩, hwithin.symm⟩

/-- An entry that crosses two levels of both books. -/
def crossedEntry : EntryRequest where
  spotOrders := [(100, 1), (101, 1)]
  futureOrders := [(110, 2), (101, 1)]
  amount := 10000
  marginQuantityPercent := 1
  percent := 1
  contractSize := 1

/-- The planner's answer to this entry. -/
def crossedPlan : EntryResult where
  spotOrders := [⟨100, 1⟩, ⟨101, 1⟩]
  futureOrders := [⟨110, 2⟩]
  maxPrice := ⟨100, 101⟩
  executed := 2
  completed := false
  profitPercent := 1900 / 201

/-- The limit pair is the best spot level with the worst futures level, which yields exactly one
percent; the futures leg lies within it. -/
theorem crossedEntry_within : doArbitrage 3 (.entry crossedEntry) = some (.entry crossedPlan) ∧
    (ArbitrageRequest.entry crossedEntry).OffersLimit crossedPlan.maxPrice ∧
      crossedPlan.maxPrice ≠ ⟨0, 0⟩ ∧ ((ArbitrageResult.entry crossedPlan).SpotWithin ∨
        (ArbitrageResult.entry crossedPlan).FutureWithin) := by
  have hentry : doEntryArbitrage 3 crossedEntry = some crossedPlan := by decide +kernel
  have hrun : doArbitrage 3 (.entry crossedEntry) = some (.entry crossedPlan) := by
    simp only [doArbitrage, hentry, Option.map_some]
  refine ⟨hrun, doArbitrage_one_leg_within ?_ ?_ ?_ hrun ?_⟩
  · norm_num [ArbitrageRequest.SortedBooks, RisingPrices, FallingPrices, crossedEntry]
  · norm_num [PositivePrices, ArbitrageRequest.spotOrders, crossedEntry]
  · norm_num [PositivePrices, ArbitrageRequest.futureOrders, crossedEntry]
  · simp [ArbitrageResult.HasOrders, crossedPlan]

/-- The second spot order, at 101, lies outside the limit price 100, although the books are
strictly sorted and positive, one contract is one unit and the percentage is positive. -/
theorem crossedEntry_outside :
    (crossedEntry.spotOrders.Pairwise fun level later => level.1 < later.1) ∧
    (crossedEntry.futureOrders.Pairwise fun level later => later.1 < level.1) ∧
      Positive crossedEntry.spotOrders ∧ Positive crossedEntry.futureOrders ∧
        crossedEntry.contractSize = 1 ∧ 0 < crossedEntry.percent ∧
          doArbitrage 3 (.entry crossedEntry) = some (.entry crossedPlan) ∧
            (ArbitrageResult.entry crossedPlan).HasOrders ∧
              ¬ (ArbitrageResult.entry crossedPlan).SpotWithin := by
  have hentry : doEntryArbitrage 3 crossedEntry = some crossedPlan := by decide +kernel
  refine ⟨by norm_num [crossedEntry], by norm_num [crossedEntry],
    by norm_num [crossedEntry, Positive], by norm_num [crossedEntry, Positive], rfl,
    by norm_num [crossedEntry], ?_, ?_, ?_⟩
  · simp only [doArbitrage, hentry, Option.map_some]
  · simp [ArbitrageResult.HasOrders, crossedPlan]
  · intro hwithin
    have horder : (101 : ℚ) ≤ 100 := hwithin ⟨101, 1⟩ (by simp [crossedPlan])
    norm_num at horder

end Arbexpert.Arbitrage
