import Arbexpert.Arbitrage.Termination
import Arbexpert.Foundation.GreedyMatch
import Mathlib.Data.List.Chain

/-!
# The planners as greedy matchers

With one base unit a contract, and without residual quantities, the loops of both
planners match units from the heads of the two lists. They end with the greatest
quantity that both lists offer at a sufficient spread and that the budget, or the
quantity to close, allows; the plan is made of the first units of both lists.
-/

namespace Arbexpert.Arbitrage

open DepthCurve (Positive firstUnits dropUnits)

/-- Level quantities as the orders of a plan. -/
def asOrders (units : List Level) : List ArbitrageOrder :=
  units.map fun level => ⟨level.1, level.2⟩

/-- Adjacent prices are at least the merge tolerance apart. -/
def PricesApart (orders : List Level) : Prop :=
  orders.IsChain fun level next => f64Epsilon ≤ |level.1 - next.1|

/-- A quantity that is zero or reaches the residual threshold. -/
def CleanValue (value : ℚ) : Prop := value = 0 ∨ eps ≤ value

/-- An entry can execute a quantity that both lists offer, whose first units the
amount pays for, at spreads of at least the requested percentage. -/
structure EntryRequest.CanExecute (request : EntryRequest) (quantity : ℚ) : Prop where
  nonneg : 0 ≤ quantity
  le_spot : quantity ≤ DepthCurve.total request.spotOrders
  le_future : quantity ≤ DepthCurve.total request.futureOrders
  cost_le : DepthCurve.cost (fun price => price) request.spotOrders quantity ≤ request.amount
  spread : ∀ depth, 0 ≤ depth → depth < quantity → ∀ spotPrice futurePrice,
    DepthCurve.priceAt request.spotOrders depth = some spotPrice →
      DepthCurve.priceAt request.futureOrders depth = some futurePrice →
        request.percent ≤ entryDiff spotPrice futurePrice

/-- An exit can execute a quantity that both lists offer, up to the quantity to
close, at spreads of at least the requested percentage. -/
structure ExitRequest.CanExecute (request : ExitRequest) (quantity : ℚ) : Prop where
  nonneg : 0 ≤ quantity
  le_spot : quantity ≤ DepthCurve.total request.spotOrders
  le_future : quantity ≤ DepthCurve.total request.futureOrders
  le_executed : quantity ≤ request.executed
  spread : ∀ depth, 0 ≤ depth → depth < quantity → ∀ spotPrice futurePrice,
    DepthCurve.priceAt request.spotOrders depth = some spotPrice →
      DepthCurve.priceAt request.futureOrders depth = some futurePrice →
        request.percent ≤ exitDiff spotPrice futurePrice

/-- Entries in single units, at positive levels with separated prices, for a
percentage that no residual spread reaches. -/
structure EntryRequest.Marginal (request : EntryRequest) : Prop where
  spot : Positive request.spotOrders
  future : Positive request.futureOrders
  spot_apart : PricesApart request.spotOrders
  future_apart : PricesApart request.futureOrders
  contractSize : request.contractSize = 1
  percent : eps ≤ request.percent

/-- Exits in single units, at positive levels with separated prices. -/
structure ExitRequest.Marginal (request : ExitRequest) : Prop where
  spot : Positive request.spotOrders
  future : Positive request.futureOrders
  spot_apart : PricesApart request.spotOrders
  future_apart : PricesApart request.futureOrders
  contractSize : request.contractSize = 1

/-- No residual is met in a state of the entry loop, nor in an iteration from it. -/
structure EntryClean (request : EntryRequest) (s : EntryState) : Prop where
  available : CleanValue s.available
  fill : ∀ spot future, s.spotClone[s.i]? = some spot → s.futureClone[s.j]? = some future →
    eps ≤ s.available → request.percent ≤ entryDiff spot.1 future.1 →
      CleanValue (entryQty request s spot future)
  rest : ∀ t spot future, EntryIteration request s t spot future →
    CleanValue (spot.2 - entryQty request s spot future) ∧
      CleanValue (future.2 - entryQty request s spot future)

/-- No residual is met in a state of the exit loop, nor in an iteration from it. -/
structure ExitClean (request : ExitRequest) (s : ExitState) : Prop where
  available : CleanValue s.available
  fill : ∀ t spot future, ExitIteration request s t spot future →
    CleanValue (exitQty request s spot future)
  rest : ∀ t spot future, ExitIteration request s t spot future →
    CleanValue (exitRest (exitQty request s spot future) spot).2 ∧
      CleanValue (exitRest (exitQty request s spot future) future).2

/-- The request is one for which the planner is compared with the marginal curve. -/
def ArbitrageRequest.Marginal : ArbitrageRequest → Prop
  | .entry request => request.Marginal
  | .exit request => request.Marginal

/-- No residual is met in the whole run of the planner's loop. -/
def ArbitrageRequest.CleanRun : ArbitrageRequest → Prop
  | .entry request => ∀ visited s,
      WhileLoop.Path (entryStep request) (entryStart request) visited s → EntryClean request s
  | .exit request => ∀ visited s,
      WhileLoop.Path (exitStep request) (exitStart request) visited s → ExitClean request s

/-- The plan executes the greatest possible quantity, and its orders are the first
units of both lists. -/
def ArbitrageRequest.GreatestPlan : ArbitrageRequest → ArbitrageResult → Prop
  | .entry request, .entry result =>
    IsGreatest {quantity | request.CanExecute quantity} result.executed ∧
      result.spotOrders = asOrders (firstUnits request.spotOrders result.executed) ∧
        result.futureOrders = asOrders (firstUnits request.futureOrders result.executed)
  | .exit request, .exit result =>
    IsGreatest {quantity | request.CanExecute quantity} result.executed ∧
      result.spotOrders = asOrders (firstUnits request.spotOrders result.executed) ∧
        result.futureOrders = asOrders (firstUnits request.futureOrders result.executed)
  | _, _ => False

/-- A clean value is not negative. -/
theorem CleanValue.nonneg {value : ℚ} (h : CleanValue value) : 0 ≤ value := by
  rcases h with rfl | h
  · exact le_rfl
  · exact eps_pos.le.trans h

/-- A clean value that is not zero reaches the residual threshold. -/
theorem CleanValue.eps_le {value : ℚ} (h : CleanValue value) (hne : value ≠ 0) : eps ≤ value :=
  h.resolve_left hne

/-- A positive fill is taken from its level. -/
theorem exitRest_of_pos {q : ℚ} (hq : 0 < q) (level : Level) :
    exitRest q level = takeVolume q level :=
  if_pos hq

/-- A positive list has a positive level under a cursor. -/
theorem head_pos {clone : List Level} {i : ℕ} {level : Level} (hpositive : Positive (clone.drop i))
    (hlevel : clone[i]? = some level) : 0 < level.1 ∧ 0 < level.2 := by
  apply hpositive level
  apply List.mem_of_mem_head?
  rw [List.head?_drop]
  exact hlevel

/-- The rest of a working list from a level on. -/
theorem drop_eq_cons {clone : List Level} {i : ℕ} {level : Level}
    (hlevel : clone[i]? = some level) : clone.drop i = level :: clone.drop (i + 1) := by
  obtain ⟨hi, rfl⟩ := List.getElem?_eq_some_iff.mp hlevel
  exact List.drop_eq_getElem_cons hi

/-- A clean fill, together with its cursor move, takes units from the rest of a
working list. -/
theorem drop_fill {clone : List Level} {i : ℕ} {level : Level} {q : ℚ}
    (hpositive : Positive (clone.drop i)) (hlevel : clone[i]? = some level)
    (hclean : CleanValue (level.2 - q)) :
    (clone.modify i (takeVolume q)).drop
      (if cleanResidual (level.2 - q) eps = 0 then i + 1 else i) =
        dropUnits (clone.drop i) q := by
  have hcons := drop_eq_cons hlevel
  rcases hclean with hzero | hleft
  · have hexhausted : cleanResidual (level.2 - q) eps = 0 := by
      rw [cleanResidual_eq_zero_iff, hzero, abs_zero]
      exact eps_pos
    have htail : Positive (clone.drop (i + 1)) := (hcons ▸ hpositive).tail
    rw [if_pos hexhausted, List.drop_modify_of_lt _ _ _ _ (Nat.lt_succ_self i), hcons]
    simp only [dropUnits, if_pos (sub_eq_zero.mp hzero).le]
    rw [sub_eq_zero.mp hzero, sub_self, htail.dropUnits_zero]
  · have hstays : ¬ cleanResidual (level.2 - q) eps = 0 := by
      rw [cleanResidual_eq_zero_iff, not_lt]
      exact le_abs.mpr (Or.inl hleft)
    have hlt : ¬ level.2 ≤ q := by linarith [eps_pos]
    rw [if_neg hstays, List.drop_modify_of_ge _ _ _ _ le_rfl, hcons, Nat.sub_self]
    simp only [dropUnits, if_neg hlt]
    rfl

/-- Pushing a fill from the next level of a list extends the orders of its first
units: separated prices are never merged. -/
theorem pushOrder_firstUnits {orders : List Level} (hpositive : Positive orders)
    (hapart : PricesApart orders) {x q : ℚ} (hx : 0 ≤ x) (hq : 0 < q) {level : Level}
    {rest : List Level} (hdrop : dropUnits orders x = level :: rest) (hle : q ≤ level.2) :
    pushOrder (asOrders (firstUnits orders x)) level.1 q =
      asOrders (firstUnits orders (x + q)) := by
  induction orders generalizing x with
  | nil => cases hdrop
  | cons first tail ih =>
    have hfirst := (hpositive first List.mem_cons_self).2
    by_cases hfull : first.2 ≤ x
    · have hsub : x + q - first.2 = x - first.2 + q := by ring
      simp only [dropUnits, if_pos hfull] at hdrop
      have hrest := ih hpositive.tail hapart.tail (sub_nonneg.mpr hfull) hdrop
      simp only [firstUnits, if_neg (not_le.mpr (hfirst.trans_le hfull)),
        if_neg (not_le.mpr (add_pos_of_nonneg_of_pos hx hq)), min_eq_left hfull,
        min_eq_left (hfull.trans (le_add_of_nonneg_right hq.le)), hsub]
      rcases (sub_nonneg.mpr hfull).eq_or_lt with hzero | hpos
      · rw [← hzero, hpositive.tail.dropUnits_zero] at hdrop
        subst hdrop
        have hnot : ¬ |first.1 - level.1| < f64Epsilon :=
          not_lt.mpr (List.isChain_cons_cons.mp hapart).1
        rw [← hzero, DepthCurve.firstUnits_of_nonpos le_rfl] at hrest ⊢
        simp only [asOrders, List.map_cons, List.map_nil, pushOrder, if_neg hnot] at hrest ⊢
        rw [hrest]
      · cases tail with
        | nil => cases hdrop
        | cons second more =>
          simp only [firstUnits, if_neg (not_le.mpr hpos), asOrders, List.map_cons,
            pushOrder] at hrest ⊢
          rw [hrest]
    · have hpart := not_le.mp hfull
      simp only [dropUnits, if_neg hfull, List.cons.injEq] at hdrop
      obtain ⟨rfl, rfl⟩ := hdrop
      have hwithin : x + q ≤ first.2 := by linarith
      simp only [firstUnits, if_neg (not_le.mpr (add_pos_of_nonneg_of_pos hx hq)),
        min_eq_right hwithin, DepthCurve.firstUnits_of_nonpos (sub_nonpos.mpr hwithin)]
      rcases hx.eq_or_lt with rfl | hxpos
      · simp [asOrders, pushOrder]
      · simp [asOrders, pushOrder, not_le.mpr hxpos, min_eq_right hpart.le,
          DepthCurve.firstUnits_of_nonpos (sub_nonpos.mpr hpart.le), f64Epsilon_pos]

/-- The entry as a matching: spot units cost their prices. -/
def entryMatching (request : EntryRequest) : DepthCurve.Matching ℚ where
  left := request.spotOrders
  right := request.futureOrders
  weight := fun price => price
  accepts := fun spotPrice futurePrice => request.percent ≤ entryDiff spotPrice futurePrice
  budget := request.amount

/-- The exit as a matching: every unit counts one towards the quantity to close. -/
def exitMatching (request : ExitRequest) : DepthCurve.Matching ℚ where
  left := request.spotOrders
  right := request.futureOrders
  weight := fun _ => 1
  accepts := fun spotPrice futurePrice => request.percent ≤ exitDiff spotPrice futurePrice
  budget := request.executed

/-- An entry can execute exactly the feasible quantities of its matching. -/
theorem entry_canExecute_iff {request : EntryRequest} {quantity : ℚ} :
    request.CanExecute quantity ↔ (entryMatching request).Feasible quantity :=
  ⟨fun h => ⟨h.nonneg, h.le_spot, h.le_future, h.cost_le, h.spread⟩,
    fun h => ⟨h.nonneg, h.le_left, h.le_right, h.cost_le, h.accepts⟩⟩

/-- An exit can execute exactly the feasible quantities of its matching. -/
theorem exit_canExecute_iff {request : ExitRequest} (h : request.Marginal) {quantity : ℚ} :
    request.CanExecute quantity ↔ (exitMatching request).Feasible quantity := by
  constructor
  · intro hq
    refine ⟨hq.nonneg, hq.le_spot, hq.le_future, ?_, hq.spread⟩
    exact (DepthCurve.cost_one h.spot hq.nonneg hq.le_spot).trans_le hq.le_executed
  · intro hq
    refine ⟨hq.nonneg, hq.le_left, hq.le_right, ?_, hq.accepts⟩
    exact (DepthCurve.cost_one h.spot hq.nonneg hq.le_left).symm.trans_le hq.cost_le

/-- The matching of an entry is regular. -/
theorem EntryRequest.Marginal.regular {request : EntryRequest} (h : request.Marginal) :
    (entryMatching request).Regular :=
  ⟨h.spot, h.future, fun level hlevel => (h.spot level hlevel).1⟩

/-- The matching of an exit is regular. -/
theorem ExitRequest.Marginal.regular {request : ExitRequest} (h : request.Marginal) :
    (exitMatching request).Regular :=
  ⟨h.spot, h.future, fun _ _ => one_pos⟩

/-- The variables of the entry loop are those of its matching after `qty` units. -/
structure EntryMatched (request : EntryRequest) (s : EntryState) : Prop where
  matched : (entryMatching request).Matched s.qty (s.spotClone.drop s.i)
    (s.futureClone.drop s.j) s.available
  spotResults : s.spotResults = asOrders (firstUnits request.spotOrders s.qty)
  futureResults : s.futureResults = asOrders (firstUnits request.futureOrders s.qty)
  qty : CleanValue s.qty

/-- The variables of the exit loop are those of its matching, after the units that
were closed. -/
structure ExitMatched (request : ExitRequest) (s : ExitState) : Prop where
  matched : (exitMatching request).Matched (request.executed - s.available)
    (s.spotClone.drop s.i) (s.futureClone.drop s.j) s.available
  spotResults : s.spotResults =
    asOrders (firstUnits request.spotOrders (request.executed - s.available))
  futureResults : s.futureResults =
    asOrders (firstUnits request.futureOrders (request.executed - s.available))

/-- What is left of a list of a matching is positive. -/
theorem positive_drop {orders clone : List Level} {i : ℕ} {x : ℚ} (h : Positive orders)
    (hx : 0 ≤ x) (hdrop : clone.drop i = dropUnits orders x) : Positive (clone.drop i) := by
  rw [hdrop]
  exact h.dropUnits hx

/-- The entry loop starts as its matching does. -/
theorem entryMatched_start {request : EntryRequest} (h : request.Marginal) :
    EntryMatched request (entryStart request) := by
  have hzero : (entryStart request).qty = 0 := rfl
  refine ⟨h.regular.start, ?_, ?_, Or.inl hzero⟩
  · rw [hzero, DepthCurve.firstUnits_of_nonpos le_rfl]
    rfl
  · rw [hzero, DepthCurve.firstUnits_of_nonpos le_rfl]
    rfl

/-- The exit loop starts as its matching does. -/
theorem exitMatched_start {request : ExitRequest} (h : request.Marginal) :
    ExitMatched request (exitStart request) := by
  have hzero : request.executed - (exitStart request).available = 0 := sub_self _
  refine ⟨?_, ?_, ?_⟩
  · rw [hzero]
    exact h.regular.start
  · rw [hzero, DepthCurve.firstUnits_of_nonpos le_rfl]
    rfl
  · rw [hzero, DepthCurve.firstUnits_of_nonpos le_rfl]
    rfl

/-- The levels under the cursors of an entry are positive. -/
theorem EntryMatched.levels_pos {request : EntryRequest} {s : EntryState} {spot future : Level}
    (h : request.Marginal) (hmatched : EntryMatched request s)
    (hspot : s.spotClone[s.i]? = some spot) (hfuture : s.futureClone[s.j]? = some future) :
    (0 < spot.1 ∧ 0 < spot.2) ∧ 0 < future.1 ∧ 0 < future.2 :=
  ⟨head_pos (positive_drop h.spot hmatched.matched.nonneg hmatched.matched.left_eq) hspot,
    head_pos (positive_drop h.future hmatched.matched.nonneg hmatched.matched.right_eq) hfuture⟩

/-- The levels under the cursors of an exit are positive. -/
theorem ExitMatched.levels_pos {request : ExitRequest} {s : ExitState} {spot future : Level}
    (h : request.Marginal) (hmatched : ExitMatched request s)
    (hspot : s.spotClone[s.i]? = some spot) (hfuture : s.futureClone[s.j]? = some future) :
    (0 < spot.1 ∧ 0 < spot.2) ∧ 0 < future.1 ∧ 0 < future.2 :=
  ⟨head_pos (positive_drop h.spot hmatched.matched.nonneg hmatched.matched.left_eq) hspot,
    head_pos (positive_drop h.future hmatched.matched.nonneg hmatched.matched.right_eq) hfuture⟩

/-- The entry fill at positive levels is positive. -/
theorem entryQty_pos {request : EntryRequest} {s : EntryState} {spot future : Level}
    (hsize : request.contractSize = 1) (hbudget : eps ≤ s.available)
    (hspot : 0 < spot.1 ∧ 0 < spot.2) (hfuture : 0 < future.2) :
    0 < entryQty request s spot future := by
  have heps := eps_pos
  apply lt_min (lt_min (div_pos (heps.trans_le hbudget) hspot.1) hspot.2)
  rwa [hsize, mul_one]

/-- The exit fill at positive levels is positive. -/
theorem exitQty_pos {request : ExitRequest} {s : ExitState} {spot future : Level}
    (hsize : request.contractSize = 1) (hbudget : eps ≤ s.available) (hspot : 0 < spot.2)
    (hfuture : 0 < future.2) : 0 < exitQty request s spot future := by
  have heps := eps_pos
  apply lt_min (lt_min (heps.trans_le hbudget) hspot)
  rwa [hsize, mul_one]

/-- A clean fill under the cursors, together with their moves, continues a matching of what is
left of two working lists. -/
theorem matched_fill_cursors {M : DepthCurve.Matching ℚ} (hM : M.Regular)
    {units available q : ℚ} {left right : List Level} {i j : ℕ} {spot future : Level}
    (h : M.Matched units (left.drop i) (right.drop j) available)
    (hspot : left[i]? = some spot) (hfuture : right[j]? = some future) (hq : 0 < q)
    (hqspot : q ≤ spot.2) (hqfuture : q ≤ future.2) (hspotRest : CleanValue (spot.2 - q))
    (hfutureRest : CleanValue (future.2 - q)) (haccepts : M.accepts spot.1 future.1) :
    M.Matched (units + q)
      ((left.modify i (takeVolume q)).drop
        (if cleanResidual (spot.2 - q) eps = 0 then i + 1 else i))
      ((right.modify j (takeVolume q)).drop
        (if cleanResidual (future.2 - q) eps = 0 then j + 1 else j))
      (available - M.weight spot.1 * q) := by
  rw [drop_fill (positive_drop hM.left h.nonneg h.left_eq) hspot hspotRest,
    drop_fill (positive_drop hM.right h.nonneg h.right_eq) hfuture hfutureRest]
  rw [drop_eq_cons hspot, drop_eq_cons hfuture] at h ⊢
  exact h.fill hM hq hqspot hqfuture haccepts

/-- A clean entry iteration is a fill of the matching. -/
theorem EntryMatched.step {request : EntryRequest} {s t : EntryState} (h : request.Marginal)
    (hclean : EntryClean request s) (hmatched : EntryMatched request s)
    (hstep : entryStep request s = some t) : EntryMatched request t := by
  obtain ⟨spot, future, hiter⟩ := entryStep_eq_some_iff.mp hstep
  obtain ⟨hspot, hfuture⟩ := hmatched.levels_pos h hiter.spot_level hiter.future_level
  have hq := entryQty_pos h.contractSize hiter.budget hspot hfuture.2
  have hqspot := entryQty_le_spot request s spot future
  have hqfuture := entryQty_le_future request s spot future
  rw [h.contractSize, mul_one] at hqfuture
  obtain ⟨hspotRest, hfutureRest⟩ := hclean.rest t spot future hiter
  have hnonneg := hmatched.matched.nonneg
  have hleft := hmatched.matched.left_eq
  have hright := hmatched.matched.right_eq
  rw [drop_eq_cons hiter.spot_level] at hleft
  rw [drop_eq_cons hiter.future_level] at hright
  have hfill := matched_fill_cursors h.regular hmatched.matched hiter.spot_level
    hiter.future_level hq hqspot hqfuture hspotRest hfutureRest hiter.diff_percent
  rw [hiter.next]
  refine ⟨?_, ?_, ?_, Or.inr ?_⟩
  · exact hfill
  · simp only [entryFill, hmatched.spotResults]
    exact pushOrder_firstUnits h.spot h.spot_apart hnonneg hq hleft.symm hqspot
  · simp only [entryFill, hmatched.futureResults]
    exact pushOrder_firstUnits h.future h.future_apart hnonneg hq hright.symm hqfuture
  · have hle := hiter.qty_clean
    rw [abs_of_pos hq] at hle
    simp only [entryFill]
    linarith

/-- A clean exit iteration is a fill of the matching. -/
theorem ExitMatched.step {request : ExitRequest} {s t : ExitState} (h : request.Marginal)
    (hclean : ExitClean request s) (hmatched : ExitMatched request s)
    (hstep : exitStep request s = some t) : ExitMatched request t := by
  obtain ⟨spot, future, hiter⟩ := exitStep_eq_some_iff.mp hstep
  obtain ⟨hspot, hfuture⟩ := hmatched.levels_pos h hiter.spot_level hiter.future_level
  have hq := exitQty_pos h.contractSize hiter.budget hspot.2 hfuture.2
  have hqspot := exitQty_le_spot request s spot future
  have hqfuture := exitQty_le_future request s spot future
  rw [h.contractSize, mul_one] at hqfuture
  obtain ⟨hspotRest, hfutureRest⟩ := hclean.rest t spot future hiter
  rw [exitRest_of_pos hq] at hspotRest hfutureRest
  have hnonneg := hmatched.matched.nonneg
  have hleft := hmatched.matched.left_eq
  have hright := hmatched.matched.right_eq
  rw [drop_eq_cons hiter.spot_level] at hleft
  rw [drop_eq_cons hiter.future_level] at hright
  have hfill := matched_fill_cursors h.regular hmatched.matched hiter.spot_level
    hiter.future_level hq hqspot hqfuture hspotRest hfutureRest hiter.diff_percent
  have hnext : t = exitFill s spot future (exitQty request s spot future) := hiter.next
  have hclosed : request.executed - t.available =
      request.executed - s.available + exitQty request s spot future := by
    rw [hnext]
    simp only [exitFill]
    ring
  have hfunctions : exitRest (exitQty request s spot future) =
      takeVolume (exitQty request s spot future) := funext (exitRest_of_pos hq)
  refine ⟨?_, ?_, ?_⟩
  · have hweight : (exitMatching request).weight spot.1 * exitQty request s spot future =
        exitQty request s spot future := one_mul _
    rw [hweight] at hfill
    rw [hclosed, hnext]
    simp only [exitFill, hfunctions]
    exact hfill
  · rw [hclosed, hnext]
    simp only [exitFill, hmatched.spotResults]
    exact pushOrder_firstUnits h.spot h.spot_apart hnonneg hq hleft.symm hqspot
  · rw [hclosed, hnext]
    simp only [exitFill, hmatched.futureResults]
    exact pushOrder_firstUnits h.future h.future_apart hnonneg hq hright.symm hqfuture

/-- Every state on a clean path of the entry loop is a state of its matching. -/
theorem entryMatched_of_path {request : EntryRequest} {visited : List EntryState}
    {s : EntryState} (h : request.Marginal) (hclean : (ArbitrageRequest.entry request).CleanRun)
    (hpath : WhileLoop.Path (entryStep request) (entryStart request) visited s) :
    EntryMatched request s := by
  refine hpath.invariant_visited (entryMatched_start h) fun u hu v hmatched hstep => ?_
  obtain ⟨earlier, _, _, _, hearlier, _, _⟩ := hpath.split hu
  exact hmatched.step h (hclean earlier u hearlier) hstep

/-- Every state on a clean path of the exit loop is a state of its matching. -/
theorem exitMatched_of_path {request : ExitRequest} {visited : List ExitState} {s : ExitState}
    (h : request.Marginal) (hclean : (ArbitrageRequest.exit request).CleanRun)
    (hpath : WhileLoop.Path (exitStep request) (exitStart request) visited s) :
    ExitMatched request s := by
  refine hpath.invariant_visited (exitMatched_start h) fun u hu v hmatched hstep => ?_
  obtain ⟨earlier, _, _, _, hearlier, _, _⟩ := hpath.split hu
  exact hmatched.step h (hclean earlier u hearlier) hstep

/-- A matching of two working lists is stopped when it cannot go on with the levels under the
cursors. -/
theorem stopped_of_levels {M : DepthCurve.Matching ℚ} {left right : List Level} {i j : ℕ}
    {available : ℚ} (h : ∀ spot future, left[i]? = some spot → right[j]? = some future →
      available ≠ 0 → ¬ M.accepts spot.1 future.1) :
    left.drop i = [] ∨ right.drop j = [] ∨ available = 0 ∨
      ∃ spot future, (left.drop i).head? = some spot ∧ (right.drop j).head? = some future ∧
        ¬ M.accepts spot.1 future.1 := by
  cases hspot : left[i]? with
  | none => exact Or.inl (List.drop_eq_nil_of_le (List.getElem?_eq_none_iff.mp hspot))
  | some spot =>
    cases hfuture : right[j]? with
    | none =>
      exact Or.inr (Or.inl (List.drop_eq_nil_of_le (List.getElem?_eq_none_iff.mp hfuture)))
    | some future =>
      by_cases havailable : available = 0
      · exact Or.inr (Or.inr (Or.inl havailable))
      · right; right; right
        refine ⟨spot, future, ?_, ?_, h spot future hspot hfuture havailable⟩
        · rw [List.head?_drop, hspot]
        · rw [List.head?_drop, hfuture]

/-- An entry loop that is left has stopped its matching. -/
theorem EntryMatched.stopped {request : EntryRequest} {s : EntryState} (h : request.Marginal)
    (hclean : EntryClean request s) (hmatched : EntryMatched request s)
    (hend : entryStep request s = none) :
    s.spotClone.drop s.i = [] ∨ s.futureClone.drop s.j = [] ∨ s.available = 0 ∨
      ∃ spot future, (s.spotClone.drop s.i).head? = some spot ∧
        (s.futureClone.drop s.j).head? = some future ∧
          ¬ (entryMatching request).accepts spot.1 future.1 := by
  refine stopped_of_levels fun spot future hspot hfuture havailable haccepts => ?_
  have hbudget := hclean.available.eps_le havailable
  have hpercent : request.percent ≤ entryDiff spot.1 future.1 := haccepts
  obtain ⟨hspotPos, hfuturePos⟩ := hmatched.levels_pos h hspot hfuture
  have hq := entryQty_pos h.contractSize hbudget hspotPos hfuturePos.2
  have hle := (hclean.fill spot future hspot hfuture hbudget hpercent).eps_le hq.ne'
  have hiter : EntryIteration request s
      (entryFill request s spot future (entryQty request s spot future)) spot future :=
    ⟨hspot, hfuture, hbudget, le_abs.mpr (Or.inl (h.percent.trans hpercent)), hpercent,
      le_abs.mpr (Or.inl hle), rfl⟩
  exact Option.some_ne_none _ ((entryStep_eq_some_iff.mpr ⟨_, _, hiter⟩).symm.trans hend)

/-- An exit loop that is left has stopped its matching. -/
theorem exit_stopped {request : ExitRequest} {s : ExitState}
    (hclean : ExitClean request s) (hend : exitStep request s = none) :
    s.spotClone.drop s.i = [] ∨ s.futureClone.drop s.j = [] ∨ s.available = 0 ∨
      ∃ spot future, (s.spotClone.drop s.i).head? = some spot ∧
        (s.futureClone.drop s.j).head? = some future ∧
          ¬ (exitMatching request).accepts spot.1 future.1 := by
  refine stopped_of_levels fun spot future hspot hfuture havailable haccepts => ?_
  have hiter : ExitIteration request s
      (exitFill s spot future (exitQty request s spot future)) spot future :=
    ⟨hspot, hfuture, hclean.available.eps_le havailable, haccepts, rfl⟩
  exact Option.some_ne_none _ ((exitStep_eq_some_iff.mpr ⟨_, _, hiter⟩).symm.trans hend)

/-- A clean entry in single units ends. -/
theorem entry_halts {request : EntryRequest} (h : request.Marginal)
    (hclean : (ArbitrageRequest.entry request).CleanRun) :
    WhileLoop.Halts (entryStep request) (entryStart request) := by
  by_contra hforever
  have hamount : 0 ≤ request.amount := (hclean [] _ (.nil _)).available.nonneg
  have hsize := h.contractSize
  have hwf : request.WellFormed := ⟨offersLevels_of_positive h.spot,
    offersLevels_of_positive h.future, hamount, by rw [hsize]; exact one_pos⟩
  obtain ⟨_, _, _, _, _, htrap⟩ := exists_entryTrap hwf hforever
  rw [htrap.contractSize] at hsize
  norm_num at hsize

/-- A clean exit in single units ends. -/
theorem exit_halts {request : ExitRequest} (h : request.Marginal)
    (hclean : (ArbitrageRequest.exit request).CleanRun) :
    WhileLoop.Halts (exitStep request) (exitStart request) := by
  by_contra hforever
  have hexecuted : 0 ≤ request.executed := (hclean [] _ (.nil _)).available.nonneg
  have hwf : request.WellFormed := ⟨offersLevels_of_positive h.spot,
    offersLevels_of_positive h.future, hexecuted, by rw [h.contractSize]; exact one_pos⟩
  obtain ⟨_, _, _, _, hpath, htrap⟩ := exists_exitTrap hwf hforever
  have hmatched := exitMatched_of_path h hclean hpath
  have hpos := (hmatched.levels_pos h htrap.spot_level htrap.future_level).2.2
  linarith [htrap.future_left, eps_pos]

/-- The result of a clean entry is the greatest plan. -/
theorem entryResult_greatest {request : EntryRequest} {visited : List EntryState}
    {s : EntryState} (h : request.Marginal) (hclean : (ArbitrageRequest.entry request).CleanRun)
    (hends : WhileLoop.Ends (entryStep request) (entryStart request) visited s) :
    (ArbitrageRequest.entry request).GreatestPlan (.entry (entryResult request s)) := by
  have hmatched := entryMatched_of_path h hclean hends.1
  have hstate := hclean visited s hends.1
  have hgreatest := hmatched.matched.isGreatest h.regular hstate.available.nonneg
    (hmatched.stopped h hstate hends.2)
  simp only [← entry_canExecute_iff] at hgreatest
  rcases hmatched.qty with hzero | hqty
  · have hempty : cleanResidual s.qty eps = 0 := by
      rw [cleanResidual_eq_zero_iff, hzero, abs_zero]
      exact eps_pos
    rw [hzero] at hgreatest
    simp only [ArbitrageRequest.GreatestPlan, entryResult, if_pos hempty,
      DepthCurve.firstUnits_of_nonpos le_rfl]
    exact ⟨hgreatest, rfl, rfl⟩
  · have hfilled : ¬ cleanResidual s.qty eps = 0 := by
      rw [cleanResidual_eq_zero_iff, not_lt]
      exact le_abs.mpr (Or.inl hqty)
    simp only [ArbitrageRequest.GreatestPlan, entryResult, if_neg hfilled]
    exact ⟨hgreatest, hmatched.spotResults, hmatched.futureResults⟩

/-- The result of a clean exit is the greatest plan. -/
theorem exitResult_greatest {request : ExitRequest} {visited : List ExitState} {s : ExitState}
    (h : request.Marginal) (hclean : (ArbitrageRequest.exit request).CleanRun)
    (hends : WhileLoop.Ends (exitStep request) (exitStart request) visited s) :
    (ArbitrageRequest.exit request).GreatestPlan (.exit (exitResult request s)) := by
  have hmatched := exitMatched_of_path h hclean hends.1
  have hstate := hclean visited s hends.1
  have hgreatest := hmatched.matched.isGreatest h.regular hstate.available.nonneg
    (exit_stopped hstate hends.2)
  simp only [← exit_canExecute_iff h] at hgreatest
  exact ⟨hgreatest, hmatched.spotResults, hmatched.futureResults⟩

/-- A clean planner run in single units ends, and its plan executes the greatest
quantity that the marginal curves of the two lists allow. -/
theorem doArbitrage_marginal (request : ArbitrageRequest) (h : request.Marginal)
    (hclean : request.CleanRun) :
    (∃ fuel, (doArbitrage fuel request).isSome) ∧
      ∀ fuel result, doArbitrage fuel request = some result → request.GreatestPlan result := by
  cases request with
  | entry r =>
    refine ⟨(doArbitrage_isSome_iff _).mpr (entry_halts h hclean), fun fuel result hresult => ?_⟩
    simp only [doArbitrage, doEntryArbitrage, Option.map_map, Option.map_eq_some_iff] at hresult
    obtain ⟨s, hrun, rfl⟩ := hresult
    obtain ⟨visited, hends⟩ := WhileLoop.ends_of_run hrun
    exact entryResult_greatest h hclean hends
  | exit r =>
    refine ⟨(doArbitrage_isSome_iff _).mpr (exit_halts h hclean), fun fuel result hresult => ?_⟩
    simp only [doArbitrage, doExitArbitrage, Option.map_map, Option.map_eq_some_iff] at hresult
    obtain ⟨s, hrun, rfl⟩ := hresult
    obtain ⟨visited, hends⟩ := WhileLoop.ends_of_run hrun
    exact exitResult_greatest h hclean hends

/-- Whether a value is clean is computed. -/
instance (value : ℚ) : Decidable (CleanValue value) := inferInstanceAs (Decidable (_ ∨ _))

/-- No residual is met at the levels of a state, whether or not an iteration is executed. -/
def CleanLevels (request : EntryRequest) (s : EntryState) : Prop :=
  CleanValue s.available ∧ ∀ spot ∈ s.spotClone[s.i]?, ∀ future ∈ s.futureClone[s.j]?,
    CleanValue (entryQty request s spot future) ∧
      CleanValue (spot.2 - entryQty request s spot future) ∧
        CleanValue (future.2 - entryQty request s spot future)

/-- Whether the levels of a state are clean is computed. -/
instance (request : EntryRequest) : DecidablePred (CleanLevels request) :=
  fun s => inferInstanceAs (Decidable (CleanValue s.available ∧
    ∀ spot ∈ s.spotClone[s.i]?, ∀ future ∈ s.futureClone[s.j]?, _ ∧ _ ∧ _))

/-- A state whose levels are clean is clean. -/
theorem CleanLevels.entryClean {request : EntryRequest} {s : EntryState}
    (h : CleanLevels request s) : EntryClean request s where
  available := h.1
  fill spot future hspot hfuture _ _ := (h.2 spot hspot future hfuture).1
  rest _ spot future hiter := (h.2 spot hiter.spot_level future hiter.future_level).2

/-- An entry on two levels of each book, in three fills. -/
def threeFillEntry : EntryRequest where
  spotOrders := [(100, 2), (101, 2)]
  futureOrders := [(110, 1), (108, 2)]
  amount := 1000
  marginQuantityPercent := 1
  percent := 1
  contractSize := 1

/-- The fills of this entry meet no residual, so its plan is the greatest. -/
theorem threeFillEntry_marginal : (ArbitrageRequest.entry threeFillEntry).Marginal ∧
    (ArbitrageRequest.entry threeFillEntry).CleanRun ∧
      (∃ fuel, (doArbitrage fuel (.entry threeFillEntry)).isSome) ∧
        ∀ fuel result, doArbitrage fuel (.entry threeFillEntry) = some result →
          (ArbitrageRequest.entry threeFillEntry).GreatestPlan result := by
  have hmarginal : (ArbitrageRequest.entry threeFillEntry).Marginal := by
    constructor <;> norm_num [threeFillEntry, Positive, PricesApart, eps, f64Epsilon]
  have hstates : WhileLoop.StatesSatisfy (entryStep threeFillEntry) (CleanLevels threeFillEntry)
      3 (entryStart threeFillEntry) := by decide +kernel
  have hclean : (ArbitrageRequest.entry threeFillEntry).CleanRun :=
    fun _ _ hpath => (hstates.of_path hpath).entryClean
  exact ⟨hmarginal, hclean, doArbitrage_marginal (.entry threeFillEntry) hmarginal hclean⟩

end Arbexpert.Arbitrage
