import Arbexpert.Arbitrage.Termination

/-!
# What a plan takes from the books

The remainder of a futures level is kept in contracts, while the fills taken from
it are in base units. A level of volume `v` whose remainder is `r` has given
`v - r` base units and can still give `v * c - (v - r)`; the code bounds the next
fill by `r * c` instead. Both agree when a contract is one base unit, and at a level
that nothing has been taken from. So a plan stays within the books when no futures
level is met twice, and for no contract size other than one does every plan.
-/

namespace Arbexpert.Arbitrage

/-- The quantity filled by the entry iteration that starts in `s`. -/
def entryFillAt (request : EntryRequest) (s : EntryState) : ℚ :=
  match s.spotClone[s.i]?, s.futureClone[s.j]? with
  | some spot, some future => entryQty request s spot future
  | _, _ => 0

/-- The quantity filled by the exit iteration that starts in `s`. -/
def exitFillAt (request : ExitRequest) (s : ExitState) : ℚ :=
  match s.spotClone[s.i]?, s.futureClone[s.j]? with
  | some spot, some future => exitQty request s spot future
  | _, _ => 0

/-- The iterations `visited` of an entry that was left in `s` took from each level,
and from the budget, at most what they offer. -/
structure EntryWithinBooks (request : EntryRequest) (visited : List EntryState)
    (s : EntryState) : Prop where
  spot : ∀ (k : ℕ) (level : Level), request.spotOrders[k]? = some level →
    0 ≤ WhileLoop.drawnAt EntryState.i (entryFillAt request) visited k ∧
      WhileLoop.drawnAt EntryState.i (entryFillAt request) visited k ≤ level.2
  future : ∀ (k : ℕ) (level : Level), request.futureOrders[k]? = some level →
    0 ≤ WhileLoop.drawnAt EntryState.j (entryFillAt request) visited k ∧
      WhileLoop.drawnAt EntryState.j (entryFillAt request) visited k ≤
        level.2 * request.contractSize
  budget : s.totalSpot ≤ request.amount

/-- The iterations `visited` of an exit that was left in `s` took from each level at
most what it offers, and closed between nothing and the requested quantity. -/
structure ExitWithinBooks (request : ExitRequest) (visited : List ExitState)
    (s : ExitState) : Prop where
  spot : ∀ (k : ℕ) (level : Level), request.spotOrders[k]? = some level →
    0 ≤ WhileLoop.drawnAt ExitState.i (exitFillAt request) visited k ∧
      WhileLoop.drawnAt ExitState.i (exitFillAt request) visited k ≤ level.2
  future : ∀ (k : ℕ) (level : Level), request.futureOrders[k]? = some level →
    0 ≤ WhileLoop.drawnAt ExitState.j (exitFillAt request) visited k ∧
      WhileLoop.drawnAt ExitState.j (exitFillAt request) visited k ≤
        level.2 * request.contractSize
  executed_nonneg : 0 ≤ (exitResult request s).executed
  executed_le : (exitResult request s).executed ≤ request.executed

/-- When the loop of the planner ends, its plan is within the books. -/
def ArbitrageRequest.WithinBooks : ArbitrageRequest → Prop
  | .entry request => ∀ visited s,
      WhileLoop.Ends (entryStep request) (entryStart request) visited s →
        EntryWithinBooks request visited s
  | .exit request => ∀ visited s,
      WhileLoop.Ends (exitStep request) (exitStart request) visited s →
        ExitWithinBooks request visited s

/-- The number of base units in one contract. -/
def ArbitrageRequest.contractSize : ArbitrageRequest → ℚ
  | .entry request => request.contractSize
  | .exit request => request.contractSize

/-- No two iterations of the planner's loop meet the same futures level. -/
def ArbitrageRequest.MeetsLevelsOnce : ArbitrageRequest → Prop
  | .entry request => ∀ visited s,
      WhileLoop.Ends (entryStep request) (entryStart request) visited s →
        (visited.map EntryState.j).Nodup
  | .exit request => ∀ visited s,
      WhileLoop.Ends (exitStep request) (exitStart request) visited s →
        (visited.map ExitState.j).Nodup

/-- A futures level of volume `volume`, whose remainder is not negative, can still give
the quantity of a fill. -/
def CanGive (contractSize volume remainder qty : ℚ) : Prop :=
  0 ≤ remainder ∧ qty ≤ volume * contractSize - (volume - remainder)

/-- With one base unit a contract, a level can give what the code takes from it. -/
theorem canGive_unit {volume remainder qty : ℚ} (h : 0 ≤ remainder)
    (hqty : qty ≤ remainder * 1) : CanGive 1 volume remainder qty :=
  ⟨h, by linarith⟩

/-- A level that nothing was taken from can give what the code takes from it. -/
theorem canGive_untouched {contractSize volume remainder qty : ℚ} (h : 0 ≤ volume)
    (hsame : remainder = volume) (hqty : qty ≤ remainder * contractSize) :
    CanGive contractSize volume remainder qty := by
  subst hsame
  exact ⟨h, by linarith⟩

/-- The volume at an index of a working list. -/
def volumeAt (clone : List Level) (k : ℕ) : Option ℚ := (clone[k]?).map Prod.snd

/-- Taking `q` from one level takes `q` from its remainder only. -/
theorem rest_modify {clone : List Level} {f : Level → Level} {q : ℚ}
    (hf : ∀ level, (f level).2 = level.2 - q) (i k : ℕ) :
    volumeAt (clone.modify i f) k =
      (volumeAt clone k).map fun x => if i = k then x - q else x := by
  unfold volumeAt
  rw [List.getElem?_modify]
  cases clone[k]? with
  | none => rfl
  | some level =>
    by_cases hk : i = k
    · simp [hk, hf]
    · simp [hk]

/-- An entry iteration fills the least bound of its two levels. -/
theorem EntryIteration.fillAt {request : EntryRequest} {s t : EntryState} {spot future : Level}
    (h : EntryIteration request s t spot future) :
    entryFillAt request s = entryQty request s spot future := by
  simp only [entryFillAt, h.spot_level, h.future_level]

/-- An exit iteration fills the least bound of its two levels. -/
theorem ExitIteration.fillAt {request : ExitRequest} {s t : ExitState} {spot future : Level}
    (h : ExitIteration request s t spot future) :
    exitFillAt request s = exitQty request s spot future := by
  simp only [exitFillAt, h.spot_level, h.future_level]

/-- What an entry took from a spot level is the difference of its volumes. -/
theorem entry_spot_rest {request : EntryRequest} {s t : EntryState} {visited : List EntryState}
    (hpath : WhileLoop.Path (entryStep request) s visited t) (k : ℕ) :
    volumeAt t.spotClone k = (volumeAt s.spotClone k).map fun x =>
      x - WhileLoop.drawnAt EntryState.i (entryFillAt request) visited k := by
  refine hpath.rest_eq (r := fun u : EntryState => volumeAt u.spotClone)
    (fun u _ v hstep k => ?_) k
  obtain ⟨spot, future, hiter⟩ := entryStep_eq_some_iff.mp hstep
  rw [hiter.next, hiter.fillAt]
  exact rest_modify (fun _ => rfl) u.i k

/-- What an entry took from a futures level is the difference of its remainders. -/
theorem entry_future_rest {request : EntryRequest} {s t : EntryState}
    {visited : List EntryState} (hpath : WhileLoop.Path (entryStep request) s visited t) (k : ℕ) :
    volumeAt t.futureClone k = (volumeAt s.futureClone k).map fun x =>
      x - WhileLoop.drawnAt EntryState.j (entryFillAt request) visited k := by
  refine hpath.rest_eq (r := fun u : EntryState => volumeAt u.futureClone)
    (fun u _ v hstep k => ?_) k
  obtain ⟨spot, future, hiter⟩ := entryStep_eq_some_iff.mp hstep
  rw [hiter.next, hiter.fillAt]
  exact rest_modify (fun _ => rfl) u.j k

/-- The positive fills of an exit at a spot level are the difference of its volumes. -/
theorem exit_spot_rest {request : ExitRequest} {s t : ExitState} {visited : List ExitState}
    (hpath : WhileLoop.Path (exitStep request) s visited t) (k : ℕ) :
    volumeAt t.spotClone k = (volumeAt s.spotClone k).map fun x =>
      x - WhileLoop.drawnAt ExitState.i (fun u => max (exitFillAt request u) 0) visited k := by
  refine hpath.rest_eq (r := fun u : ExitState => volumeAt u.spotClone)
    (fun u _ v hstep k => ?_) k
  obtain ⟨spot, future, hiter⟩ := exitStep_eq_some_iff.mp hstep
  rw [hiter.next, hiter.fillAt]
  exact rest_modify (exitRest_snd _) u.i k

/-- The positive fills of an exit at a futures level are the difference of its
remainders. -/
theorem exit_future_rest {request : ExitRequest} {s t : ExitState} {visited : List ExitState}
    (hpath : WhileLoop.Path (exitStep request) s visited t) (k : ℕ) :
    volumeAt t.futureClone k = (volumeAt s.futureClone k).map fun x =>
      x - WhileLoop.drawnAt ExitState.j (fun u => max (exitFillAt request u) 0) visited k := by
  refine hpath.rest_eq (r := fun u : ExitState => volumeAt u.futureClone)
    (fun u _ v hstep k => ?_) k
  obtain ⟨spot, future, hiter⟩ := exitStep_eq_some_iff.mp hstep
  rw [hiter.next, hiter.fillAt]
  exact rest_modify (exitRest_snd _) u.j k

/-- The level of a working list at an index of the request's list. -/
theorem exists_level {orders clone : List Level} {k : ℕ} {original : Level}
    (hprices : clone.map Prod.fst = orders.map Prod.fst)
    (horiginal : orders[k]? = some original) : ∃ level, clone[k]? = some level := by
  obtain ⟨level, hlevel, _⟩ := price_of_getElem? hprices.symm horiginal
  exact ⟨level, hlevel⟩

/-- The total drawn from one level, read off the level before and after. -/
theorem drawn_eq {orders clone : List Level} {k : ℕ} {original level : Level} {drawn : ℚ}
    (hrest : volumeAt clone k = (volumeAt orders k).map fun x => x - drawn)
    (horiginal : orders[k]? = some original) (hlevel : clone[k]? = some level) :
    drawn = original.2 - level.2 := by
  unfold volumeAt at hrest
  rw [horiginal, hlevel] at hrest
  have h : level.2 = original.2 - drawn := Option.some.inj hrest
  rw [h, sub_sub_cancel]

/-- What the futures levels of a working list gave is within their size in base
units. -/
def GivesWithin (contractSize : ℚ) (orders clone : List Level) : Prop :=
  ∀ (k : ℕ) (original level : Level), orders[k]? = some original → clone[k]? = some level →
    original.2 - level.2 ≤ original.2 * contractSize

/-- Untouched levels gave nothing. -/
theorem givesWithin_self {contractSize : ℚ} {orders : List Level} (hoffers : OffersLevels orders)
    (hsize : 0 < contractSize) : GivesWithin contractSize orders orders := by
  intro k original level horiginal hlevel
  cases Option.some.inj (horiginal.symm.trans hlevel)
  rw [sub_self]
  exact mul_nonneg (hoffers original (List.mem_of_getElem? horiginal)).2 hsize.le

/-- A fill that fits keeps the futures levels within their sizes. -/
theorem GivesWithin.modify {contractSize q : ℚ} {orders clone : List Level} {j : ℕ}
    {f : Level → Level} (h : GivesWithin contractSize orders clone)
    (hf : ∀ level, (f level).2 = level.2 - q)
    (hfit : ∀ original level, orders[j]? = some original → clone[j]? = some level →
      q ≤ original.2 * contractSize - (original.2 - level.2)) :
    GivesWithin contractSize orders (clone.modify j f) := by
  intro k original level horiginal hlevel
  rw [List.getElem?_modify] at hlevel
  obtain ⟨old, hold, rfl⟩ := Option.map_eq_some_iff.mp hlevel
  split
  · rename_i hjk
    subst hjk
    have := hfit original old horiginal hold
    rw [hf]
    linarith
  · exact h k original old horiginal hold

/-- The least of three bounds that are not negative is not negative. -/
theorem entryQty_nonneg {request : EntryRequest} {s : EntryState} {spot future : Level}
    (h : request.WellFormed) (hprice : 0 < spot.1) (havailable : 0 ≤ s.available)
    (hspot : 0 ≤ spot.2) (hfuture : 0 ≤ future.2) : 0 ≤ entryQty request s spot future :=
  le_min (le_min (div_nonneg havailable hprice.le) hspot)
    (mul_nonneg hfuture h.contractSize.le)

/-- Every futures level that an entry meets can give its fill. -/
def EntryFits (request : EntryRequest) : Prop :=
  ∀ visited s t spot future original,
    WhileLoop.Path (entryStep request) (entryStart request) visited s →
    EntryIteration request s t spot future → request.futureOrders[s.j]? = some original →
      CanGive request.contractSize original.2 future.2 (entryQty request s spot future)

/-- Every futures level that an exit meets can give its fill. -/
def ExitFits (request : ExitRequest) : Prop :=
  ∀ visited s t spot future original,
    WhileLoop.Path (exitStep request) (exitStart request) visited s →
    ExitIteration request s t spot future → request.futureOrders[s.j]? = some original →
      CanGive request.contractSize original.2 future.2 (exitQty request s spot future)

/-- The fill of an entry iteration that fits is not negative. -/
theorem EntryIteration.fill_nonneg {request : EntryRequest} {visited : List EntryState}
    {s t : EntryState} {spot future : Level} (h : request.WellFormed) (hfits : EntryFits request)
    (hpath : WhileLoop.Path (entryStep request) (entryStart request) visited s)
    (hiter : EntryIteration request s t spot future) : 0 ≤ entryQty request s spot future := by
  have hinv := entryInvariant_of_path h hpath
  obtain ⟨original, horiginal, _⟩ := price_of_getElem? hinv.future_prices hiter.future_level
  exact entryQty_nonneg h (hinv.spot_price h hiter.spot_level) hinv.available
    (hinv.spot_left _ _ hiter.spot_level) (hfits _ _ _ _ _ _ hpath hiter horiginal).1

/-- The budget of an entry pays for its spot fills. -/
theorem entry_budget {request : EntryRequest} {visited : List EntryState} {s : EntryState}
    (hpath : WhileLoop.Path (entryStep request) (entryStart request) visited s) :
    s.totalSpot + s.available = request.amount := by
  refine hpath.invariant (I := fun u => u.totalSpot + u.available = request.amount) ?_ ?_
  · exact zero_add _
  · intro u v hu hstep
    obtain ⟨spot, future, hiter⟩ := entryStep_eq_some_iff.mp hstep
    rw [hiter.next]
    simp only [entryFill]
    linarith

/-- An entry whose iterations all fit stays within the books. -/
theorem entryWithinBooks_of_fits {request : EntryRequest} {visited : List EntryState}
    {s : EntryState} (h : request.WellFormed) (hfits : EntryFits request)
    (hpath : WhileLoop.Path (entryStep request) (entryStart request) visited s) :
    EntryWithinBooks request visited s := by
  have hinv := entryInvariant_of_path h hpath
  have hfill : ∀ u ∈ visited, 0 ≤ entryFillAt request u := by
    intro u hu
    obtain ⟨earlier, _, v, _, hearlier, hstep, _⟩ := hpath.split hu
    obtain ⟨spot, future, hiter⟩ := entryStep_eq_some_iff.mp hstep
    rw [hiter.fillAt]
    exact hiter.fill_nonneg h hfits hearlier
  have hgives : GivesWithin request.contractSize request.futureOrders s.futureClone := by
    refine hpath.invariant_visited
      (I := fun u => GivesWithin request.contractSize request.futureOrders u.futureClone)
      (givesWithin_self h.future h.contractSize) fun u hu v hgives hstep => ?_
    obtain ⟨earlier, _, _, _, hearlier, _, _⟩ := hpath.split hu
    obtain ⟨spot, future, hiter⟩ := entryStep_eq_some_iff.mp hstep
    rw [hiter.next]
    refine hgives.modify (fun _ => rfl) fun original level horiginal hlevel => ?_
    cases Option.some.inj (hiter.future_level.symm.trans hlevel)
    exact (hfits _ _ _ _ _ _ hearlier hiter horiginal).2
  constructor
  · intro k original horiginal
    obtain ⟨level, hlevel⟩ := exists_level hinv.spot_prices horiginal
    refine ⟨WhileLoop.drawnAt_nonneg hfill k, ?_⟩
    rw [drawn_eq (entry_spot_rest hpath k) horiginal hlevel]
    linarith [hinv.spot_left k level hlevel]
  · intro k original horiginal
    obtain ⟨level, hlevel⟩ := exists_level hinv.future_prices horiginal
    refine ⟨WhileLoop.drawnAt_nonneg hfill k, ?_⟩
    rw [drawn_eq (entry_future_rest hpath k) horiginal hlevel]
    exact hgives k original level horiginal hlevel
  · linarith [entry_budget hpath, hinv.available]

/-- With at most one base unit a contract, an entry never leaves a negative futures
remainder. -/
theorem entry_future_nonneg {request : EntryRequest} {visited : List EntryState}
    {s : EntryState} (h : request.WellFormed) (hsize : request.contractSize ≤ 1)
    (hpath : WhileLoop.Path (entryStep request) (entryStart request) visited s) :
    ∀ (k : ℕ) (level : Level), s.futureClone[k]? = some level → 0 ≤ level.2 := by
  refine hpath.invariant
    (I := fun u => ∀ (k : ℕ) (level : Level), u.futureClone[k]? = some level → 0 ≤ level.2)
    (fun k level hlevel => (h.future level (List.mem_of_getElem? hlevel)).2) ?_
  intro u v hu hstep
  obtain ⟨spot, future, hiter⟩ := entryStep_eq_some_iff.mp hstep
  rw [hiter.next]
  refine left_modify hu fun level hlevel => ?_
  cases Option.some.inj (hiter.future_level.symm.trans hlevel)
  have hcut : future.2 * request.contractSize ≤ future.2 :=
    mul_le_of_le_one_right (hu _ _ hlevel) hsize
  exact sub_nonneg.mpr ((entryQty_le_future request u spot future).trans hcut)

/-- The exit fill at levels that are not negative is not negative. -/
theorem exitQty_nonneg {request : ExitRequest} {s : ExitState} {spot future : Level}
    (h : request.WellFormed) (havailable : 0 ≤ s.available) (hspot : 0 ≤ spot.2)
    (hfuture : 0 ≤ future.2) : 0 ≤ exitQty request s spot future :=
  le_min (le_min havailable hspot) (mul_nonneg hfuture h.contractSize.le)

/-- The fill of an exit iteration that fits is not negative. -/
theorem ExitIteration.fill_nonneg {request : ExitRequest} {visited : List ExitState}
    {s t : ExitState} {spot future : Level} (h : request.WellFormed) (hfits : ExitFits request)
    (hpath : WhileLoop.Path (exitStep request) (exitStart request) visited s)
    (hiter : ExitIteration request s t spot future) : 0 ≤ exitQty request s spot future := by
  have hinv := exitInvariant_of_path h hpath
  obtain ⟨original, horiginal, _⟩ := price_of_getElem? hinv.future_prices hiter.future_level
  exact exitQty_nonneg h hinv.available (hinv.spot_left _ _ hiter.spot_level)
    (hfits _ _ _ _ _ _ hpath hiter horiginal).1

/-- When no fill is negative, the drawn total is the total of the positive parts. -/
theorem drawnAt_max {request : ExitRequest} {visited : List ExitState} {cursor : ExitState → ℕ}
    (hfill : ∀ u ∈ visited, 0 ≤ exitFillAt request u) (k : ℕ) :
    WhileLoop.drawnAt cursor (fun u => max (exitFillAt request u) 0) visited k =
      WhileLoop.drawnAt cursor (exitFillAt request) visited k := by
  induction visited with
  | nil => rfl
  | cons u rest ih =>
    rw [WhileLoop.drawnAt_cons, WhileLoop.drawnAt_cons, max_eq_left (hfill u (by simp)),
      ih fun v hv => hfill v (by simp [hv])]

/-- Fills that are not negative only reduce what is left to close. -/
theorem exit_available_le {request : ExitRequest} {visited : List ExitState} {s : ExitState}
    (hpath : WhileLoop.Path (exitStep request) (exitStart request) visited s)
    (hfill : ∀ u ∈ visited, 0 ≤ exitFillAt request u) : s.available ≤ request.executed := by
  refine hpath.invariant_visited (I := fun u => u.available ≤ request.executed) le_rfl ?_
  intro u hu v hle hstep
  obtain ⟨spot, future, hiter⟩ := exitStep_eq_some_iff.mp hstep
  have hq := hfill u hu
  rw [hiter.fillAt] at hq
  rw [hiter.next]
  simp only [exitFill]
  linarith

/-- An exit whose iterations all fit stays within the books. -/
theorem exitWithinBooks_of_fits {request : ExitRequest} {visited : List ExitState}
    {s : ExitState} (h : request.WellFormed) (hfits : ExitFits request)
    (hpath : WhileLoop.Path (exitStep request) (exitStart request) visited s) :
    ExitWithinBooks request visited s := by
  have hinv := exitInvariant_of_path h hpath
  have hfill : ∀ u ∈ visited, 0 ≤ exitFillAt request u := by
    intro u hu
    obtain ⟨earlier, _, v, _, hearlier, hstep, _⟩ := hpath.split hu
    obtain ⟨spot, future, hiter⟩ := exitStep_eq_some_iff.mp hstep
    rw [hiter.fillAt]
    exact hiter.fill_nonneg h hfits hearlier
  have hgives : GivesWithin request.contractSize request.futureOrders s.futureClone := by
    refine hpath.invariant_visited
      (I := fun u => GivesWithin request.contractSize request.futureOrders u.futureClone)
      (givesWithin_self h.future h.contractSize) fun u hu v hgives hstep => ?_
    obtain ⟨earlier, _, _, _, hearlier, _, _⟩ := hpath.split hu
    obtain ⟨spot, future, hiter⟩ := exitStep_eq_some_iff.mp hstep
    rw [hiter.next]
    refine hgives.modify (exitRest_snd _) fun original level horiginal hlevel => ?_
    cases Option.some.inj (hiter.future_level.symm.trans hlevel)
    rw [max_eq_left (hiter.fill_nonneg h hfits hearlier)]
    exact (hfits _ _ _ _ _ _ hearlier hiter horiginal).2
  constructor
  · intro k original horiginal
    obtain ⟨level, hlevel⟩ := exists_level hinv.spot_prices horiginal
    have hdrawn := drawn_eq (exit_spot_rest hpath k) horiginal hlevel
    rw [drawnAt_max hfill] at hdrawn
    refine ⟨WhileLoop.drawnAt_nonneg hfill k, ?_⟩
    rw [hdrawn]
    linarith [hinv.spot_left k level hlevel]
  · intro k original horiginal
    obtain ⟨level, hlevel⟩ := exists_level hinv.future_prices horiginal
    have hdrawn := drawn_eq (exit_future_rest hpath k) horiginal hlevel
    rw [drawnAt_max hfill] at hdrawn
    refine ⟨WhileLoop.drawnAt_nonneg hfill k, ?_⟩
    rw [hdrawn]
    exact hgives k original level horiginal hlevel
  · simpa [exitResult] using exit_available_le hpath hfill
  · simpa [exitResult] using hinv.available

/-- With at most one base unit a contract, an exit never leaves a negative futures
remainder. -/
theorem exit_future_nonneg {request : ExitRequest} {visited : List ExitState} {s : ExitState}
    (h : request.WellFormed) (hsize : request.contractSize ≤ 1)
    (hpath : WhileLoop.Path (exitStep request) (exitStart request) visited s) :
    ∀ (k : ℕ) (level : Level), s.futureClone[k]? = some level → 0 ≤ level.2 := by
  refine hpath.invariant
    (I := fun u => ∀ (k : ℕ) (level : Level), u.futureClone[k]? = some level → 0 ≤ level.2)
    (fun k level hlevel => (h.future level (List.mem_of_getElem? hlevel)).2) ?_
  intro u v hu hstep
  obtain ⟨spot, future, hiter⟩ := exitStep_eq_some_iff.mp hstep
  rw [hiter.next]
  refine left_modify hu fun level hlevel => ?_
  cases Option.some.inj (hiter.future_level.symm.trans hlevel)
  have hleft := hu _ _ hlevel
  have hcut : future.2 * request.contractSize ≤ future.2 := mul_le_of_le_one_right hleft hsize
  rw [exitRest_snd, sub_nonneg]
  exact max_le ((exitQty_le_future request u spot future).trans hcut) hleft

/-- With one base unit a contract, every iteration of an entry fits. -/
theorem entryFits_of_unit {request : EntryRequest} (h : request.WellFormed)
    (hsize : request.contractSize = 1) : EntryFits request := by
  intro visited s t spot future original hpath hiter _
  have hleft := entry_future_nonneg h hsize.le hpath _ _ hiter.future_level
  have hqty := entryQty_le_future request s spot future
  rw [hsize] at hqty ⊢
  exact canGive_unit hleft hqty

/-- With one base unit a contract, every iteration of an exit fits. -/
theorem exitFits_of_unit {request : ExitRequest} (h : request.WellFormed)
    (hsize : request.contractSize = 1) : ExitFits request := by
  intro visited s t spot future original hpath hiter _
  have hleft := exit_future_nonneg h hsize.le hpath _ _ hiter.future_level
  have hqty := exitQty_le_future request s spot future
  rw [hsize] at hqty ⊢
  exact canGive_unit hleft hqty

/-- When no futures level is met twice, every iteration of an entry fits. -/
theorem entryFits_of_once {request : EntryRequest} (h : request.WellFormed)
    (hhalts : WhileLoop.Halts (entryStep request) (entryStart request))
    (honce : (ArbitrageRequest.entry request).MeetsLevelsOnce) : EntryFits request := by
  intro visited s t spot future original hpath hiter horiginal
  have hstep : entryStep request s = some t := entryStep_eq_some_iff.mpr ⟨spot, future, hiter⟩
  obtain ⟨later, v, _, hends⟩ := hpath.exists_ends hstep hhalts
  have hdrawn := drawn_eq (entry_future_rest hpath s.j) horiginal hiter.future_level
  rw [WhileLoop.drawnAt_eq_zero_of_nodup (honce _ _ hends)] at hdrawn
  exact canGive_untouched (h.future original (List.mem_of_getElem? horiginal)).2
    (sub_eq_zero.mp hdrawn.symm).symm (entryQty_le_future request s spot future)

/-- When no futures level is met twice, every iteration of an exit fits. -/
theorem exitFits_of_once {request : ExitRequest} (h : request.WellFormed)
    (hhalts : WhileLoop.Halts (exitStep request) (exitStart request))
    (honce : (ArbitrageRequest.exit request).MeetsLevelsOnce) : ExitFits request := by
  intro visited s t spot future original hpath hiter horiginal
  have hstep : exitStep request s = some t := exitStep_eq_some_iff.mpr ⟨spot, future, hiter⟩
  obtain ⟨later, v, _, hends⟩ := hpath.exists_ends hstep hhalts
  have hdrawn := drawn_eq (exit_future_rest hpath s.j) horiginal hiter.future_level
  rw [WhileLoop.drawnAt_eq_zero_of_nodup (honce _ _ hends)] at hdrawn
  exact canGive_untouched (h.future original (List.mem_of_getElem? horiginal)).2
    (sub_eq_zero.mp hdrawn.symm).symm (exitQty_le_future request s spot future)

/-- A plan is within the books when a contract is one base unit or no futures level is
met twice. -/
theorem withinBooks_of_ends {request : ArbitrageRequest} (h : request.WellFormed)
    (hends : ∃ fuel, (doArbitrage fuel request).isSome)
    (hlevels : request.contractSize = 1 ∨ request.MeetsLevelsOnce) : request.WithinBooks := by
  rw [doArbitrage_isSome_iff] at hends
  cases request with
  | entry r =>
    have hfits : EntryFits r := hlevels.elim (entryFits_of_unit h) (entryFits_of_once h hends)
    exact fun visited s hloop => entryWithinBooks_of_fits h hfits hloop.1
  | exit r =>
    have hfits : ExitFits r := hlevels.elim (exitFits_of_unit h) (exitFits_of_once h hends)
    exact fun visited s hloop => exitWithinBooks_of_fits h hfits hloop.1

/-- With one base unit a contract, where contracts and base units agree, the planner
ends on every well-formed request and its plan is within the books. -/
theorem doArbitrage_unit (request : ArbitrageRequest) (h : request.WellFormed)
    (hsize : request.contractSize = 1) :
    (∃ fuel, (doArbitrage fuel request).isSome) ∧ request.WithinBooks := by
  have hends : ∃ fuel, (doArbitrage fuel request).isSome := by
    rw [doArbitrage_isSome_iff]
    by_contra hforever
    cases request with
    | entry r =>
      have hone : r.contractSize = 1 := hsize
      obtain ⟨visited, s, spot, future, _, htrap⟩ := exists_entryTrap h hforever
      linarith [htrap.contractSize]
    | exit r =>
      have hone : r.contractSize = 1 := hsize
      obtain ⟨visited, s, spot, future, hpath, htrap⟩ := exists_exitTrap h hforever
      have hleft := exit_future_nonneg h hone.le hpath _ _ htrap.future_level
      linarith [htrap.future_left, eps_pos]
  exact ⟨hends, withinBooks_of_ends h hends (Or.inl hsize)⟩

/-- An exit on two spot levels, the first of which takes all that one futures level of
`volume` contracts offers. -/
def spentLevel (contractSize volume second : ℚ) : ExitRequest where
  spotOrders := [(110, volume * contractSize), (110, second)]
  futureOrders := [(100, volume)]
  executed := volume * contractSize + 1
  percent := 1
  contractSize := contractSize

/-- The state after the first fill of this exit: the futures level has given all it
offers, but contracts less base units are left there. -/
def afterSpent (contractSize volume second : ℚ) : ExitState where
  spotClone := [(110, 0), (110, second)]
  futureClone := [(100, volume - volume * contractSize)]
  i := 1
  j := 0
  available := 1
  spotResults := [⟨110, volume * contractSize⟩]
  futureResults := [⟨100, volume * contractSize⟩]

section Spent

variable {contractSize volume second q : ℚ}

/-- The first fill of this exit takes all that the futures level offers. -/
theorem exitIteration_spent (hvolume : 0 < volume * contractSize)
    (hleft : eps ≤ |volume - volume * contractSize|) :
    ExitIteration (spentLevel contractSize volume second)
      (exitStart (spentLevel contractSize volume second)) (afterSpent contractSize volume second)
      (110, volume * contractSize) (100, volume) where
  spot_level := rfl
  future_level := rfl
  budget := le_trans (by norm_num [eps]) (le_add_of_nonneg_left hvolume.le)
  diff_percent := by norm_num [spentLevel, exitDiff]
  next := by
    have hqty : exitQty (spentLevel contractSize volume second)
        (exitStart (spentLevel contractSize volume second)) (110, volume * contractSize)
          (100, volume) = volume * contractSize := by
      simp [exitQty, exitStart, spentLevel]
    have hzero : cleanResidual 0 eps = 0 := cleanResidual_eq_zero_iff.mpr (by simpa using eps_pos)
    have hstay : cleanResidual (volume - volume * contractSize) eps ≠ 0 := fun h =>
      absurd (cleanResidual_eq_zero_iff.mp h) (not_lt.mpr hleft)
    rw [hqty]
    simp [exitFill, exitStart, spentLevel, afterSpent, exitRest, takeVolume, hvolume, hzero,
      hstay, pushOrder]

/-- The second fill of this exit is taken from the same futures level, and is the last. -/
theorem exitIteration_afterSpent (hsecond : second = max q 0)
    (hq : min (min 1 second) ((volume - volume * contractSize) * contractSize) = q) :
    ∃ t, ExitIteration (spentLevel contractSize volume second)
      (afterSpent contractSize volume second) t (110, second)
        (100, volume - volume * contractSize) ∧
      exitStep (spentLevel contractSize volume second) t = none := by
  have hqty : exitQty (spentLevel contractSize volume second)
      (afterSpent contractSize volume second) (110, second)
        (100, volume - volume * contractSize) = q := hq
  refine ⟨_, ⟨rfl, rfl, ?_, ?_, rfl⟩, ?_⟩
  · norm_num [afterSpent, eps]
  · norm_num [spentLevel, exitDiff]
  · have hzero : cleanResidual (exitRest q (110, second)).2 eps = 0 := by
      rw [exitRest_snd, hsecond, sub_self]
      exact cleanResidual_eq_zero_iff.mpr (by simpa using eps_pos)
    rw [hqty]
    simp [exitStep, exitFill, hzero, afterSpent]

/-- This exit ends, and is not within the books unless its second fill is zero: a
negative one closes less than nothing at its spot level, and a positive one exceeds the
futures level. -/
theorem spentLevel_exceeds (hvolume : 0 < volume * contractSize)
    (hleft : eps ≤ |volume - volume * contractSize|) (hsecond : second = max q 0)
    (hq : min (min 1 second) ((volume - volume * contractSize) * contractSize) = q)
    (hne : q ≠ 0) :
    (∃ fuel, (doArbitrage fuel (.exit (spentLevel contractSize volume second))).isSome) ∧
      ¬(ArbitrageRequest.exit (spentLevel contractSize volume second)).WithinBooks := by
  have hfirst : ExitIteration (spentLevel contractSize volume second) _ _ _ _ :=
    exitIteration_spent hvolume hleft
  obtain ⟨t, hlast, hend⟩ := exitIteration_afterSpent hsecond hq
  have hends : WhileLoop.Ends (exitStep (spentLevel contractSize volume second))
      (exitStart (spentLevel contractSize volume second))
      [exitStart (spentLevel contractSize volume second),
        afterSpent contractSize volume second] t :=
    ⟨.cons (exitStep_eq_some_iff.mpr ⟨_, _, hfirst⟩)
      (.cons (exitStep_eq_some_iff.mpr ⟨_, _, hlast⟩) (.nil t)), hend⟩
  have hfills : exitFillAt (spentLevel contractSize volume second)
      (exitStart (spentLevel contractSize volume second)) = volume * contractSize ∧
        exitFillAt (spentLevel contractSize volume second)
          (afterSpent contractSize volume second) = q := by
    rw [hfirst.fillAt, hlast.fillAt]
    exact ⟨by simp [exitQty, exitStart, spentLevel], hq⟩
  refine ⟨(doArbitrage_isSome_iff _).mpr ⟨_, _, hends⟩, fun hwithin => ?_⟩
  have hspot := ((hwithin _ _ hends).spot 1 (110, second) rfl).1
  have hfuture := ((hwithin _ _ hends).future 0 (100, volume) rfl).2
  simp only [WhileLoop.drawnAt_cons, WhileLoop.drawnAt_nil, hfills.1, hfills.2] at hspot hfuture
  simp only [exitStart, afterSpent, spentLevel, zero_ne_one, if_true, if_false] at hspot hfuture
  exact hne (le_antisymm (by linarith) (by linarith))

/-- This exit is well-formed. -/
theorem spentLevel_wellFormed (hsize : 0 < contractSize) (hvolume : 0 < volume)
    (hsecond : 0 ≤ second) : (spentLevel contractSize volume second).WellFormed := by
  have hspent : 0 < volume * contractSize := mul_pos hvolume hsize
  constructor
  · simp [spentLevel, OffersLevels, hspent.le, hsecond]
  · simp [spentLevel, OffersLevels, hvolume.le]
  · exact add_nonneg hspent.le zero_le_one
  · exact hsize

/-- For every contract size other than one there is an exit that ends and is not within
the books. -/
theorem exists_exceeds (hsize : 0 < contractSize) (hne : contractSize ≠ 1) :
    ∃ request : ExitRequest, request.WellFormed ∧ request.contractSize = contractSize ∧
      (∃ fuel, (doArbitrage fuel (.exit request)).isSome) ∧
        ¬(ArbitrageRequest.exit request).WithinBooks := by
  have heps : eps ≤ 1 := by norm_num [eps]
  rcases lt_or_gt_of_ne hne with hlt | hgt
  · -- One contract seems to be left, and the second fill takes its base units.
    have hvolume : 0 < 1 / (1 - contractSize) := one_div_pos.mpr (sub_pos.mpr hlt)
    have hleft : 1 / (1 - contractSize) - 1 / (1 - contractSize) * contractSize = 1 := by
      rw [← mul_one_sub, one_div_mul_cancel (sub_pos.mpr hlt).ne']
    refine ⟨spentLevel contractSize (1 / (1 - contractSize)) contractSize,
      spentLevel_wellFormed hsize hvolume hsize.le, rfl,
      spentLevel_exceeds (mul_pos hvolume hsize) ?_ (max_eq_left hsize.le).symm ?_ hsize.ne'⟩
    · rwa [hleft, abs_one]
    · rw [hleft, one_mul, min_eq_right hlt.le, min_self]
  · -- One contract seems to be owed, and the second fill gives its base units back.
    have hvolume : 0 < 1 / (contractSize - 1) := one_div_pos.mpr (sub_pos.mpr hgt)
    have hleft : 1 / (contractSize - 1) - 1 / (contractSize - 1) * contractSize = -1 := by
      rw [← mul_one_sub, ← neg_sub contractSize 1, mul_neg,
        one_div_mul_cancel (sub_pos.mpr hgt).ne']
    have hneg : -contractSize < 0 := neg_lt_zero.mpr hsize
    refine ⟨spentLevel contractSize (1 / (contractSize - 1)) 0,
      spentLevel_wellFormed hsize hvolume le_rfl, rfl,
      spentLevel_exceeds (mul_pos hvolume hsize) ?_ (max_eq_right hneg.le).symm ?_ hneg.ne⟩
    · rwa [hleft, abs_neg, abs_one]
    · rw [hleft, neg_one_mul, min_eq_right zero_le_one, min_eq_right hneg.le]

end Spent

/-- Entries on two levels of each book. -/
def twoLevelFills (contractSize first : ℚ) : EntryRequest where
  spotOrders := [(100, 2), (101, 3)]
  futureOrders := [(110, first), (109, 8)]
  amount := 10000
  marginQuantityPercent := 1
  percent := 1
  contractSize := contractSize

/-- Three units of spot against four half-unit contracts, which are two units. -/
def halfUnitContract : EntryRequest where
  spotOrders := [(100, 3)]
  futureOrders := [(110, 4)]
  amount := 10000
  marginQuantityPercent := 1
  percent := 1
  contractSize := 1 / 2

end Arbexpert.Arbitrage
