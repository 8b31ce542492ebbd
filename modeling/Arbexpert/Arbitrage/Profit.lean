import Arbexpert.Arbitrage.Balance
import Arbexpert.Arbitrage.Bounds
import Arbexpert.Arbitrage.MaxPrice
import Arbexpert.Foundation.DepthCurve

/-!
# The profit of an entry

Every fill of an entry is positive and sells the future at least `percent` percent above the spot
price it pays. The two running totals keep this ratio, weighted by the fills.
-/

namespace Arbexpert.Arbitrage

open DepthCurve (Positive)

/-- The running totals of an entry: what was sold exceeds what was bought by `percent` percent,
and something was paid as soon as something was filled. -/
structure EntryProfitable (request : EntryRequest) (s : EntryState) : Prop where
  ratio : Reaches request.percent s.totalSpot s.totalFuture
  qty : 0 ≤ s.qty
  paid : 0 < s.qty → 0 < s.totalSpot

/-- A positive fill at a sufficient spread keeps the totals profitable. -/
theorem EntryProfitable.fill {request : EntryRequest} {s : EntryState} {spot future : Level}
    {q : ℚ} (h : EntryProfitable request s) (hpaid : 0 ≤ s.totalSpot) (hprice : 0 < spot.1)
    (hq : 0 < q) (hreach : Reaches request.percent spot.1 future.1) :
    EntryProfitable request (entryFill request s spot future q) := by
  have hcost : 0 < spot.1 * q := mul_pos hprice hq
  refine ⟨?_, add_nonneg h.qty hq.le, fun _ => add_pos_of_nonneg_of_pos hpaid hcost⟩
  have hsold : spot.1 * q * (1 + request.percent / 100) ≤ future.1 * q := by
    have := mul_le_mul_of_nonneg_right hreach hq.le
    linarith
  have hratio := h.ratio
  unfold Reaches at hratio ⊢
  simp only [entryFill]
  linarith

/-- The totals of an entry are profitable in every state that its loop reaches. -/
theorem entryProfitable_of_path {request : EntryRequest} {visited : List EntryState}
    {s : EntryState} (h : request.WellFormed) (hsize : request.contractSize ≤ 1)
    (hpath : WhileLoop.Path (entryStep request) (entryStart request) visited s) :
    EntryProfitable request s ∧ 0 ≤ s.totalSpot := by
  refine hpath.invariant_visited (I := fun u => EntryProfitable request u ∧ 0 ≤ u.totalSpot)
    ⟨⟨?_, le_rfl, fun hpos => (lt_irrefl _ hpos).elim⟩, le_rfl⟩ fun u hu v hinv hstep => ?_
  · simp [Reaches, entryStart]
  · obtain ⟨earlier, _, _, _, hearlier, _, _⟩ := hpath.split hu
    obtain ⟨spot, future, hiter⟩ := entryStep_eq_some_iff.mp hstep
    have hbounds := entryInvariant_of_path h hearlier
    have hprice := hbounds.spot_price h hiter.spot_level
    have hfuture := entry_future_nonneg h hsize hearlier _ _ hiter.future_level
    have hnonneg := entryQty_nonneg h hprice hbounds.available
      (hbounds.spot_left _ _ hiter.spot_level) hfuture
    have hq : 0 < entryQty request u spot future := by
      have hclean := hiter.qty_clean
      rw [abs_of_nonneg hnonneg] at hclean
      exact eps_pos.trans_le hclean
    rw [hiter.next]
    refine ⟨hinv.1.fill hinv.2 hprice hq ((reaches_iff hprice).mpr hiter.diff_percent), ?_⟩
    exact add_nonneg hinv.2 (mul_pos hprice hq).le

/-- Without a budget, an entry executes nothing. -/
theorem entry_path_of_amount_neg {request : EntryRequest} {visited : List EntryState}
    {s : EntryState} (hamount : request.amount < 0)
    (hpath : WhileLoop.Path (entryStep request) (entryStart request) visited s) :
    s = entryStart request := by
  cases hpath with
  | nil => rfl
  | cons hstep _ =>
    obtain ⟨spot, future, hiter⟩ := entryStep_eq_some_iff.mp hstep
    have hbudget : eps ≤ request.amount := hiter.budget
    linarith [eps_pos]

/-- An entry that reports an executed quantity reports the one of its variables, and the profit
of its totals. -/
theorem entryResult_of_executed_pos {request : EntryRequest} {s : EntryState}
    (hexecuted : 0 < (entryResult request s).executed) :
    (entryResult request s).executed = s.qty ∧ (entryResult request s).profitPercent =
      if 0 < s.totalSpot then (s.totalFuture - s.totalSpot) / s.totalSpot * 100 else 0 := by
  unfold entryResult at hexecuted ⊢
  dsimp only at hexecuted ⊢
  split at hexecuted
  · exact absurd hexecuted (lt_irrefl 0)
  · rename_i hclean
    rw [if_neg hclean]
    exact ⟨rfl, rfl⟩

/-- On positive prices and volumes, with at most one base unit a contract, an entry that executes
something earns at least the requested percentage of what it pays. -/
theorem doEntryArbitrage_profit {request : EntryRequest} (hspot : Positive request.spotOrders)
    (hfuture : Positive request.futureOrders) (hpositive : 0 < request.contractSize)
    (hsize : request.contractSize ≤ 1) {fuel : ℕ} {result : EntryResult}
    (h : doEntryArbitrage fuel request = some result) (hexecuted : 0 < result.executed) :
    request.percent ≤ result.profitPercent := by
  obtain ⟨visited, s, hends, rfl⟩ := exists_path_of_doEntryArbitrage h
  obtain ⟨hqty, hprofit⟩ := entryResult_of_executed_pos hexecuted
  rw [hqty] at hexecuted
  rcases lt_or_ge request.amount 0 with hamount | hamount
  · rw [entry_path_of_amount_neg hamount hends.1] at hexecuted
    exact absurd hexecuted (lt_irrefl 0)
  · have hwf : request.WellFormed :=
      ⟨offersLevels_of_positive hspot, offersLevels_of_positive hfuture, hamount, hpositive⟩
    obtain ⟨hinv, _⟩ := entryProfitable_of_path hwf hsize hends.1
    have hpaid := hinv.paid hexecuted
    rw [hprofit, if_pos hpaid]
    exact (reaches_iff hpaid).mp hinv.ratio

/-- An entry at two futures levels, the second of which yields just the requested percentage. -/
def twoLevelEntry : EntryRequest where
  spotOrders := [(100, 3)]
  futureOrders := [(110, 1), (101, 2)]
  amount := 200
  marginQuantityPercent := 1
  percent := 1
  contractSize := 1

/-- One unit earns ten percent and one unit earns one percent. -/
theorem twoLevelEntry_profit : ∃ result, doEntryArbitrage 3 twoLevelEntry = some result ∧
    result.profitPercent = 11 / 2 ∧ 1 ≤ result.profitPercent := by
  have hrun : (doEntryArbitrage 3 twoLevelEntry).map
      (fun result => (result.executed, result.profitPercent)) = some (2, 11 / 2) := by
    decide +kernel
  obtain ⟨result, hresult, hvalues⟩ := Option.map_eq_some_iff.mp hrun
  obtain ⟨hexecuted, hprofit⟩ := Prod.mk.inj hvalues
  refine ⟨result, hresult, hprofit, doEntryArbitrage_profit ?_ ?_ one_pos le_rfl hresult ?_⟩
  · norm_num [twoLevelEntry, Positive]
  · norm_num [twoLevelEntry, Positive]
  · rw [hexecuted]
    norm_num

end Arbexpert.Arbitrage
