import Arbexpert.Arbitrage.Planner
import Arbexpert.Foundation.Sequences

/-!
# When the planners end

A fill is measured in base units but subtracted from a futures remainder that is
kept in contracts, so with a contract size `c` a futures-bound fill multiplies the
remainder by `1 - c`. For `c = 2` an entry can undo its last fill for ever; an exit
whose futures remainder has become negative gives back quantity for ever. Outside
these states every iteration makes progress that cannot go on without end.
-/

namespace Arbexpert.Arbitrage

/-- A state of the entry loop whose next fill is bound by the futures remainder of
two-unit contracts, and leaves both levels and the budget above the residual. -/
structure EntryTrap (request : EntryRequest) (s : EntryState) (spot future : Level) : Prop where
  spot_level : s.spotClone[s.i]? = some spot
  future_level : s.futureClone[s.j]? = some future
  contractSize : request.contractSize = 2
  diff_clean : eps ≤ |entryDiff spot.1 future.1|
  diff_percent : request.percent ≤ entryDiff spot.1 future.1
  future_left : eps ≤ future.2
  spot_left : 2 * future.2 + eps ≤ spot.2
  budget : spot.1 * (2 * future.2) + eps ≤ s.available

/-- The state after a trapped entry iteration: the futures remainder is negative. -/
structure EntryRebound (request : EntryRequest) (s : EntryState) (spot future : Level) :
    Prop where
  spot_level : s.spotClone[s.i]? = some spot
  future_level : s.futureClone[s.j]? = some future
  contractSize : request.contractSize = 2
  diff_clean : eps ≤ |entryDiff spot.1 future.1|
  diff_percent : request.percent ≤ entryDiff spot.1 future.1
  future_left : future.2 ≤ -eps
  spot_left : eps ≤ spot.2
  budget : eps ≤ s.available

/-- A state of the exit loop with a negative futures remainder, in which the next
iteration is executed and exhausts no level. -/
structure ExitTrap (request : ExitRequest) (s : ExitState) (spot future : Level) : Prop where
  spot_level : s.spotClone[s.i]? = some spot
  future_level : s.futureClone[s.j]? = some future
  budget : eps ≤ s.available
  diff_percent : request.percent ≤ exitDiff spot.1 future.1
  spot_left : eps ≤ spot.2
  future_left : future.2 ≤ -eps

/-- No iteration of the planner's loop starts in a trapped state. -/
def ArbitrageRequest.NeverTrapped : ArbitrageRequest → Prop
  | .entry request => ∀ visited s,
      WhileLoop.Path (entryStep request) (entryStart request) visited s →
        ∀ spot future, ¬ EntryTrap request s spot future
  | .exit request => ∀ visited s,
      WhileLoop.Path (exitStep request) (exitStart request) visited s →
        ∀ spot future, ¬ ExitTrap request s spot future

/-- A fill that exhausts neither level of an entry leaves both cursors in place. -/
theorem entryFill_cursors (request : EntryRequest) (s : EntryState) {spot future : Level} {q : ℚ}
    (hspot : eps ≤ |spot.2 - q|) (hfuture : eps ≤ |future.2 - q|) :
    (entryFill request s spot future q).i = s.i ∧
      (entryFill request s spot future q).j = s.j := by
  simp only [entryFill, cleanResidual_eq_zero_iff, if_neg (not_lt.mpr hspot),
    if_neg (not_lt.mpr hfuture), and_self]

/-- The spot level under an unmoved cursor after an entry fill. -/
theorem entryFill_spot_level {request : EntryRequest} {s : EntryState} {spot future : Level}
    {q : ℚ} (hlevel : s.spotClone[s.i]? = some spot) :
    (entryFill request s spot future q).spotClone[s.i]? = some (takeVolume q spot) := by
  simp [entryFill, hlevel]

/-- The futures level under an unmoved cursor after an entry fill. -/
theorem entryFill_future_level {request : EntryRequest} {s : EntryState} {spot future : Level}
    {q : ℚ} (hlevel : s.futureClone[s.j]? = some future) :
    (entryFill request s spot future q).futureClone[s.j]? = some (takeVolume q future) := by
  simp [entryFill, hlevel]

/-- The spot level under an unmoved cursor after an exit fill. -/
theorem exitFill_spot_level {s : ExitState} {spot future : Level} {q : ℚ}
    (hlevel : s.spotClone[s.i]? = some spot) :
    (exitFill s spot future q).spotClone[s.i]? = some (exitRest q spot) := by
  simp [exitFill, hlevel]

/-- The futures level under an unmoved cursor after an exit fill. -/
theorem exitFill_future_level {s : ExitState} {spot future : Level} {q : ℚ}
    (hlevel : s.futureClone[s.j]? = some future) :
    (exitFill s spot future q).futureClone[s.j]? = some (exitRest q future) := by
  simp [exitFill, hlevel]

/-- In a trapped state the futures remainder bounds the fill. -/
theorem EntryTrap.qty_eq {request : EntryRequest} {s : EntryState} {spot future : Level}
    (htrap : EntryTrap request s spot future) (hprice : 0 < spot.1) :
    entryQty request s spot future = 2 * future.2 := by
  have heps := eps_pos
  have hbudget : 2 * future.2 ≤ s.available / spot.1 := by
    rw [le_div_iff₀ hprice]
    linarith [htrap.budget]
  have hspot : 2 * future.2 ≤ spot.2 := by linarith [htrap.spot_left]
  unfold entryQty
  rw [htrap.contractSize, mul_comm future.2 2]
  exact min_eq_right (le_min hbudget hspot)

/-- After a trapped iteration the negative remainder bounds the fill. -/
theorem EntryRebound.qty_eq {request : EntryRequest} {s : EntryState} {spot future : Level}
    (hback : EntryRebound request s spot future) (hprice : 0 < spot.1) :
    entryQty request s spot future = 2 * future.2 := by
  have heps := eps_pos
  have hbudget : 2 * future.2 ≤ s.available / spot.1 := by
    have : 0 ≤ s.available / spot.1 := div_nonneg (by linarith [hback.budget]) hprice.le
    linarith [hback.future_left]
  have hspot : 2 * future.2 ≤ spot.2 := by linarith [hback.spot_left, hback.future_left]
  unfold entryQty
  rw [hback.contractSize, mul_comm future.2 2]
  exact min_eq_right (le_min hbudget hspot)

/-- From a trapped state the entry loop continues, with a negative remainder. -/
theorem EntryTrap.step {request : EntryRequest} {s : EntryState} {spot future : Level}
    (htrap : EntryTrap request s spot future) (hprice : 0 < spot.1) :
    ∃ t spot' future', entryStep request s = some t ∧ EntryRebound request t spot' future' ∧
      spot'.1 = spot.1 := by
  have heps := eps_pos
  have hqty := htrap.qty_eq hprice
  have hcost : 0 ≤ spot.1 * (2 * future.2) :=
    mul_nonneg hprice.le (by linarith [htrap.future_left])
  have hspot : eps ≤ |spot.2 - 2 * future.2| :=
    le_abs.mpr (Or.inl (by linarith [htrap.spot_left]))
  have hfuture : eps ≤ |future.2 - 2 * future.2| :=
    le_abs.mpr (Or.inr (by linarith [htrap.future_left]))
  obtain ⟨hi, hj⟩ := entryFill_cursors request s hspot hfuture
  refine ⟨entryFill request s spot future (2 * future.2), takeVolume (2 * future.2) spot,
    takeVolume (2 * future.2) future, ?_, ?_, rfl⟩
  · refine entryStep_eq_some_iff.mpr ⟨spot, future, htrap.spot_level, htrap.future_level, ?_,
      htrap.diff_clean, htrap.diff_percent, ?_, by rw [hqty]⟩
    · linarith [htrap.budget]
    · rw [hqty]
      exact le_abs.mpr (Or.inl (by linarith [htrap.future_left]))
  · refine ⟨?_, ?_, htrap.contractSize, htrap.diff_clean, htrap.diff_percent, ?_, ?_, ?_⟩
    · rw [hi]
      exact entryFill_spot_level htrap.spot_level
    · rw [hj]
      exact entryFill_future_level htrap.future_level
    · simp only [takeVolume]
      linarith [htrap.future_left]
    · simp only [takeVolume]
      linarith [htrap.spot_left]
    · simp only [entryFill]
      linarith [htrap.budget]

/-- The iteration after a trapped one restores the trapped state. -/
theorem EntryRebound.step {request : EntryRequest} {s : EntryState} {spot future : Level}
    (hback : EntryRebound request s spot future) (hprice : 0 < spot.1) :
    ∃ t spot' future', entryStep request s = some t ∧ EntryTrap request t spot' future' ∧
      spot'.1 = spot.1 := by
  have heps := eps_pos
  have hqty := hback.qty_eq hprice
  have hcost : spot.1 * (2 * future.2) ≤ 0 :=
    mul_nonpos_of_nonneg_of_nonpos hprice.le (by linarith [hback.future_left])
  have hspot : eps ≤ |spot.2 - 2 * future.2| :=
    le_abs.mpr (Or.inl (by linarith [hback.spot_left, hback.future_left]))
  have hfuture : eps ≤ |future.2 - 2 * future.2| :=
    le_abs.mpr (Or.inl (by linarith [hback.future_left]))
  obtain ⟨hi, hj⟩ := entryFill_cursors request s hspot hfuture
  refine ⟨entryFill request s spot future (2 * future.2), takeVolume (2 * future.2) spot,
    takeVolume (2 * future.2) future, ?_, ?_, rfl⟩
  · refine entryStep_eq_some_iff.mpr ⟨spot, future, hback.spot_level, hback.future_level,
      hback.budget, hback.diff_clean, hback.diff_percent, ?_, by rw [hqty]⟩
    rw [hqty]
    exact le_abs.mpr (Or.inr (by linarith [hback.future_left]))
  · refine ⟨?_, ?_, hback.contractSize, hback.diff_clean, hback.diff_percent, ?_, ?_, ?_⟩
    · rw [hi]
      exact entryFill_spot_level hback.spot_level
    · rw [hj]
      exact entryFill_future_level hback.future_level
    · simp only [takeVolume]
      linarith [hback.future_left]
    · simp only [takeVolume]
      linarith [hback.spot_left]
    · simp only [entryFill, takeVolume]
      have hback' : spot.1 * (2 * (future.2 - 2 * future.2)) = -(spot.1 * (2 * future.2)) := by
        ring
      rw [hback']
      linarith [hback.budget]

/-- The entry loop does not end from a trapped state. -/
theorem EntryTrap.not_halts {request : EntryRequest} {s : EntryState} {spot future : Level}
    (htrap : EntryTrap request s spot future) (hprice : 0 < spot.1) :
    ¬ WhileLoop.Halts (entryStep request) s := by
  refine WhileLoop.not_halts_of_trap
    (T := fun u => ∃ spot future, 0 < spot.1 ∧
      (EntryTrap request u spot future ∨ EntryRebound request u spot future)) ?_
    ⟨spot, future, hprice, Or.inl htrap⟩
  rintro u ⟨spot, future, hp, h | h⟩
  · obtain ⟨t, spot', future', hstep, hnext, hsame⟩ := h.step hp
    exact ⟨t, hstep, spot', future', by rw [hsame]; exact hp, Or.inr hnext⟩
  · obtain ⟨t, spot', future', hstep, hnext, hsame⟩ := h.step hp
    exact ⟨t, hstep, spot', future', by rw [hsame]; exact hp, Or.inl hnext⟩

/-- From a trapped state the exit loop continues in a trapped state. -/
theorem ExitTrap.step {request : ExitRequest} {s : ExitState} {spot future : Level}
    (htrap : ExitTrap request s spot future) (hsize : 0 < request.contractSize) :
    ∃ t, exitStep request s = some t ∧ ExitTrap request t spot future := by
  have heps := eps_pos
  have hneg : exitQty request s spot future < 0 :=
    (exitQty_le_future request s spot future).trans_lt
      (mul_neg_of_neg_of_pos (by linarith [htrap.future_left]) hsize)
  have hrest (level : Level) : exitRest (exitQty request s spot future) level = level :=
    if_neg (not_lt.mpr hneg.le)
  have hspot : ¬ |spot.2| < eps := not_lt.mpr (le_abs.mpr (Or.inl htrap.spot_left))
  have hfuture : ¬ |future.2| < eps :=
    not_lt.mpr (le_abs.mpr (Or.inr (by linarith [htrap.future_left])))
  refine ⟨exitFill s spot future (exitQty request s spot future),
    exitStep_eq_some_iff.mpr ⟨spot, future, htrap.spot_level, htrap.future_level, htrap.budget,
      htrap.diff_percent, rfl⟩, ?_, ?_, ?_, htrap.diff_percent, htrap.spot_left,
    htrap.future_left⟩
  · simp [exitFill, hrest, cleanResidual_eq_zero_iff, hspot, htrap.spot_level]
  · simp [exitFill, hrest, cleanResidual_eq_zero_iff, hfuture, htrap.future_level]
  · simp only [exitFill]
    linarith [htrap.budget]

/-- The exit loop does not end from a trapped state. -/
theorem ExitTrap.not_halts {request : ExitRequest} {s : ExitState} {spot future : Level}
    (htrap : ExitTrap request s spot future) (hsize : 0 < request.contractSize) :
    ¬ WhileLoop.Halts (exitStep request) s :=
  WhileLoop.not_halts_of_trap (T := fun u => ExitTrap request u spot future)
    (fun _ hu => hu.step hsize) htrap

/-- The remainders of an entry that stays at its two levels for ever: spot volume
`S`, futures remainder `r` and budget `A`, reduced by the fills `q`. -/
structure EntryStall (p c : ℚ) (S r A q : ℕ → ℚ) : Prop where
  qty : ∀ n, q n = min (min (A n / p) (S n)) (r n * c)
  spot : ∀ n, S (n + 1) = S n - q n
  future : ∀ n, r (n + 1) = r n - q n
  budget : ∀ n, A (n + 1) = A n - p * q n
  spot_nonneg : ∀ n, 0 ≤ S n
  spot_left : ∀ n, eps ≤ |S (n + 1)|
  future_left : ∀ n, eps ≤ |r (n + 1)|
  budget_left : ∀ n, eps ≤ A n

/-- In a stalled entry every fill is bound by the futures remainder: one bound by
the spot volume or by the budget would use it up. -/
theorem EntryStall.qty_eq {p c : ℚ} {S r A q : ℕ → ℚ} (hp : 0 < p)
    (h : EntryStall p c S r A q) (n : ℕ) : q n = r n * c := by
  have heps := eps_pos
  rcases min_choice (min (A n / p) (S n)) (r n * c) with hmin | hmin
  · exfalso
    rcases min_choice (A n / p) (S n) with hmin' | hmin'
    · have hq : q n = A n / p := by rw [h.qty, hmin, hmin']
      have hzero : A (n + 1) = 0 := by rw [h.budget, hq, mul_div_cancel₀ _ hp.ne', sub_self]
      linarith [h.budget_left (n + 1)]
    · have hq : q n = S n := by rw [h.qty, hmin, hmin']
      have hzero : S (n + 1) = 0 := by rw [h.spot, hq, sub_self]
      have := h.spot_left n
      rw [hzero, abs_zero] at this
      linarith
  · rw [h.qty, hmin]

/-- A stalled entry has two-unit contracts and passes through a trapped state. -/
theorem EntryStall.trapped {p c : ℚ} {S r A q : ℕ → ℚ} (hp : 0 < p) (hc : 0 < c)
    (h : EntryStall p c S r A q) :
    c = 2 ∧ ∃ n, eps ≤ r n ∧ 2 * r n + eps ≤ S n ∧ p * (2 * r n) + eps ≤ A n := by
  have hstep (n : ℕ) : r (n + 1) = (1 - c) * r n := by
    rw [h.future, h.qty_eq hp]
    ring
  -- both remainders are reduced by the same fills
  have hsame (n : ℕ) : S n - r n = S 0 - r 0 := by
    induction n with
    | zero => rfl
    | succ n ih => rw [h.spot, h.future, ← ih]; ring
  have hc2 : c = 2 := by
    by_contra hne
    have hbound (n : ℕ) : r 0 - S 0 ≤ r n := by linarith [hsame n, h.spot_nonneg n]
    exact Sequences.scaled_remainders_absurd hc hne eps_pos hstep h.future_left hbound
  subst hc2
  have hpositive : ∃ n, eps ≤ r n := by
    have hr1 : r 1 = -r 0 := by rw [hstep 0]; ring
    rcases le_abs.mp (h.future_left 0) with hle | hle
    · exact ⟨1, hle⟩
    · exact ⟨0, by simpa [hr1] using hle⟩
  obtain ⟨n, hn⟩ := hpositive
  refine ⟨rfl, n, hn, ?_, ?_⟩
  · have hleft := h.spot_left n
    rw [abs_of_nonneg (h.spot_nonneg (n + 1)), h.spot, h.qty_eq hp] at hleft
    linarith
  · have hleft := h.budget_left (n + 1)
    rw [h.budget, h.qty_eq hp] at hleft
    linarith

/-- The remainders of an exit that stays at its two levels for ever. -/
structure ExitStall (c : ℚ) (S r A q : ℕ → ℚ) : Prop where
  qty : ∀ n, q n = min (min (A n) (S n)) (r n * c)
  spot : ∀ n, S (n + 1) = if 0 < q n then S n - q n else S n
  future : ∀ n, r (n + 1) = if 0 < q n then r n - q n else r n
  budget : ∀ n, A (n + 1) = A n - q n
  spot_nonneg : ∀ n, 0 ≤ S n
  spot_left : ∀ n, eps ≤ |S (n + 1)|
  future_left : ∀ n, eps ≤ |r (n + 1)|
  budget_left : ∀ n, eps ≤ A n

/-- From its second state on, a stalled exit has a spot volume above the residual. -/
theorem ExitStall.spot_le {c : ℚ} {S r A q : ℕ → ℚ} (h : ExitStall c S r A q) (n : ℕ) :
    eps ≤ S (n + 1) := by
  simpa [abs_of_nonneg (h.spot_nonneg (n + 1))] using h.spot_left n

/-- A fill at a positive remainder of a stalled exit is bound by that remainder. -/
theorem ExitStall.future_eq {c : ℚ} {S r A q : ℕ → ℚ} (hc : 0 < c) (h : ExitStall c S r A q)
    {n : ℕ} (hr : 0 < r (n + 1)) : r (n + 2) = (1 - c) * r (n + 1) := by
  have heps := eps_pos
  have hA := h.budget_left (n + 1)
  have hS := h.spot_le n
  have hq : 0 < q (n + 1) := by
    rw [h.qty]
    exact lt_min (lt_min (by linarith) (by linarith)) (mul_pos hr hc)
  have hS' := h.spot (n + 1)
  have hr' := h.future (n + 1)
  rw [if_pos hq] at hS' hr'
  rcases min_choice (min (A (n + 1)) (S (n + 1))) (r (n + 1) * c) with hmin | hmin
  · exfalso
    rcases min_choice (A (n + 1)) (S (n + 1)) with hmin' | hmin'
    · have hleft := h.budget_left (n + 2)
      rw [h.budget, h.qty, hmin, hmin', sub_self] at hleft
      linarith
    · have hleft := h.spot_le (n + 1)
      rw [hS', h.qty, hmin, hmin', sub_self] at hleft
      linarith
  · rw [hr', h.qty, hmin]
    ring

/-- A stalled exit passes through a trapped state. -/
theorem ExitStall.trapped {c : ℚ} {S r A q : ℕ → ℚ} (hc : 0 < c) (h : ExitStall c S r A q) :
    ∃ n, r (n + 1) ≤ -eps := by
  by_contra hnot
  push Not at hnot
  have heps := eps_pos
  have hpos (n : ℕ) : 0 < r (n + 1) := by
    rcases le_abs.mp (h.future_left n) with hle | hle
    · linarith
    · linarith [hnot n]
  have hne : c ≠ 2 := by
    rintro rfl
    have hr2 := h.future_eq hc (hpos 0)
    linarith [hpos 0, hpos 1]
  exact Sequences.scaled_remainders_absurd (r := fun n => r (n + 1)) hc hne heps
    (fun n => h.future_eq hc (hpos n)) (fun n => h.future_left (n + 1)) fun n => (hpos n).le

/-- The cursors of a loop that goes on for ever stay at two fixed levels from some
iteration on. -/
theorem cursors_stall {i j : ℕ → ℕ} {m n : ℕ} (hi : ∀ k, i k ≤ i (k + 1))
    (hj : ∀ k, j k ≤ j (k + 1)) (him : ∀ k, i k ≤ m) (hjn : ∀ k, j k ≤ n) :
    ∃ N, ∀ k, i (N + k + 1) = i (N + k) ∧ j (N + k + 1) = j (N + k) := by
  have hmono : Monotone fun k => i k + j k :=
    monotone_nat_of_le_succ fun k => Nat.add_le_add (hi k) (hj k)
  obtain ⟨N, hN⟩ := Sequences.eventually_constant hmono fun k => Nat.add_le_add (him k) (hjn k)
  refine ⟨N, fun k => ?_⟩
  have hk : i (N + k) + j (N + k) = i N + j N := hN (N + k) (by omega)
  have hk' : i (N + k + 1) + j (N + k + 1) = i N + j N := hN (N + k + 1) (by omega)
  have hstep := hi (N + k)
  have hstep' := hj (N + k)
  omega

/-- A cursor that did not move left a remainder above the residual. -/
theorem left_of_cursor_stays {k : ℕ} {rest : ℚ}
    (h : (if cleanResidual rest eps = 0 then k + 1 else k) = k) : eps ≤ |rest| := by
  by_contra hlt
  rw [if_pos (cleanResidual_eq_zero_iff.mpr (not_le.mp hlt))] at h
  omega

/-- An entry loop that goes on for ever passes through a trapped state. -/
theorem exists_entryTrap {request : EntryRequest} (h : request.WellFormed)
    (hforever : ¬ WhileLoop.Halts (entryStep request) (entryStart request)) :
    ∃ visited s spot future, WhileLoop.Path (entryStep request) (entryStart request) visited s ∧
      EntryTrap request s spot future := by
  obtain ⟨f, _, hstep, hpath⟩ := WhileLoop.exists_infinite_of_not_halts hforever
  choose spot future hiter using fun n => entryStep_eq_some_iff.mp (hstep n)
  have hinv (n : ℕ) : EntryInvariant request (f n) :=
    entryInvariant_of_path h (hpath n).choose_spec
  have hi (n : ℕ) : (f n).i ≤ (f (n + 1)).i := by
    rw [(hiter n).next]
    simp only [entryFill]
    split <;> omega
  have hj (n : ℕ) : (f n).j ≤ (f (n + 1)).j := by
    rw [(hiter n).next]
    simp only [entryFill]
    split <;> omega
  obtain ⟨N, hN⟩ := cursors_stall hi hj (fun n => (hinv n).i_le) fun n => (hinv n).j_le
  have hspot (n : ℕ) : spot (N + (n + 1)) =
      takeVolume (entryQty request (f (N + n)) (spot (N + n)) (future (N + n))) (spot (N + n)) := by
    have hlevel := (hiter (N + n + 1)).spot_level
    rw [(hN n).1, (hiter (N + n)).next,
      entryFill_spot_level (hiter (N + n)).spot_level] at hlevel
    exact (Option.some.inj hlevel).symm
  have hfuture (n : ℕ) : future (N + (n + 1)) =
      takeVolume (entryQty request (f (N + n)) (spot (N + n)) (future (N + n)))
        (future (N + n)) := by
    have hlevel := (hiter (N + n + 1)).future_level
    rw [(hN n).2, (hiter (N + n)).next,
      entryFill_future_level (hiter (N + n)).future_level] at hlevel
    exact (Option.some.inj hlevel).symm
  have hprice (n : ℕ) : (spot (N + n)).1 = (spot N).1 := by
    induction n with
    | zero => rfl
    | succ n ih => rw [hspot, takeVolume_fst, ih]
  have hp : 0 < (spot N).1 := (hinv N).spot_price h (hiter N).spot_level
  have hstall : EntryStall (spot N).1 request.contractSize (fun n => (spot (N + n)).2)
      (fun n => (future (N + n)).2) (fun n => (f (N + n)).available)
      (fun n => entryQty request (f (N + n)) (spot (N + n)) (future (N + n))) := by
    refine ⟨fun n => ?_, fun n => ?_, fun n => ?_, fun n => ?_, fun n => ?_, fun n => ?_,
      fun n => ?_, fun n => (hiter (N + n)).budget⟩
    · simp only [entryQty, hprice]
    · simp only [hspot n, takeVolume]
    · simp only [hfuture n, takeVolume]
    · have hbudget := congrArg EntryState.available (hiter (N + n)).next
      simp only [entryFill, hprice] at hbudget
      exact hbudget
    · exact (hinv (N + n)).spot_left _ _ (hiter (N + n)).spot_level
    · simp only [hspot n, takeVolume]
      have hcursor := congrArg EntryState.i (hiter (N + n)).next
      exact left_of_cursor_stays (hcursor.symm.trans (hN n).1)
    · simp only [hfuture n, takeVolume]
      have hcursor := congrArg EntryState.j (hiter (N + n)).next
      exact left_of_cursor_stays (hcursor.symm.trans (hN n).2)
  obtain ⟨hsize, n, hr, hS, hA⟩ := hstall.trapped hp h.contractSize
  have hn := hiter (N + n)
  exact ⟨_, _, _, _, (hpath (N + n)).choose_spec, hn.spot_level, hn.future_level, hsize,
    hn.diff_clean, hn.diff_percent, hr, hS, by rw [hprice]; exact hA⟩

/-- An exit loop that goes on for ever passes through a trapped state. -/
theorem exists_exitTrap {request : ExitRequest} (h : request.WellFormed)
    (hforever : ¬ WhileLoop.Halts (exitStep request) (exitStart request)) :
    ∃ visited s spot future, WhileLoop.Path (exitStep request) (exitStart request) visited s ∧
      ExitTrap request s spot future := by
  obtain ⟨f, _, hstep, hpath⟩ := WhileLoop.exists_infinite_of_not_halts hforever
  choose spot future hiter using fun n => exitStep_eq_some_iff.mp (hstep n)
  have hinv (n : ℕ) : ExitInvariant request (f n) :=
    exitInvariant_of_path h (hpath n).choose_spec
  have hi (n : ℕ) : (f n).i ≤ (f (n + 1)).i := by
    rw [(hiter n).next]
    simp only [exitFill]
    split <;> omega
  have hj (n : ℕ) : (f n).j ≤ (f (n + 1)).j := by
    rw [(hiter n).next]
    simp only [exitFill]
    split <;> omega
  obtain ⟨N, hN⟩ := cursors_stall hi hj (fun n => (hinv n).i_le) fun n => (hinv n).j_le
  have hspot (n : ℕ) : spot (N + (n + 1)) =
      exitRest (exitQty request (f (N + n)) (spot (N + n)) (future (N + n))) (spot (N + n)) := by
    have hlevel := (hiter (N + n + 1)).spot_level
    rw [(hN n).1, (hiter (N + n)).next,
      exitFill_spot_level (hiter (N + n)).spot_level] at hlevel
    exact (Option.some.inj hlevel).symm
  have hfuture (n : ℕ) : future (N + (n + 1)) =
      exitRest (exitQty request (f (N + n)) (spot (N + n)) (future (N + n)))
        (future (N + n)) := by
    have hlevel := (hiter (N + n + 1)).future_level
    rw [(hN n).2, (hiter (N + n)).next,
      exitFill_future_level (hiter (N + n)).future_level] at hlevel
    exact (Option.some.inj hlevel).symm
  have hrest (q : ℚ) (level : Level) :
      (exitRest q level).2 = if 0 < q then level.2 - q else level.2 := by
    unfold exitRest takeVolume
    split <;> rfl
  have hstall : ExitStall request.contractSize (fun n => (spot (N + n)).2)
      (fun n => (future (N + n)).2) (fun n => (f (N + n)).available)
      (fun n => exitQty request (f (N + n)) (spot (N + n)) (future (N + n))) := by
    refine ⟨fun n => rfl, fun n => ?_, fun n => ?_, fun n => ?_, fun n => ?_, fun n => ?_,
      fun n => ?_, fun n => (hiter (N + n)).budget⟩
    · simp only [hspot n, hrest]
    · simp only [hfuture n, hrest]
    · exact congrArg ExitState.available (hiter (N + n)).next
    · exact (hinv (N + n)).spot_left _ _ (hiter (N + n)).spot_level
    · simp only [hspot n]
      have hcursor := congrArg ExitState.i (hiter (N + n)).next
      exact left_of_cursor_stays (hcursor.symm.trans (hN n).1)
    · simp only [hfuture n]
      have hcursor := congrArg ExitState.j (hiter (N + n)).next
      exact left_of_cursor_stays (hcursor.symm.trans (hN n).2)
  obtain ⟨n, hr⟩ := hstall.trapped h.contractSize
  have hn := hiter (N + (n + 1))
  exact ⟨_, _, _, _, (hpath (N + (n + 1))).choose_spec, hn.spot_level, hn.future_level,
    hn.budget, hn.diff_percent, hstall.spot_le n, hr⟩

/-- The planner returns a result exactly when its loop ends. -/
theorem doArbitrage_isSome_iff (request : ArbitrageRequest) :
    (∃ fuel, (doArbitrage fuel request).isSome) ↔
      match request with
      | .entry r => WhileLoop.Halts (entryStep r) (entryStart r)
      | .exit r => WhileLoop.Halts (exitStep r) (exitStart r) := by
  cases request with
  | entry r =>
    simp only [doArbitrage, doEntryArbitrage, Option.isSome_map]
    exact WhileLoop.exists_run_isSome_iff
  | exit r =>
    simp only [doArbitrage, doExitArbitrage, Option.isSome_map]
    exact WhileLoop.exists_run_isSome_iff

/-- The planner ends on a well-formed request exactly when no iteration of its loop
starts in a trapped state. -/
theorem doArbitrage_ends_iff (request : ArbitrageRequest) (h : request.WellFormed) :
    (∃ fuel, (doArbitrage fuel request).isSome) ↔ request.NeverTrapped := by
  rw [doArbitrage_isSome_iff]
  cases request with
  | entry r =>
    constructor
    · intro hhalts visited s hpath spot future htrap
      have hprice := (entryInvariant_of_path h hpath).spot_price h htrap.spot_level
      exact htrap.not_halts hprice (hpath.halts_iff.mp hhalts)
    · intro hnever
      by_contra hforever
      obtain ⟨visited, s, spot, future, hpath, htrap⟩ := exists_entryTrap h hforever
      exact hnever visited s hpath spot future htrap
  | exit r =>
    constructor
    · intro hhalts visited s hpath spot future htrap
      exact htrap.not_halts h.contractSize (hpath.halts_iff.mp hhalts)
    · intro hnever
      by_contra hforever
      obtain ⟨visited, s, spot, future, hpath, htrap⟩ := exists_exitTrap h hforever
      exact hnever visited s hpath spot future htrap

/-- An exit on two levels of each book, in three fills. -/
def twoLevelExit : ArbitrageRequest := .exit
  { spotOrders := [(110, 2), (109, 5)]
    futureOrders := [(100, 3), (101, 4)]
    executed := 6
    percent := 1
    contractSize := 1 }

/-- The exit on two levels ends, and so is never trapped. -/
theorem twoLevelExit_neverTrapped : twoLevelExit.WellFormed ∧ twoLevelExit.NeverTrapped := by
  have hwf : twoLevelExit.WellFormed := by
    constructor <;> simp [OffersLevels]
  exact ⟨hwf, (doArbitrage_ends_iff twoLevelExit hwf).mp ⟨4, by decide +kernel⟩⟩

/-- Five units of spot against one contract of two units. -/
def twoUnitContract : EntryRequest where
  spotOrders := [(100, 5)]
  futureOrders := [(110, 1)]
  amount := 10000
  marginQuantityPercent := 1
  percent := 1
  contractSize := 2

/-- On two-unit contracts the entry planner executes and undoes the same two units
for ever: no number of iterations is enough. -/
theorem doArbitrage_twoUnitContract : twoUnitContract.WellFormed ∧
    ∀ fuel, doArbitrage fuel (.entry twoUnitContract) = none := by
  have hwf : twoUnitContract.WellFormed := by
    constructor <;> simp [twoUnitContract, OffersLevels]
  have htrap : EntryTrap twoUnitContract (entryStart twoUnitContract) (100, 5) (110, 1) := by
    constructor <;> norm_num [twoUnitContract, entryStart, entryDiff, eps, abs_of_pos]
  have hforever := htrap.not_halts (by norm_num)
  refine ⟨hwf, fun fuel => Option.not_isSome_iff_eq_none.mp fun hsome => hforever ?_⟩
  exact (doArbitrage_isSome_iff (.entry twoUnitContract)).mp ⟨fuel, hsome⟩

end Arbexpert.Arbitrage
