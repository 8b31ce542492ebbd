import Arbexpert.Foundation.DepthCurve

/-!
# Greedy matching of two order lists

The greedy matcher takes units from the heads of two order lists while the two
prices are acceptable together and the budget pays for them. A state of the
matcher that was reached by such fills carries its whole history: what is left of
both lists, and of the budget, is determined by the number of units matched. When
no further fill is possible, that number is the greatest feasible one.
-/

namespace DepthCurve

variable {K : Type*} [Field K] [LinearOrder K]

/-- Two order lists with the weights of the left units, the pairs of prices that may
be matched, and the budget for the left units. -/
structure Matching (K : Type*) where
  left : List (K × K)
  right : List (K × K)
  weight : K → K
  accepts : K → K → Prop
  budget : K

/-- Two lists offer `units` units at acceptable pairs of prices within the budget. -/
structure Matching.Feasible (M : Matching K) (units : K) : Prop where
  nonneg : 0 ≤ units
  le_left : units ≤ total M.left
  le_right : units ≤ total M.right
  cost_le : cost M.weight M.left units ≤ M.budget
  accepts : ∀ depth, 0 ≤ depth → depth < units → ∀ a b, priceAt M.left depth = some a →
    priceAt M.right depth = some b → M.accepts a b

/-- Positive order lists with positive weights. -/
structure Matching.Regular (M : Matching K) : Prop where
  left : Positive M.left
  right : Positive M.right
  weight : ∀ level ∈ M.left, 0 < M.weight level.1

/-- The state of a matcher after `units` acceptable units: what is left of the two
lists and of the budget. -/
structure Matching.Matched (M : Matching K) (units : K) (left right : List (K × K))
    (available : K) : Prop where
  nonneg : 0 ≤ units
  le_left : units ≤ total M.left
  le_right : units ≤ total M.right
  left_eq : left = dropUnits M.left units
  right_eq : right = dropUnits M.right units
  available_eq : available = M.budget - cost M.weight M.left units
  accepts : ∀ depth, 0 ≤ depth → depth < units → ∀ a b, priceAt M.left depth = some a →
    priceAt M.right depth = some b → M.accepts a b

/-- Every level left of a list with positive weights has a positive weight. -/
theorem weight_dropUnits {weight : K → K} {orders : List (K × K)}
    (h : ∀ level ∈ orders, 0 < weight level.1) (x : K) :
    ∀ level ∈ dropUnits orders x, 0 < weight level.1 := by
  induction orders generalizing x with
  | nil => exact h
  | cons first rest ih =>
    unfold dropUnits
    split
    · exact ih (fun level hlevel => h level (List.mem_cons_of_mem _ hlevel)) _
    · intro level hlevel
      rcases List.mem_cons.mp hlevel with rfl | hlevel
      · exact h first List.mem_cons_self
      · exact h level (List.mem_cons_of_mem _ hlevel)

variable [IsStrictOrderedRing K] {M : Matching K}

/-- The matcher starts with both lists and the whole budget. -/
theorem Matching.Regular.start (hM : M.Regular) :
    M.Matched 0 M.left M.right M.budget where
  nonneg := le_rfl
  le_left := hM.left.total_nonneg
  le_right := hM.right.total_nonneg
  left_eq := hM.left.dropUnits_zero.symm
  right_eq := hM.right.dropUnits_zero.symm
  available_eq := by rw [cost_of_nonpos le_rfl, sub_zero]
  accepts _ hnonneg hlt := absurd hlt (not_lt.mpr hnonneg)

/-- Within the first level of what is left, the price is that of the level. -/
theorem priceAt_of_head {orders : List (K × K)} {level : K × K} {rest : List (K × K)}
    {x depth : K} (hdrop : dropUnits orders x = level :: rest) (hle : x ≤ depth)
    (hlt : depth < x + level.2) : priceAt orders depth = some level.1 := by
  have hdepth : priceAt orders (x + (depth - x)) = some level.1 := by
    rw [priceAt_add (sub_nonneg.mpr hle), hdrop]
    simp only [priceAt, if_pos (sub_lt_iff_lt_add'.mpr hlt)]
  rwa [add_sub_cancel] at hdepth

/-- The first level of what is left is within the total volume. -/
theorem head_le_total {orders : List (K × K)} {level : K × K} {rest : List (K × K)} {x : K}
    (h : Positive orders) (hx : 0 ≤ x) (hle : x ≤ total orders)
    (hdrop : dropUnits orders x = level :: rest) : x + level.2 ≤ total orders := by
  have htotal := total_dropUnits h hx hle
  have hrest : Positive (level :: rest) := hdrop ▸ h.dropUnits hx
  rw [hdrop, total_cons] at htotal
  linarith [hrest.tail.total_nonneg]

/-- A fill from the two first levels, at acceptable prices, continues the matching. -/
theorem Matching.Matched.fill (hM : M.Regular) {units available q : K} {a b : K × K}
    {left right : List (K × K)} (h : M.Matched units (a :: left) (b :: right) available)
    (hq : 0 < q) (hqa : q ≤ a.2) (hqb : q ≤ b.2) (haccepts : M.accepts a.1 b.1) :
    M.Matched (units + q) (dropUnits (a :: left) q) (dropUnits (b :: right) q)
      (available - M.weight a.1 * q) where
  nonneg := by linarith [h.nonneg]
  le_left := by linarith [head_le_total hM.left h.nonneg h.le_left h.left_eq.symm]
  le_right := by linarith [head_le_total hM.right h.nonneg h.le_right h.right_eq.symm]
  left_eq := by rw [h.left_eq, dropUnits_add hM.left h.nonneg hq.le]
  right_eq := by rw [h.right_eq, dropUnits_add hM.right h.nonneg hq.le]
  available_eq := by
    rw [cost_add _ hM.left h.nonneg hq.le, ← h.left_eq, cost_head hq hqa, h.available_eq]
    ring
  accepts depth hnonneg hlt a' b' ha' hb' := by
    rcases lt_or_ge depth units with hbefore | hafter
    · exact h.accepts depth hnonneg hbefore a' b' ha' hb'
    · rw [priceAt_of_head h.left_eq.symm hafter (by linarith)] at ha'
      rw [priceAt_of_head h.right_eq.symm hafter (by linarith)] at hb'
      cases ha'
      cases hb'
      exact haccepts

/-- A matching that is stopped, because a list or the budget is used up or because
the next prices are not acceptable, has matched the greatest feasible quantity. -/
theorem Matching.Matched.isGreatest (hM : M.Regular) {units available : K}
    {left right : List (K × K)} (h : M.Matched units left right available)
    (havailable : 0 ≤ available)
    (hstop : left = [] ∨ right = [] ∨ available = 0 ∨
      ∃ a b, left.head? = some a ∧ right.head? = some b ∧ ¬ M.accepts a.1 b.1) :
    IsGreatest {q | M.Feasible q} units := by
  have hfeasible : M.Feasible units :=
    ⟨h.nonneg, h.le_left, h.le_right, by linarith [h.available_eq], h.accepts⟩
  refine ⟨hfeasible, fun q hq => ?_⟩
  by_contra hmore
  have hlt : units < q := not_le.mp hmore
  have hleft := total_dropUnits hM.left h.nonneg h.le_left
  have hright := total_dropUnits hM.right h.nonneg h.le_right
  rw [← h.left_eq] at hleft
  rw [← h.right_eq] at hright
  rcases hstop with rfl | rfl | rfl | ⟨a, b, ha, hb, hreject⟩
  · have := hq.le_left
    simp only [total, List.map_nil, List.sum_nil] at hleft
    unfold total at this
    linarith
  · have := hq.le_right
    simp only [total, List.map_nil, List.sum_nil] at hright
    unfold total at this
    linarith
  · have hmoreCost : 0 < cost M.weight left (q - units) := by
      rw [h.left_eq]
      refine cost_pos (hM.left.dropUnits h.nonneg) (weight_dropUnits hM.weight _)
        (sub_pos.mpr hlt) ?_
      rw [← h.left_eq, hleft]
      linarith [hq.le_left]
    have hcost := cost_add M.weight hM.left h.nonneg (sub_nonneg.mpr hlt.le)
    rw [add_sub_cancel, ← h.left_eq] at hcost
    linarith [hq.cost_le, h.available_eq]
  · obtain ⟨leftRest, rfl⟩ := List.head?_eq_some_iff.mp ha
    obtain ⟨rightRest, rfl⟩ := List.head?_eq_some_iff.mp hb
    have hpositive : ∀ {orders : List (K × K)} {level : K × K} {rest : List (K × K)},
        Positive orders → level :: rest = dropUnits orders units → 0 < level.2 := by
      intro orders level rest hpos hdrop
      exact (hpos.dropUnits h.nonneg level (by rw [← hdrop]; exact List.mem_cons_self)).2
    refine hreject (hq.accepts units h.nonneg hlt a.1 b.1 ?_ ?_)
    · exact priceAt_of_head h.left_eq.symm le_rfl (by linarith [hpositive hM.left h.left_eq])
    · exact priceAt_of_head h.right_eq.symm le_rfl (by linarith [hpositive hM.right h.right_eq])

end DepthCurve
