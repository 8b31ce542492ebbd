import Mathlib.Algebra.Order.BigOperators.Group.List
import Mathlib.Algebra.Order.Field.Basic
import Mathlib.Order.Bounds.Basic
import Mathlib.Tactic.Linarith
import Mathlib.Tactic.Ring

/-!
# Order lists as curves over their depth

An order list is a list of prices with volumes. Laid end to end, its volumes give
every depth below the total volume a price. Two lists are matched against each
other by taking units from the heads of both, as long as the prices at the present
depth are acceptable together and a budget pays for the units of the left list.
-/

namespace DepthCurve

variable {K : Type*} [Field K]

/-- The total volume of an order list. -/
def total (orders : List (K × K)) : K := (orders.map Prod.snd).sum

/-- The total of a list with a first level. -/
theorem total_cons (level : K × K) (rest : List (K × K)) :
    total (level :: rest) = level.2 + total rest := by
  simp [total]

variable [LinearOrder K]

/-- The price of the level that lies at a depth. -/
def priceAt : List (K × K) → K → Option K
  | [], _ => none
  | (price, volume) :: rest, depth =>
    if depth < volume then some price else priceAt rest (depth - volume)

/-- The per-level quantities of the first units of an order list. -/
def firstUnits : List (K × K) → K → List (K × K)
  | [], _ => []
  | (price, volume) :: rest, units =>
    if units ≤ 0 then [] else (price, min volume units) :: firstUnits rest (units - volume)

/-- What is left of an order list after its first units were taken. -/
def dropUnits : List (K × K) → K → List (K × K)
  | [], _ => []
  | (price, volume) :: rest, units =>
    if volume ≤ units then dropUnits rest (units - volume) else (price, volume - units) :: rest

/-- What the first units cost, when a unit at price `p` costs `weight p`. -/
def cost (weight : K → K) (orders : List (K × K)) (units : K) : K :=
  ((firstUnits orders units).map fun level => weight level.1 * level.2).sum

/-- Every level has a positive price and a positive volume. -/
def Positive (orders : List (K × K)) : Prop := ∀ level ∈ orders, 0 < level.1 ∧ 0 < level.2

/-- No units need no levels. -/
theorem firstUnits_of_nonpos {orders : List (K × K)} {units : K} (h : units ≤ 0) :
    firstUnits orders units = [] := by
  cases orders with
  | nil => rfl
  | cons level rest => simp [firstUnits, h]

/-- No units cost nothing. -/
theorem cost_of_nonpos {weight : K → K} {orders : List (K × K)} {units : K} (h : units ≤ 0) :
    cost weight orders units = 0 := by
  simp [cost, firstUnits_of_nonpos h]

/-- The cost of units from a list with a first level. -/
theorem cost_cons {weight : K → K} {level : K × K} {rest : List (K × K)} {units : K}
    (h : 0 < units) : cost weight (level :: rest) units =
      weight level.1 * min level.2 units + cost weight rest (units - level.2) := by
  simp [cost, firstUnits, not_le.mpr h]

/-- The levels after the first of a positive list. -/
theorem Positive.tail {level : K × K} {rest : List (K × K)} (h : Positive (level :: rest)) :
    Positive rest :=
  fun other hother => h other (List.mem_cons_of_mem _ hother)

/-- Taking nothing leaves a positive list as it is. -/
theorem Positive.dropUnits_zero {orders : List (K × K)} (h : Positive orders) :
    dropUnits orders 0 = orders := by
  cases orders with
  | nil => rfl
  | cons level rest => simp [dropUnits, not_le.mpr (h level List.mem_cons_self).2]

variable [IsStrictOrderedRing K]

/-- A positive list has a total that is not negative. -/
theorem Positive.total_nonneg {orders : List (K × K)} (h : Positive orders) :
    0 ≤ total orders := by
  refine List.sum_nonneg fun x hx => ?_
  obtain ⟨level, hlevel, rfl⟩ := List.mem_map.mp hx
  exact (h level hlevel).2.le

/-- What is left of a positive list is positive. -/
theorem Positive.dropUnits {orders : List (K × K)} (h : Positive orders) {x : K} (hx : 0 ≤ x) :
    Positive (dropUnits orders x) := by
  induction orders generalizing x with
  | nil => exact h
  | cons level rest ih =>
    unfold DepthCurve.dropUnits
    split
    · rename_i hle
      exact ih h.tail (sub_nonneg.mpr hle)
    · rename_i hlt
      intro other hother
      rcases List.mem_cons.mp hother with rfl | hother
      · exact ⟨(h level List.mem_cons_self).1, sub_pos.mpr (not_le.mp hlt)⟩
      · exact h.tail other hother

/-- Taking units in two portions. -/
theorem dropUnits_add {orders : List (K × K)} (h : Positive orders) {x y : K} (hx : 0 ≤ x)
    (hy : 0 ≤ y) : dropUnits orders (x + y) = dropUnits (dropUnits orders x) y := by
  induction orders generalizing x with
  | nil => rfl
  | cons level rest ih =>
    by_cases hle : level.2 ≤ x
    · have hsub : x + y - level.2 = x - level.2 + y := by ring
      simp only [dropUnits, if_pos hle, if_pos (hle.trans (le_add_of_nonneg_right hy)), hsub]
      exact ih h.tail (sub_nonneg.mpr hle)
    · have hiff : level.2 ≤ x + y ↔ level.2 - x ≤ y := sub_le_iff_le_add'.symm
      simp only [dropUnits, if_neg hle, hiff]
      split
      · congr 1
        ring
      · congr 2
        ring

/-- What is left has the rest of the total volume. -/
theorem total_dropUnits {orders : List (K × K)} (h : Positive orders) {x : K} (hx : 0 ≤ x)
    (hle : x ≤ total orders) : total (dropUnits orders x) = total orders - x := by
  induction orders generalizing x with
  | nil =>
    have hzero : x = 0 := le_antisymm hle hx
    simp [dropUnits, hzero]
  | cons level rest ih =>
    rw [total_cons] at hle ⊢
    unfold dropUnits
    split
    · rename_i hfull
      rw [ih h.tail (sub_nonneg.mpr hfull) (by linarith)]
      ring
    · rw [total_cons]
      ring

/-- The price at a depth is the price at the rest of that depth in what is left. -/
theorem priceAt_add {orders : List (K × K)} {x q : K} (hq : 0 ≤ q) :
    priceAt orders (x + q) = priceAt (dropUnits orders x) q := by
  induction orders generalizing x with
  | nil => rfl
  | cons level rest ih =>
    by_cases hle : level.2 ≤ x
    · have hsub : x + q - level.2 = x - level.2 + q := by ring
      simp only [priceAt, dropUnits, if_pos hle,
        if_neg (not_lt.mpr (hle.trans (le_add_of_nonneg_right hq))), hsub]
      exact ih
    · have hiff : x + q < level.2 ↔ q < level.2 - x := lt_sub_iff_add_lt'.symm
      simp only [priceAt, dropUnits, if_neg hle, hiff]
      split
      · rfl
      · congr 1
        ring

/-- Units taken in two portions cost what both portions cost. -/
theorem cost_add (weight : K → K) {orders : List (K × K)} (h : Positive orders) {x y : K}
    (hx : 0 ≤ x) (hy : 0 ≤ y) : cost weight orders (x + y) =
      cost weight orders x + cost weight (dropUnits orders x) y := by
  rcases hy.eq_or_lt with rfl | hypos
  · simp [cost_of_nonpos]
  induction orders generalizing x with
  | nil => simp [cost, firstUnits, dropUnits]
  | cons level rest ih =>
    have hvolume := (h level List.mem_cons_self).2
    rw [cost_cons (by linarith)]
    by_cases hle : level.2 ≤ x
    · have hsub : x + y - level.2 = x - level.2 + y := by ring
      rw [cost_cons (hvolume.trans_le hle), min_eq_left hle,
        min_eq_left (hle.trans (le_add_of_nonneg_right hy)), hsub,
        ih h.tail (sub_nonneg.mpr hle)]
      simp only [dropUnits, if_pos hle]
      ring
    · have hlt := not_le.mp hle
      have hx' : cost weight (level :: rest) x = weight level.1 * x := by
        rcases hx.eq_or_lt with rfl | hxpos
        · simp [cost_of_nonpos]
        · rw [cost_cons hxpos, min_eq_right hlt.le, cost_of_nonpos (sub_nonpos.mpr hlt.le),
            add_zero]
      have hmin : min level.2 (x + y) = x + min (level.2 - x) y := by
        rw [← min_add_add_left, add_sub_cancel]
      have hsub : x + y - level.2 = y - (level.2 - x) := by ring
      simp only [dropUnits, if_neg hle]
      rw [hx', cost_cons hypos, hmin, hsub]
      ring

/-- Units within the first level cost its price each. -/
theorem cost_head {weight : K → K} {level : K × K} {rest : List (K × K)} {q : K} (hq : 0 < q)
    (hle : q ≤ level.2) : cost weight (level :: rest) q = weight level.1 * q := by
  rw [cost_cons hq, min_eq_right hle, cost_of_nonpos (sub_nonpos.mpr hle), add_zero]

/-- Units of a positive list with positive weights have a cost that is not negative. -/
theorem cost_nonneg {weight : K → K} {orders : List (K × K)} (h : Positive orders)
    (hweight : ∀ level ∈ orders, 0 < weight level.1) (x : K) : 0 ≤ cost weight orders x := by
  induction orders generalizing x with
  | nil => simp [cost, firstUnits]
  | cons level rest ih =>
    rcases le_or_gt x 0 with hx | hx
    · exact (cost_of_nonpos hx).ge
    · rw [cost_cons hx]
      have hmin : 0 ≤ min level.2 x := le_min (h level List.mem_cons_self).2.le hx.le
      have := mul_nonneg (hweight level List.mem_cons_self).le hmin
      have := ih h.tail (fun other hother => hweight other (List.mem_cons_of_mem _ hother))
        (x - level.2)
      linarith

/-- A positive amount of units that a list offers has a positive cost. -/
theorem cost_pos {weight : K → K} {orders : List (K × K)} (h : Positive orders)
    (hweight : ∀ level ∈ orders, 0 < weight level.1) {x : K} (hx : 0 < x)
    (hle : x ≤ total orders) : 0 < cost weight orders x := by
  cases orders with
  | nil => exact absurd hle (not_le.mpr hx)
  | cons level rest =>
    rw [cost_cons hx]
    have hmin : 0 < min level.2 x := lt_min (h level List.mem_cons_self).2 hx
    have := mul_pos (hweight level List.mem_cons_self) hmin
    have hrest : 0 ≤ cost weight rest (x - level.2) := cost_nonneg h.tail
      (fun other hother => hweight other (List.mem_cons_of_mem _ hother)) _
    linarith

/-- Units that a list offers, weighted by one, cost their number. -/
theorem cost_one {orders : List (K × K)} (h : Positive orders) {x : K} (hx : 0 ≤ x)
    (hle : x ≤ total orders) : cost (fun _ => 1) orders x = x := by
  induction orders generalizing x with
  | nil =>
    have hzero : x = 0 := le_antisymm hle hx
    simp [cost_of_nonpos, hzero]
  | cons level rest ih =>
    rw [total_cons] at hle
    rcases hx.eq_or_lt with rfl | hpos
    · exact cost_of_nonpos le_rfl
    rw [cost_cons hpos, one_mul]
    rcases le_total level.2 x with hfull | hpart
    · rw [min_eq_left hfull, ih h.tail (sub_nonneg.mpr hfull) (by linarith)]
      ring
    · rw [min_eq_right hpart, cost_of_nonpos (sub_nonpos.mpr hpart), add_zero]

end DepthCurve
