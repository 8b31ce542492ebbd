import Mathlib.Algebra.BigOperators.Ring.List
import Mathlib.Algebra.Order.BigOperators.Group.List
import Mathlib.Algebra.Order.Ring.Defs
import Mathlib.Data.List.MinMax

/-!
# Amounts and notionals of fills

A fill has an amount and a price, and its notional is their product. When as much is bought as
is sold, and every price paid is below every price received, less is paid than received.
-/

namespace Fills

variable {α K : Type*} [Ring K]

/-- The amount of all fills. -/
def total (amount : α → K) (fills : List α) : K := (fills.map amount).sum

/-- The notional of all fills. -/
def notional (amount price : α → K) (fills : List α) : K :=
  (fills.map fun fill => amount fill * price fill).sum

variable [LinearOrder K] [IsStrictOrderedRing K] {amount price : α → K} {fills buys sells : List α}

/-- Fills at prices up to a limit. -/
theorem notional_le {limit : K} (hamount : ∀ fill ∈ fills, 0 < amount fill)
    (hprice : ∀ fill ∈ fills, price fill ≤ limit) :
    notional amount price fills ≤ total amount fills * limit := by
  rw [total, ← List.sum_map_mul_right]
  apply List.sum_le_sum
  intro fill hfill
  exact mul_le_mul_of_nonneg_left (hprice fill hfill) (hamount fill hfill).le

/-- Some fills at prices above a limit. -/
theorem lt_notional {limit : K} (hsome : fills ≠ []) (hamount : ∀ fill ∈ fills, 0 < amount fill)
    (hprice : ∀ fill ∈ fills, limit < price fill) :
    total amount fills * limit < notional amount price fills := by
  rw [total, ← List.sum_map_mul_right]
  apply List.sum_lt_sum_of_ne_nil hsome
  intro fill hfill
  exact mul_lt_mul_of_pos_left (hprice fill hfill) (hamount fill hfill)

/-- Some fills have a positive amount. -/
theorem total_pos (hsome : fills ≠ []) (hamount : ∀ fill ∈ fills, 0 < amount fill) :
    0 < total amount fills := by
  have hlt := List.sum_lt_sum_of_ne_nil hsome (fun _ => (0 : K)) amount hamount
  rwa [List.map_const', List.sum_replicate, nsmul_zero] at hlt

/-- What is bought more cheaply than it is sold costs less. -/
theorem notional_lt (hbuys : ∀ buy ∈ buys, 0 < amount buy)
    (hsells : ∀ sell ∈ sells, 0 < amount sell) (hsome : sells ≠ [])
    (hflat : total amount buys = total amount sells)
    (hcheaper : ∀ buy ∈ buys, ∀ sell ∈ sells, price buy < price sell) :
    notional amount price buys < notional amount price sells := by
  have hpos : 0 < total amount buys := by
    rw [hflat]
    exact total_pos hsome hsells
  cases htop : buys.argmax price with
  | none =>
    rw [List.argmax_eq_none.mp htop] at hpos
    exact absurd hpos (lt_irrefl _)
  | some top =>
    have hle := notional_le hbuys fun buy hbuy => List.le_of_mem_argmax hbuy htop
    have hlt := lt_notional hsome hsells (hcheaper top (List.argmax_mem htop))
    rw [hflat] at hle
    exact lt_of_le_of_lt hle hlt

end Fills
