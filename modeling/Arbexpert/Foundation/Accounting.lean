import Mathlib.Algebra.BigOperators.Group.List.Basic
import Mathlib.Algebra.GroupWithZero.Nat

/-!
# Accounts of a machine with many parts

A total over the parts of a machine changes by what the part that moves changes. Events at
the ends of equal intervals are listed in the order of their times, and the list of a longer
time continues that of a shorter one.
-/

namespace Accounting

variable {α : Type*}

/-- When one part is replaced, the total changes by its share. -/
theorem sum_map_set (f : α → ℕ) {parts : List α} {i : ℕ} {old : α} (hold : parts[i]? = some old)
    (new : α) : ((parts.set i new).map f).sum + f old = (parts.map f).sum + f new := by
  induction parts generalizing i with
  | nil => simp at hold
  | cons part parts ih =>
    cases i with
    | zero =>
      cases hold
      simp only [List.set_cons_zero, List.map_cons, List.sum_cons]
      omega
    | succ i =>
      have hrest := ih hold
      simp only [List.set_cons_succ, List.map_cons, List.sum_cons]
      omega

/-- A property of all parts holds after one of them is replaced by a part that has it. -/
theorem forall_mem_set {P : α → Prop} {parts : List α} (hparts : ∀ part ∈ parts, P part) {i : ℕ}
    {new : α} (hnew : P new) : ∀ part ∈ parts.set i new, P part := by
  intro part hpart
  rcases List.mem_or_eq_of_mem_set hpart with hold | rfl
  · exact hparts part hold
  · exact hnew

/-- The ends of a number of equal intervals. -/
def ticks (start interval count : ℕ) : List ℕ :=
  (List.range count).map fun k => start + (k + 1) * interval

/-- The ends of the intervals after the first ones come after those of the first ones. -/
theorem ticks_add (start interval m n : ℕ) : ticks start interval m ++
    ticks (start + m * interval) interval n = ticks start interval (m + n) := by
  simp only [ticks, List.range_add, List.map_append, List.map_map, List.append_cancel_left_eq]
  refine List.map_congr_left fun k _ => ?_
  simp only [Function.comp_apply, Nat.add_mul]
  omega

/-- The ends of no intervals. -/
@[simp] theorem ticks_zero (start interval : ℕ) : ticks start interval 0 = [] := rfl

end Accounting
