import Arbexpert.Foundation.GuardedRun
import Mathlib.Algebra.BigOperators.Group.List.Basic
import Mathlib.Algebra.GroupWithZero.Nat

/-!
# The potential method for runs

Some actions of a machine are charged for, and others bring a grant. When the charge of every step
is paid from its grant and from a potential of the states, what is charged for in a run is paid by
its grants and by the potential at its start. So charged actions are few where grants are few.
-/

namespace GuardedRun

variable {σ α : Type*} {step : σ → α → Option σ}

/-- When every step pays its charge, so does every run. -/
theorem exec_charge_le {I : σ → Prop} (potential : σ → ℕ) (charge grant : α → ℕ)
    (hstep : ∀ s a t, I s → step s a = some t →
      I t ∧ potential t + charge a ≤ potential s + grant a)
    {s t : σ} {actions : List α} (hI : I s) (hrun : exec step s actions = some t) :
    potential t + (actions.map charge).sum ≤ potential s + (actions.map grant).sum := by
  induction actions generalizing s with
  | nil =>
    cases hrun
    exact Nat.le_refl _
  | cons a rest ih =>
    obtain ⟨u, hu, hrest⟩ := Option.bind_eq_some_iff.mp hrun
    obtain ⟨hIu, hpaid⟩ := hstep s a u hI hu
    have hlater := ih hIu hrest
    rw [List.map_cons, List.map_cons, List.sum_cons, List.sum_cons]
    omega

/-- Equal amounts for some of the actions. -/
theorem sum_map_ite (p : α → Bool) (amount : ℕ) (actions : List α) :
    (actions.map fun a => if p a then amount else 0).sum = amount * actions.countP p := by
  induction actions with
  | nil => rfl
  | cons a rest ih =>
    rw [List.map_cons, List.sum_cons, ih, List.countP_cons, Nat.mul_add, Nat.add_comm]
    by_cases h : p a <;> simp [h]

/-- When each charged action is paid from the potential, which only granting actions raise, a run
has as many charged actions as its potential and its grants pay. -/
theorem countP_le_of_potential {I : σ → Prop} (potential : σ → ℕ) (charged granting : α → Bool)
    (grant : ℕ) (hstep : ∀ s a t, I s → step s a = some t → I t ∧
      potential t + (if charged a then 1 else 0) ≤ potential s + if granting a then grant else 0)
    {s t : σ} {actions : List α} (hI : I s) (hrun : exec step s actions = some t) :
    actions.countP charged ≤ potential s + grant * actions.countP granting := by
  have hpaid := exec_charge_le potential (fun a => if charged a then 1 else 0)
    (fun a => if granting a then grant else 0) hstep hI hrun
  rw [sum_map_ite, sum_map_ite] at hpaid
  omega

end GuardedRun
