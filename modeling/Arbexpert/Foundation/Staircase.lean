import Mathlib.Data.List.MinMax
import Mathlib.Data.List.TakeWhile

/-!
# Searching pairs of two ordered lists

A scan with two pointers looks at one partner for each element of the first list: the first
element of the second list that accepts it, never going back. When an element that is accepted
stays accepted by all earlier ones, every accepted pair is matched by a partner that the scan
has looked at and that comes no later in the second list.
-/

namespace Staircase

variable {α β K : Type*} {accepts : α → β → Bool}

/-- The pairs at which the scan stops: each `x` with the first `y` that accepts it. -/
def candidates (accepts : α → β → Bool) : List α → List β → List (α × β)
  | [], _ => []
  | x :: xs, ys =>
    match ys.dropWhile fun y => !accepts x y with
    | [] => []
    | y :: rest => (x, y) :: candidates accepts xs (y :: rest)

/-- An element that does not satisfy the test is not dropped. -/
theorem mem_dropWhile {p : β → Bool} {y : β} {ys : List β} (hy : y ∈ ys) (hp : p y = false) :
    y ∈ ys.dropWhile p := by
  rw [← List.takeWhile_append_dropWhile (p := p) (l := ys)] at hy
  rcases List.mem_append.mp hy with htaken | hleft
  · simp [List.mem_takeWhile_imp htaken] at hp
  · exact hleft

/-- The first element that is left is accepted. -/
theorem accepts_of_dropWhile {x : α} {y : β} {ys rest : List β}
    (h : (ys.dropWhile fun y => !accepts x y) = y :: rest) : accepts x y = true := by
  have hhead := List.head?_dropWhile_not (fun y => !accepts x y) ys
  simpa [h] using hhead

/-- Every candidate is an accepted pair of elements of the two lists. -/
theorem mem_candidates {xs : List α} {ys : List β} {pair : α × β}
    (h : pair ∈ candidates accepts xs ys) :
    pair.1 ∈ xs ∧ pair.2 ∈ ys ∧ accepts pair.1 pair.2 = true := by
  induction xs generalizing ys with
  | nil => simp [candidates] at h
  | cons x xs ih =>
    cases hleft : ys.dropWhile fun y => !accepts x y with
    | nil => simp [candidates, hleft] at h
    | cons y rest =>
      have hsub : (y :: rest).Sublist ys := hleft ▸ List.dropWhile_sublist _
      simp only [candidates, hleft, List.mem_cons] at h
      rcases h with rfl | h
      · exact ⟨List.mem_cons_self, hsub.subset List.mem_cons_self, accepts_of_dropWhile hleft⟩
      · obtain ⟨hx, hy, haccepts⟩ := ih h
        exact ⟨List.mem_cons_of_mem _ hx, hsub.subset hy, haccepts⟩

/-- When acceptance passes on to earlier elements, every accepted pair has a candidate for the
same element, whose partner comes no later. -/
theorem exists_candidate {before : β → β → Prop} {xs : List α} {ys : List β}
    (hxs : xs.Pairwise fun earlier later => ∀ y ∈ ys, accepts later y = true →
      accepts earlier y = true)
    (hys : ys.Pairwise before) {x : α} {y : β} (hx : x ∈ xs) (hy : y ∈ ys)
    (haccepts : accepts x y = true) :
    ∃ partner, (x, partner) ∈ candidates accepts xs ys ∧ (partner = y ∨ before partner y) := by
  induction xs generalizing ys with
  | nil => cases hx
  | cons first xs ih =>
    obtain ⟨hfirst, htail⟩ := List.pairwise_cons.mp hxs
    have hkept : accepts first y = true := by
      rcases List.mem_cons.mp hx with rfl | hx
      · exact haccepts
      · exact hfirst x hx y hy haccepts
    have hmem : y ∈ ys.dropWhile fun y => !accepts first y := mem_dropWhile hy (by simp [hkept])
    cases hleft : ys.dropWhile fun y => !accepts first y with
    | nil => simp [hleft] at hmem
    | cons partner rest =>
      have hsub : (partner :: rest).Sublist ys := hleft ▸ List.dropWhile_sublist _
      rw [hleft] at hmem
      simp only [candidates, hleft, List.mem_cons]
      rcases List.mem_cons.mp hx with rfl | hx
      · refine ⟨partner, Or.inl rfl, ?_⟩
        rcases List.mem_cons.mp hmem with heq | hrest
        · exact Or.inl heq.symm
        · exact Or.inr ((List.pairwise_cons.mp (hys.sublist hsub)).1 y hrest)
      · have hrest := htail.imp fun h y hy => h y (hsub.subset hy)
        obtain ⟨later, hlater, hbefore⟩ := ih hrest (hys.sublist hsub) hx hmem
        exact ⟨later, Or.inr hlater, hbefore⟩

section Least

variable [LinearOrder K] {cost : α × β → K}

/-- The candidate of least cost exists exactly when some pair is accepted. -/
theorem argmin_eq_none_iff {xs : List α} {ys : List β}
    (hxs : xs.Pairwise fun earlier later => ∀ y ∈ ys, accepts later y = true →
      accepts earlier y = true) :
    (candidates accepts xs ys).argmin cost = none ↔
      ∀ x ∈ xs, ∀ y ∈ ys, accepts x y = false := by
  rw [List.argmin_eq_none]
  constructor
  · intro hnone x hx y hy
    refine Bool.eq_false_iff.mpr fun haccepts => ?_
    have hany : ys.Pairwise fun _ _ => True := List.pairwise_of_forall fun _ _ => trivial
    obtain ⟨partner, hpartner, _⟩ := exists_candidate hxs hany hx hy haccepts
    simp [hnone] at hpartner
  · intro hall
    refine List.eq_nil_iff_forall_not_mem.mpr fun pair hpair => ?_
    obtain ⟨hx, hy, haccepts⟩ := mem_candidates hpair
    simp [hall _ hx _ hy] at haccepts

/-- When the cost of a pair grows with the place of its partner, the candidate of least cost is
an accepted pair of least cost. -/
theorem argmin_least {xs : List α} {ys : List β}
    (hxs : xs.Pairwise fun earlier later => ∀ y ∈ ys, accepts later y = true →
      accepts earlier y = true)
    (hys : ys.Pairwise fun earlier later => ∀ x ∈ xs, cost (x, earlier) ≤ cost (x, later))
    {least : α × β} (hleast : (candidates accepts xs ys).argmin cost = some least) :
    (least.1 ∈ xs ∧ least.2 ∈ ys ∧ accepts least.1 least.2 = true) ∧
      ∀ x ∈ xs, ∀ y ∈ ys, accepts x y = true → cost least ≤ cost (x, y) := by
  refine ⟨mem_candidates (List.argmin_mem hleast), fun x hx y hy haccepts => ?_⟩
  obtain ⟨partner, hpartner, hbefore⟩ := exists_candidate hxs hys hx hy haccepts
  have hle : cost least ≤ cost (x, partner) := List.le_of_mem_argmin hpartner hleast
  rcases hbefore with rfl | hbefore
  · exact hle
  · exact hle.trans (hbefore x hx)

end Least

end Staircase
