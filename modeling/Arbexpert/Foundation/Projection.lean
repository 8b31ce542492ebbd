import Arbexpert.Foundation.GuardedRun
import Mathlib.Data.List.Basic
import Mathlib.Logic.Function.Basic

/-!
# Projections of a state and of its runs

The entries of a map under the keys of one owner, and the members of a list that belong to
one owner, make up a smaller state. When a step of the owner does the same there, and every
other step is not seen there, a run is projected to the run of the steps of the owner.
-/

namespace Projection

section Maps

variable {K V : Type*} (p : K → Prop) [DecidablePred p] (default : V)

/-- The entries of a map under the keys of the owner. -/
def only (f : K → V) : K → V := fun key => if p key then f key else default

variable {p default} {f : K → V} {key : K}

/-- The entry of a key of the owner. -/
theorem only_of_pos (hkey : p key) : only p default f key = f key := if_pos hkey

/-- A map with no entry but the default is its own projection. -/
@[simp] theorem only_const : only p default (fun _ => default) = fun _ => default := by
  funext key
  exact ite_self _

variable [DecidableEq K]

/-- Writing at a key of the owner. -/
theorem only_update_of_pos (hkey : p key) (value : V) :
    only p default (Function.update f key value) =
      Function.update (only p default f) key value := by
  funext other
  by_cases hother : other = key
  · subst hother
    rw [only_of_pos hkey, Function.update_self, Function.update_self]
  · simp only [only, Function.update_of_ne hother]

/-- Writing at another key. -/
theorem only_update_of_neg (hkey : ¬p key) (value : V) :
    only p default (Function.update f key value) = only p default f := by
  funext other
  by_cases hother : other = key
  · subst hother
    simp only [only, if_neg hkey]
  · simp only [only, Function.update_of_ne hother]

end Maps

section Lists

variable {α : Type*} (p : α → Bool)

/-- The position that a member of a list has among those of the owner. -/
def position (l : List α) (i : ℕ) : ℕ := ((l.take i).filter p).length

variable {p} {l : List α} {i : ℕ} {a : α}

/-- A list around one of its members, and after that member was replaced or removed. -/
theorem split_of_getElem? (ha : l[i]? = some a) : l = l.take i ++ a :: l.drop (i + 1) ∧
    (∀ b, l.set i b = l.take i ++ b :: l.drop (i + 1)) ∧
      l.eraseIdx i = l.take i ++ l.drop (i + 1) := by
  obtain ⟨hi, rfl⟩ := List.getElem?_eq_some_iff.mp ha
  refine ⟨?_, fun b => ?_, List.eraseIdx_eq_take_drop_succ ..⟩
  · rw [List.getElem_cons_drop, List.take_append_drop]
  · rw [List.set_eq_take_append_cons_drop, if_pos hi]

/-- The members of the owner around one of them. -/
theorem filter_split (ha : l[i]? = some a) (hp : p a = true) :
    l.filter p = (l.take i).filter p ++ a :: (l.drop (i + 1)).filter p := by
  conv_lhs => rw [(split_of_getElem? ha).1]
  rw [List.filter_append, List.filter_cons_of_pos hp]

/-- A member of the owner is found at its position. -/
theorem getElem?_filter (ha : l[i]? = some a) (hp : p a = true) :
    (l.filter p)[position p l i]? = some a := by
  rw [filter_split ha hp, position, List.getElem?_append_right (Nat.le_refl _), Nat.sub_self]
  rfl

/-- Replacing a member of the owner by another one. -/
theorem filter_set (ha : l[i]? = some a) (hp : p a = true) {b : α} (hb : p b = true) :
    (l.set i b).filter p = (l.filter p).set (position p l i) b := by
  rw [(split_of_getElem? ha).2.1, filter_split ha hp, position,
    List.set_append_right _ _ (Nat.le_refl _), Nat.sub_self, List.filter_append,
    List.filter_cons_of_pos hb]
  rfl

/-- Removing a member of the owner. -/
theorem filter_eraseIdx (ha : l[i]? = some a) (hp : p a = true) :
    (l.eraseIdx i).filter p = (l.filter p).eraseIdx (position p l i) := by
  rw [(split_of_getElem? ha).2.2, filter_split ha hp, position,
    List.eraseIdx_append_of_length_le (Nat.le_refl _), Nat.sub_self, List.filter_append]
  rfl

/-- Replacing a member of another owner by one of another owner. -/
theorem filter_set_of_neg (ha : l[i]? = some a) (hp : p a = false) {b : α} (hb : p b = false) :
    (l.set i b).filter p = l.filter p := by
  obtain ⟨hl, hset, _⟩ := split_of_getElem? ha
  conv_rhs => rw [hl]
  rw [hset, List.filter_append, List.filter_append, List.filter_cons_of_neg (by simp [hb]),
    List.filter_cons_of_neg (by simp [hp])]

/-- Removing a member of another owner. -/
theorem filter_eraseIdx_of_neg (ha : l[i]? = some a) (hp : p a = false) :
    (l.eraseIdx i).filter p = l.filter p := by
  obtain ⟨hl, _, herase⟩ := split_of_getElem? ha
  conv_rhs => rw [hl]
  rw [herase, List.filter_append, List.filter_append, List.filter_cons_of_neg (by simp [hp])]

end Lists

section Runs

variable {σ α τ β : Type*} {step : σ → α → Option σ} {step' : τ → β → Option τ}

/-- The actions of a run that are seen in the projection, as they read there. -/
def project (step : σ → α → Option σ) (own : σ → α → Option β) : σ → List α → List β
  | _, [] => []
  | s, a :: rest =>
    match step s a with
    | none => []
    | some t => (own s a).toList ++ project step own t rest

/-- When a step that is seen in the projection is matched there, and any other step does not
matter to it, every run is matched by the run of the steps that are seen. -/
theorem exec_project {own : σ → α → Option β} {R : σ → τ → Prop}
    (hown : ∀ s u a b t, R s u → own s a = some b → step s a = some t →
      ∃ v, step' u b = some v ∧ R t v)
    (hother : ∀ s u a t, R s u → own s a = none → step s a = some t → R t u)
    {s t : σ} {u : τ} {actions : List α} (hR : R s u)
    (hrun : GuardedRun.exec step s actions = some t) :
    ∃ v, GuardedRun.exec step' u (project step own s actions) = some v ∧ R t v := by
  induction actions generalizing s u with
  | nil =>
    cases hrun
    exact ⟨u, rfl, hR⟩
  | cons a rest ih =>
    obtain ⟨s', hstep, hrest⟩ := Option.bind_eq_some_iff.mp hrun
    simp only [project, hstep]
    cases hcase : own s a with
    | none => exact ih (hother s u a s' hR hcase hstep) hrest
    | some b =>
      obtain ⟨v, hv, hmatched⟩ := hown s u a b s' hR hcase hstep
      obtain ⟨w, hw, hend⟩ := ih hmatched hrest
      refine ⟨w, ?_, hend⟩
      rw [Option.toList_some, List.singleton_append, GuardedRun.exec, hv, Option.bind_some]
      exact hw

end Runs

end Projection
