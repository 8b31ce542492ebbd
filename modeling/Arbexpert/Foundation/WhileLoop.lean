import Mathlib.Algebra.Order.BigOperators.Group.List
import Mathlib.Data.List.Induction
import Mathlib.Logic.Function.Iterate

/-!
# While loops as partial step functions

The body of a loop, together with its test and its `break` statements, is a step
function: `none` means that the loop is left in the present state. A path lists
the states in which an iteration was started. Whether a loop ends is a statement
about paths, so a loop that never ends has no result to be right about.
-/

namespace WhileLoop

variable {σ : Type*} {step : σ → Option σ}

/-- A path from `s` to `t`; the list holds the states before each iteration. -/
inductive Path (step : σ → Option σ) : σ → List σ → σ → Prop
  | nil (s : σ) : Path step s [] s
  | cons {s t u : σ} {visited : List σ} : step s = some t → Path step t visited u →
      Path step s (s :: visited) u

/-- The loop started in `s` is left in `t`, after iterations in `visited`. -/
def Ends (step : σ → Option σ) (s : σ) (visited : List σ) (t : σ) : Prop :=
  Path step s visited t ∧ step t = none

/-- The loop started in `s` is left after finitely many iterations. -/
def Halts (step : σ → Option σ) (s : σ) : Prop := ∃ visited t, Ends step s visited t

/-- Run the loop for at most `fuel` iterations; `none` when that is not enough. -/
def run (step : σ → Option σ) : ℕ → σ → Option σ
  | 0, _ => none
  | fuel + 1, s =>
    match step s with
    | none => some s
    | some t => run step fuel t

/-- A property kept by the iterations of a path holds at its end. -/
theorem Path.invariant_visited {I : σ → Prop} {s t : σ} {visited : List σ}
    (hpath : Path step s visited t) (hstart : I s)
    (hstep : ∀ u ∈ visited, ∀ v, I u → step u = some v → I v) : I t := by
  induction hpath with
  | nil => exact hstart
  | cons hs _ ih =>
    exact ih (hstep _ List.mem_cons_self _ hstart hs)
      fun u hu => hstep u (List.mem_cons_of_mem _ hu)

/-- A property kept by every iteration holds at the end of every path. -/
theorem Path.invariant {I : σ → Prop} {s t : σ} {visited : List σ}
    (hpath : Path step s visited t) (hstart : I s)
    (hstep : ∀ u v, I u → step u = some v → I v) : I t :=
  hpath.invariant_visited hstart fun u _ => hstep u

/-- Every state of the loop started in `s` satisfies `Q`, and the loop is left after at most
so many iterations. -/
def StatesSatisfy (step : σ → Option σ) (Q : σ → Prop) : ℕ → σ → Prop
  | 0, s => Q s ∧ (step s).isNone
  | fuel + 1, s => Q s ∧ ∀ t ∈ step s, StatesSatisfy step Q fuel t

/-- Whether the states of a loop have a decidable property is computed along the loop. -/
instance StatesSatisfy.decidable {Q : σ → Prop} [hQ : DecidablePred Q] :
    ∀ (fuel : ℕ) (s : σ), Decidable (StatesSatisfy step Q fuel s)
  | 0, s => inferInstanceAs (Decidable (Q s ∧ (step s).isNone))
  | fuel + 1, s =>
    have := StatesSatisfy.decidable (Q := Q) fuel
    inferInstanceAs (Decidable (Q s ∧ ∀ t ∈ step s, StatesSatisfy step Q fuel t))

/-- What every state of the loop satisfies holds at the end of each path. -/
theorem StatesSatisfy.of_path {Q : σ → Prop} {fuel : ℕ} {s t : σ} {visited : List σ}
    (h : StatesSatisfy step Q fuel s) (hpath : Path step s visited t) : Q t := by
  induction hpath generalizing fuel with
  | nil =>
    cases fuel with
    | zero => exact h.1
    | succ fuel => exact h.1
  | cons hs _ ih =>
    cases fuel with
    | zero => simp [StatesSatisfy, hs] at h
    | succ fuel => exact ih (h.2 _ hs)

/-- A path can be split before each state that it lists. -/
theorem Path.split {s t u : σ} {visited : List σ} (hpath : Path step s visited t)
    (hmem : u ∈ visited) : ∃ earlier later v, visited = earlier ++ u :: later ∧
      Path step s earlier u ∧ step u = some v ∧ Path step v later t := by
  induction hpath with
  | nil => cases hmem
  | cons hs hrest ih =>
    rcases List.mem_cons.mp hmem with rfl | hmem
    · exact ⟨[], _, _, rfl, .nil _, hs, hrest⟩
    · obtain ⟨earlier, later, v, rfl, hearlier, hu, hlater⟩ := ih hmem
      exact ⟨_ :: earlier, later, v, rfl, .cons hs hearlier, hu, hlater⟩

/-- Paths compose. -/
theorem Path.append {s t u : σ} {visited later : List σ} (hpath : Path step s visited t)
    (hlater : Path step t later u) : Path step s (visited ++ later) u := by
  induction hpath with
  | nil => exact hlater
  | cons hs _ ih => exact .cons hs (ih hlater)

/-- Extending a path by one iteration. -/
theorem Path.snoc {s t u : σ} {visited : List σ} (hpath : Path step s visited t)
    (hs : step t = some u) : Path step s (visited ++ [t]) u :=
  hpath.append (.cons hs (.nil u))

/-- The last iteration of a path that is not empty. -/
theorem Path.last {s t u : σ} {visited : List σ} (hpath : Path step s (visited ++ [u]) t) :
    Path step s visited u ∧ step u = some t := by
  induction visited generalizing s with
  | nil =>
    cases hpath with
    | cons hs hrest =>
      cases hrest
      exact ⟨.nil _, hs⟩
  | cons w rest ih =>
    cases hpath with
    | cons hs hrest =>
      obtain ⟨hinit, hlast⟩ := ih hrest
      exact ⟨.cons hs hinit, hlast⟩

/-- Paths that cannot be continued are determined by their start. -/
theorem Ends.unique {s t t' : σ} {visited visited' : List σ} (h : Ends step s visited t)
    (h' : Ends step s visited' t') : visited = visited' ∧ t = t' := by
  obtain ⟨hpath, hend⟩ := h
  induction hpath generalizing visited' with
  | nil =>
    cases h'.1 with
    | nil => exact ⟨rfl, rfl⟩
    | cons hs _ => simp [hend] at hs
  | cons hs _ ih =>
    cases h'.1 with
    | nil => simp [h'.2] at hs
    | cons hs' hrest =>
      cases Option.some.inj (hs.symm.trans hs')
      obtain ⟨hvisited, ht⟩ := ih ⟨hrest, h'.2⟩ hend
      exact ⟨by rw [hvisited], ht⟩

/-- Execution with enough fuel finds exactly the state in which the loop is left. -/
theorem ends_of_run {fuel : ℕ} {s t : σ} (h : run step fuel s = some t) :
    ∃ visited, Ends step s visited t := by
  induction fuel generalizing s with
  | zero => simp [run] at h
  | succ fuel ih =>
    cases hs : step s with
    | none =>
      simp only [run, hs, Option.some.injEq] at h
      subst h
      exact ⟨[], .nil _, hs⟩
    | some u =>
      simp only [run, hs] at h
      obtain ⟨visited, hpath, hend⟩ := ih h
      exact ⟨s :: visited, .cons hs hpath, hend⟩

/-- A loop that is left after `visited` needs one unit of fuel more than that. -/
theorem Ends.run_eq {s t : σ} {visited : List σ} (h : Ends step s visited t) :
    run step (visited.length + 1) s = some t := by
  obtain ⟨hpath, hend⟩ := h
  induction hpath with
  | nil => simp [run, hend]
  | cons hs _ ih => simpa [run, hs] using ih hend

/-- Some amount of fuel is enough exactly when the loop ends. -/
theorem exists_run_isSome_iff {s : σ} : (∃ fuel, (run step fuel s).isSome) ↔ Halts step s := by
  constructor
  · rintro ⟨fuel, hfuel⟩
    obtain ⟨t, ht⟩ := Option.isSome_iff_exists.mp hfuel
    obtain ⟨visited, hends⟩ := ends_of_run ht
    exact ⟨visited, t, hends⟩
  · rintro ⟨visited, t, hends⟩
    exact ⟨visited.length + 1, by simp [hends.run_eq]⟩

/-- A loop does not end from a set of states that every iteration stays in. -/
theorem not_halts_of_trap {T : σ → Prop} (htrap : ∀ s, T s → ∃ t, step s = some t ∧ T t)
    {s : σ} (hs : T s) : ¬ Halts step s := by
  rintro ⟨visited, t, hpath, hend⟩
  have ht : T t := by
    refine hpath.invariant hs fun u v hu hstep => ?_
    obtain ⟨w, hw, hT⟩ := htrap u hu
    cases Option.some.inj (hw.symm.trans hstep)
    exact hT
  obtain ⟨u, hu, _⟩ := htrap t ht
  simp [hend] at hu

/-- A loop that reaches a state from which it does not end, does not end. -/
theorem Path.halts_iff {s t : σ} {visited : List σ} (hpath : Path step s visited t) :
    Halts step s ↔ Halts step t := by
  induction hpath with
  | nil => exact Iff.rfl
  | cons hs _ ih =>
    rw [← ih]
    constructor
    · rintro ⟨later, u, hlater, hend⟩
      cases hlater with
      | nil => simp [hend] at hs
      | cons hs' hrest =>
        cases Option.some.inj (hs.symm.trans hs')
        exact ⟨_, u, hrest, hend⟩
    · rintro ⟨later, u, hlater, hend⟩
      exact ⟨_, u, .cons hs hlater, hend⟩

/-- A loop that ends, ends along every path that reaches one of its iterations. -/
theorem Path.exists_ends {s t u : σ} {visited : List σ} (hpath : Path step s visited t)
    (hs : step t = some u) (hhalts : Halts step s) :
    ∃ later v, Path step u later v ∧ Ends step s (visited ++ t :: later) v := by
  have hsnoc := hpath.snoc hs
  obtain ⟨later, v, hlater, hend⟩ := hsnoc.halts_iff.mp hhalts
  refine ⟨later, v, hlater, ?_, hend⟩
  have happend := hsnoc.append hlater
  rwa [List.append_assoc, List.singleton_append] at happend

/-- A loop that does not end has an infinite sequence of iterations, all of whose
states are reached by paths. -/
theorem exists_infinite_of_not_halts {s : σ} (h : ¬ Halts step s) :
    ∃ f : ℕ → σ, f 0 = s ∧ (∀ n, step (f n) = some (f (n + 1))) ∧
      ∀ n, ∃ visited, Path step s visited (f n) := by
  have hnext (t : {t : σ // ∃ visited, Path step s visited t}) : ∃ u, step t.1 = some u := by
    obtain ⟨t, visited, hpath⟩ := t
    cases hs : step t with
    | none => exact (h ⟨visited, t, hpath, hs⟩).elim
    | some u => exact ⟨u, rfl⟩
  choose next hnext using hnext
  let follow (t : {t : σ // ∃ visited, Path step s visited t}) :
      {t : σ // ∃ visited, Path step s visited t} :=
    ⟨next t, t.2.choose ++ [t.1], t.2.choose_spec.snoc (hnext t)⟩
  let states (n : ℕ) := follow^[n] ⟨s, [], .nil s⟩
  refine ⟨fun n => (states n).1, rfl, fun n => ?_, fun n => (states n).2⟩
  have hsucc : states (n + 1) = follow (states n) := Function.iterate_succ_apply' follow n _
  simp only [hsucc]
  exact hnext (states n)

section Totals

variable {K : Type*} [AddCommGroup K] {cursor : σ → ℕ} {fill : σ → K}

/-- What the iterations of a path drew while their cursor was at `k`. -/
def drawnAt (cursor : σ → ℕ) (fill : σ → K) (visited : List σ) (k : ℕ) : K :=
  ((visited.filter fun s => cursor s = k).map fill).sum

@[simp] theorem drawnAt_nil (k : ℕ) : drawnAt cursor fill [] k = 0 := rfl

/-- The first iteration contributes at its own cursor only. -/
theorem drawnAt_cons (s : σ) (visited : List σ) (k : ℕ) : drawnAt cursor fill (s :: visited) k =
    (if cursor s = k then fill s else 0) + drawnAt cursor fill visited k := by
  unfold drawnAt
  by_cases h : cursor s = k <;> simp [h]

/-- Nothing is drawn at an index that the cursor never visits. -/
theorem drawnAt_eq_zero {visited : List σ} {k : ℕ} (h : ∀ u ∈ visited, cursor u ≠ k) :
    drawnAt cursor fill visited k = 0 := by
  have hfilter : visited.filter (fun s => cursor s = k) = [] := by simpa using h
  simp [drawnAt, hfilter]

/-- Where the cursor never comes back, nothing is drawn at its index before. -/
theorem drawnAt_eq_zero_of_nodup {visited later : List σ} {s : σ}
    (h : ((visited ++ s :: later).map cursor).Nodup) :
    drawnAt cursor fill visited (cursor s) = 0 := by
  rw [List.map_append, List.map_cons] at h
  have hapart := (List.nodup_append.mp h).2.2
  exact drawnAt_eq_zero fun u hu => hapart _ (List.mem_map_of_mem hu) _ List.mem_cons_self

/-- Draws that are not negative add up to a total that is not negative. -/
theorem drawnAt_nonneg [PartialOrder K] [IsOrderedAddMonoid K] {visited : List σ}
    (h : ∀ u ∈ visited, 0 ≤ fill u) (k : ℕ) : 0 ≤ drawnAt cursor fill visited k := by
  refine List.sum_nonneg fun x hx => ?_
  obtain ⟨u, hu, rfl⟩ := List.mem_map.mp hx
  exact h u (List.mem_filter.mp hu).1

/-- A remainder from which each iteration takes its draw at its cursor ends at the
initial remainder less everything drawn. -/
theorem Path.rest_eq {r : σ → ℕ → Option K} {s t : σ} {visited : List σ}
    (hpath : Path step s visited t)
    (hdraw : ∀ u ∈ visited, ∀ v, step u = some v → ∀ k,
      r v k = (r u k).map fun x => if cursor u = k then x - fill u else x) (k : ℕ) :
    r t k = (r s k).map fun x => x - drawnAt cursor fill visited k := by
  induction hpath with
  | nil => simp
  | cons hs _ ih =>
    rw [ih fun u hu => hdraw u (List.mem_cons_of_mem _ hu), hdraw _ List.mem_cons_self _ hs,
      Option.map_map]
    congr 1
    funext x
    simp only [Function.comp_apply, drawnAt_cons]
    split
    · rw [sub_sub]
    · rw [zero_add]

end Totals

end WhileLoop
