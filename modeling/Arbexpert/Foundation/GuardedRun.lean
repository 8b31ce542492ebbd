import Mathlib.Data.Nat.Notation
import Mathlib.Logic.Relation

/-!
# Guarded runs of a deterministic machine

A machine is a partial step function on states and actions: `none` means that
the action is not enabled. A guard is a condition on the state before a step and
on the action taken. Safety statements below have the form "every state reached
by steps that meet the guard satisfies the invariant"; the converse direction is
available run by run, through the list of actions of one run.
-/

namespace GuardedRun

variable {σ α : Type*} {step : σ → α → Option σ} {guard : σ → α → Prop}

/-- What an action that has a condition leads to, when it is enabled. -/
theorem of_enabled {p : Prop} [Decidable p] {s t : σ} (h : (if p then some s else none) = some t) :
    p ∧ s = t :=
  (Option.ite_none_right_eq_some.mp h).imp_right Option.some.inj

/-- One enabled action that meets the guard. -/
def GuardedStep (step : σ → α → Option σ) (guard : σ → α → Prop) (s t : σ) : Prop :=
  ∃ a, guard s a ∧ step s a = some t

/-- The states reached from `s` by any number of guarded steps. -/
def Reaches (step : σ → α → Option σ) (guard : σ → α → Prop) : σ → σ → Prop :=
  Relation.ReflTransGen (GuardedStep step guard)

/-- A property kept by every guarded step holds of every state reached from a
state that has it. -/
theorem Reaches.invariant {I : σ → Prop} {s t : σ} (hrun : Reaches step guard s t)
    (hstart : I s) (hstep : ∀ u a v, I u → guard u a → step u a = some v → I v) : I t := by
  induction hrun with
  | refl => exact hstart
  | tail _ hlast ih =>
    obtain ⟨a, hguard, hok⟩ := hlast
    exact hstep _ a _ ih hguard hok

/-- When every step of one machine is matched by steps of another that lead to related
states, every run of the first machine is matched by a run of the second. -/
theorem exists_run_of_simulation {τ : Type*} {R : σ → σ → Prop} {S : τ → τ → Prop}
    {related : σ → τ → Prop}
    (hstep : ∀ s t u, related s u → R s t → ∃ v, Relation.ReflTransGen S u v ∧ related t v)
    {s t : σ} {u : τ} (hstart : related s u) (hrun : Relation.ReflTransGen R s t) :
    ∃ v, Relation.ReflTransGen S u v ∧ related t v := by
  induction hrun with
  | refl => exact ⟨u, .refl, hstart⟩
  | tail _ hlast ih =>
    obtain ⟨v, hv, hrelated⟩ := ih
    obtain ⟨w, hw, hnext⟩ := hstep _ _ v hrelated hlast
    exact ⟨w, hv.trans hw, hnext⟩

/-- Execute a list of actions; the result is `none` when one is not enabled. -/
def exec (step : σ → α → Option σ) : σ → List α → Option σ
  | s, [] => some s
  | s, a :: rest => (step s a).bind fun t => exec step t rest

/-- Lists of actions are executed one after the other. -/
theorem exec_append (s : σ) (actions rest : List α) :
    exec step s (actions ++ rest) = (exec step s actions).bind fun t => exec step t rest := by
  induction actions generalizing s with
  | nil => rfl
  | cons a actions ih =>
    rw [List.cons_append, exec, exec, Option.bind_assoc]
    exact congrArg _ (funext ih)

/-- Every step taken along the list of actions satisfies `P`. -/
def StepsSatisfy (step : σ → α → Option σ) (P : σ → α → Prop) : σ → List α → Prop
  | _, [] => True
  | s, a :: rest => ∀ t, step s a = some t → P s a ∧ StepsSatisfy step P t rest

/-- Whether every step of a run has a decidable property is computed along the run. -/
instance StepsSatisfy.decidable {P : σ → α → Prop} [hP : ∀ s a, Decidable (P s a)] :
    ∀ (s : σ) (actions : List α), Decidable (StepsSatisfy step P s actions)
  | _, [] => isTrue trivial
  | s, a :: rest =>
    match hstep : step s a with
    | none => isTrue fun _ ht => nomatch hstep.symm.trans ht
    | some t =>
      have := StepsSatisfy.decidable (P := P) t rest
      decidable_of_iff (P s a ∧ StepsSatisfy step P t rest)
        ⟨fun h _ ht => Option.some.inj (hstep.symm.trans ht) ▸ h, fun h => h t hstep⟩

/-- Every state visited along the list of actions satisfies `Q`. -/
def StatesSatisfy (step : σ → α → Option σ) (Q : σ → Prop) : σ → List α → Prop
  | s, [] => Q s
  | s, a :: rest => Q s ∧ ∀ t, step s a = some t → StatesSatisfy step Q t rest

/-- Whether every state of a run has a decidable property is computed along the run. -/
instance StatesSatisfy.decidable {Q : σ → Prop} [hQ : ∀ s, Decidable (Q s)] :
    ∀ (s : σ) (actions : List α), Decidable (StatesSatisfy step Q s actions)
  | s, [] => hQ s
  | s, a :: rest =>
    match hstep : step s a with
    | none =>
      decidable_of_iff (Q s) ⟨fun h => ⟨h, fun _ ht => nomatch hstep.symm.trans ht⟩, And.left⟩
    | some t =>
      have := StatesSatisfy.decidable (Q := Q) t rest
      decidable_of_iff (Q s ∧ StatesSatisfy step Q t rest)
        ⟨fun h => ⟨h.1, fun _ ht => Option.some.inj (hstep.symm.trans ht) ▸ h.2⟩,
          fun h => ⟨h.1, h.2 t hstep⟩⟩

/-- A list execution whose steps meet the guard is a guarded run. -/
theorem reaches_of_exec {s t : σ} {actions : List α}
    (hguard : StepsSatisfy step guard s actions) (hok : exec step s actions = some t) :
    Reaches step guard s t := by
  induction actions generalizing s with
  | nil =>
    cases hok
    exact .refl
  | cons a rest ih =>
    obtain ⟨u, hu, hrest⟩ := Option.bind_eq_some_iff.mp hok
    obtain ⟨ha, hguards⟩ := hguard u hu
    exact .head ⟨a, ha, hu⟩ (ih hguards hrest)

/-- A guard that holds of the listed actions in every state holds along the list. -/
theorem stepsSatisfy_of_forall {P : σ → α → Prop} {s : σ} {actions : List α}
    (h : ∀ a ∈ actions, ∀ u, P u a) : StepsSatisfy step P s actions := by
  induction actions generalizing s with
  | nil => trivial
  | cons a rest ih =>
    exact fun t _ => ⟨h a List.mem_cons_self s, ih fun b hb => h b (List.mem_cons_of_mem _ hb)⟩

/-- A property kept by every step holds at the end of a run from a state that has it. -/
theorem invariant_of_exec {I : σ → Prop} (hinv : ∀ s a t, I s → step s a = some t → I t)
    {s t : σ} {actions : List α} (hok : exec step s actions = some t) (hI : I s) : I t := by
  have hguard : StepsSatisfy step (fun _ _ => True) s actions :=
    stepsSatisfy_of_forall fun _ _ _ => trivial
  exact (reaches_of_exec hguard hok).invariant hI fun u a v hu _ hstep => hinv u a v hu hstep

/-- Every step of a guarded run has a property that the guarded steps from states with an
invariant have. -/
theorem StepsSatisfy.of_invariant {I : σ → Prop} {P : σ → α → Prop}
    (hinv : ∀ s a t, I s → guard s a → step s a = some t → I t)
    (hstep : ∀ s a t, I s → guard s a → step s a = some t → P s a) {s : σ} {actions : List α}
    (hguard : StepsSatisfy step guard s actions) (hI : I s) : StepsSatisfy step P s actions := by
  induction actions generalizing s with
  | nil => trivial
  | cons a rest ih =>
    intro t ht
    obtain ⟨ha, hrest⟩ := hguard t ht
    exact ⟨hstep s a t hI ha ht, ih hrest (hinv s a t hI ha ht)⟩

/-- Every step of a run has a property that the steps from states with an invariant have. -/
theorem stepsSatisfy_of_invariant {I : σ → Prop} {P : σ → α → Prop}
    (hinv : ∀ s a t, I s → step s a = some t → I t)
    (hstep : ∀ s a t, I s → step s a = some t → P s a) {s : σ} {actions : List α} (hI : I s) :
    StepsSatisfy step P s actions :=
  have hguard : StepsSatisfy step (fun _ _ => True) s actions :=
    stepsSatisfy_of_forall fun _ _ _ => trivial
  hguard.of_invariant (fun s a t h _ => hinv s a t h) (fun s a t h _ => hstep s a t h) hI

/-- Every state of a run has a property that the states with an invariant have. -/
theorem statesSatisfy_of_invariant {I Q : σ → Prop}
    (hinv : ∀ s a t, I s → step s a = some t → I t) (hstate : ∀ s, I s → Q s) {s : σ}
    {actions : List α} (hI : I s) : StatesSatisfy step Q s actions := by
  induction actions generalizing s with
  | nil => exact hstate s hI
  | cons a rest ih => exact ⟨hstate s hI, fun t ht => ih (hinv s a t hI ht)⟩

/-- The first state of a run is one of its visited states. -/
theorem StatesSatisfy.head {Q : σ → Prop} {s : σ} {actions : List α}
    (h : StatesSatisfy step Q s actions) : Q s := by
  cases actions with
  | nil => exact h
  | cons a rest => exact h.1

/-- When, from a state with the invariant into a state of a run, a step has a property
exactly if it meets the condition, and keeps the invariant if it has the property, all steps
of the run have the property exactly if all of them meet the condition. -/
theorem StatesSatisfy.stepsSatisfy_iff {I Q : σ → Prop} {P C : σ → α → Prop}
    (hstep : ∀ s a t, I s → Q t → step s a = some t → (P s a ↔ C s a) ∧ (P s a → I t))
    {s : σ} {actions : List α} (hstates : StatesSatisfy step Q s actions) (hI : I s) :
    StepsSatisfy step P s actions ↔ StepsSatisfy step C s actions := by
  induction actions generalizing s with
  | nil => exact Iff.rfl
  | cons a rest ih =>
    constructor
    · intro h t ht
      obtain ⟨hP, hrest⟩ := h t ht
      have hQ := hstates.2 t ht
      obtain ⟨hiff, hkeeps⟩ := hstep s a t hI hQ.head ht
      exact ⟨hiff.mp hP, (ih hQ (hkeeps hP)).mp hrest⟩
    · intro h t ht
      obtain ⟨hC, hrest⟩ := h t ht
      have hQ := hstates.2 t ht
      obtain ⟨hiff, hkeeps⟩ := hstep s a t hI hQ.head ht
      have hP := hiff.mpr hC
      exact ⟨hP, (ih hQ (hkeeps hP)).mpr hrest⟩

/-- When, from a state with the invariant, a step has a property exactly if it meets
the condition, and keeps the invariant if it has the property, all steps of a run
have the property exactly if all of them meet the condition. -/
theorem stepsSatisfy_iff {I : σ → Prop} {P C : σ → α → Prop}
    (hstep : ∀ s a t, I s → step s a = some t → (P s a ↔ C s a) ∧ (P s a → I t))
    {s : σ} {actions : List α} (hI : I s) :
    StepsSatisfy step P s actions ↔ StepsSatisfy step C s actions :=
  have hstates : StatesSatisfy step (fun _ => True) s actions :=
    statesSatisfy_of_invariant (I := fun _ => True) (fun _ _ _ _ _ => trivial)
      (fun _ _ => trivial) trivial
  hstates.stepsSatisfy_iff (fun s a t h _ => hstep s a t h) hI

/-- When, from a state with the invariant and the property, a step keeps the
property exactly if it meets the condition, a run has the property in all its
states exactly if all its steps meet the condition. -/
theorem statesSatisfy_iff_stepsSatisfy {I Q : σ → Prop} {C : σ → α → Prop}
    (hinv : ∀ s a t, I s → Q s → step s a = some t → I t)
    (hstep : ∀ s a t, I s → Q s → step s a = some t → (Q t ↔ C s a))
    {s : σ} {actions : List α} (hI : I s) (hQ : Q s) :
    StatesSatisfy step Q s actions ↔ StepsSatisfy step C s actions := by
  induction actions generalizing s with
  | nil => exact iff_of_true hQ trivial
  | cons a rest ih =>
    constructor
    · rintro ⟨_, hrest⟩ t ht
      have hQt : Q t := (hrest t ht).head
      exact ⟨(hstep s a t hI hQ ht).mp hQt, (ih (hinv s a t hI hQ ht) hQt).mp (hrest t ht)⟩
    · intro h
      refine ⟨hQ, fun t ht => ?_⟩
      obtain ⟨hC, hrest⟩ := h t ht
      have hQt : Q t := (hstep s a t hI hQ ht).mpr hC
      exact (ih (hinv s a t hI hQ ht) hQt).mpr hrest

/-- When a guarded step from a state with the invariant leads to a state with the property exactly
if it meets the condition, and then keeps the invariant, all states of a guarded run have the
property exactly if all its steps meet the condition. -/
theorem StepsSatisfy.statesSatisfy_iff {I Q : σ → Prop} {C : σ → α → Prop} (hQ : ∀ s, I s → Q s)
    (hstep : ∀ s a t, I s → guard s a → step s a = some t → (Q t ↔ C s a) ∧ (C s a → I t))
    {s : σ} {actions : List α} (hguard : StepsSatisfy step guard s actions) (hI : I s) :
    StatesSatisfy step Q s actions ↔ StepsSatisfy step C s actions := by
  induction actions generalizing s with
  | nil => exact iff_of_true (hQ s hI) trivial
  | cons a rest ih =>
    constructor
    · rintro ⟨_, hrest⟩ t ht
      obtain ⟨ha, hguards⟩ := hguard t ht
      obtain ⟨hiff, hnext⟩ := hstep s a t hI ha ht
      have hC := hiff.mp (hrest t ht).head
      exact ⟨hC, (ih hguards (hnext hC)).mp (hrest t ht)⟩
    · refine fun h => ⟨hQ s hI, fun t ht => ?_⟩
      obtain ⟨ha, hguards⟩ := hguard t ht
      obtain ⟨hC, hrest⟩ := h t ht
      exact (ih hguards ((hstep s a t hI ha ht).2 hC)).mpr hrest

/-- When each state with the invariant that is not at the end has a guarded step that keeps the
invariant and makes a measure smaller, every such state reaches the end. -/
theorem exists_reaches_of_measure {I Q : σ → Prop} (measure : σ → ℕ)
    (hstep : ∀ s, I s → ¬Q s → ∃ a t, guard s a ∧ step s a = some t ∧ I t ∧ measure t < measure s)
    {s : σ} (hI : I s) : ∃ t, Reaches step guard s t ∧ I t ∧ Q t := by
  induction hmeasure : measure s using Nat.strongRecOn generalizing s with
  | ind n ih =>
    by_cases hQ : Q s
    · exact ⟨s, .refl, hI, hQ⟩
    · obtain ⟨a, t, ha, ht, hIt, hless⟩ := hstep s hI hQ
      obtain ⟨u, hreaches, hu⟩ := ih (measure t) (hmeasure ▸ hless) hIt rfl
      exact ⟨u, .head ⟨a, ha, ht⟩ hreaches, hu⟩

/-- When a state after a step has a property exactly if the state before has it and the step meets
the condition, the last state of a run from a state with the property has it exactly if all steps
of the run meet the condition. -/
theorem stepsSatisfy_iff_of_exec {Q : σ → Prop} {C : σ → α → Prop}
    (hstep : ∀ s a t, step s a = some t → (Q t ↔ Q s ∧ C s a)) {s t : σ} {actions : List α}
    (hQ : Q s) (hrun : exec step s actions = some t) : StepsSatisfy step C s actions ↔ Q t := by
  induction actions generalizing s with
  | nil =>
    cases hrun
    exact iff_of_true trivial hQ
  | cons a rest ih =>
    obtain ⟨u, hu, hrest⟩ := Option.bind_eq_some_iff.mp hrun
    have hnext := hstep s a u hu
    by_cases hQu : Q u
    · rw [← ih hQu hrest]
      constructor
      · exact fun h => (h u hu).2
      · intro h v hv
        cases Option.some.inj (hu.symm.trans hv)
        exact ⟨(hnext.mp hQu).2, h⟩
    · have hlost : ¬ Q t := invariant_of_exec (I := fun s => ¬ Q s)
        (fun s a t hs hst hQt => hs ((hstep s a t hst).mp hQt).1) hrest hQu
      exact iff_of_false (fun h => hQu (hnext.mpr ⟨hQ, (h u hu).1⟩)) hlost

end GuardedRun
