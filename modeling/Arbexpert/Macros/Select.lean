import Arbexpert.Foundation.GuardedRun
import Mathlib.Data.List.Nodup

/-!
# The select macro

The macro waits for several futures. A word keeps a bit for each branch that is disabled, by its
precondition or because its future has completed; each time that the task is woken, the futures of
the other branches are polled in a fixed order until one completes with a value that its pattern
matches. The documentation states what this comes to: a future is not polled any more after it has
completed, and only when all branches are disabled is there no result.
-/

namespace Arbexpert.Macros

variable {V : Type*}

/-- A branch: the value of its precondition, and the values that its pattern matches. -/
structure Branch (V : Type*) where
  cond : Bool
  bind : V → Bool

/-- The output: the value of a branch, or that all branches are disabled. -/
inductive Out (V : Type*)
  | ready (branch : ℕ) (value : V)
  | disabled

/-- The poll of the future of a branch, which is pending when it has no value. -/
abbrev PollOf (V : Type*) := ℕ × Option V

/-- The number of bits that are used for a number of branches. More than 64 are not compiled. -/
def maskWidth (branches : ℕ) : ℕ :=
  if branches ≤ 8 then 8 else if branches ≤ 16 then 16 else if branches ≤ 32 then 32 else 64

/-- The branch that is polled first, which is not random here. -/
def threadRngN (_ : ℕ) : ℕ := 0

/-- The branches in the order in which they are polled. -/
def pollOrder (branches start : ℕ) : List ℕ :=
  (List.range branches).map fun i => (start + i) % branches

/-- The word with the bits of the branches whose preconditions are false. -/
def preconditions {w : ℕ} : List (Branch V) → ℕ → BitVec w → BitVec w
  | [], _, disabled => disabled
  | branch :: rest, i, disabled =>
    preconditions rest (i + 1) (if branch.cond then disabled else disabled ||| 1#w <<< i)

/-- The loop over the branches: the polls that it makes, the disabled branches after it, and its
result, which is pending when there is none. -/
def pollLoop {w : ℕ} (branches : List (Branch V)) (answer : ℕ → Option V) :
    List ℕ → BitVec w → Bool → List (PollOf V) × BitVec w × Option (Out V)
  | [], disabled, isPending => ([], disabled, if isPending then none else some .disabled)
  | branch :: rest, disabled, isPending =>
    let mask := 1#w <<< branch
    if disabled &&& mask = mask then pollLoop branches answer rest disabled isPending
    else
      match answer branch with
      | none =>
        let next := pollLoop branches answer rest disabled true
        ((branch, none) :: next.1, next.2)
      | some out =>
        let disabled := disabled ||| mask
        if (branches[branch]?).any fun b => b.bind out then
          ([(branch, some out)], disabled, some (.ready branch out))
        else
          let next := pollLoop branches answer rest disabled isPending
          ((branch, some out) :: next.1, next.2)

/-- A call of the macro: the disabled branches, the polls of each time that the task was woken, and
the output. -/
structure Select (V : Type*) (w : ℕ) where
  disabled : BitVec w
  wakes : List (List (PollOf V))
  output : Option (Out V)

namespace Select

variable {w : ℕ}

/-- The call before its first poll. -/
def start (branches : List (Branch V)) : Select V (maskWidth branches.length) :=
  ⟨preconditions branches 0 0, [], none⟩

/-- The task is woken; `answer` is what each future answers if it is polled now. -/
def wake (branches : List (Branch V)) (s : Select V w) (answer : ℕ → Option V) :
    Option (Select V w) :=
  match s.output with
  | some _ => none
  | none =>
    let order := pollOrder branches.length (threadRngN branches.length)
    let (polls, disabled, output) := pollLoop branches answer order s.disabled false
    some ⟨disabled, s.wakes ++ [polls], output⟩

end Select

/-- The precondition of a branch holds. -/
def Enabled (branches : List (Branch V)) (i : ℕ) : Prop :=
  ∃ branch, branches[i]? = some branch ∧ branch.cond = true

/-- The pattern of a branch matches a value. -/
def Matches (branches : List (Branch V)) (i : ℕ) (value : V) : Prop :=
  ∃ branch, branches[i]? = some branch ∧ branch.bind value = true

/-- A branch is passed over: its future is pending when the task is woken last, or has completed
with a value that its pattern does not match. -/
def Passed (branches : List (Branch V)) (wakes : List (List (PollOf V))) (i : ℕ) : Prop :=
  (∃ polls, wakes.getLast? = some polls ∧ (i, none) ∈ polls) ∨
    ∃ value, (i, some value) ∈ wakes.flatten ∧ ¬Matches branches i value

/-- What the documentation promises for the polls of a call and for its output, and that the
branches are not chosen at random: one is only chosen when no branch above it could be. -/
structure Lifecycle (branches : List (Branch V)) (wakes : List (List (PollOf V)))
    (output : Option (Out V)) : Prop where
  enabled : ∀ poll ∈ wakes.flatten, Enabled branches poll.1
  once : wakes.flatten.Pairwise fun earlier later => earlier.2 ≠ none → earlier.1 ≠ later.1
  ready : ∀ i value, output = some (.ready i value) → Matches branches i value ∧
    ∃ before, wakes.flatten = before ++ [(i, some value)] ∧
      ∀ j other, (j, some other) ∈ before → ¬Matches branches j other
  first : ∀ i value, output = some (.ready i value) → ∀ j < i, Enabled branches j →
    Passed branches wakes j
  disabled : output = some .disabled → ∀ i, Enabled branches i →
    ∃ value, (i, some value) ∈ wakes.flatten ∧ ¬Matches branches i value
  pending : output = none → ∀ polls, wakes.getLast? = some polls →
    (∃ i, (i, none) ∈ polls) ∧ ∀ i, Enabled branches i → Passed branches wakes i

section Mask

variable {w : ℕ}

/-- A branch is skipped when its bit is set. -/
theorem and_mask_eq_iff {disabled : BitVec w} {i : ℕ} (hi : i < w) :
    disabled &&& 1#w <<< i = 1#w <<< i ↔ disabled.getLsbD i = true := by
  rw [← BitVec.twoPow_eq, BitVec.and_twoPow]
  cases hbit : disabled.getLsbD i with
  | true => simp
  | false =>
    refine iff_of_false (fun hzero => ?_) Bool.false_ne_true
    have hone := congrArg (fun x : BitVec w => x.getLsbD i) hzero
    simp [hi] at hone

/-- Disabling a branch sets its bit. -/
theorem getLsbD_or_mask {disabled : BitVec w} {i j : ℕ} (hi : i < w) :
    (disabled ||| 1#w <<< i).getLsbD j = true ↔ disabled.getLsbD j = true ∨ j = i := by
  rw [← BitVec.twoPow_eq, BitVec.getLsbD_or, BitVec.getLsbD_twoPow, Bool.or_eq_true,
    Bool.and_eq_true, decide_eq_true_iff, decide_eq_true_iff]
  exact or_congr_right ⟨fun h => h.2.symm, fun h => ⟨hi, h.symm⟩⟩

/-- All branches have a bit. -/
theorem le_maskWidth {branches : ℕ} (h : branches ≤ 64) : branches ≤ maskWidth branches := by
  unfold maskWidth
  split_ifs <;> omega

/-- The bits of the branches whose preconditions are false. -/
theorem getLsbD_preconditions {branches : List (Branch V)} {k : ℕ} {disabled : BitVec w}
    (hw : k + branches.length ≤ w) {j : ℕ} :
    (preconditions branches k disabled).getLsbD j = true ↔ disabled.getLsbD j = true ∨
      ∃ i branch, j = k + i ∧ branches[i]? = some branch ∧ branch.cond = false := by
  induction branches generalizing k disabled with
  | nil => simp [preconditions]
  | cons branch rest ih =>
    rw [List.length_cons] at hw
    have hbit : (if branch.cond then disabled else disabled ||| 1#w <<< k).getLsbD j = true ↔
        disabled.getLsbD j = true ∨ (j = k ∧ branch.cond = false) := by
      cases hcond : branch.cond with
      | true => simp
      | false =>
        rw [if_neg Bool.false_ne_true, getLsbD_or_mask (by omega)]
        exact or_congr_right (and_iff_left rfl).symm
    rw [preconditions, ih (by omega), hbit, or_assoc]
    refine or_congr_right ⟨?_, ?_⟩
    · rintro (⟨rfl, hcond⟩ | ⟨i, other, hj, hother, hcond⟩)
      · exact ⟨0, branch, rfl, rfl, hcond⟩
      · exact ⟨i + 1, other, by omega, hother, hcond⟩
    · rintro ⟨i, other, hj, hother, hcond⟩
      cases i with
      | zero =>
        cases hother
        exact .inl ⟨hj, hcond⟩
      | succ i => exact .inr ⟨i, other, by omega, hother, hcond⟩

end Mask

section Loop

variable {w : ℕ} {branches : List (Branch V)} {answer : ℕ → Option V}

/-- What the loop tests is whether the pattern matches. -/
theorem any_bind_iff {i : ℕ} {value : V} :
    ((branches[i]?).any fun b => b.bind value) = true ↔ Matches branches i value := by
  rw [Option.any_eq_true]
  exact Iff.rfl

/-- The branches of an order whose bits are not set. -/
def active (disabled : BitVec w) (order : List ℕ) : List ℕ :=
  order.filter fun i => !disabled.getLsbD i

/-- A branch that is not in the order does not change which of them are active. -/
theorem active_or_mask {disabled : BitVec w} {order : List ℕ} {i : ℕ} (hi : i < w)
    (hnot : i ∉ order) : active (disabled ||| 1#w <<< i) order = active disabled order := by
  refine List.filter_congr fun j hj => ?_
  have hne : j ≠ i := fun h => hnot (h ▸ hj)
  have hbit : (disabled ||| 1#w <<< i).getLsbD j = disabled.getLsbD j :=
    Bool.eq_iff_iff.mpr ((getLsbD_or_mask hi).trans (or_iff_left hne))
  rw [hbit]

/-- The loop without its word: the branches that are still active are polled one after the other
until one is ready. -/
inductive LoopEnd (branches : List (Branch V)) (answer : ℕ → Option V) :
    List ℕ → Bool → List (PollOf V) → Option (Out V) → Prop
  | done (isPending : Bool) :
    LoopEnd branches answer [] isPending [] (if isPending then none else some .disabled)
  | ready {i : ℕ} {value : V} {isPending : Bool} (rest : List ℕ) (hvalue : answer i = some value)
    (hmatch : Matches branches i value) :
    LoopEnd branches answer (i :: rest) isPending [(i, some value)] (some (.ready i value))
  | pending {i : ℕ} {rest : List ℕ} {isPending : Bool} {polls : List (PollOf V)}
    {output : Option (Out V)} (hvalue : answer i = none)
    (hrest : LoopEnd branches answer rest true polls output) :
    LoopEnd branches answer (i :: rest) isPending ((i, none) :: polls) output
  | unmatched {i : ℕ} {value : V} {rest : List ℕ} {isPending : Bool} {polls : List (PollOf V)}
    {output : Option (Out V)} (hvalue : answer i = some value)
    (hmatch : ¬Matches branches i value)
    (hrest : LoopEnd branches answer rest isPending polls output) :
    LoopEnd branches answer (i :: rest) isPending ((i, some value) :: polls) output

/-- The loop of the source polls the branches whose bits are not set. -/
theorem loopEnd_pollLoop {order : List ℕ} {disabled : BitVec w} {isPending : Bool}
    (hnodup : order.Nodup) (hw : ∀ i ∈ order, i < w) :
    LoopEnd branches answer (active disabled order) isPending
      (pollLoop branches answer order disabled isPending).1
      (pollLoop branches answer order disabled isPending).2.2 := by
  induction order generalizing disabled isPending with
  | nil => exact .done isPending
  | cons i rest ih =>
    obtain ⟨hi, hrest⟩ := List.nodup_cons.mp hnodup
    have hiw := hw i List.mem_cons_self
    have hrestw : ∀ j ∈ rest, j < w := fun j hj => hw j (List.mem_cons_of_mem _ hj)
    cases hbit : disabled.getLsbD i with
    | true =>
      have hactive : active disabled (i :: rest) = active disabled rest := by
        simp [active, hbit]
      rw [hactive, pollLoop, if_pos ((and_mask_eq_iff hiw).mpr hbit)]
      exact ih hrest hrestw
    | false =>
      have hunset : ¬disabled &&& 1#w <<< i = 1#w <<< i := by
        rw [and_mask_eq_iff hiw, hbit]
        exact Bool.false_ne_true
      have hactive : active disabled (i :: rest) = i :: active disabled rest := by
        simp [active, hbit]
      rw [hactive, pollLoop, if_neg hunset]
      cases hvalue : answer i with
      | none => exact .pending hvalue (ih hrest hrestw)
      | some out =>
        dsimp only
        by_cases hmatch : Matches branches i out
        · rw [if_pos (any_bind_iff.mpr hmatch)]
          exact .ready _ hvalue hmatch
        · rw [if_neg (mt any_bind_iff.mp hmatch), ← active_or_mask hiw hi]
          exact .unmatched hvalue hmatch (ih hrest hrestw)

/-- The bits after the loop are those before it and those of the futures that completed. -/
theorem getLsbD_pollLoop {order : List ℕ} {disabled : BitVec w} {isPending : Bool}
    (hw : ∀ i ∈ order, i < w) {j : ℕ} :
    (pollLoop branches answer order disabled isPending).2.1.getLsbD j = true ↔
      disabled.getLsbD j = true ∨
        ∃ value, (j, some value) ∈ (pollLoop branches answer order disabled isPending).1 := by
  induction order generalizing disabled isPending with
  | nil => simp [pollLoop]
  | cons i rest ih =>
    have hiw := hw i List.mem_cons_self
    have hrestw : ∀ j ∈ rest, j < w := fun j hj => hw j (List.mem_cons_of_mem _ hj)
    rw [pollLoop]
    split
    · exact ih hrestw
    · cases answer i with
      | none => simpa using ih hrestw
      | some out =>
        dsimp only
        split
        · rw [getLsbD_or_mask hiw]
          simp
        · rw [ih hrestw, getLsbD_or_mask hiw]
          simp [or_assoc, exists_or]

namespace LoopEnd

variable {order : List ℕ} {isPending : Bool} {polls : List (PollOf V)} {output : Option (Out V)}

/-- The polls are those of the first branches of the order. -/
theorem polls_prefix (h : LoopEnd branches answer order isPending polls output) :
    polls.map Prod.fst <+: order := by
  induction h with
  | done => exact List.nil_prefix
  | ready rest => exact ⟨rest, rfl⟩
  | pending _ _ ih | unmatched _ _ _ ih => exact List.prefix_cons_inj _ |>.mpr ih

/-- When the loop is ready, its last poll has a value that its pattern matches, and no poll before
it has. -/
theorem of_ready (h : LoopEnd branches answer order isPending polls output) {i : ℕ} {value : V}
    (hready : output = some (.ready i value)) : Matches branches i value ∧
      ∃ before, polls = before ++ [(i, some value)] ∧
        ∀ j other, (j, some other) ∈ before → ¬Matches branches j other := by
  induction h with
  | done isPending => cases isPending <;> simp at hready
  | ready rest hvalue hmatch =>
    cases hready
    exact ⟨hmatch, [], rfl, by simp⟩
  | @pending k _ _ _ _ hvalue _ ih =>
    obtain ⟨hmatch, before, rfl, hbefore⟩ := ih hready
    exact ⟨hmatch, (k, none) :: before, rfl, by simpa using hbefore⟩
  | @unmatched k out _ _ _ _ hvalue hunmatched _ ih =>
    obtain ⟨hmatch, before, rfl, hbefore⟩ := ih hready
    refine ⟨hmatch, (k, some out) :: before, rfl, fun j other hmem => ?_⟩
    rcases List.mem_cons.mp hmem with hhead | htail
    · cases hhead
      exact hunmatched
    · exact hbefore j other htail

/-- When the loop is not ready, it has polled all branches and no value is matched. -/
theorem of_not_ready (h : LoopEnd branches answer order isPending polls output)
    (hready : ∀ i value, output ≠ some (.ready i value)) : polls.map Prod.fst = order ∧
      ∀ i value, (i, some value) ∈ polls → ¬Matches branches i value := by
  induction h with
  | done => simp
  | ready => exact absurd rfl (hready _ _)
  | pending _ _ ih =>
    obtain ⟨horder, hunmatched⟩ := ih hready
    exact ⟨congrArg _ horder, by simpa using hunmatched⟩
  | unmatched _ hmatch _ ih =>
    obtain ⟨horder, hunmatched⟩ := ih hready
    refine ⟨congrArg _ horder, fun j other hmem => ?_⟩
    rcases List.mem_cons.mp hmem with hhead | htail
    · cases hhead
      exact hmatch
    · exact hunmatched j other htail

/-- The loop gives no output exactly when it is not ready and a future is pending. -/
theorem eq_none_iff (h : LoopEnd branches answer order isPending polls output)
    (hready : ∀ i value, output ≠ some (.ready i value)) :
    output = none ↔ isPending = true ∨ ∃ i, (i, none) ∈ polls := by
  induction h with
  | done isPending => cases isPending <;> simp
  | ready => exact absurd rfl (hready _ _)
  | pending _ _ ih => simp [ih hready]
  | unmatched _ _ _ ih => simp [ih hready]

end LoopEnd

end Loop

section Run

variable {w : ℕ} {branches : List (Branch V)}

/-- The branches are polled from top to bottom. -/
theorem pollOrder_threadRngN (n : ℕ) : pollOrder n (threadRngN n) = List.range n := by
  have hmod : ∀ i ∈ List.range n, (threadRngN n + i) % n = id i := by
    intro i hi
    rw [threadRngN, Nat.zero_add, Nat.mod_eq_of_lt (List.mem_range.mp hi), id]
  rw [pollOrder, List.map_congr_left hmod, List.map_id]

/-- What holds after every wake: the bits are those of the branches that are disabled or have
completed, and only the last poll can have a value that its pattern matches. -/
structure Sound (branches : List (Branch V)) (s : Select V w) : Prop where
  bits : ∀ i < branches.length, s.disabled.getLsbD i = true ↔
    ¬Enabled branches i ∨ ∃ value, (i, some value) ∈ s.wakes.flatten
  unmatched : s.output = none → ∀ i value, (i, some value) ∈ s.wakes.flatten →
    ¬Matches branches i value
  lifecycle : Lifecycle branches s.wakes s.output

/-- A branch whose precondition holds is one of the branches. -/
theorem Enabled.lt {i : ℕ} (h : Enabled branches i) : i < branches.length := by
  obtain ⟨branch, hbranch, _⟩ := h
  exact (List.getElem?_eq_some_iff.mp hbranch).1

/-- The active branches are those whose preconditions hold and whose futures have not completed. -/
theorem Sound.mem_active_iff {s : Select V w} (h : Sound branches s) {i : ℕ} :
    i ∈ active s.disabled (List.range branches.length) ↔
      Enabled branches i ∧ ∀ value, (i, some value) ∉ s.wakes.flatten := by
  rw [active, List.mem_filter, List.mem_range, Bool.not_eq_true', ← Bool.not_eq_true]
  constructor
  · rintro ⟨hi, hbit⟩
    rw [h.bits i hi, not_or, not_not, not_exists] at hbit
    exact hbit
  · rintro ⟨henabled, hcompleted⟩
    refine ⟨henabled.lt, fun hbit => ?_⟩
    rcases (h.bits i henabled.lt).mp hbit with hdisabled | ⟨value, hvalue⟩
    · exact hdisabled henabled
    · exact hcompleted value hvalue

/-- No branch is polled before the first wake. -/
theorem Sound.start (h : branches.length ≤ 64) : Sound branches (Select.start branches) := by
  have hw := le_maskWidth h
  refine ⟨fun i hi => ?_, by simp [Select.start], ?_⟩
  · rw [Select.start, getLsbD_preconditions (by omega)]
    obtain ⟨branch, hbranch⟩ : ∃ branch, branches[i]? = some branch :=
      ⟨branches[i], List.getElem?_eq_getElem hi⟩
    simp [Enabled, hbranch]
  · constructor <;> simp [Select.start]

/-- What a wake does. -/
theorem wake_eq_some {s t : Select V w} {answer : ℕ → Option V}
    (h : s.wake branches answer = some t) (hw : branches.length ≤ w) :
    s.output = none ∧ ∃ polls, t.wakes = s.wakes ++ [polls] ∧
      LoopEnd branches answer (active s.disabled (List.range branches.length)) false polls
        t.output ∧
      ∀ j, t.disabled.getLsbD j = true ↔
        s.disabled.getLsbD j = true ∨ ∃ value, (j, some value) ∈ polls := by
  unfold Select.wake at h
  split at h
  · cases h
  · rename_i hnone
    cases h
    have hbits : ∀ i ∈ List.range branches.length, i < w := fun i hi =>
      Nat.lt_of_lt_of_le (List.mem_range.mp hi) hw
    rw [pollOrder_threadRngN]
    exact ⟨hnone, _, rfl, loopEnd_pollLoop List.nodup_range hbits,
      fun j => getLsbD_pollLoop hbits⟩

/-- A branch whose precondition holds is passed over when it has completed before, or is polled
with no value that its pattern matches. -/
theorem Sound.passed {s : Select V w} (h : Sound branches s) (hnone : s.output = none)
    {polls : List (PollOf V)} {i : ℕ} (henabled : Enabled branches i)
    (hpolled : i ∈ active s.disabled (List.range branches.length) →
      ∃ answer, (i, answer) ∈ polls ∧ ∀ value, answer = some value → ¬Matches branches i value) :
    Passed branches (s.wakes ++ [polls]) i := by
  by_cases hcompleted : ∃ value, (i, some value) ∈ s.wakes.flatten
  · obtain ⟨value, hvalue⟩ := hcompleted
    exact .inr ⟨value, by simp [hvalue], h.unmatched hnone i value hvalue⟩
  · obtain ⟨answer, hmem, hunmatched⟩ :=
      hpolled (h.mem_active_iff.mpr ⟨henabled, not_exists.mp hcompleted⟩)
    cases answer with
    | none => exact .inl ⟨polls, by simp, hmem⟩
    | some value => exact .inr ⟨value, by simp [hmem], hunmatched value rfl⟩

/-- A wake keeps what holds of a call. -/
theorem Sound.wake {s t : Select V w} {answer : ℕ → Option V} (h : Sound branches s)
    (hw : branches.length ≤ w) (hwake : s.wake branches answer = some t) : Sound branches t := by
  obtain ⟨hnone, polls, hwakes, hloop, hbits⟩ := wake_eq_some hwake hw
  have hactive : ∀ poll ∈ polls, poll.1 ∈ active s.disabled (List.range branches.length) :=
    fun poll hpoll => hloop.polls_prefix.subset (List.mem_map_of_mem hpoll)
  have hflatten : t.wakes.flatten = s.wakes.flatten ++ polls := by simp [hwakes]
  refine ⟨fun i hi => ?_, fun hpending i value hvalue => ?_, ?_⟩
  · rw [hbits, h.bits i hi, hflatten]
    simp [or_assoc, exists_or]
  · rw [hflatten, List.mem_append] at hvalue
    rcases hvalue with hbefore | hnow
    · exact h.unmatched hnone i value hbefore
    · exact (hloop.of_not_ready (by simp [hpending])).2 i value hnow
  have hlast : ∀ last, t.wakes.getLast? = some last → last = polls := by
    intro last hlast
    rw [hwakes, List.getLast?_concat] at hlast
    exact (Option.some.inj hlast).symm
  have hall : (∀ i value, t.output ≠ some (.ready i value)) → ∀ i, Enabled branches i →
      Passed branches t.wakes i := by
    intro hready i henabled
    obtain ⟨horder, hunmatched⟩ := hloop.of_not_ready hready
    rw [hwakes]
    refine h.passed hnone henabled fun hi => ?_
    rw [← horder] at hi
    obtain ⟨⟨_, answer⟩, hmem, rfl⟩ := List.mem_map.mp hi
    exact ⟨answer, hmem, fun value hvalue => hunmatched _ value (hvalue ▸ hmem)⟩
  constructor
  case enabled =>
    intro poll hpoll
    rw [hflatten, List.mem_append] at hpoll
    rcases hpoll with hbefore | hnow
    · exact h.lifecycle.enabled poll hbefore
    · exact (h.mem_active_iff.mp (hactive poll hnow)).1
  case once =>
    rw [hflatten, List.pairwise_append]
    refine ⟨h.lifecycle.once, ?_, fun earlier hearlier later hlater hvalue heq => ?_⟩
    · have hnodup : (polls.map Prod.fst).Nodup :=
        (List.nodup_range.filter _).sublist hloop.polls_prefix.sublist
      have hdistinct : polls.Pairwise fun earlier later => earlier.1 ≠ later.1 :=
        List.pairwise_map.mp hnodup
      refine hdistinct.imp ?_
      intro _ _ hne _
      exact hne
    · obtain ⟨value, hsome⟩ := Option.ne_none_iff_exists'.mp hvalue
      refine (h.mem_active_iff.mp (hactive later hlater)).2 value ?_
      rw [← heq, ← hsome]
      exact hearlier
  case ready =>
    intro i value hready
    obtain ⟨hmatch, before, hpolls, hbefore⟩ := hloop.of_ready hready
    refine ⟨hmatch, s.wakes.flatten ++ before, by simp [hflatten, hpolls], fun j other hmem => ?_⟩
    rcases List.mem_append.mp hmem with hmem | hmem
    · exact h.unmatched hnone j other hmem
    · exact hbefore j other hmem
  case first =>
    intro i value hready j hj henabled
    obtain ⟨_, before, hpolls, hbefore⟩ := hloop.of_ready hready
    rw [hwakes]
    refine h.passed hnone henabled fun hmem => ?_
    -- The order of the polls is increasing, so the branch is not one of those after `i`.
    have hpolled : j ∈ before.map Prod.fst := by
      obtain ⟨rest, hrest⟩ := hloop.polls_prefix
      have hsorted : (active s.disabled (List.range branches.length)).Pairwise (· < ·) :=
        List.pairwise_lt_range.filter _
      rw [hpolls, List.map_append] at hrest
      rw [← hrest] at hsorted hmem
      have hrest : j ∉ rest := fun hjrest =>
        Nat.lt_asymm hj ((List.pairwise_append.mp hsorted).2.2 i (by simp) j hjrest)
      have hne : j ≠ i := Nat.ne_of_lt hj
      simpa [hrest, hne] using hmem
    obtain ⟨⟨_, answer⟩, hpoll, rfl⟩ := List.mem_map.mp hpolled
    refine ⟨answer, ?_, fun other hother => hbefore _ other (hother ▸ hpoll)⟩
    rw [hpolls]
    exact List.mem_append_left _ hpoll
  case disabled =>
    intro hdisabled i henabled
    have hready : ∀ i value, t.output ≠ some (.ready i value) := by simp [hdisabled]
    rcases hall hready i henabled with ⟨last, hwake, hmem⟩ | hcompleted
    · have hpending := (hloop.eq_none_iff hready).mpr (.inr ⟨i, hlast last hwake ▸ hmem⟩)
      cases hdisabled.symm.trans hpending
    · exact hcompleted
  case pending =>
    intro hpending last hwake
    have hready : ∀ i value, t.output ≠ some (.ready i value) := by simp [hpending]
    rw [hlast last hwake]
    exact ⟨((hloop.eq_none_iff hready).mp hpending).resolve_left Bool.false_ne_true, hall hready⟩

/-- What holds after every wake of a call. -/
theorem Sound.of_reaches (h : branches.length ≤ 64) {s : Select V (maskWidth branches.length)}
    (hrun : GuardedRun.Reaches (Select.wake branches) (fun _ _ => True) (Select.start branches) s) :
    Sound branches s :=
  hrun.invariant (Sound.start h) fun _ _ _ hsound _ hwake => hsound.wake (le_maskWidth h) hwake

/-- Every call of the macro has the lifecycle that its documentation describes. -/
theorem select_lifecycle (h : branches.length ≤ 64) {s : Select V (maskWidth branches.length)}
    (hrun : GuardedRun.Reaches (Select.wake branches) (fun _ _ => True) (Select.start branches) s) :
    Lifecycle branches s.wakes s.output :=
  (Sound.of_reaches h hrun).lifecycle

/-- One branch is disabled by its precondition, the value of the second one is not matched. -/
def mixedBranches : List (Branch ℕ) :=
  [⟨false, fun _ => true⟩, ⟨true, fun value => value == 0⟩, ⟨true, fun _ => true⟩]

/-- The answers of the futures when the task is woken twice. -/
def mixedAnswers : List (ℕ → Option ℕ) :=
  [fun i => if i = 2 then none else some 7, fun i => some (i + 6)]

/-- The third branch is ready when the task is woken again. -/
def mixedEnd : Select ℕ (maskWidth mixedBranches.length) :=
  ⟨7#8, [[(1, some 7), (2, none)], [(2, some 8)]], some (.ready 2 8)⟩

/-- A call whose three branches take different ways has the lifecycle. -/
theorem second_wake_lifecycle : Lifecycle mixedBranches mixedEnd.wakes mixedEnd.output := by
  have hrun : GuardedRun.exec (Select.wake mixedBranches) (Select.start mixedBranches)
      mixedAnswers = some mixedEnd := rfl
  exact select_lifecycle (by decide) (GuardedRun.reaches_of_exec
    (GuardedRun.stepsSatisfy_of_forall fun _ _ _ => trivial) hrun)

end Run

/-- The loops that call the macro: that of a session, whose tasks may be empty, that of a worker and
that of a web client. -/
inductive Loop
  | session (clientTasks extTasks : Bool)
  | worker (tasks : Bool)
  | service (tasks : Bool)

/-- A branch whose pattern is a variable or a wildcard. -/
def Branch.any (cond : Bool) : Branch V := ⟨cond, fun _ => true⟩

/-- The branches of a loop in the order of the source; a loop only waits for its tasks when it has
some. -/
def Loop.branches : Loop → List (Branch V)
  | .session clientTasks extTasks =>
    [.any true, .any true, .any true, .any clientTasks, .any extTasks]
  | .worker tasks => [.any true, .any tasks]
  | .service tasks => [.any true, .any tasks, .any true]

/-- A branch of a loop matches every value. -/
theorem Loop.matches_of_enabled {loop : Loop} {i : ℕ} {value : V}
    (h : Enabled (loop.branches (V := V)) i) : Matches loop.branches i value := by
  obtain ⟨branch, hbranch, _⟩ := h
  refine ⟨branch, hbranch, ?_⟩
  have hmem := List.mem_of_getElem? hbranch
  cases loop <;> simp [Loop.branches, Branch.any] at hmem <;> grind

/-- The first branch of a loop is never disabled. -/
theorem Loop.enabled_zero (loop : Loop) : Enabled (loop.branches (V := V)) 0 := by
  cases loop <;> exact ⟨.any true, rfl, rfl⟩

/-- No loop panics because all of its branches are disabled, and no loop loses a value: a future
whose value is not the output is pending whenever it is polled. The branches above the output are
pending in the same wake. -/
theorem Loop.select_keeps_values (loop : Loop)
    {s : Select V (maskWidth (loop.branches (V := V)).length)}
    (hrun : GuardedRun.Reaches (Select.wake loop.branches) (fun _ _ => True)
      (Select.start loop.branches) s) :
    s.output ≠ some .disabled ∧
      (s.output = none → ∀ poll ∈ s.wakes.flatten, poll.2 = none) ∧
      ∀ i value, s.output = some (.ready i value) →
        (∃ before, s.wakes.flatten = before ++ [(i, some value)] ∧ ∀ poll ∈ before, poll.2 = none) ∧
          ∀ j < i, Enabled (loop.branches (V := V)) j →
            ∃ polls, s.wakes.getLast? = some polls ∧ (j, none) ∈ polls := by
  have hlength : (loop.branches (V := V)).length ≤ 64 := by
    cases loop <;> simp [Loop.branches]
  have hsound := Sound.of_reaches hlength hrun
  have hmatches : ∀ i value, (i, some value) ∈ s.wakes.flatten → Matches loop.branches i value :=
    fun i value hmem => loop.matches_of_enabled (hsound.lifecycle.enabled _ hmem)
  have hnone (polls : List (PollOf V)) (hsub : ∀ poll ∈ polls, poll ∈ s.wakes.flatten)
      (hunmatched : ∀ i value, (i, some value) ∈ polls → ¬Matches loop.branches i value) :
      ∀ poll ∈ polls, poll.2 = none := by
    rintro ⟨i, answer⟩ hmem
    cases answer with
    | none => rfl
    | some value => exact absurd (hmatches i value (hsub _ hmem)) (hunmatched i value hmem)
  refine ⟨fun hdisabled => ?_, fun hpending => ?_, fun i value hready => ⟨?_, fun j hj hj' => ?_⟩⟩
  · obtain ⟨value, hmem, hunmatched⟩ := hsound.lifecycle.disabled hdisabled 0 loop.enabled_zero
    exact hunmatched (hmatches 0 value hmem)
  · exact hnone _ (fun _ h => h) (hsound.unmatched hpending)
  · obtain ⟨_, before, hpolls, hbefore⟩ := hsound.lifecycle.ready i value hready
    refine ⟨before, hpolls, hnone before (fun poll hmem => ?_) hbefore⟩
    rw [hpolls]
    exact List.mem_append_left _ hmem
  · rcases hsound.lifecycle.first i value hready j hj hj' with hpending | ⟨other, hmem, hunmatched⟩
    · exact hpending
    · exact absurd (hmatches j other hmem) hunmatched

/-- A session without tasks that is woken by a message. -/
def messageEnd : Select ℕ (maskWidth (Loop.branches (V := ℕ) (.session false false)).length) :=
  ⟨26#8, [[(0, none), (1, none), (2, none)], [(0, none), (1, some 1)]], some (.ready 1 1)⟩

/-- The message is the output of the call. -/
theorem session_keeps_values : messageEnd.output ≠ some .disabled := by
  have hrun : GuardedRun.exec (Select.wake (Loop.session false false).branches)
      (Select.start (Loop.session false false).branches)
      [fun _ => none, fun i => if i = 0 then none else some i] = some messageEnd := rfl
  exact (Loop.select_keeps_values _ (GuardedRun.reaches_of_exec
    (GuardedRun.stepsSatisfy_of_forall fun _ _ _ => trivial) hrun)).1

end Arbexpert.Macros
