import Arbexpert.Ratelimit.Refill
import Mathlib.Data.List.Count

/-!
# Tokens in a sliding window

A limiter whose capacity is that of one refill counts in fixed windows: after each refill it
grants as many calls as it has tokens. A window of one interval that starts between two ticks can
hold the calls of two refills. It cannot when any two calls with a tick between them are at least
one interval apart; and where calls may come in any number at given instants, nothing weaker
about these instants is enough.
-/

namespace Arbexpert.Ratelimit

/-- Every window of a length, wherever it starts, holds at most so many of the times. -/
def AtMost (limit length : ℕ) (times : List ℤ) : Prop :=
  ∀ start : ℤ, times.countP (fun time => start ≤ time ∧ time < start + length) ≤ limit

namespace Ratelimiter

/-- The times of the calls that get a token. -/
def grants (r : Ratelimiter) : List ℤ → List ℤ
  | [] => []
  | now :: rest =>
    match r.tryWait now now with
    | (t, .ok ()) => now :: t.grants rest
    | (t, .error _) => t.grants rest

/-- Any two of the instants with a tick of the limiter between them are at least one interval
apart. -/
def TicksApart (r : Ratelimiter) (interval : ℕ) (instants : Set ℤ) : Prop :=
  ∀ a ∈ instants, ∀ b ∈ instants, a ≤ b → r.ticksAt a < r.ticksAt b → a + interval ≤ b

/-- Calls at the instants, any number of them at each, never get more tokens in a window of one
interval than the limit. -/
def WindowsBounded (r : Ratelimiter) (limit interval : ℕ) (instants : Set ℤ) : Prop :=
  ∀ times : List ℤ, times.Pairwise (· ≤ ·) → (∀ now ∈ times, now ∈ instants) →
    AtMost limit interval (r.grants times)

variable {r : Ratelimiter} {a b now start : ℤ} {limit interval : ℕ} {times : List ℤ}
  {instants : Set ℤ}

/-- A call takes a token from those after the refill, if there is one. -/
theorem tryWait_fst (r : Ratelimiter) (now : ℤ) : (r.tryWait now now).1 =
    { r.maybeRefill now with available := (r.maybeRefill now).available - 1 } := by
  rw [tryWait, tryWaitN]
  by_cases havailable : 1 ≤ (r.maybeRefill now).available
  · simp only [if_pos havailable]
  · have hzero : (r.maybeRefill now).available - 1 = (r.maybeRefill now).available := by omega
    simp only [if_neg havailable, hzero]

/-- A call leaves the parameters alone. -/
theorem parameters_tryWait (r : Ratelimiter) (now : ℤ) :
    (r.tryWait now now).1.parameters = r.parameters := by
  rw [tryWait_fst]
  exact parameters_maybeRefill r now

/-- The tokens after a call. -/
theorem available_tryWait (r : Ratelimiter) (now : ℤ) :
    (r.tryWait now now).1.available = (r.maybeRefill now).available - 1 := by
  rw [tryWait_fst]

/-- The first call gets a token exactly if there is one after its refill. -/
theorem grants_cons (r : Ratelimiter) (now : ℤ) (rest : List ℤ) : r.grants (now :: rest) =
    if 1 ≤ (r.maybeRefill now).available then now :: (r.tryWait now now).1.grants rest
    else (r.tryWait now now).1.grants rest := by
  rw [grants]
  by_cases havailable : 1 ≤ (r.maybeRefill now).available
  · simp only [tryWait, tryWaitN, if_pos havailable]
  · simp only [tryWait, tryWaitN, if_neg havailable]

/-- The ticks that a refill finds are behind it. -/
theorem ticksAt_maybeRefill (r : Ratelimiter) (now later : ℤ) :
    (r.maybeRefill now).ticksAt later = r.ticksAt later - r.ticksAt now := by
  rw [ticksAt, parameters_maybeRefill, lastTick_add, Parameters.ticksPassed, Nat.sub_add_eq,
    Nat.mul_comm, Nat.sub_mul_div, ← Parameters.ticksPassed, ← ticksAt]

/-- The ticks that a call finds are behind it. -/
theorem ticksAt_tryWait (r : Ratelimiter) (now later : ℤ) :
    (r.tryWait now now).1.ticksAt later = r.ticksAt later - r.ticksAt now := by
  rw [tryWait_fst, ← ticksAt_maybeRefill]
  rfl

/-- A call that finds no tick takes a token from those available. -/
theorem tryWait_of_ticksAt (hticks : r.ticksAt now = 0) :
    (r.tryWait now now).1 = { r with available := r.available - 1 } := by
  rw [tryWait_fst, maybeRefill_of_ticksAt hticks]

/-- A call leaves the instants apart. -/
theorem TicksApart.tryWait (h : r.TicksApart interval instants) (now : ℤ) :
    (r.tryWait now now).1.TicksApart interval instants := by
  intro a ha b hb hle hticks
  rw [ticksAt_tryWait, ticksAt_tryWait] at hticks
  exact h a ha b hb hle (by omega)

/-- Calls get a token at the time of one of them. -/
theorem mem_of_mem_grants (hnow : now ∈ r.grants times) : now ∈ times := by
  induction times generalizing r with
  | nil => exact hnow
  | cons first rest ih =>
    rw [grants_cons] at hnow
    split at hnow
    · rcases List.mem_cons.mp hnow with rfl | hrest
      · exact List.mem_cons_self
      · exact List.mem_cons_of_mem _ (ih hrest)
    · exact List.mem_cons_of_mem _ (ih hnow)

/-- The number of tokens that calls get in the window of one interval from a start. -/
def granted (r : Ratelimiter) (start : ℤ) (interval : ℕ) (times : List ℤ) : ℕ :=
  (r.grants times).countP fun now => start ≤ now ∧ now < start + interval

/-- A call outside a window leaves the tokens of the window to those after it. -/
theorem granted_cons_of_not (hout : ¬(start ≤ now ∧ now < start + interval)) (rest : List ℤ) :
    r.granted start interval (now :: rest) =
      (r.tryWait now now).1.granted start interval rest := by
  rw [granted, granted, grants_cons]
  split
  · rw [List.countP_cons_of_neg (by simpa using hout)]
  · rfl

/-- A call in a window gets one token of the window at most. -/
theorem granted_cons_le (r : Ratelimiter) (start now : ℤ) (interval : ℕ) (rest : List ℤ) :
    r.granted start interval (now :: rest) ≤
      min 1 (r.maybeRefill now).available +
        (r.tryWait now now).1.granted start interval rest := by
  rw [granted, granted, grants_cons]
  split
  · rw [List.countP_cons]
    split <;> omega
  · omega

/-- Calls that all come after a window get nothing in it. -/
theorem granted_of_after (hafter : ∀ now ∈ times, start + interval ≤ now) :
    r.granted start interval times = 0 := by
  refine List.countP_eq_zero.mpr fun now hnow hwindow => ?_
  have hin := of_decide_eq_true hwindow
  exact absurd (hafter now (mem_of_mem_grants hnow)) (Int.not_le.mpr hin.2)

/-- Calls that find no tick in a window get the available tokens there at most. -/
theorem granted_le_available (hsorted : times.Pairwise (· ≤ ·))
    (hquiet : ∀ now ∈ times, now < start + interval → r.ticksAt now = 0) :
    r.granted start interval times ≤ r.available := by
  induction times generalizing r with
  | nil => exact Nat.zero_le _
  | cons now rest ih =>
    obtain ⟨hfirst, hrest⟩ := List.pairwise_cons.mp hsorted
    by_cases hin : now < start + interval
    · have hticks : r.ticksAt now = 0 := hquiet now List.mem_cons_self hin
      have hleft : (r.tryWait now now).1.granted start interval rest ≤ r.available - 1 := by
        rw [tryWait_of_ticksAt hticks]
        exact ih hrest fun later hlater => hquiet later (List.mem_cons_of_mem _ hlater)
      have hone := granted_cons_le r start now interval rest
      rw [maybeRefill_of_ticksAt hticks] at hone
      omega
    · rw [granted_of_after (List.forall_mem_cons.mpr
        ⟨Int.not_lt.mp hin, fun later hlater =>
          Int.le_trans (Int.not_lt.mp hin) (hfirst later hlater)⟩)]
      exact Nat.zero_le _

/-- Calls with a tick between them that are at least one interval apart never get more than the
limit in a window: the first call in the window is the last that can find a tick. -/
theorem granted_le_limit (hcapacity : r.parameters.capacity = limit) (hleft : r.available ≤ limit)
    (hapart : r.TicksApart interval instants) (hsorted : times.Pairwise (· ≤ ·))
    (hinstants : ∀ now ∈ times, now ∈ instants) : r.granted start interval times ≤ limit := by
  induction times generalizing r with
  | nil => exact Nat.zero_le _
  | cons now rest ih =>
    obtain ⟨hfirst, hrest⟩ := List.pairwise_cons.mp hsorted
    obtain ⟨hnow, hothers⟩ := List.forall_mem_cons.mp hinstants
    have htokens : (r.maybeRefill now).available ≤ limit := by
      rw [← hcapacity] at hleft ⊢
      exact available_maybeRefill_fits hleft now
    by_cases hin : start ≤ now ∧ now < start + interval
    · have hquiet : (r.tryWait now now).1.granted start interval rest ≤
          (r.maybeRefill now).available - 1 := by
        rw [← available_tryWait]
        refine granted_le_available hrest fun later hlater hend => ?_
        have hsame : ¬r.ticksAt now < r.ticksAt later := fun hticks => by
          have := hapart now hnow later (hothers later hlater) (hfirst later hlater) hticks
          omega
        rw [ticksAt_tryWait]
        omega
      have hone := granted_cons_le r start now interval rest
      omega
    · rw [granted_cons_of_not hin]
      refine ih ?_ ?_ (hapart.tryWait now) hrest hothers
      · rw [parameters_tryWait, hcapacity]
      · rw [available_tryWait]
        omega

/-- The tokens after a refill are as many as the limit, if they were or a tick has come. -/
theorem available_maybeRefill_eq (hcapacity : r.parameters.capacity = limit)
    (hrefill : r.parameters.refillAmount = limit) (hsum : r.refilled now < 2 ^ 64)
    (hfull : r.available = limit ∨ r.ticksAt now ≠ 0) :
    (r.maybeRefill now).available = limit := by
  by_cases hticks : r.ticksAt now = 0
  · rw [maybeRefill_of_ticksAt hticks]
    exact hfull.resolve_right (not_not_intro hticks)
  · have hone : limit ≤ r.refilled now := by
      rw [← hrefill]
      exact Nat.le_trans (Nat.le_mul_of_pos_left _ (Nat.pos_of_ne_zero hticks))
        (Nat.le_add_left _ _)
    rw [(available_maybeRefill hticks hsum).1, hcapacity]
    exact Nat.min_eq_left hone

/-- The first call finds the tokens that a refill before it would leave. -/
theorem grants_maybeRefill (r : Ratelimiter) (now : ℤ) (rest : List ℤ) :
    (r.maybeRefill now).grants (now :: rest) = r.grants (now :: rest) := by
  have hagain : (r.maybeRefill now).maybeRefill now = r.maybeRefill now :=
    maybeRefill_of_ticksAt (by rw [ticksAt_maybeRefill, Nat.sub_self])
  rw [grants_cons, grants_cons, tryWait_fst, tryWait_fst, hagain]

/-- Calls at one instant between two ticks get the available tokens. -/
theorem grants_replicate {calls : ℕ} (hticks : r.ticksAt now = 0) (hleft : calls ≤ r.available)
    (rest : List ℤ) : r.grants (List.replicate calls now ++ rest) =
      List.replicate calls now ++
        ({ r with available := r.available - calls } : Ratelimiter).grants rest := by
  induction calls generalizing r with
  | zero => rfl
  | succ calls ih =>
    have hone : 1 ≤ (r.maybeRefill now).available := by
      rw [maybeRefill_of_ticksAt hticks]
      omega
    have hrest : ({ r with available := r.available - 1 } : Ratelimiter).ticksAt now = 0 := hticks
    rw [List.replicate_succ, List.cons_append, grants_cons, if_pos hone,
      tryWait_of_ticksAt hticks, ih hrest (Nat.le_sub_one_of_lt hleft), Nat.sub_sub,
      Nat.add_comm 1 calls, List.cons_append]

/-- As many calls at one instant as the limit all get a token, if the bucket is full there, and
leave it empty. -/
theorem grants_burst (hpos : 0 < limit) (hfull : (r.maybeRefill now).available = limit)
    (rest : List ℤ) : r.grants (List.replicate limit now ++ rest) =
      List.replicate limit now ++
        ({ r.maybeRefill now with available := 0 } : Ratelimiter).grants rest := by
  obtain ⟨calls, rfl⟩ : ∃ calls, limit = calls + 1 := ⟨limit - 1, by omega⟩
  have hticks : (r.maybeRefill now).ticksAt now = 0 := by
    rw [ticksAt_maybeRefill, Nat.sub_self]
  have hburst := grants_replicate hticks (Nat.le_of_eq hfull.symm) rest
  rw [hfull, Nat.sub_self] at hburst
  rw [← hburst, List.replicate_succ, List.cons_append, grants_maybeRefill]

/-- Two instants with a tick between them that are less than one interval apart are enough for a
window with twice the limit. -/
theorem exceeds_of_near (hpos : 0 < limit) (hcapacity : r.parameters.capacity = limit)
    (hrefill : r.parameters.refillAmount = limit) (hleft : r.available = limit)
    (hfits : r.refilled b < 2 ^ 64) (hle : a ≤ b) (hticks : r.ticksAt a < r.ticksAt b)
    (hnear : b < a + interval) :
    ¬AtMost limit interval
      (r.grants (List.replicate limit a ++ (List.replicate limit b ++ []))) := by
  have hfitsFirst : r.refilled a < 2 ^ 64 := by
    have hmul := Nat.mul_le_mul_right r.parameters.refillAmount (Nat.le_of_lt hticks)
    unfold refilled at hfits ⊢
    omega
  have hfirst : (r.maybeRefill a).available = limit :=
    available_maybeRefill_eq hcapacity hrefill hfitsFirst (Or.inl hleft)
  have hbehind : ({ r.maybeRefill a with available := 0 } : Ratelimiter).ticksAt b =
      r.ticksAt b - r.ticksAt a := ticksAt_maybeRefill r a b
  have hsecond : (({ r.maybeRefill a with available := 0 } : Ratelimiter).maybeRefill b).available =
      limit := by
    refine available_maybeRefill_eq ?_ ?_ ?_ (Or.inr (by omega))
    · exact (congrArg Parameters.capacity (parameters_maybeRefill r a)).trans hcapacity
    · exact (congrArg Parameters.refillAmount (parameters_maybeRefill r a)).trans hrefill
    · rw [refilled, hbehind, parameters_maybeRefill]
      have hmul := Nat.mul_le_mul_right r.parameters.refillAmount
        (Nat.sub_le (r.ticksAt b) (r.ticksAt a))
      unfold refilled at hfits
      simp only
      omega
  rw [grants_burst hpos hfirst, grants_burst hpos hsecond]
  intro hbounded
  have htwice := hbounded a
  simp only [grants, List.append_nil, List.countP_append, List.countP_replicate, true_and, hle,
    hnear, decide_true, if_true] at htwice
  rw [if_pos (by simp; omega)] at htwice
  omega

/-- What a limiter that is built with all its tokens available starts with. -/
theorem of_build {interval system : ℕ} {alignment : Alignment} {syncInfo : Option (ℕ × ℤ)}
    {start : ℤ} (hbuilt : (⟨limit, limit, limit, interval, alignment, syncInfo⟩ : Builder).build
      start system = .ok r) :
    r.parameters.capacity = limit ∧ r.parameters.refillAmount = limit ∧ r.available = limit := by
  unfold Builder.build at hbuilt
  simp only [Nat.lt_irrefl, ↓reduceIte] at hbuilt
  split at hbuilt
  · cases hbuilt
  · cases hbuilt
    exact ⟨rfl, rfl, rfl⟩

/-- A limiter whose tokens are those of one refill grants no more than these in any window of one
interval if any two calls with a tick between them are at least one interval apart. Where calls
may come in any number at given instants, and no refill there exceeds a word, this spacing of the
instants is also necessary. -/
theorem window_bounded_iff {system : ℕ} {alignment : Alignment} {syncInfo : Option (ℕ × ℤ)}
    (hbuilt : (⟨limit, limit, limit, interval, alignment, syncInfo⟩ : Builder).build start system =
      .ok r) (instants : Set ℤ) :
    (r.TicksApart interval instants → r.WindowsBounded limit interval instants) ∧
      (0 < limit → (∀ now ∈ instants, r.refilled now < 2 ^ 64) →
        (r.WindowsBounded limit interval instants ↔ r.TicksApart interval instants)) := by
  obtain ⟨hcapacity, hrefill, hleft⟩ := of_build hbuilt
  have hbounded : r.TicksApart interval instants → r.WindowsBounded limit interval instants :=
    fun hapart _ hsorted hinstants _ =>
      granted_le_limit hcapacity (Nat.le_of_eq hleft) hapart hsorted hinstants
  refine ⟨hbounded, fun hpos hfits => ⟨fun hwindows => ?_, hbounded⟩⟩
  intro a ha b hb hle hticks
  by_contra hnear
  apply exceeds_of_near hpos hcapacity hrefill hleft (hfits b hb) hle hticks (Int.not_le.mp hnear)
  apply hwindows
  · simpa [List.pairwise_append, List.pairwise_replicate] using fun _ => hle
  · intro now hnow
    simp only [List.append_nil, List.mem_append, List.mem_replicate] at hnow
    rcases hnow with ⟨_, rfl⟩ | ⟨_, rfl⟩
    · exact ha
    · exact hb

/-- A limiter of two tokens whose calls come in the second half of its intervals, later in each
than in the one before. -/
theorem spacedCalls_bounded : ∃ r, (⟨2, 2, 2, 10, .interval, none⟩ : Builder).build 0 0 = .ok r ∧
    r.grants [5, 5, 5, 15, 16, 27] = [5, 5, 15, 16, 27] ∧
      AtMost 2 10 (r.grants [5, 5, 5, 15, 16, 27]) := by
  have hbuilt : (⟨2, 2, 2, 10, .interval, none⟩ : Builder).build 0 0 =
      .ok ⟨2, 0, ⟨2, 2, 10, .interval, 0⟩, 0⟩ := rfl
  have hapart : ∀ a ∈ [5, 15, 16, 27], ∀ b ∈ [5, 15, 16, 27], a ≤ b →
      ticksAt ⟨2, 0, ⟨2, 2, 10, .interval, 0⟩, 0⟩ a <
        ticksAt ⟨2, 0, ⟨2, 2, 10, .interval, 0⟩, 0⟩ b → a + (10 : ℕ) ≤ b := by decide
  have hinstants : ∀ now ∈ [5, 5, 5, 15, 16, 27], (now : ℤ) ∈ [5, 15, 16, 27] := by decide
  refine ⟨_, hbuilt, by decide, ?_⟩
  exact (window_bounded_iff hbuilt {now | now ∈ [5, 15, 16, 27]}).1 hapart _ (by decide) hinstants

/-- A call just before a tick and one at the tick both get the only token of an interval. -/
theorem straddled_tick_exceeds : ∃ r,
    (⟨1, 1, 1, 10, .interval, none⟩ : Builder).build 0 0 = .ok r ∧ r.grants [9, 10] = [9, 10] ∧
      ¬AtMost 1 10 (r.grants [9, 10]) := by
  refine ⟨_, rfl, by decide, fun hbounded => ?_⟩
  exact absurd (hbounded 9) (by decide)

end Ratelimiter

end Arbexpert.Ratelimit
