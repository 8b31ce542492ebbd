import Arbexpert.Foundation.Accounting
import Arbexpert.Foundation.GuardedRun
import Arbexpert.Ratelimit.Ratelimiter

/-!
# Threads that share a limiter

Each atomic access to the limiter is a step of a thread. A refill claims its intervals by
moving the last tick, adds their tokens in a loop, and counts those that did not fit. While
it is in progress its tokens are neither available nor dropped, but they are not lost.
-/

namespace Arbexpert.Ratelimit

/-- The access that a thread makes next in `try_wait_n`, with the tokens that it wants and
what it has read. -/
inductive Thread
  | idle
  | refillLast (tokens : ℕ)
  | refillNow (tokens last : ℕ)
  | refillClaim (tokens last ticks : ℕ)
  | refillLoad (tokens toAdd : ℕ)
  | refillSwap (tokens toAdd current : ℕ)
  | refillDrop (tokens overflow : ℕ)
  | waitLoad (tokens : ℕ)
  | waitSwap (tokens current : ℕ)
  | hintNow
  | hintLast (now : ℤ)
  | done (result : Except ℕ Unit)

/-- What an access does: the next access of the thread, the limiter, the tokens granted and
the intervals credited. -/
structure Access where
  thread : Thread
  limiter : Ratelimiter
  granted : ℕ
  credited : ℕ

/-- The limiter with its threads and the clock. The tokens granted are recorded, and the ends
of the intervals credited. -/
structure Machine where
  limiter : Ratelimiter
  threads : List Thread
  now : ℤ
  granted : ℕ
  credited : List ℕ

/-- What can happen next: a new thread, a call, an access of a thread, or time passes. A weak
exchange may fail for no reason. -/
inductive ThreadAction
  | spawn
  | call (i tokens : ℕ)
  | run (i : ℕ) (spurious : Bool)
  | pass (d : ℕ)

namespace Thread

/-- The next access of a thread. -/
def access (r : Ratelimiter) (now : ℤ) (spurious : Bool) : Thread → Option Access
  | .idle => none
  | .refillLast tokens =>
    if r.parameters.intervalNanos = 0 then some ⟨.waitLoad tokens, r, 0, 0⟩
    else some ⟨.refillNow tokens r.lastTick, r, 0, 0⟩
  | .refillNow tokens last =>
    let ticks := r.parameters.ticksPassed last (r.parameters.elapsedNanos now)
    if ticks = 0 then some ⟨.waitLoad tokens, r, 0, 0⟩
    else some ⟨.refillClaim tokens last ticks, r, 0, 0⟩
  | .refillClaim tokens last ticks =>
    if r.lastTick = last then
      some ⟨.refillLoad tokens (r.parameters.tokensToAdd ticks),
        { r with lastTick := r.parameters.newLastTick last ticks }, 0, ticks⟩
    else some ⟨.waitLoad tokens, r, 0, 0⟩
  | .refillLoad tokens toAdd => some ⟨.refillSwap tokens toAdd r.available, r, 0, 0⟩
  | .refillSwap tokens toAdd current =>
    if r.available = current ∧ spurious = false then
      let sum := addU64 current toAdd
      some ⟨if r.parameters.capacity < sum then .refillDrop tokens (sum - r.parameters.capacity)
          else .waitLoad tokens,
        { r with available := r.parameters.newAvailable current toAdd }, 0, 0⟩
    else some ⟨.refillSwap tokens toAdd r.available, r, 0, 0⟩
  | .refillDrop tokens overflow =>
    some ⟨.waitLoad tokens, { r with dropped := addU64 r.dropped overflow }, 0, 0⟩
  | .waitLoad tokens =>
    if tokens ≤ r.available then some ⟨.waitSwap tokens r.available, r, 0, 0⟩
    else some ⟨.hintNow, r, 0, 0⟩
  | .waitSwap tokens current =>
    if r.available = current then
      some ⟨.done (.ok ()), { r with available := current - tokens }, tokens, 0⟩
    else some ⟨.waitLoad tokens, r, 0, 0⟩
  | .hintNow => some ⟨.hintLast now, r, 0, 0⟩
  | .hintLast reading => some ⟨.done (.error (r.nextRefill - reading).toNat), r, 0, 0⟩
  | .done _ => none

/-- The tokens of a refill in progress. -/
def inFlight : Thread → ℕ
  | .refillLoad _ toAdd => toAdd
  | .refillSwap _ toAdd _ => toAdd
  | .refillDrop _ overflow => overflow
  | _ => 0

/-- Whether a thread is inside a refill, where it holds the lock of the parameters. -/
def InRefill : Thread → Bool
  | .refillNow _ _ => true
  | .refillClaim _ _ _ => true
  | .refillLoad _ _ => true
  | .refillSwap _ _ _ => true
  | .refillDrop _ _ => true
  | _ => false

/-- No sum or product of the next access exceeds a word. -/
def NoOverflow (r : Ratelimiter) : Thread → Prop
  | .refillClaim _ _ ticks => ticks * r.parameters.refillAmount < 2 ^ 64
  | .refillSwap _ toAdd current => current + toAdd < 2 ^ 64
  | .refillDrop _ overflow => r.dropped + overflow < 2 ^ 64
  | _ => True

/-- Whether the next access exceeds a word is computed. -/
instance (r : Ratelimiter) (thread : Thread) : Decidable (thread.NoOverflow r) := by
  cases thread <;> simp only [NoOverflow] <;> infer_instance

/-- A tick is a word and is not in the future, and there is an interval. -/
structure HasElapsed (parameters : Parameters) (now : ℤ) (tick : ℕ) : Prop where
  interval : parameters.intervalNanos ≠ 0
  word : tick < 2 ^ 64
  clock : tick ≤ (now - parameters.startInstant).toNat

/-- The intervals that a thread claims have elapsed. -/
def ClaimsElapsed (parameters : Parameters) (now : ℤ) : Thread → Prop
  | .refillClaim _ last ticks =>
    HasElapsed parameters now (last + ticks * parameters.intervalNanos)
  | _ => True

/-- A thread takes no more tokens than it has seen. -/
def TakesSeen : Thread → Prop
  | .waitSwap tokens current => tokens ≤ current
  | _ => True

/-- What an access does to the clock of a limiter: the parameters stay, and the last tick
advances by the intervals credited, which have elapsed. -/
structure Advances (r : Ratelimiter) (now : ℤ) (a : Access) : Prop where
  parameters : a.limiter.parameters = r.parameters
  lastTick : a.limiter.lastTick = r.lastTick + a.credited * r.parameters.intervalNanos
  elapsed : a.credited = 0 ∨ HasElapsed r.parameters now a.limiter.lastTick
  claims : a.thread.ClaimsElapsed r.parameters now

/-- What an access does to the tokens when no sum or product exceeds a word: those of the
intervals credited are granted, available, dropped or in flight, and what is available fits. -/
structure Accounts (r : Ratelimiter) (thread : Thread) (a : Access) : Prop where
  tokens : a.granted + a.limiter.available + a.limiter.dropped + a.thread.inFlight =
    r.available + r.dropped + thread.inFlight + r.parameters.refillAmount * a.credited
  capacity : r.available ≤ r.parameters.capacity → a.limiter.available ≤ r.parameters.capacity
  takes : a.thread.TakesSeen

variable {r : Ratelimiter} {now : ℤ} {thread : Thread} {a : Access} {spurious : Bool}

/-- A sum that does not exceed a word. -/
theorem addU64_eq {a b : ℕ} (h : a + b < 2 ^ 64) : addU64 a b = a + b := Nat.mod_eq_of_lt h

/-- A product that does not exceed a word. -/
theorem mulU64_eq {a b : ℕ} (h : a * b < 2 ^ 64) : mulU64 a b = a * b := Nat.mod_eq_of_lt h

/-- The intervals found by reading the clock have elapsed. -/
theorem claimsElapsed_refillClaim (parameters : Parameters) (now : ℤ) (tokens last : ℕ)
    (hticks : parameters.ticksPassed last (parameters.elapsedNanos now) ≠ 0) :
    (refillClaim tokens last
      (parameters.ticksPassed last (parameters.elapsedNanos now))).ClaimsElapsed
        parameters now := by
  have hmul := Nat.div_mul_le_self (parameters.elapsedNanos now - last) parameters.intervalNanos
  have hinterval : parameters.intervalNanos ≠ 0 := by
    intro hzero
    rw [Parameters.ticksPassed, hzero, Nat.div_zero] at hticks
    exact hticks rfl
  have hpos : 0 < parameters.elapsedNanos now - last := by
    by_contra hzero
    apply hticks
    rw [Parameters.ticksPassed, Nat.eq_zero_of_not_pos hzero, Nat.zero_div]
  have hword : parameters.elapsedNanos now < 2 ^ 64 := Nat.mod_lt _ (by decide)
  have hclock : parameters.elapsedNanos now ≤ (now - parameters.startInstant).toNat :=
    Nat.mod_le _ _
  simp only [ClaimsElapsed, Parameters.ticksPassed]
  exact ⟨hinterval, by omega, by omega⟩

/-- A claim that has elapsed does not exceed a word. -/
theorem newLastTick_eq {tokens last ticks : ℕ}
    (h : (refillClaim tokens last ticks).ClaimsElapsed r.parameters now) :
    r.parameters.newLastTick last ticks = last + ticks * r.parameters.intervalNanos := by
  have hword := h.word
  rw [Parameters.newLastTick, mulU64_eq (by omega), addU64_eq hword]

/-- An access that credits nothing and leaves the clock of the limiter alone. -/
theorem advances_of_eq (hparameters : a.limiter.parameters = r.parameters)
    (hlast : a.limiter.lastTick = r.lastTick) (hcredited : a.credited = 0)
    (hclaims : a.thread.ClaimsElapsed r.parameters now) : Advances r now a where
  parameters := hparameters
  lastTick := by rw [hlast, hcredited, Nat.zero_mul, Nat.add_zero]
  elapsed := Or.inl hcredited
  claims := hclaims

/-- An access that changes nothing but what the thread has read. -/
theorem accounts_read {next : Thread} (hflight : next.inFlight = thread.inFlight)
    (htakes : next.TakesSeen) : Accounts r thread ⟨next, r, 0, 0⟩ where
  tokens := by simp [hflight]
  capacity := id
  takes := htakes

/-- Every access moves the last tick by whole intervals that have elapsed. -/
theorem advances_access (haccess : thread.access r now spurious = some a)
    (hclaims : thread.ClaimsElapsed r.parameters now) : Advances r now a := by
  cases thread with
  | idle => cases haccess
  | done result => cases haccess
  | refillLast tokens =>
    simp only [access] at haccess
    split at haccess <;> cases haccess <;> exact advances_of_eq rfl rfl rfl trivial
  | refillNow tokens last =>
    simp only [access] at haccess
    split at haccess <;> cases haccess
    · exact advances_of_eq rfl rfl rfl trivial
    · rename_i hticks
      exact advances_of_eq rfl rfl rfl
        (claimsElapsed_refillClaim r.parameters now tokens last hticks)
  | refillClaim tokens last ticks =>
    simp only [access] at haccess
    split at haccess <;> cases haccess
    · rename_i hlast
      have hnew := newLastTick_eq hclaims
      exact ⟨rfl, hlast ▸ hnew, Or.inr (hnew ▸ hclaims), trivial⟩
    · exact advances_of_eq rfl rfl rfl trivial
  | refillLoad tokens toAdd =>
    cases haccess
    exact advances_of_eq rfl rfl rfl trivial
  | refillSwap tokens toAdd current =>
    simp only [access] at haccess
    split at haccess <;> cases haccess
    · refine advances_of_eq rfl rfl rfl ?_
      simp only
      split <;> trivial
    · exact advances_of_eq rfl rfl rfl trivial
  | refillDrop tokens overflow =>
    cases haccess
    exact advances_of_eq rfl rfl rfl trivial
  | waitLoad tokens =>
    simp only [access] at haccess
    split at haccess <;> cases haccess <;> exact advances_of_eq rfl rfl rfl trivial
  | waitSwap tokens current =>
    simp only [access] at haccess
    split at haccess <;> cases haccess <;> exact advances_of_eq rfl rfl rfl trivial
  | hintNow =>
    cases haccess
    exact advances_of_eq rfl rfl rfl trivial
  | hintLast reading =>
    cases haccess
    exact advances_of_eq rfl rfl rfl trivial

/-- The tokens of a refill become available up to the capacity, and the others are in flight. -/
theorem accounts_refillSwap {toAdd current : ℕ} (tokens : ℕ) (hcurrent : r.available = current)
    (hword : current + toAdd < 2 ^ 64) : Accounts r (.refillSwap tokens toAdd current)
      ⟨if r.parameters.capacity < addU64 current toAdd then
          .refillDrop tokens (addU64 current toAdd - r.parameters.capacity)
        else .waitLoad tokens,
        { r with available := r.parameters.newAvailable current toAdd }, 0, 0⟩ := by
  have hsum : addU64 current toAdd = current + toAdd := addU64_eq hword
  have hnew : r.parameters.newAvailable current toAdd =
      min (current + toAdd) r.parameters.capacity := by
    rw [Parameters.newAvailable, hsum]
  refine ⟨?_, fun _ => hnew ▸ Nat.min_le_right _ _, ?_⟩
  · simp only [hnew, hsum]
    by_cases hover : r.parameters.capacity < current + toAdd
    · simp only [if_pos hover, inFlight]
      omega
    · simp only [if_neg hover, inFlight]
      omega
  · simp only [hsum]
    split <;> trivial

/-- The accounts of every access that does not overflow. -/
theorem accounts_access (haccess : thread.access r now spurious = some a)
    (htakes : thread.TakesSeen) (hword : thread.NoOverflow r) : Accounts r thread a := by
  cases thread with
  | idle => cases haccess
  | done result => cases haccess
  | refillLast tokens =>
    simp only [access] at haccess
    split at haccess <;> cases haccess <;> exact accounts_read rfl trivial
  | refillNow tokens last =>
    simp only [access] at haccess
    split at haccess <;> cases haccess <;> exact accounts_read rfl trivial
  | refillClaim tokens last ticks =>
    simp only [access] at haccess
    split at haccess <;> cases haccess
    · have hadd : r.parameters.tokensToAdd ticks = ticks * r.parameters.refillAmount :=
        mulU64_eq hword
      refine ⟨?_, id, trivial⟩
      simp only [inFlight, hadd, Nat.mul_comm ticks]
      omega
    · exact accounts_read rfl trivial
  | refillLoad tokens toAdd =>
    cases haccess
    exact accounts_read rfl trivial
  | refillSwap tokens toAdd current =>
    simp only [access] at haccess
    split at haccess <;> cases haccess
    · rename_i hcurrent
      exact accounts_refillSwap tokens hcurrent.1 hword
    · exact accounts_read rfl trivial
  | refillDrop tokens overflow =>
    cases haccess
    have hsum : addU64 r.dropped overflow = r.dropped + overflow := addU64_eq hword
    refine ⟨?_, id, trivial⟩
    simp only [hsum, inFlight]
    omega
  | waitLoad tokens =>
    simp only [access] at haccess
    split at haccess <;> cases haccess
    · rename_i hseen
      exact accounts_read rfl hseen
    · exact accounts_read rfl trivial
  | waitSwap tokens current =>
    simp only [access] at haccess
    split at haccess <;> cases haccess
    · rename_i hcurrent
      have hseen : tokens ≤ current := htakes
      refine ⟨?_, fun _ => ?_, trivial⟩
      · simp only [inFlight]
        omega
      · simp only
        omega
    · exact accounts_read rfl trivial
  | hintNow =>
    cases haccess
    exact accounts_read rfl trivial
  | hintLast reading =>
    cases haccess
    exact accounts_read rfl trivial

/-- An access of a thread that nobody disturbs. -/
def Alone (now : ℤ) (p q : Thread × Ratelimiter) : Prop :=
  ∃ a, p.1.access p.2 now false = some a ∧ q = (a.thread, a.limiter)

/-- A thread that nobody disturbs refills the bucket as `maybeRefill` does. -/
theorem alone_maybeRefill (r : Ratelimiter) (now : ℤ) (tokens : ℕ) :
    Relation.ReflTransGen (Alone now) (.refillLast tokens, r)
      (.waitLoad tokens, r.maybeRefill now) := by
  by_cases hinterval : r.parameters.intervalNanos = 0
  · rw [Ratelimiter.maybeRefill, if_pos hinterval]
    exact .single ⟨_, if_pos hinterval, rfl⟩
  · rw [Ratelimiter.maybeRefill, if_neg hinterval]
    refine .head ⟨_, if_neg hinterval, rfl⟩ ?_
    simp only
    split
    · rename_i hticks
      exact .single ⟨_, if_pos hticks, rfl⟩
    · rename_i hticks
      refine .head ⟨_, if_neg hticks, rfl⟩ (.head ⟨_, if_pos rfl, rfl⟩ (.head ⟨_, rfl, rfl⟩ ?_))
      split
      · rename_i hover
        refine .head ⟨_, if_pos ⟨rfl, rfl⟩, rfl⟩ ?_
        simp only [if_pos hover]
        exact .single ⟨_, rfl, rfl⟩
      · rename_i hover
        refine .single ⟨_, if_pos ⟨rfl, rfl⟩, ?_⟩
        simp only [if_neg hover]
        rfl

/-- A thread that nobody disturbs does what `tryWaitN` does. -/
theorem alone_tryWaitN (r : Ratelimiter) (now : ℤ) (tokens : ℕ) :
    Relation.ReflTransGen (Alone now) (.refillLast tokens, r)
      (.done (r.tryWaitN now now tokens).2, (r.tryWaitN now now tokens).1) := by
  apply (alone_maybeRefill r now tokens).trans
  unfold Ratelimiter.tryWaitN
  simp only
  split
  · rename_i hseen
    exact .head ⟨_, if_pos hseen, rfl⟩ (.single ⟨_, if_pos rfl, rfl⟩)
  · rename_i hseen
    exact .head ⟨_, if_neg hseen, rfl⟩ (.head ⟨_, rfl, rfl⟩ (.single ⟨_, rfl, rfl⟩))

end Thread

namespace Machine

/-- A limiter without threads. -/
def start (limiter : Ratelimiter) (now : ℤ) : Machine := ⟨limiter, [], now, 0, []⟩

/-- One step. A thread calls again when its last call has returned. -/
def step (s : Machine) : ThreadAction → Option Machine
  | .spawn => some { s with threads := s.threads ++ [.idle] }
  | .call i tokens =>
    match s.threads[i]? with
    | some .idle => some { s with threads := s.threads.set i (.refillLast tokens) }
    | some (.done _) => some { s with threads := s.threads.set i (.refillLast tokens) }
    | _ => none
  | .run i spurious =>
    s.threads[i]?.bind fun thread => (thread.access s.limiter s.now spurious).map fun access =>
      { s with
        limiter := access.limiter
        threads := s.threads.set i access.thread
        granted := s.granted + access.granted
        credited := s.credited ++ Accounting.ticks s.limiter.lastTick
          s.limiter.parameters.intervalNanos access.credited }
  | .pass d => some { s with now := s.now + d }

/-- No sum or product of a step exceeds a word. -/
def NoOverflow (s : Machine) : ThreadAction → Prop
  | .run i _ => ∀ thread ∈ s.threads[i]?, thread.NoOverflow s.limiter
  | _ => True

/-- Whether a step exceeds a word is computed. -/
instance (s : Machine) (action : ThreadAction) : Decidable (s.NoOverflow action) :=
  match action with
  | .spawn => isTrue trivial
  | .call _ _ => isTrue trivial
  | .run i _ => inferInstanceAs (Decidable (∀ thread ∈ s.threads[i]?, thread.NoOverflow s.limiter))
  | .pass _ => isTrue trivial

/-- The tokens of the refills in progress. -/
def inFlight (s : Machine) : ℕ := (s.threads.map Thread.inFlight).sum

/-- The clock of a run from a limiter with the given values: the intervals credited are those
up to the last tick, each once and in order, and they have elapsed. -/
structure Ticking (r : Ratelimiter) (s : Machine) : Prop where
  parameters : s.limiter.parameters = r.parameters
  lastTick : s.limiter.lastTick = r.lastTick + s.credited.length * r.parameters.intervalNanos
  credited : s.credited =
    Accounting.ticks r.lastTick r.parameters.intervalNanos s.credited.length
  elapsed : s.credited = [] ∨ Thread.HasElapsed r.parameters s.now s.limiter.lastTick
  claims : ∀ thread ∈ s.threads, thread.ClaimsElapsed r.parameters s.now

/-- The tokens of a run from a limiter with the given values: they come from the intervals
credited, and what is available fits. -/
structure Conserved (r : Ratelimiter) (s : Machine) : Prop where
  tokens : s.granted + s.limiter.available + s.limiter.dropped + s.inFlight =
    r.available + r.dropped + r.parameters.refillAmount * s.credited.length
  capacity : s.limiter.available ≤ r.parameters.capacity
  takes : ∀ thread ∈ s.threads, thread.TakesSeen

variable {r : Ratelimiter} {now : ℤ} {s t : Machine} {action : ThreadAction}

/-- Nothing has been credited, and no thread claims anything. -/
theorem ticking_of_nil (hcredited : s.credited = [])
    (hclaims : ∀ thread ∈ s.threads, thread.ClaimsElapsed s.limiter.parameters s.now) :
    s.Ticking s.limiter where
  parameters := rfl
  lastTick := by simp [hcredited]
  credited := by simp [hcredited]
  elapsed := Or.inl hcredited
  claims := hclaims

/-- Nothing has been granted at the start. -/
theorem conserved_start (now : ℤ) (h : r.available ≤ r.parameters.capacity) :
    (start r now).Conserved r where
  tokens := by simp [start, inFlight]
  capacity := h
  takes := by simp [start]

/-- What has elapsed has elapsed later, too. -/
theorem hasElapsed_pass {parameters : Parameters} {tick : ℕ} (d : ℕ)
    (h : Thread.HasElapsed parameters now tick) : Thread.HasElapsed parameters (now + d) tick :=
  ⟨h.interval, h.word, Nat.le_trans h.clock (by omega)⟩

/-- Later, the intervals that a thread claims have still elapsed. -/
theorem claimsElapsed_pass {thread : Thread} {parameters : Parameters} (d : ℕ)
    (h : thread.ClaimsElapsed parameters now) : thread.ClaimsElapsed parameters (now + d) := by
  cases thread <;> simp only [Thread.ClaimsElapsed] at h ⊢
  exact hasElapsed_pass d h

/-- The number of intervals credited after an access. -/
theorem length_credited (s : Machine) (a : Access) :
    (s.credited ++ Accounting.ticks s.limiter.lastTick s.limiter.parameters.intervalNanos
      a.credited).length = s.credited.length + a.credited := by
  simp [Accounting.ticks]

/-- A thread that makes a call had none. -/
theorem of_step_call {i tokens : ℕ} (hstep : s.step (.call i tokens) = some t) :
    (∃ thread, s.threads[i]? = some thread ∧ thread.inFlight = 0) ∧
      t = { s with threads := s.threads.set i (.refillLast tokens) } := by
  simp only [Machine.step] at hstep
  split at hstep <;> cases hstep
  · rename_i hidle
    exact ⟨⟨_, hidle, rfl⟩, rfl⟩
  · rename_i hdone
    exact ⟨⟨_, hdone, rfl⟩, rfl⟩

/-- A step of a thread makes its next access. -/
theorem of_step_run {i : ℕ} {spurious : Bool} (hstep : s.step (.run i spurious) = some t) :
    ∃ thread a, s.threads[i]? = some thread ∧
      thread.access s.limiter s.now spurious = some a ∧ t = { s with
        limiter := a.limiter
        threads := s.threads.set i a.thread
        granted := s.granted + a.granted
        credited := s.credited ++ Accounting.ticks s.limiter.lastTick
          s.limiter.parameters.intervalNanos a.credited } := by
  obtain ⟨thread, hthread, hrest⟩ := Option.bind_eq_some_iff.mp hstep
  obtain ⟨a, haccess, rfl⟩ := Option.map_eq_some_iff.mp hrest
  exact ⟨thread, a, hthread, haccess, rfl⟩

/-- Every step keeps the clock. -/
theorem Ticking.step (h : s.Ticking r) (hstep : s.step action = some t) : t.Ticking r := by
  have hparameters := h.parameters
  cases action with
  | spawn =>
    cases hstep
    refine ⟨hparameters, h.lastTick, h.credited, h.elapsed, ?_⟩
    simpa [or_imp, forall_and] using ⟨h.claims, trivial⟩
  | call i tokens =>
    obtain ⟨_, rfl⟩ := of_step_call hstep
    exact ⟨hparameters, h.lastTick, h.credited, h.elapsed,
      Accounting.forall_mem_set h.claims trivial⟩
  | run i spurious =>
    obtain ⟨thread, a, hthread, haccess, rfl⟩ := of_step_run hstep
    have hclaims := h.claims thread (List.mem_of_getElem? hthread)
    have ha := Thread.advances_access haccess (hparameters ▸ hclaims)
    have hlength := length_credited s a
    refine ⟨ha.parameters.trans hparameters, ?_, ?_, ?_,
      Accounting.forall_mem_set h.claims (hparameters ▸ ha.claims)⟩
    · rw [hlength, ha.lastTick, h.lastTick, hparameters, Nat.add_mul, Nat.add_assoc]
    · rw [hlength, ← Accounting.ticks_add, ← h.credited, ← h.lastTick, hparameters]
    · rcases ha.elapsed with hzero | helapsed
      · rcases h.elapsed with hnone | helapsed
        · exact Or.inl (by simp [hnone, hzero])
        · apply Or.inr
          rw [ha.lastTick, hzero, Nat.zero_mul, Nat.add_zero]
          exact helapsed
      · exact Or.inr (hparameters ▸ helapsed)
  | pass d =>
    cases hstep
    exact ⟨hparameters, h.lastTick, h.credited, h.elapsed.imp_right (hasElapsed_pass d),
      fun thread hthread => claimsElapsed_pass d (h.claims thread hthread)⟩

/-- Every step that does not overflow keeps the tokens. -/
theorem Conserved.step (h : s.Conserved r) (hparameters : s.limiter.parameters = r.parameters)
    (hword : s.NoOverflow action) (hstep : s.step action = some t) : t.Conserved r := by
  have hbefore := h.tokens
  cases action with
  | spawn =>
    cases hstep
    refine ⟨?_, h.capacity, ?_⟩
    · simpa [inFlight, Thread.inFlight] using hbefore
    · simpa [or_imp, forall_and] using ⟨h.takes, trivial⟩
  | call i tokens =>
    obtain ⟨⟨thread, hthread, hflight⟩, rfl⟩ := of_step_call hstep
    refine ⟨?_, h.capacity, Accounting.forall_mem_set h.takes trivial⟩
    have htotal := Accounting.sum_map_set Thread.inFlight hthread (.refillLast tokens)
    have hnone : (Thread.refillLast tokens).inFlight = 0 := rfl
    simp only [inFlight] at hbefore ⊢
    omega
  | run i spurious =>
    obtain ⟨thread, a, hthread, haccess, rfl⟩ := of_step_run hstep
    have htakes := h.takes thread (List.mem_of_getElem? hthread)
    have ha := Thread.accounts_access haccess htakes (hword thread hthread)
    refine ⟨?_, hparameters ▸ ha.capacity (hparameters ▸ h.capacity),
      Accounting.forall_mem_set h.takes ha.takes⟩
    have htotal := Accounting.sum_map_set Thread.inFlight hthread a.thread
    have haccess := ha.tokens
    rw [hparameters] at haccess
    simp only [inFlight] at hbefore ⊢
    rw [length_credited, Nat.mul_add]
    omega
  | pass d =>
    cases hstep
    exact ⟨hbefore, h.capacity, h.takes⟩

/-- In every run of any number of threads in which nothing overflows, the tokens granted,
available, dropped and in flight are the initial ones and those of the intervals by which the
last tick has advanced; these intervals have elapsed and are credited once each, in order; and
the tokens available never exceed the capacity. -/
theorem tokens_conserved (havailable : r.available ≤ r.parameters.capacity)
    (hinterval : r.parameters.intervalNanos ≠ 0)
    (hrun : GuardedRun.Reaches step NoOverflow (start r now) s) :
    let intervals := (s.limiter.lastTick - r.lastTick) / r.parameters.intervalNanos
    s.granted + s.limiter.available + s.limiter.dropped + s.inFlight =
        r.available + r.dropped + r.parameters.refillAmount * intervals ∧
      s.limiter.lastTick = r.lastTick + intervals * r.parameters.intervalNanos ∧
      s.credited = Accounting.ticks r.lastTick r.parameters.intervalNanos intervals ∧
      (s.credited = [] ∨ s.limiter.lastTick ≤ (s.now - r.parameters.startInstant).toNat) ∧
      s.limiter.available ≤ r.parameters.capacity := by
  have hstart : (start r now).Ticking (start r now).limiter :=
    ticking_of_nil rfl fun _ h => absurd h List.not_mem_nil
  obtain ⟨hclock, htokens⟩ := hrun.invariant (I := fun u => u.Ticking r ∧ u.Conserved r)
    ⟨hstart, conserved_start now havailable⟩
    fun _ _ _ hu hguard hstep => ⟨hu.1.step hstep, hu.2.step hu.1.parameters hguard hstep⟩
  have hintervals :
      (s.limiter.lastTick - r.lastTick) / r.parameters.intervalNanos = s.credited.length := by
    rw [hclock.lastTick, Nat.add_sub_cancel_left,
      Nat.mul_div_cancel _ (Nat.pos_of_ne_zero hinterval)]
  simp only [hintervals]
  exact ⟨htokens.tokens, hclock.lastTick, hclock.credited,
    hclock.elapsed.imp_right Thread.HasElapsed.clock, htokens.capacity⟩

/-- A limiter with three tokens, which gets two every ten nanoseconds and holds six. -/
def smallLimiter : Ratelimiter := ⟨3, 0, ⟨6, 2, 10, .interval, 0⟩, 0⟩

/-- Two threads race for the refill of three intervals; the one that does not get it takes a
token before the tokens of the refill are added. -/
def racingRun : List ThreadAction :=
  [.spawn, .spawn, .call 0 1, .call 1 3, .pass 35, .run 0 false, .run 1 false, .run 1 false,
    .run 0 false, .run 1 false, .run 0 false, .run 0 false, .run 0 false, .run 1 false,
    .run 1 true, .run 1 false]

/-- The accounts of the race, while two tokens that do not fit are in flight. -/
theorem racingRun_conserved : ∃ s, GuardedRun.exec step (start smallLimiter 0) racingRun = some s ∧
    s.inFlight = 2 ∧ s.credited = [10, 20, 30] ∧
    s.granted + s.limiter.available + s.limiter.dropped + s.inFlight =
      3 + 0 + 2 * ((s.limiter.lastTick - 0) / 10) := by
  have hword : GuardedRun.StepsSatisfy step NoOverflow (start smallLimiter 0) racingRun := by
    decide +kernel
  exact ⟨_, rfl, rfl, rfl, (tokens_conserved (by decide) (by decide)
    (GuardedRun.reaches_of_exec hword rfl)).1⟩

end Machine

end Arbexpert.Ratelimit
