import Arbexpert.Base.Session
import Arbexpert.Ratelimit.Refill

/-!
# The hint of a call without tokens

A call that gets no tokens hints at the next refill after the last tick. At that time an
interval has elapsed, whichever refill the call itself has made, and its tokens are enough. So
a caller that sleeps for the hint and calls again sleeps once.
-/

namespace Arbexpert.Ratelimit

open Base

namespace Ratelimiter

/-- One refill is enough for a number of tokens, and it fits. -/
structure Refillable (r : Ratelimiter) (tokens : ℕ) : Prop where
  interval : r.parameters.intervalNanos ≠ 0
  refill : tokens ≤ r.parameters.refillAmount
  capacity : r.parameters.refillAmount ≤ r.parameters.capacity

/-- The times and the tokens of a call at an instant are words. -/
structure FitsWords (r : Ratelimiter) (now : ℤ) : Prop where
  elapsed : (now - r.parameters.startInstant).toNat < 2 ^ 64
  next : r.lastTick + r.parameters.intervalNanos < 2 ^ 64
  sum : r.refilled now < 2 ^ 64

variable {r t : Ratelimiter} {now reading retry : ℤ} {tokens hint : ℕ}

/-- After a refill the next one is enough as before. -/
theorem Refillable.maybeRefill (h : r.Refillable tokens) (now : ℤ) :
    (r.maybeRefill now).Refillable tokens := by
  have hsame := parameters_maybeRefill r now
  refine ⟨?_, ?_, ?_⟩
  · rw [hsame]
    exact h.interval
  · rw [hsame]
    exact h.refill
  · rw [hsame]
    exact h.capacity

/-- A call without tokens has refilled the limiter, and its hint leads to the next refill. -/
theorem of_tryWaitN_error (hfails : r.tryWaitN now reading tokens = (t, .error hint)) :
    t = r.maybeRefill now ∧ t.nextRefill ≤ reading + hint := by
  unfold tryWaitN at hfails
  simp only at hfails
  split at hfails
  · cases hfails
  · cases hfails
    exact ⟨rfl, by omega⟩

/-- From the next refill on an interval has elapsed. -/
theorem ticksAt_ne_zero (hinterval : r.parameters.intervalNanos ≠ 0) (hfits : r.FitsWords now)
    (hnext : r.nextRefill ≤ now) : r.ticksAt now ≠ 0 := by
  have hsum : addU64 r.lastTick r.parameters.intervalNanos =
      r.lastTick + r.parameters.intervalNanos := Thread.addU64_eq hfits.next
  have helapsed : r.parameters.elapsedNanos now = (now - r.parameters.startInstant).toNat :=
    Nat.mod_eq_of_lt hfits.elapsed
  rw [nextRefill, hsum] at hnext
  have hle : r.parameters.intervalNanos ≤ r.parameters.elapsedNanos now - r.lastTick := by
    rw [helapsed]
    omega
  exact Nat.ne_of_gt (Nat.div_pos hle (Nat.pos_of_ne_zero hinterval))

/-- A call from the next refill on gets its tokens. -/
theorem tryWaitN_ok (hrefill : r.Refillable tokens) (hfits : r.FitsWords now)
    (hnext : r.nextRefill ≤ now) (reading : ℤ) :
    (r.tryWaitN now reading tokens).2 = .ok () := by
  have hticks := ticksAt_ne_zero hrefill.interval hfits hnext
  have hone : r.parameters.refillAmount ≤ r.refilled now :=
    (Nat.le_mul_of_pos_left _ (Nat.pos_of_ne_zero hticks)).trans (Nat.le_add_left _ _)
  have henough : tokens ≤ (r.maybeRefill now).available := by
    rw [(available_maybeRefill hticks hfits.sum).1]
    exact Nat.le_min.mpr ⟨hrefill.refill.trans hrefill.capacity, hrefill.refill.trans hone⟩
  simp only [tryWaitN, if_pos henough]

/-- A call that gets no tokens and is repeated when its hint has passed gets them. -/
theorem retry_ok (hrefill : r.Refillable tokens)
    (hfails : r.tryWaitN now reading tokens = (t, .error hint)) (hretry : reading + hint ≤ retry)
    (hfits : t.FitsWords retry) (later : ℤ) : (t.tryWaitN retry later tokens).2 = .ok () := by
  obtain ⟨rfl, hnext⟩ := of_tryWaitN_error hfails
  exact tryWaitN_ok (hrefill.maybeRefill now) hfits (Int.le_trans hnext hretry) later

/-- A task of a session that gets no token and is polled again after its sleep, when nobody else
has used the limiter, hands its frame to the sink. -/
theorem task_sleeps_once {M : Type*} {s u : Session M} {i j d later : ℕ} {task : SendTask M}
    (hlimiter : s.limiter = some r) (hrefill : r.Refillable 1)
    (hfails : r.tryWait s.now (s.now + d) = (t, .error hint)) (hsame : u.limiter = some t)
    (hslept : s.now + d + hint ≤ u.now) (hfits : t.FitsWords u.now) :
    (s.poll i task d).tasks = s.tasks.set i ⟨task.frame, some (s.now + d + hint)⟩ ∧
      (u.poll j ⟨task.frame, some (s.now + d + hint)⟩ later).handed =
        u.handed ++ [task.frame] := by
  constructor
  · simp only [Session.poll, hlimiter, hfails]
  · have hok : (t.tryWait u.now (u.now + later)).2 = .ok () :=
      retry_ok hrefill hfails hslept hfits _
    simp only [Session.poll, hsame, hok, Session.hand]

/-- The loop of a caller sleeps this often: it calls, not before some time, and when it gets no
tokens it sleeps for the hint, counted from the second reading of the clock, and goes on. -/
inductive SleepLoop (tokens : ℕ) : Ratelimiter → ℤ → ℕ → Prop
  | calls (r : Ratelimiter) (earliest : ℤ) : SleepLoop tokens r earliest 0
  | sleeps {r t : Ratelimiter} {earliest now reading : ℤ} {hint count : ℕ} (hnow : earliest ≤ now)
      (hfits : r.FitsWords now) (hfails : r.tryWaitN now reading tokens = (t, .error hint))
      (hrest : SleepLoop tokens t (reading + hint) count) :
      SleepLoop tokens r earliest (count + 1)

/-- A loop that starts from the next refill on does not sleep. -/
theorem SleepLoop.eq_zero {earliest : ℤ} {count : ℕ} (hloop : SleepLoop tokens r earliest count)
    (hrefill : r.Refillable tokens) (hnext : r.nextRefill ≤ earliest) : count = 0 := by
  cases hloop with
  | calls => rfl
  | sleeps hnow hfits hfails hrest =>
    have hok := tryWaitN_ok hrefill hfits (Int.le_trans hnext hnow)
    cases (congrArg Prod.snd hfails).symm.trans (hok _)

/-- When one refill is enough for the tokens of a call and nothing exceeds a word, a call that
gets no tokens can be repeated from its hint on with success; so a loop that sleeps for its
hints sleeps once. -/
theorem retry_hint_sound (hrefill : r.Refillable tokens) :
    (∀ t now reading hint, r.tryWaitN now reading tokens = (t, .error hint) →
      ∀ retry later, reading + hint ≤ retry → t.FitsWords retry →
        (t.tryWaitN retry later tokens).2 = .ok ()) ∧
      ∀ earliest count, SleepLoop tokens r earliest count → count ≤ 1 := by
  constructor
  · intro t now reading hint hfails retry later hretry hfits
    exact retry_ok hrefill hfails hretry hfits later
  · intro earliest count hloop
    cases hloop with
    | calls => exact Nat.zero_le 1
    | sleeps hnow hfits hfails hrest =>
      obtain ⟨rfl, hnext⟩ := of_tryWaitN_error hfails
      have hzero := hrest.eq_zero (hrefill.maybeRefill _) hnext
      omega

/-- A limiter that gets two tokens every ten nanoseconds, asked for them between two ticks. -/
theorem emptyLimiter_retry :
    (((⟨0, 0, ⟨6, 2, 10, .interval, 0⟩, 0⟩ : Ratelimiter).tryWaitN 3 4 2).2 = .error 6) ∧
      ((⟨0, 0, ⟨6, 2, 10, .interval, 0⟩, 0⟩ : Ratelimiter).tryWaitN 10 11 2).2 = .ok () := by
  have hrefill : Refillable ⟨0, 0, ⟨6, 2, 10, .interval, 0⟩, 0⟩ 2 :=
    ⟨by decide, by decide, by decide⟩
  refine ⟨rfl, (retry_hint_sound hrefill).1 _ 3 4 6 rfl 10 11 (by decide) ⟨?_, ?_, ?_⟩⟩ <;> decide

end Ratelimiter

end Arbexpert.Ratelimit
