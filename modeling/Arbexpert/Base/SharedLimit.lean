import Arbexpert.Base.Session
import Arbexpert.Foundation.Accounting
import Arbexpert.Ratelimit.Budget

/-!
# The frames of a sub-client

The sessions that a sub-client opens one after the other share its send limiter. Each frame, be it
a command, a ping or a pong, waits for a token. So the frames that all sessions hand over in some
time keep to what the limiter grants in this time.
-/

namespace Arbexpert.Base

open Ratelimit

/-- The send limiter of a sub-client, the clock, and the sessions that were opened. -/
structure SharedLimit (M : Type*) where
  limiter : Ratelimiter
  now : ℤ
  sessions : List (Session M)

/-- What can happen next: a session is opened, or one of them makes a step. -/
inductive SharedLimitAction (M : Type*)
  | connect
  | session (i : ℕ) (action : SessionAction M)

variable {M : Type*}

namespace SharedLimit

/-- A new sub-client. -/
def start (limiter : Ratelimiter) (now : ℤ) : SharedLimit M := ⟨limiter, now, []⟩

/-- One step. A session finds the limiter and the clock as the others have left them. -/
def step (s : SharedLimit M) : SharedLimitAction M → Option (SharedLimit M)
  | .connect => some { s with sessions := s.sessions ++ [.start (some s.limiter) s.now] }
  | .session _ (.interfere _) => none
  | .session i action =>
    s.sessions[i]?.bind fun session =>
      ({ session with limiter := some s.limiter, now := s.now }.step action).bind fun session' =>
        session'.limiter.map fun limiter =>
          ⟨limiter, session'.now, s.sessions.set i session'⟩

/-- The number of frames that were handed over. -/
def frames (s : SharedLimit M) : ℕ := (s.sessions.map fun session => session.handed.length).sum

/-- The clock fits in a word. -/
def ClockFits (s : SharedLimit M) (_ : SharedLimitAction M) : Prop :=
  s.limiter.parameters.sinceStart s.now < 2 ^ 64

/-- Whether the clock fits is computed. -/
instance (s : SharedLimit M) (action : SharedLimitAction M) : Decidable (s.ClockFits action) :=
  inferInstanceAs (Decidable (_ < _))

end SharedLimit

namespace Session

variable {s t : Session M} {action : SessionAction M} {limiter : Ratelimiter}

/-- A step of a session leaves the limiter alone, or it asks it for a token: it hands a frame over
when it gets one, and nothing when it does not. -/
theorem step_limiter (hlimiter : s.limiter = some limiter) (hstep : s.step action = some t)
    (hown : ∀ other, action ≠ .interfere other) :
    (t.limiter = some limiter ∧ t.handed = s.handed ∧ s.now ≤ t.now) ∨
      ∃ d : ℕ,
        (∃ l, limiter.tryWait s.now (s.now + d) = (l, .ok ()) ∧ t.limiter = some l ∧
          t.handed.length = s.handed.length + 1 ∧ t.now = s.now) ∨
        ∃ l hint, limiter.tryWait s.now (s.now + d) = (l, .error hint) ∧ t.limiter = some l ∧
          t.handed = s.handed ∧ t.now = s.now + d := by
  unfold step at hstep
  split at hstep
  · cases action with
    | send message | close | ping | pong payload | stop =>
      cases hstep
      exact .inl ⟨hlimiter, rfl, Int.le_refl _⟩
    | take =>
      dsimp only at hstep
      split at hstep
      · cases hstep
      · cases hstep
        exact .inl ⟨hlimiter, rfl, Int.le_refl _⟩
    | pass d =>
      cases hstep
      exact .inl ⟨hlimiter, rfl, Int.le_add_of_nonneg_right (Int.natCast_nonneg d)⟩
    | interfere other => exact absurd rfl (hown other)
    | poll i d =>
      obtain ⟨task, _, hrest⟩ := Option.bind_eq_some_iff.mp hstep
      obtain ⟨_, rfl⟩ := GuardedRun.of_enabled hrest
      refine .inr ⟨d, ?_⟩
      unfold poll
      rw [hlimiter]
      dsimp only
      rcases hcall : limiter.tryWait s.now (s.now + d) with ⟨l, ⟨hint⟩ | ⟨⟨⟩⟩⟩
      · exact .inr ⟨l, hint, rfl, rfl, rfl, rfl⟩
      · exact .inl ⟨l, rfl, rfl, by simp [hand], rfl⟩
  · cases hstep

end Session

namespace SharedLimit

variable {s t : SharedLimit M} {action : SharedLimitAction M} {first : Ratelimiter} {since : ℤ}

/-- A session that makes a step finds the shared limiter, and leaves its own to the others. -/
theorem session_eq_some {i : ℕ} {action : SessionAction M}
    (hstep : s.step (.session i action) = some t) :
    (∀ other, action ≠ .interfere other) ∧ ∃ session session' : Session M,
      s.sessions[i]? = some session ∧
      ({ session with limiter := some s.limiter, now := s.now } : Session M).step action =
        some session' ∧
      session'.limiter = some t.limiter ∧ session'.now = t.now ∧
      t.sessions = s.sessions.set i session' := by
  cases action with
  | interfere other => cases hstep
  | send _ | close | take | ping | pong _ | poll _ _ | pass _ | stop =>
    obtain ⟨session, hsession, hrest⟩ := Option.bind_eq_some_iff.mp hstep
    obtain ⟨session', hsession', hmap⟩ := Option.bind_eq_some_iff.mp hrest
    obtain ⟨limiter, hlimiter, rfl⟩ := Option.map_eq_some_iff.mp hmap
    exact ⟨nofun, session, session', hsession, hsession', hlimiter, rfl, rfl⟩

/-- The frames since a moment keep to the budget of the limiter. -/
def FramesWithin (first : Ratelimiter) (since : ℤ) (before : ℕ) (s : SharedLimit M) : Prop :=
  since ≤ s.now ∧ ∃ taken, s.frames = before + taken ∧ first.Budget since s.limiter s.now taken

/-- When a session hands frames over, the total changes by them. -/
theorem frames_set {i : ℕ} {session session' : Session M} (hsession : s.sessions[i]? = some session)
    (ht : t.sessions = s.sessions.set i session') :
    t.frames + session.handed.length = s.frames + session'.handed.length := by
  unfold frames
  rw [ht]
  exact Accounting.sum_map_set (fun session => session.handed.length) hsession session'

/-- Every step keeps to the budget. -/
theorem FramesWithin.step {before : ℕ} (h : FramesWithin first since before s)
    (hinterval : 0 < first.parameters.intervalNanos)
    (hfull : first.available ≤ first.parameters.capacity) (hclock : s.ClockFits action)
    (hstep : s.step action = some t) : FramesWithin first since before t := by
  obtain ⟨hnow, taken, hframes, hbudget⟩ := h
  cases action with
  | connect =>
    cases hstep
    refine ⟨hnow, taken, ?_, hbudget⟩
    rw [← hframes]
    simp [frames, Session.start]
  | session i action =>
    obtain ⟨hown, session, session', hsession, hmoved, hlimiter, htime, hsessions⟩ :=
      session_eq_some hstep
    have htotal := frames_set hsession hsessions
    have hword : first.parameters.sinceStart s.now < 2 ^ 64 := hbudget.1 ▸ hclock
    have hlast {l : Ratelimiter} (hl : session'.limiter = some l) : t.limiter = l :=
      Option.some.inj (hlimiter.symm.trans hl)
    obtain ⟨hsame, hhanded, hlater⟩ | ⟨d, ⟨l, hcall, hl, hhanded, hpolled⟩ |
      ⟨l, hint, hcall, hl, hhanded, hpolled⟩⟩ := Session.step_limiter rfl hmoved hown
    · dsimp only at hhanded hlater
      rw [hhanded] at htotal
      rw [htime] at hlater
      refine ⟨Int.le_trans hnow hlater, taken, by omega, ?_⟩
      rw [hlast hsame]
      exact hbudget.later hlater
    · -- a token was granted for the frame
      dsimp only at hcall hhanded hpolled
      rw [htime] at hpolled
      refine ⟨hpolled ▸ hnow, taken + 1, by omega, ?_⟩
      rw [hlast hl, hpolled]
      exact (hbudget.tryWaitN hnow hinterval hword hfull (s.now + d) 1).1 l hcall
    · dsimp only at hcall hhanded hpolled
      rw [hhanded] at htotal
      rw [htime] at hpolled
      refine ⟨by omega, taken, by omega, ?_⟩
      rw [hlast hl]
      refine ((hbudget.tryWaitN hnow hinterval hword hfull (s.now + d) 1).2 l hint hcall).later ?_
      omega

/-- The limiter keeps its parameters, and has no more tokens than it holds. -/
structure Holds (built : Ratelimiter) (s : SharedLimit M) : Prop where
  parameters : s.limiter.parameters = built.parameters
  available : s.limiter.available ≤ s.limiter.parameters.capacity

/-- No step changes the parameters, or has more tokens than fit. -/
theorem Holds.step {built : Ratelimiter} (h : Holds built s) (hstep : s.step action = some t) :
    Holds built t := by
  obtain ⟨hparameters, hfits⟩ := h
  cases action with
  | connect =>
    cases hstep
    exact ⟨hparameters, hfits⟩
  | session i action =>
    obtain ⟨hown, session, session', _, hmoved, hlimiter, _, _⟩ := session_eq_some hstep
    have hlast {l : Ratelimiter} (hl : session'.limiter = some l) : t.limiter = l :=
      Option.some.inj (hlimiter.symm.trans hl)
    obtain ⟨hsame, _⟩ | ⟨d, ⟨l, hcall, hl, _⟩ | ⟨l, hint, hcall, hl, _⟩⟩ :=
      Session.step_limiter rfl hmoved hown
    · rw [← hlast hsame] at hparameters hfits
      exact ⟨hparameters, hfits⟩
    all_goals
      have hcalled := s.limiter.tryWaitN_fits hfits s.now (s.now + d) 1
      change s.limiter.tryWaitN s.now (s.now + d) 1 = _ at hcall
      rw [hcall] at hcalled
      rw [← hlast hl] at hcalled
      exact ⟨hcalled.1.trans hparameters, hcalled.1 ▸ hcalled.2⟩

/-- What a limiter that was built holds. -/
theorem holds_of_build {builder : Builder} {system : ℕ} {now : ℤ}
    (hbuilt : builder.build now system = .ok first) :
    Holds first (start first now : SharedLimit M) ∧
      first.parameters.capacity = builder.maxTokens ∧
      first.parameters.refillAmount = builder.refillAmount ∧
      first.parameters.intervalNanos = builder.refillInterval := by
  unfold Builder.build at hbuilt
  split at hbuilt
  · cases hbuilt
  · split at hbuilt
    · cases hbuilt
    · split at hbuilt
      · cases hbuilt
      · rename_i hinterval hinitial
        have hword : builder.refillInterval < 2 ^ 64 := by omega
        cases hbuilt
        exact ⟨⟨rfl, Nat.le_of_not_lt hinitial⟩, rfl, rfl, Nat.mod_eq_of_lt hword⟩

/-- In every run of a sub-client, through all its sessions, the frames that are handed over between
two moments are at most the tokens that its limiter holds and those of as many refills as the time
between them touches intervals. -/
theorem frames_bounded {builder : Builder} {system : ℕ} {now : ℤ} {s t : SharedLimit M}
    (hbuilt : builder.build now system = .ok first) (hinterval : 0 < builder.refillInterval)
    (hrun : GuardedRun.Reaches step ClockFits (start first now) s)
    (hlater : GuardedRun.Reaches step ClockFits s t) :
    t.frames ≤ s.frames + builder.maxTokens +
      ((t.now - s.now).toNat + (builder.refillInterval - 1)) / builder.refillInterval *
        builder.refillAmount := by
  obtain ⟨hstart, hcapacity, hamount, hnanos⟩ := holds_of_build (M := M) hbuilt
  have hholds : Holds first s :=
    hrun.invariant hstart fun _ _ _ h _ hstep => h.step hstep
  rw [← hnanos, ← hholds.parameters] at hinterval
  obtain ⟨_, taken, hframes, hbudget⟩ : FramesWithin s.limiter s.now s.frames t :=
    hlater.invariant ⟨Int.le_refl _, 0, rfl, rfl, .inl ⟨rfl, rfl⟩⟩
      fun _ _ _ h hclock hstep => h.step hinterval hholds.available hclock hstep
  have htaken := hbudget.taken_le hinterval
  rw [hholds.parameters, hcapacity, hamount, hnanos] at htaken
  omega

/-- A builder of limiters that grant two frames every ten nanoseconds. -/
def pairBuilder : Builder := { Builder.new 2 10 with initialAvailable := 2 }

/-- The limiter that it builds. -/
def pairLimiter : Ratelimiter := ⟨2, 0, ⟨2, 2, 10, .interval, 0⟩, 0⟩

/-- A sub-client that opens a second session. -/
def reopenedRun : List (SharedLimitAction ℕ) :=
  [.connect, .session 0 (.send 7), .session 0 .take, .session 0 .ping, .session 0 (.poll 0 0),
    .session 0 (.poll 0 0), .session 0 .stop, .connect, .session 1 (.pass 10), .session 1 .ping,
    .session 1 (.poll 0 0)]

/-- Three frames are handed over in the time of one interval, which is less than the bound. -/
theorem reopenedRun_bounded : ∃ t : SharedLimit ℕ,
    GuardedRun.exec step (start pairLimiter 0) reopenedRun = some t ∧ t.frames = 3 ∧
      t.frames ≤ 0 + 2 + (10 + (10 - 1)) / 10 * 2 := by
  refine ⟨_, rfl, rfl, ?_⟩
  have hbuilt : pairBuilder.build 0 0 = .ok pairLimiter := rfl
  have hfits : GuardedRun.StepsSatisfy step ClockFits (start pairLimiter 0) reopenedRun := by
    decide +kernel
  exact frames_bounded hbuilt (by decide) .refl (GuardedRun.reaches_of_exec hfits rfl)

end SharedLimit

end Arbexpert.Base
