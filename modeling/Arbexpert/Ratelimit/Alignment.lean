import Arbexpert.Ratelimit.Threads
import Mathlib.Tactic.Ring

/-!
# The alignment of the ticks

A synchronisation puts the start instant at the start of the window of the server time, and
the last tick at the time since then, which is the synchronisation itself. So the ticks come
whole intervals after the synchronisation. They come whole intervals after the start of its
window only if the time between the two is a whole number of intervals, too.
-/

namespace Arbexpert.Ratelimit

/-- The length of the windows. -/
def Alignment.window (alignment : Alignment) (interval : ℕ) : ℕ :=
  match alignment with
  | .interval => interval
  | .minute => 60000000000
  | .second => 1000000000

/-- The start of the window that contains a time. -/
def windowStart (window time : ℕ) : ℕ := time / window * window

/-- The time of the server clock at an instant, given a server time and its capture. -/
def serverTime (serverMs : ℕ) (capture instant : ℤ) : ℤ :=
  serverMs * 1000000 + (instant - capture)

/-- After a synchronisation at a time no tick comes: the interval is zero, or the next tick
is later than a word of nanoseconds after the start of the window. -/
def NoTick (window interval time : ℕ) : Prop :=
  interval = 0 ∨ 2 ^ 64 ≤ time % window + interval

namespace Parameters

/-- The time since the start of the window, when there are windows. -/
theorem timeSinceWindowStart_eq {parameters : Parameters}
    (hinterval : parameters.refillInterval < 2 ^ 64) (hpos : parameters.refillInterval ≠ 0)
    (time : ℕ) : parameters.timeSinceWindowStart time =
      time % parameters.alignment.window parameters.refillInterval := by
  have hword (length : ℕ) (hlength : 0 < length) (hlt : length < 2 ^ 64) :
      time % length % 2 ^ 64 = time % length :=
    Nat.mod_eq_of_lt (Nat.lt_trans (Nat.mod_lt _ hlength) hlt)
  unfold timeSinceWindowStart Alignment.window
  cases parameters.alignment with
  | interval =>
    simp only [if_neg hpos]
    exact hword _ (Nat.pos_of_ne_zero hpos) hinterval
  | minute => exact hword 60000000000 (by decide) (by decide)
  | second => exact hword 1000000000 (by decide) (by decide)

end Parameters

namespace Machine

/-- Synchronise the limiter at the present instant. The record of the ticks starts anew. -/
def syncTime (s : Machine) (serverMs : ℕ) : Machine :=
  { s with
    limiter := s.limiter.syncTime s.now serverMs
    credited := [] }

/-- The ticks come whole intervals before or after an origin on the server clock. -/
def TicksAligned (serverMs : ℕ) (capture origin : ℤ) (s : Machine) : Prop :=
  ∀ tick ∈ s.credited, (s.limiter.parameters.refillInterval : ℤ) ∣
    serverTime serverMs capture (s.limiter.parameters.startInstant + tick) - origin

/-- The last tick is the present instant, and no thread is in the middle of a refill. -/
structure Synchronised (s : Machine) : Prop where
  credited : s.credited = []
  startInstant : s.limiter.parameters.startInstant = s.now - s.limiter.lastTick
  interval : s.limiter.parameters.refillInterval < 2 ^ 64
  claims : ∀ thread ∈ s.threads, thread.ClaimsElapsed s.limiter.parameters s.now

variable {s : Machine}

/-- The interval is a word. -/
theorem Synchronised.intervalNanos (h : s.Synchronised) :
    s.limiter.parameters.intervalNanos = s.limiter.parameters.refillInterval :=
  Nat.mod_eq_of_lt h.interval

/-- An access of the thread that came last. -/
theorem step_run_last {l : List Thread} {thread : Thread} {a : Access}
    (hthreads : s.threads = l ++ [thread])
    (haccess : thread.access s.limiter s.now false = some a) :
    s.step (.run l.length false) = some { s with
      limiter := a.limiter
      threads := l ++ [a.thread]
      granted := s.granted + a.granted
      credited := s.credited ++ Accounting.ticks s.limiter.lastTick
        s.limiter.parameters.intervalNanos a.credited } := by
  simp [step, hthreads, haccess]

/-- A call of the thread that came last. -/
theorem step_call_last {l : List Thread} (hthreads : s.threads = l ++ [.idle]) (tokens : ℕ) :
    s.step (.call l.length tokens) = some { s with threads := l ++ [.refillLast tokens] } := by
  simp [step, hthreads]

/-- After a synchronisation, a new thread that calls one interval later credits a tick. -/
theorem Synchronised.exists_tick (h : s.Synchronised)
    (hpos : s.limiter.parameters.refillInterval ≠ 0)
    (hword : s.limiter.lastTick + s.limiter.parameters.refillInterval < 2 ^ 64) :
    ∃ t, GuardedRun.Reaches step (fun _ _ => True) s t ∧
      t.limiter.parameters = s.limiter.parameters ∧
      t.credited = [s.limiter.lastTick + s.limiter.parameters.refillInterval] := by
  obtain ⟨limiter, threads, now, granted, credited⟩ := s
  have hcredited := h.credited
  have hstart := h.startInstant
  have hinterval := h.intervalNanos
  simp only at hcredited hstart hinterval hpos hword
  subst hcredited
  have helapsed : limiter.parameters.elapsedNanos (now + limiter.parameters.refillInterval) =
      limiter.lastTick + limiter.parameters.refillInterval := by
    rw [Parameters.elapsedNanos, hstart, ← Nat.mod_eq_of_lt hword]
    congr 1
    omega
  have hticks : limiter.parameters.ticksPassed limiter.lastTick
      (limiter.parameters.elapsedNanos (now + limiter.parameters.refillInterval)) = 1 := by
    rw [Parameters.ticksPassed, helapsed, hinterval, Nat.add_sub_cancel_left,
      Nat.div_self (Nat.pos_of_ne_zero hpos)]
  have hclaim : (Thread.refillNow 0 limiter.lastTick).access limiter
      (now + limiter.parameters.refillInterval) false =
        some ⟨.refillClaim 0 limiter.lastTick 1, limiter, 0, 0⟩ := by
    simp only [Thread.access, hticks, Nat.one_ne_zero, if_false]
  refine ⟨_, .head ⟨.spawn, trivial, rfl⟩ (.head ⟨_, trivial, step_call_last rfl 0⟩
    (.head ⟨.pass limiter.parameters.refillInterval, trivial, rfl⟩
    (.head ⟨_, trivial, step_run_last rfl (if_neg (hinterval ▸ hpos))⟩
    (.head ⟨_, trivial, step_run_last rfl hclaim⟩
    (.single ⟨_, trivial, step_run_last rfl (if_pos rfl)⟩))))), rfl, ?_⟩
  simp [Accounting.ticks, hinterval]

/-- The ticks after a synchronisation come whole intervals after an origin exactly if the
synchronisation does, or no tick comes. -/
theorem Synchronised.ticksAligned_iff (h : s.Synchronised) (serverMs : ℕ)
    (capture origin : ℤ) :
    (∀ t, GuardedRun.Reaches step (fun _ _ => True) s t →
        t.TicksAligned serverMs capture origin) ↔
      s.limiter.parameters.refillInterval = 0 ∨
        2 ^ 64 ≤ s.limiter.lastTick + s.limiter.parameters.refillInterval ∨
        (s.limiter.parameters.refillInterval : ℤ) ∣
          serverTime serverMs capture s.now - origin := by
  have htime (k : ℕ) : serverTime serverMs capture (s.limiter.parameters.startInstant +
      (s.limiter.lastTick + k * s.limiter.parameters.refillInterval : ℕ)) - origin =
        serverTime serverMs capture s.now - origin +
          k * (s.limiter.parameters.refillInterval : ℤ) := by
    rw [h.startInstant, serverTime, serverTime]
    push_cast
    ring
  constructor
  · intro haligned
    by_cases hpos : s.limiter.parameters.refillInterval = 0
    · exact Or.inl hpos
    · refine Or.inr ((Nat.lt_or_ge _ _).symm.imp_right fun hword => ?_)
      obtain ⟨t, hrun, hparameters, hcredited⟩ := h.exists_tick hpos hword
      have htick := haligned t hrun _ (hcredited ▸ List.mem_singleton_self _)
      have hone := htime 1
      rw [Nat.one_mul] at hone
      rw [hparameters, hone] at htick
      exact (Int.dvd_add_left (Dvd.intro_left _ rfl)).mp htick
  · intro hcondition t hrun tick htick
    have hclock : t.Ticking s.limiter := hrun.invariant (ticking_of_nil h.credited h.claims)
      fun _ _ _ hu _ hstep => hu.step hstep
    rw [hclock.credited, Accounting.ticks, List.mem_map] at htick
    obtain ⟨k, hk, rfl⟩ := htick
    have hne : t.credited ≠ [] := fun hnil => by simp [hnil] at hk
    have helapsed := hclock.elapsed.resolve_left hne
    have hfirst : s.limiter.lastTick + s.limiter.parameters.refillInterval ≤
        t.limiter.lastTick := by
      rw [hclock.lastTick, h.intervalNanos]
      exact Nat.add_le_add_left (Nat.le_mul_of_pos_left _ (List.length_pos_iff.mpr hne)) _
    rcases hcondition with hzero | hlate | hdvd
    · exact absurd (h.intervalNanos.trans hzero) helapsed.interval
    · have hword := helapsed.word
      omega
    · rw [hclock.parameters, h.intervalNanos, htime]
      exact Int.dvd_add hdvd (Dvd.intro_left _ rfl)

/-- A new limiter is synchronised at the instant at which it was built. -/
theorem synchronised_build {builder : Builder} {now : ℤ} {system : ℕ} {r : Ratelimiter}
    (hbuild : builder.build now system = .ok r) : (start r now).Synchronised ∧
      r.parameters.refillInterval = builder.refillInterval ∧ (builder.refillInterval ≠ 0 →
        r.lastTick = builder.sinceUnixEpoch now system %
          builder.alignment.window builder.refillInterval) := by
  unfold Builder.build at hbuild
  split at hbuild
  · cases hbuild
  · split at hbuild
    · cases hbuild
    · rename_i hinterval
      split at hbuild
      · cases hbuild
      · cases hbuild
        refine ⟨⟨rfl, rfl, ?_, fun _ h => absurd h List.not_mem_nil⟩, rfl, fun hpos => ?_⟩
        · simp only [start]
          omega
        · exact Parameters.timeSinceWindowStart_eq (by simp only; omega) hpos _

/-- A limiter is synchronised at the instant of the call when no thread is inside a refill. -/
theorem synchronised_syncTime (hinterval : s.limiter.parameters.refillInterval < 2 ^ 64)
    (hclaims : ∀ thread ∈ s.threads, thread.InRefill = false) (serverMs : ℕ) :
    (s.syncTime serverMs).Synchronised where
  credited := rfl
  startInstant := rfl
  interval := hinterval
  claims thread hthread := by
    have hfree := hclaims thread hthread
    cases thread <;> simp only [Thread.ClaimsElapsed]
    cases hfree

/-- No tick comes after a synchronisation when the interval is zero or the next tick is late. -/
theorem noTick_iff {window interval time last : ℕ} {P : Prop}
    (hlast : interval ≠ 0 → last = time % window) :
    interval = 0 ∨ 2 ^ 64 ≤ last + interval ∨ P ↔ NoTick window interval time ∨ P := by
  by_cases hpos : interval = 0
  · exact iff_of_true (Or.inl hpos) (Or.inl (Or.inl hpos))
  · rw [NoTick, hlast hpos, or_assoc]

/-- After a synchronisation of the builder and a build, and after a synchronisation of a
limiter that no thread refills, in all runs all ticks come whole intervals after the start of
a window of the server clock exactly if no tick comes or the server time of the instant at
which the start instant was set does. -/
theorem window_alignment_iff (serverMs : ℕ) :
    (∀ (builder : Builder) (system time : ℕ) (capture now : ℤ) (r : Ratelimiter),
      (builder.syncTime capture serverMs).build now system = .ok r →
      let window := builder.alignment.window builder.refillInterval
      (∀ t, GuardedRun.Reaches step (fun _ _ => True) (start r now) t →
          t.TicksAligned serverMs capture (windowStart window time)) ↔
        NoTick window builder.refillInterval
            ((builder.syncTime capture serverMs).sinceUnixEpoch now system) ∨
          (builder.refillInterval : ℤ) ∣
            serverTime serverMs capture now - windowStart window time) ∧
    ∀ s : Machine, s.limiter.parameters.refillInterval < 2 ^ 64 →
      (∀ thread ∈ s.threads, thread.InRefill = false) →
      let interval := s.limiter.parameters.refillInterval
      let window := s.limiter.parameters.alignment.window interval
      let time := serverMs * 1000000
      (∀ t, GuardedRun.Reaches step (fun _ _ => True) (s.syncTime serverMs) t →
          t.TicksAligned serverMs s.now (windowStart window time)) ↔
        NoTick window interval time ∨ interval ∣ time % window := by
  constructor
  · intro builder system time capture now r hbuild
    obtain ⟨hsync, hinterval, hlast⟩ := synchronised_build hbuild
    apply (hsync.ticksAligned_iff serverMs capture _).trans
    rw [show (start r now).limiter.parameters.refillInterval = builder.refillInterval from
      hinterval]
    exact noTick_iff hlast
  · intro s hword hfree
    have hsync := synchronised_syncTime hword hfree serverMs
    have hpast : serverTime serverMs s.now s.now - windowStart
        (s.limiter.parameters.alignment.window s.limiter.parameters.refillInterval)
          (serverMs * 1000000) = ((serverMs * 1000000) %
            s.limiter.parameters.alignment.window s.limiter.parameters.refillInterval : ℕ) := by
      have hdiv := Nat.div_add_mod' (serverMs * 1000000)
        (s.limiter.parameters.alignment.window s.limiter.parameters.refillInterval)
      simp only [serverTime, windowStart]
      omega
    apply (hsync.ticksAligned_iff serverMs s.now _).trans
    rw [show (s.syncTime serverMs).now = s.now from rfl, hpast, Int.natCast_dvd_natCast]
    exact noTick_iff fun hpos => Parameters.timeSinceWindowStart_eq hword hpos _

/-- Ticks of a second for a limiter that is built three seconds after the start of a minute, and
ticks of two seconds for one that is synchronised four seconds after it while a thread waits. -/
theorem wholeSeconds_aligned :
    (∀ t, GuardedRun.Reaches step (fun _ _ => True)
        (start ⟨0, 0, ⟨1, 1, 1000000000, .minute, -1000000000⟩, 3000000000⟩ 2000000000) t →
          t.TicksAligned 61000 0 (windowStart 60000000000 63000000000)) ∧
      ∀ t, GuardedRun.Reaches step (fun _ _ => True)
          ((⟨⟨0, 0, ⟨1, 1, 2000000000, .minute, 0⟩, 0⟩, [.waitLoad 1], 5, 0, []⟩ :
            Machine).syncTime 64000) t →
        t.TicksAligned 64000 5 (windowStart 60000000000 64000000000) := by
  refine ⟨((window_alignment_iff 61000).1 { Builder.new 1 1000000000 with alignment := .minute }
    0 63000000000 0 2000000000 _ rfl).mpr (Or.inr ?_),
    ((window_alignment_iff 64000).2
      ⟨⟨0, 0, ⟨1, 1, 2000000000, .minute, 0⟩, 0⟩, [.waitLoad 1], 5, 0, []⟩
      (by decide) (by simp [Thread.InRefill])).mpr (Or.inr ?_)⟩
  · decide
  · decide

/-- A limiter that adds a token every second is synchronised half a second after the start of
a second; its first tick comes one second and a half after that start. -/
theorem halfSecond_misaligned : ∃ r t,
    ((Builder.new 1 1000000000).syncTime 0 1500).build 0 0 = .ok r ∧
      GuardedRun.exec step (start r 0) [.spawn, .call 0 1, .pass 1000000000, .run 0 false,
        .run 0 false, .run 0 false] = some t ∧
      t.limiter.parameters.startInstant = -500000000 ∧ t.credited = [1500000000] ∧
      serverTime 1500 0 (-500000000 + 1500000000) = 2500000000 ∧
      ¬t.TicksAligned 1500 0 (windowStart 1000000000 1500000000) := by
  refine ⟨_, _, rfl, rfl, rfl, rfl, rfl, fun haligned => ?_⟩
  exact absurd (haligned 1500000000 (List.mem_singleton_self _)) (by decide)

end Machine

end Arbexpert.Ratelimit
