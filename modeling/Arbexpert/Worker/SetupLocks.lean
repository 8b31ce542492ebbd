import Arbexpert.Worker.Setup

/-!
# Locks that constructors hold while they wait

A constructor that runs gets to the first lock that is held, or to a request behind a free one,
or to its end. A set-up runs its constructors until the thread blocks, and a step of the system
runs one set-up. From what such a run can do it follows that a lock is held exactly by the
constructor that waits for a response behind it, and that the process is aborted by the first
request for a time that fails.
-/

namespace Arbexpert.Worker

open Arbexpert.Base

namespace SetupStage

/-- The constructor is about to take a lock. -/
def IsEntering : SetupStage → Prop
  | .entering _ => True
  | _ => False

/-- The constructor waits for the assets. -/
def IsLoading : SetupStage → Prop
  | .loading _ _ => True
  | _ => False

/-- The constructor is past the synchronisation of the time. -/
def IsSynced : SetupStage → Prop
  | .entering .loadAssets | .loading _ _ | .done => True
  | _ => False

/-- How much a constructor still has to do. -/
def work : SetupStage → ℕ
  | .entering .syncTime => 5
  | .syncing => 4
  | .entering .loadAssets => 3
  | .loading none none => 2
  | .loading _ _ => 1
  | _ => 0

variable {stage : SetupStage}

/-- The locks that a constructor can be about to take. -/
theorem isEntering_iff : stage.IsEntering ↔ ∃ guard, stage = .entering guard := by
  cases stage <;> simp [IsEntering]

/-- A constructor that waits for the assets is past the synchronisation. -/
theorem IsLoading.isSynced (h : stage.IsLoading) : stage.IsSynced := by
  cases stage with
  | loading => trivial
  | _ => exact h.elim

/-- A constructor that is about to take a lock has work left. -/
theorem IsEntering.work_pos (h : stage.IsEntering) : 0 < stage.work := by
  obtain ⟨guard, rfl⟩ := isEntering_iff.mp h
  cases guard <;> decide

/-- A constructor that waits for the assets has work left. -/
theorem IsLoading.work_pos (h : stage.IsLoading) : 0 < stage.work := by
  cases stage with
  | loading spot future => cases spot <;> cases future <;> simp [work]
  | _ => exact h.elim

/-- Only constructors that have not begun or are done have no work left. -/
theorem work_eq_zero (h : stage.work = 0) : stage = .absent ∨ stage = .done := by
  cases stage with
  | absent => exact .inl rfl
  | entering guard => cases guard <;> cases h
  | syncing => cases h
  | loading spot future => cases spot <;> cases future <;> cases h
  | done => exact .inr rfl

end SetupStage

namespace Setup

/-- A lock is held by the constructor that waits for a response behind it. The limiter of an
exchange is there exactly when its offset is; nobody loads assets before, and nobody synchronises
the time after. A client past the synchronisation has the offset, and its assets are the stored ones
unless there are none. -/
structure Sound (s : Setup) : Prop where
  sync : ∀ e c, s.held (e, .syncTime) = some c ↔ c.2 = e ∧ s.stage c = .syncing
  load : ∀ e c, s.held (e, .loadAssets) = some c ↔ c.2 = e ∧ (s.stage c).IsLoading
  limiter : ∀ e, s.timeOffset e = Int64.maxValue ↔ s.limiter e = none
  unsynced : ∀ c, s.stage c = .syncing → s.limiter c.2 = none
  empty : ∀ e, s.limiter e = none → (s.assets e).spot = ∅
  loading : ∀ c, (s.stage c).IsLoading → (s.assets c.2).spot = ∅
  synced : ∀ c, (s.stage c).IsSynced →
    (s.client c).timeOffsetMs = s.timeOffset c.2 ∧ s.limiter c.2 ≠ none
  assets : ∀ c a, (s.client c).assets = some a → a.spot = ∅ ∨ a = s.assets c.2
  begun : ∀ c, s.stage c ≠ .absent → c.1 < s.calls
  pending : ∀ c spot future, s.stage c ≠ .loading (some spot) (some future)

/-- A constructor that is about to take a lock blocks its thread, or that of Gate does before it. -/
structure Settled (thread : ℕ → ℕ) (s : Setup) : Prop where
  blocked : ∀ n c, s.blocked n = some c → thread c.1 = n ∧ (s.stage c).IsEntering
  entering : ∀ c, (s.stage c).IsEntering → s.blocked (thread c.1) = some c ∨
    c.2 = .binance ∧ s.blocked (thread c.1) = some (c.1, .gate)

/-- The same while a set-up runs, for all others. -/
structure Runs (thread : ℕ → ℕ) (call : ℕ) (s : Setup) : Prop where
  blocked : ∀ n c, s.blocked n = some c → thread c.1 = n ∧ (s.stage c).IsEntering
  free : s.blocked (thread call) = none
  entering : ∀ c, c.1 ≠ call → (s.stage c).IsEntering → s.blocked (thread c.1) = some c ∨
    c.2 = .binance ∧ s.blocked (thread c.1) = some (c.1, .gate)

/-- Locks, threads and clients are as they should be, and the process runs. -/
structure Invariant (thread : ℕ → ℕ) (s : Setup) : Prop where
  sound : s.Sound
  settled : Settled thread s
  running : s.aborted = false

/-- What a run of the constructors of a set-up leaves alone. -/
structure Frame (thread : ℕ → ℕ) (call : ℕ) (s t : Setup) : Prop where
  stage : ∀ c, c.1 ≠ call → t.stage c = s.stage c
  blocked : ∀ n, n ≠ thread call → t.blocked n = s.blocked n
  held : ∀ lock holder, s.held lock = some holder → t.held lock = some holder
  limiter : t.limiter = s.limiter
  calls : t.calls = s.calls
  aborted : t.aborted = s.aborted

/-- A constructor arrives at a lock, from where it stands and with the locks as they are. -/
def Arrives (s : Setup) (c : Constructor) (guard : Guard) : Prop :=
  s.stage c = .entering guard ∨
    s.stage c = .entering .syncTime ∧ s.held (c.2, .syncTime) = none

/-- Where a constructor stands after it ran: at a lock that is held, in a request behind one that
was free, or at the end. -/
inductive Outcome (s : Setup) (c : Constructor) : SetupStage → Prop
  | rests (hstage : ¬(s.stage c).IsEntering) : Outcome s c (s.stage c)
  | waits (guard : Guard) (harrives : s.Arrives c guard) (hheld : s.held (c.2, guard) ≠ none) :
      Outcome s c (.entering guard)
  | syncs (hstage : s.stage c = .entering .syncTime) (hfree : s.held (c.2, .syncTime) = none)
      (hlimiter : s.limiter c.2 = none) : Outcome s c .syncing
  | loads (harrives : s.Arrives c .loadAssets) (hfree : s.held (c.2, .loadAssets) = none) :
      Outcome s c (.loading none none)
  | takes (harrives : s.Arrives c .loadAssets) (hfree : s.held (c.2, .loadAssets) = none) :
      Outcome s c .done

/-- What a run of one constructor leads to. -/
structure Entered (thread : ℕ → ℕ) (s : Setup) (c : Constructor) (t : Setup) : Prop where
  sound : t.Sound
  frame : Frame thread c.1 s t
  stage : ∀ other, other ≠ c → t.stage other = s.stage other
  held : ∀ e guard, e ≠ c.2 → t.held (e, guard) = s.held (e, guard)
  outcome : Outcome s c (t.stage c)
  waits : (t.stage c).IsEntering → t.blocked (thread c.1) = some c
  runs : ¬(t.stage c).IsEntering → t.blocked = s.blocked

/-- What a run of the constructors of a set-up leads to: Binance runs when Gate does not block. -/
inductive Polled (thread : ℕ → ℕ) (s : Setup) (call : ℕ) : Setup → Prop
  | gateWaits {t : Setup} (h : Entered thread s (call, .gate) t)
      (hwaits : (t.stage (call, .gate)).IsEntering) : Polled thread s call t
  | gateRuns {t u : Setup} (h : Entered thread s (call, .gate) t)
      (hruns : ¬(t.stage (call, .gate)).IsEntering) (hnext : Entered thread t (call, .binance) u) :
      Polled thread s call u

/-- What a step can do. -/
inductive Stepped (thread : ℕ → ℕ) (s : Setup) : SetupAction → Setup → Prop
  | begin (both : Bool) (hfree : s.blocked (thread s.calls) = none) :
      Stepped thread s (.begin both) ((s.openCall both).poll thread s.calls)
  | acquire (n : ℕ) (c : Constructor) (guard : Guard) (hblocked : s.blocked n = some c)
      (hstage : s.stage c = .entering guard) (hfree : s.held (c.2, guard) = none) :
      Stepped thread s (.acquire n) ((s.unblock n).poll thread c.1)
  | time (c : Constructor) (response : Option Value) (localTime : Int64)
      (hstage : s.stage c = .syncing) (hfree : s.blocked (thread c.1) = none) :
      Stepped thread s (.time c response localTime)
        ((s.synced c response localTime).poll thread c.1)
  | assets (c : Constructor) (market : MarketType) (response : Option Value)
      (spot future : Option (Option (List Asset))) (hstage : (s.stage c).IsLoading)
      (hfree : s.blocked (thread c.1) = none)
      (hwork : spot.isSome ∧ future.isSome ∨
        (SetupStage.loading spot future).work < (s.stage c).work) :
      Stepped thread s (.assets c market response) (s.fetched c spot future)

/-- A response does not give the offset that stands for none. -/
def Plain : SetupAction → Prop
  | .time c response localTime => ∀ json server, response = some json →
      serverTime c.2 json = some server → server - localTime ≠ Int64.maxValue
  | _ => True

/-- A request for the time fails. -/
def TimeFails : SetupAction → Prop
  | .time c response _ => response.bind (serverTime c.2) = none
  | _ => False

variable {thread : ℕ → ℕ} {s t u : Setup} {c : Constructor} {call : ℕ}

/-- A run in which nothing happens. -/
theorem Frame.refl (s : Setup) : Frame thread call s s :=
  ⟨fun _ _ => rfl, fun _ _ => rfl, fun _ _ => id, rfl, rfl, rfl⟩

/-- Two constructors run one after the other. -/
theorem Frame.trans (h : Frame thread call s t) (hnext : Frame thread call t u) :
    Frame thread call s u where
  stage c hc := (hnext.stage c hc).trans (h.stage c hc)
  blocked n hn := (hnext.blocked n hn).trans (h.blocked n hn)
  held lock c hheld := hnext.held lock c (h.held lock c hheld)
  limiter := hnext.limiter.trans h.limiter
  calls := hnext.calls.trans h.calls
  aborted := hnext.aborted.trans h.aborted

/-- Arriving at a lock depends on the constructor and on the locks of its exchange. -/
theorem Arrives.congr {guard : Guard} (h : s.Arrives c guard) (hstage : t.stage c = s.stage c)
    (hheld : ∀ guard, t.held (c.2, guard) = s.held (c.2, guard)) : t.Arrives c guard := by
  unfold Arrives
  rwa [hstage, hheld]

namespace Outcome

variable {stage : SetupStage}

/-- An outcome depends on the constructor, on the locks of its exchange and on the limiters. -/
theorem congr (h : Outcome s c stage) (hstage : t.stage c = s.stage c)
    (hheld : ∀ guard, t.held (c.2, guard) = s.held (c.2, guard))
    (hlimiter : t.limiter = s.limiter) : Outcome t c stage := by
  cases h with
  | rests hrests =>
    rw [← hstage]
    exact .rests (by rwa [hstage])
  | waits guard harrives hwaits => exact .waits guard (harrives.congr hstage hheld) (by rwa [hheld])
  | syncs hsync hfree hnone => exact .syncs (by rwa [hstage]) (by rwa [hheld]) (by rwa [hlimiter])
  | loads harrives hfree => exact .loads (harrives.congr hstage hheld) (by rwa [hheld])
  | takes harrives hfree => exact .takes (harrives.congr hstage hheld) (by rwa [hheld])

/-- A constructor that is about to take a lock after a run was so before. -/
theorem isEntering (h : Outcome s c stage) (hstage : stage.IsEntering) :
    (s.stage c).IsEntering := by
  cases h with
  | rests => exact hstage
  | waits guard harrives =>
    rcases harrives with hsame | ⟨hsync, -⟩
    · rw [hsame]
      trivial
    · rw [hsync]
      trivial
  | syncs => exact hstage.elim
  | loads => exact hstage.elim
  | takes => exact hstage.elim

/-- A constructor does not wait for the assets while their lock is free. -/
theorem not_isEntering (h : Outcome s c stage) (hstage : s.stage c = .entering .loadAssets)
    (hfree : s.held (c.2, .loadAssets) = none) : ¬stage.IsEntering := by
  cases h with
  | rests hrests => exact hrests
  | waits guard harrives hheld =>
    rcases harrives with hsame | ⟨hsync, -⟩
    · cases hsame.symm.trans hstage
      exact absurd hfree hheld
    · cases hsync.symm.trans hstage
  | syncs => exact id
  | loads => exact id
  | takes => exact id

/-- A run leaves no more work. -/
theorem work_le (h : Outcome s c stage) : stage.work ≤ (s.stage c).work := by
  cases h with
  | rests => exact le_rfl
  | waits guard harrives hheld =>
    rcases harrives with hsame | ⟨hsync, hfree⟩
    · rw [hsame]
    · rw [hsync]
      cases guard <;> decide
  | syncs hstage =>
    rw [hstage]
    decide
  | loads harrives =>
    rcases harrives with hsame | ⟨hsync, -⟩
    · rw [hsame]
      decide
    · rw [hsync]
      decide
  | takes => exact Nat.zero_le _

/-- A run leaves less work when the lock is free. -/
theorem work_lt (h : Outcome s c stage) {guard : Guard} (hstage : s.stage c = .entering guard)
    (hfree : s.held (c.2, guard) = none) : stage.work < (s.stage c).work := by
  have hpos : 3 ≤ (s.stage c).work := by
    rw [hstage]
    cases guard <;> decide
  cases h with
  | rests hrests =>
    rw [hstage] at hrests
    exact absurd trivial hrests
  | waits other harrives hheld =>
    rcases harrives with hsame | ⟨hsync, hnone⟩
    · cases hsame.symm.trans hstage
      exact absurd hfree hheld
    · cases other with
      | syncTime => exact absurd hnone hheld
      | loadAssets =>
        rw [hsync]
        decide
  | syncs hsync =>
    rw [hsync]
    decide
  | loads => exact lt_of_lt_of_le (by decide) hpos
  | takes => exact lt_of_lt_of_le (by decide) hpos

end Outcome

/-- The thread of a constructor waits for a lock that is held. -/
theorem Sound.entered_block (h : s.Sound) {guard : Guard} (harrives : s.Arrives c guard)
    (hheld : s.held (c.2, guard) ≠ none)
    (hsynced : guard = .loadAssets →
      (s.client c).timeOffsetMs = s.timeOffset c.2 ∧ s.limiter c.2 ≠ none) :
    Entered thread s c (s.block thread c guard) where
  sound := by
    cases h
    constructor <;> simp only [block, setStage, Function.update_apply] <;>
      grind [SetupStage.IsLoading, SetupStage.IsSynced, Arrives]
  frame := by
    constructor <;> simp only [block, setStage, Function.update_apply] <;> grind
  stage other hother := Function.update_of_ne hother _ _
  held _ _ _ := rfl
  outcome := by simpa [block, setStage] using .waits guard harrives hheld
  waits _ := by simp [block]
  runs hnot := by simp [block, setStage, SetupStage.IsEntering] at hnot

/-- A client that has the offset goes on to the assets. -/
theorem Sound.entered_enterLoad (h : s.Sound) (harrives : s.Arrives c .loadAssets)
    (hsynced : (s.client c).timeOffsetMs = s.timeOffset c.2 ∧ s.limiter c.2 ≠ none) :
    Entered thread s c (s.enterLoad thread c) := by
  unfold enterLoad
  split
  · rename_i holder hheld
    exact h.entered_block harrives (by simp [hheld]) fun _ => hsynced
  · rename_i hfree
    cases h
    split
    · split
      · rename_i hlimiter
        exact absurd hlimiter hsynced.2
      · refine ⟨?_, ?_, fun other hother => Function.update_of_ne hother _ _,
          fun e guard he => Function.update_of_ne (by simp [he]) _ _, ?_, ?_, fun _ => rfl⟩
        · constructor <;> simp only [setHeld, setStage, Function.update_apply] <;>
            grind [SetupStage.IsLoading, SetupStage.IsSynced, Arrives]
        · constructor <;> simp only [setHeld, setStage, Function.update_apply] <;> grind
        · simpa [setHeld, setStage] using .loads harrives hfree
        · simp [setHeld, setStage, SetupStage.IsEntering]
    · refine ⟨?_, ?_, fun other hother => Function.update_of_ne hother _ _, fun _ _ _ => rfl, ?_,
        ?_, fun _ => rfl⟩
      · constructor <;> simp only [setAssets, setStage, Function.update_apply] <;>
          grind [SetupStage.IsLoading, SetupStage.IsSynced, Arrives]
      · constructor <;> simp only [setAssets, setStage, Function.update_apply] <;> grind
      · simpa [setAssets, setStage] using .takes harrives hfree
      · simp [setAssets, setStage, SetupStage.IsEntering]

/-- Writing the offset of a client that is about to synchronise the time. -/
theorem Sound.setTimeOffset (h : s.Sound) (hstage : s.stage c = .entering .syncTime)
    (offset : Int64) : (s.setTimeOffset c offset).Sound := by
  cases h
  constructor <;> simp only [Setup.setTimeOffset, Function.update_apply] <;>
    grind [SetupStage.IsSynced]

/-- A constructor that is not about to take a lock does not run. -/
theorem enter_of_not (hstage : ¬(s.stage c).IsEntering) : s.enter thread c = s := by
  unfold Setup.enter
  split
  · rename_i h
    exact absurd (h ▸ trivial) hstage
  · rename_i h
    exact absurd (h ▸ trivial) hstage
  · rfl

/-- A run of a constructor. -/
theorem Sound.entered (h : s.Sound) : Entered thread s c (s.enter thread c) := by
  by_cases hentering : (s.stage c).IsEntering
  · obtain ⟨guard, hstage⟩ := SetupStage.isEntering_iff.mp hentering
    unfold Setup.enter
    rw [hstage]
    cases guard with
    | loadAssets => exact h.entered_enterLoad (.inl hstage) (h.synced c (by rw [hstage]; trivial))
    | syncTime =>
      dsimp only
      split
      · rename_i holder hheld
        exact h.entered_block (.inl hstage) (by simp [hheld]) nofun
      · rename_i hfree
        split
        · rename_i hoffset
          have hlimiter := (h.limiter c.2).mp hoffset
          cases h
          refine ⟨?_, ?_, fun other hother => Function.update_of_ne hother _ _,
            fun e guard he => Function.update_of_ne (by simp [he]) _ _, ?_, ?_, fun _ => rfl⟩
          · constructor <;> simp only [setHeld, setStage, Function.update_apply] <;>
              grind [SetupStage.IsLoading, SetupStage.IsSynced]
          · constructor <;> simp only [setHeld, setStage, Function.update_apply] <;> grind
          · simpa [setHeld, setStage] using .syncs hstage hfree hlimiter
          · simp [setHeld, setStage, SetupStage.IsEntering]
        · rename_i hoffset
          -- the constructor uses the stored offset, and goes on
          have hlimiter : s.limiter c.2 ≠ none := fun hnone => hoffset ((h.limiter c.2).mpr hnone)
          obtain ⟨hsound, hframe, hstages, hheld, houtcome, hwaits, hruns⟩ :=
            (h.setTimeOffset hstage (s.timeOffset c.2)).entered_enterLoad
              (.inr ⟨hstage, hfree⟩) ⟨by simp [Setup.setTimeOffset], hlimiter⟩
          exact ⟨hsound, ⟨hframe.1, hframe.2, hframe.3, hframe.4, hframe.5, hframe.6⟩, hstages,
            hheld, houtcome.congr rfl (fun _ => rfl) rfl, hwaits, hruns⟩
  · rw [enter_of_not hentering]
    exact ⟨h, .refl s, fun _ _ => rfl, fun _ _ _ => rfl, .rests hentering,
      fun hc => absurd hc hentering, fun _ => rfl⟩

/-- A run of the constructors of a set-up. -/
theorem Sound.poll (h : s.Sound) (hrunning : s.aborted = false)
    (hfree : s.blocked (thread call) = none) :
    Polled thread s call (s.poll thread call) := by
  have hgate : Entered thread s (call, .gate) (s.enter thread (call, .gate)) := h.entered
  simp only [Setup.poll]
  by_cases hwaits : ((s.enter thread (call, .gate)).stage (call, .gate)).IsEntering
  · rw [if_pos (.inr (by simp [hgate.waits hwaits]))]
    exact .gateWaits hgate hwaits
  · rw [if_neg (by simp [hgate.runs hwaits, hgate.frame.aborted, hrunning, hfree])]
    exact .gateRuns hgate hwaits hgate.sound.entered

namespace Polled

/-- A run of a set-up keeps locks and clients as they should be. -/
theorem sound (h : Polled thread s call t) : t.Sound := by
  cases h with
  | gateWaits h => exact h.sound
  | gateRuns _ _ hnext => exact hnext.sound

/-- A run of a set-up leaves the other set-ups alone. -/
theorem frame (h : Polled thread s call t) : Frame thread call s t := by
  cases h with
  | gateWaits h => exact h.frame
  | gateRuns h _ hnext => exact h.frame.trans hnext.frame

/-- A set-up blocks its thread where its first constructor is still about to take a lock. -/
theorem blocked (h : Polled thread s call t) (hentering : (t.stage c).IsEntering)
    (hc : c.1 = call) : t.blocked (thread call) = some c ∨
      c.2 = .binance ∧ t.blocked (thread call) = some (call, .gate) := by
  obtain ⟨k, e⟩ := c
  cases hc
  cases h with
  | gateWaits h hwaits =>
    cases e with
    | gate => exact .inl (h.waits hwaits)
    | binance => exact .inr ⟨rfl, h.waits hwaits⟩
  | gateRuns h hruns hnext =>
    cases e with
    | gate =>
      rw [hnext.stage _ (by simp)] at hentering
      exact absurd hentering hruns
    | binance => exact .inl (hnext.waits hentering)

/-- The thread is blocked by a constructor of the set-up that ran. -/
theorem isEntering (h : Polled thread s call t) (hfree : s.blocked (thread call) = none)
    (hblocked : t.blocked (thread call) = some c) : c.1 = call ∧ (t.stage c).IsEntering := by
  cases h with
  | gateWaits h hwaits =>
    cases (h.waits hwaits).symm.trans hblocked
    exact ⟨rfl, hwaits⟩
  | gateRuns h hruns hnext =>
    by_cases hwaits : (t.stage (call, .binance)).IsEntering
    · cases (hnext.waits hwaits).symm.trans hblocked
      exact ⟨rfl, hwaits⟩
    · rw [hnext.runs hwaits, h.runs hruns, hfree] at hblocked
      cases hblocked

/-- After a run of a set-up all threads are as they should be. -/
theorem settled (h : Polled thread s call t) (hruns : Runs thread call s) : Settled thread t where
  blocked n c hblocked := by
    by_cases hn : n = thread call
    · subst hn
      obtain ⟨rfl, hentering⟩ := h.isEntering hruns.free hblocked
      exact ⟨rfl, hentering⟩
    · rw [h.frame.blocked n hn] at hblocked
      obtain ⟨hthread, hentering⟩ := hruns.blocked n c hblocked
      refine ⟨hthread, ?_⟩
      rwa [h.frame.stage c]
      rintro rfl
      exact hn hthread.symm
  entering c hentering := by
    by_cases hc : c.1 = call
    · rw [hc]
      exact h.blocked hentering hc
    · rw [h.frame.stage c hc] at hentering
      have hwait := hruns.entering c hc hentering
      have hn : thread c.1 ≠ thread call := by
        intro heq
        rw [heq, hruns.free] at hwait
        simp at hwait
      rwa [h.frame.blocked _ hn]

/-- A constructor of a set-up that ran has an outcome of its run, unless Gate blocked the thread
before Binance could run. -/
theorem outcome (h : Polled thread s call t) (hc : c.1 = call) :
    Outcome s c (t.stage c) ∨ c.2 = .binance ∧ (t.stage (call, .gate)).IsEntering ∧
      t.stage c = s.stage c := by
  obtain ⟨k, e⟩ := c
  cases hc
  cases h with
  | gateWaits h hwaits =>
    cases e with
    | gate => exact .inl h.outcome
    | binance => exact .inr ⟨rfl, hwaits, h.stage _ (by simp)⟩
  | gateRuns h hruns hnext =>
    cases e with
    | gate =>
      rw [hnext.stage _ (by simp)]
      exact .inl h.outcome
    | binance =>
      have hstage := h.stage (k, .binance) (by simp)
      exact .inl (hnext.outcome.congr hstage.symm (fun guard => (h.held _ guard (by simp)).symm)
        h.frame.limiter.symm)

/-- Where Gate is about to take a lock after a run, it was so before, and Binance did not run. -/
theorem gate (h : Polled thread s call t) (hwaits : (t.stage (call, .gate)).IsEntering) :
    (s.stage (call, .gate)).IsEntering ∧
      t.stage (call, .binance) = s.stage (call, .binance) := by
  cases h with
  | gateWaits h => exact ⟨h.outcome.isEntering hwaits, h.stage _ (by simp)⟩
  | gateRuns h hruns hnext =>
    rw [hnext.stage _ (by simp)] at hwaits
    exact absurd hwaits hruns

/-- A run of a set-up leaves no constructor with more work. -/
theorem work_le (h : Polled thread s call t) (c : Constructor) :
    (t.stage c).work ≤ (s.stage c).work := by
  by_cases hc : c.1 = call
  · rcases h.outcome hc with houtcome | ⟨-, -, hsame⟩
    · exact houtcome.work_le
    · rw [hsame]
  · rw [h.frame.stage c hc]

end Polled

/-- A step is not possible after the process was aborted, and is one of those described. -/
theorem stepped_of_step {action : SetupAction} (h : s.step thread action = some t) :
    s.aborted = false ∧ Stepped thread s action t := by
  unfold Setup.step at h
  split at h
  · cases h
  · rename_i hrunning
    refine ⟨eq_false_of_ne_true hrunning, ?_⟩
    cases action with
    | begin both =>
      obtain ⟨hfree, rfl⟩ := GuardedRun.of_enabled h
      exact .begin both hfree
    | acquire n =>
      obtain ⟨c, hblocked, hrest⟩ := Option.bind_eq_some_iff.mp h
      split at hrest
      · rename_i guard hstage
        obtain ⟨hfree, rfl⟩ := GuardedRun.of_enabled hrest
        exact .acquire n c guard hblocked hstage hfree
      · cases hrest
    | time c response localTime =>
      dsimp only at h
      split at h
      · rename_i hstage
        obtain ⟨hfree, rfl⟩ := GuardedRun.of_enabled h
        exact .time c response localTime hstage hfree
      · cases h
    | assets c market response =>
      dsimp only at h
      split at h
      · rename_i spot future hstage
        obtain ⟨hfree, hrest⟩ := Option.ite_none_right_eq_some.mp h
        have hloading : (s.stage c).IsLoading := by
          rw [hstage]
          trivial
        cases market with
        | spot =>
          obtain ⟨rfl, rfl⟩ := GuardedRun.of_enabled hrest
          refine .assets c .spot response _ _ hloading hfree ?_
          rw [hstage]
          cases future <;> simp [SetupStage.work]
        | future =>
          obtain ⟨rfl, rfl⟩ := GuardedRun.of_enabled hrest
          refine .assets c .future response _ _ hloading hfree ?_
          rw [hstage]
          cases spot <;> simp [SetupStage.work]
      · cases h

section OpenCall

variable (both : Bool)

/-- A new set-up leaves the stages of the others. -/
theorem stage_openCall (hc : c.1 ≠ s.calls) : (s.openCall both).stage c = s.stage c := by
  have hne : ∀ e, c ≠ (s.calls, e) := fun e heq => hc (congrArg Prod.fst heq)
  cases both
  · exact Function.update_of_ne (hne _) _ _
  · exact (Function.update_of_ne (hne _) _ _).trans (Function.update_of_ne (hne _) _ _)

/-- A new set-up blocks no thread and does not abort the process. -/
theorem blocked_openCall : (s.openCall both).blocked = s.blocked ∧
    (s.openCall both).aborted = s.aborted := by
  cases both <;> exact ⟨rfl, rfl⟩

/-- A constructor of a set-up that has not begun is absent. -/
theorem Sound.stage_calls (h : s.Sound) (e : SetupExchange) : s.stage (s.calls, e) = .absent :=
  by_contra fun hne => lt_irrefl _ (h.begun _ hne)

/-- A new set-up keeps locks and clients as they should be. -/
theorem Sound.openCall (h : s.Sound) : (s.openCall both).Sound := by
  have hnew := h.stage_calls
  cases h
  cases both <;> constructor <;>
    simp only [Setup.openCall, setStage, Function.update_apply, if_true, if_false,
      Bool.false_eq_true] <;>
    grind [SetupStage.IsLoading, SetupStage.IsSynced]

/-- A new set-up runs on a thread that is not blocked. -/
theorem Settled.openCall (h : Settled thread s) (hsound : s.Sound)
    (hfree : s.blocked (thread s.calls) = none) : Runs thread s.calls (s.openCall both) := by
  have hold {c : Constructor} (hentering : (s.stage c).IsEntering) : c.1 ≠ s.calls := by
    refine (hsound.begun c fun habsent => ?_).ne
    rw [habsent] at hentering
    exact hentering
  refine ⟨fun n c hc => ?_, by rwa [(blocked_openCall both).1], fun c hc hentering => ?_⟩
  · rw [(blocked_openCall both).1] at hc
    obtain ⟨hthread, hentering⟩ := h.blocked n c hc
    rw [stage_openCall both (hold hentering)]
    exact ⟨hthread, hentering⟩
  · rw [stage_openCall both hc] at hentering
    rw [(blocked_openCall both).1]
    exact h.entering c hentering

/-- The run of a new set-up. -/
theorem Invariant.polled_openCall (h : Invariant thread s)
    (hfree : s.blocked (thread s.calls) = none) :
    Polled thread (s.openCall both) s.calls ((s.openCall both).poll thread s.calls) :=
  (h.sound.openCall both).poll ((blocked_openCall both).2.trans h.running)
    (h.settled.openCall both h.sound hfree).free

end OpenCall

/-- The set-up of a thread that gets its lock runs. -/
theorem Settled.unblock (h : Settled thread s) {n : ℕ} (hblocked : s.blocked n = some c) :
    Runs thread c.1 (s.unblock n) := by
  obtain ⟨rfl, hentering⟩ := h.blocked n c hblocked
  refine ⟨fun m other hother => ?_, Function.update_self _ _ _, fun other hother hstage => ?_⟩
  · by_cases hm : m = thread c.1
    · subst hm
      simp [Setup.unblock] at hother
    · exact h.blocked m other (by simpa [Setup.unblock, hm] using hother)
  · have hwait := h.entering other hstage
    have hm : thread other.1 ≠ thread c.1 := by
      intro heq
      rw [heq, hblocked] at hwait
      rcases hwait with hsame | ⟨-, hsame⟩
      · exact hother (congrArg Prod.fst (Option.some.inj hsame)).symm
      · exact hother (congrArg Prod.fst (Option.some.inj hsame)).symm
    simpa [Setup.unblock, hm] using hwait

/-- A thread that gets its lock leaves locks and clients. -/
theorem Sound.unblock (h : s.Sound) (n : ℕ) : (s.unblock n).Sound := by
  cases h
  constructor <;> assumption

/-- The run of a set-up whose thread gets its lock. -/
theorem Invariant.polled_unblock (h : Invariant thread s) {n : ℕ}
    (hblocked : s.blocked n = some c) :
    Polled thread (s.unblock n) c.1 ((s.unblock n).poll thread c.1) :=
  (h.sound.unblock n).poll h.running (h.settled.unblock hblocked).free

section Time

variable (response : Option Value) (localTime : Int64)

/-- A response with a time writes the stage of its constructor. -/
theorem stage_synced : (s.synced c response localTime).stage =
    Function.update s.stage c (.entering .loadAssets) := by
  unfold Setup.synced
  split <;> rfl

/-- A response with a time leaves the threads, and releases a lock. -/
theorem blocked_synced : (s.synced c response localTime).blocked = s.blocked ∧
    (s.synced c response localTime).aborted = s.aborted ∧
      (s.synced c response localTime).calls = s.calls ∧
        (s.synced c response localTime).held =
          Function.update s.held (c.2, .syncTime) none := by
  unfold Setup.synced
  split <;> exact ⟨rfl, rfl, rfl, rfl⟩

variable {response localTime}

/-- A response with a time keeps locks and clients as they should be. -/
theorem Sound.of_time (h : s.Sound) (hstage : s.stage c = .syncing)
    (hplain : Plain (.time c response localTime))
    (hfails : ¬TimeFails (.time c response localTime)) :
    (s.synced c response localTime).Sound := by
  obtain ⟨server, hserver⟩ := Option.ne_none_iff_exists'.mp hfails
  obtain ⟨json, hjson, htime⟩ := Option.bind_eq_some_iff.mp hserver
  have hoffset := hplain json server hjson htime
  have hlimiter := h.unsynced c hstage
  have hunique : ∀ other : Constructor, other.2 = c.2 → s.stage other = .syncing → other = c := by
    intro other hother hsyncing
    have hheld := (h.sync c.2 c).mpr ⟨rfl, hstage⟩
    exact Option.some.inj (((h.sync c.2 other).mpr ⟨hother, hsyncing⟩).symm.trans hheld)
  cases h
  unfold Setup.synced
  simp only [hserver]
  constructor <;> simp only [setHeld, setStage, Setup.setTimeOffset, Function.update_apply] <;>
    grind [SetupStage.IsLoading, SetupStage.IsSynced]

/-- The set-up of a constructor that receives a response with a time runs. -/
theorem Settled.synced (h : Settled thread s) (hstage : s.stage c = .syncing)
    (hfree : s.blocked (thread c.1) = none) :
    Runs thread c.1 (s.synced c response localTime) := by
  obtain ⟨hblocked, -, -, -⟩ := blocked_synced (s := s) (c := c) response localTime
  have hne {other : Constructor} (hentering : (s.stage other).IsEntering) : other ≠ c := by
    rintro rfl
    rw [hstage] at hentering
    exact hentering
  refine ⟨fun n other hother => ?_, by rwa [hblocked], fun other hother hentering => ?_⟩
  · rw [hblocked] at hother
    obtain ⟨hthread, hentering⟩ := h.blocked n other hother
    rw [stage_synced, Function.update_of_ne (hne hentering)]
    exact ⟨hthread, hentering⟩
  · rw [stage_synced, Function.update_of_ne fun heq => hother (congrArg Prod.fst heq)] at hentering
    rw [hblocked]
    exact h.entering other hentering

/-- The run of a set-up that receives a response with a time. -/
theorem Invariant.polled_synced (h : Invariant thread s) (hstage : s.stage c = .syncing)
    (hfree : s.blocked (thread c.1) = none) (hplain : Plain (.time c response localTime))
    (hfails : ¬TimeFails (.time c response localTime)) :
    Polled thread (s.synced c response localTime) c.1
      ((s.synced c response localTime).poll thread c.1) :=
  (h.sound.of_time hstage hplain hfails).poll ((blocked_synced _ _).2.1.trans h.running)
    (h.settled.synced hstage hfree).free

end Time

section Assets

variable (spot future : Option (Option (List Asset)))

/-- A response with assets writes the stage of its constructor, which waits on or is done. -/
theorem stage_fetched : ∃ stage, ¬stage.IsEntering ∧
    (s.fetched c spot future).stage = Function.update s.stage c stage := by
  rcases spot with _ | spot
  · exact ⟨.loading none future, id, rfl⟩
  · rcases future with _ | future
    · exact ⟨.loading (some spot) none, id, rfl⟩
    · refine ⟨.done, id, ?_⟩
      cases spot <;> cases future <;> rfl

/-- A response with assets leaves the threads. -/
theorem blocked_fetched : (s.fetched c spot future).blocked = s.blocked ∧
    (s.fetched c spot future).aborted = s.aborted ∧ (s.fetched c spot future).calls = s.calls := by
  rcases spot with _ | _ | spot <;> rcases future with _ | _ | future <;> exact ⟨rfl, rfl, rfl⟩

variable {spot future}

/-- A response with assets leaves less work. -/
theorem work_fetched (hstage : (s.stage c).IsLoading)
    (hwork : spot.isSome ∧ future.isSome ∨
      (SetupStage.loading spot future).work < (s.stage c).work) :
    ((s.fetched c spot future).stage c).work < (s.stage c).work := by
  have hpos := hstage.work_pos
  rcases spot with _ | _ | spot <;> rcases future with _ | _ | future <;>
    simp_all [Setup.fetched, loaded, setStage, setHeld, setAssets, SetupStage.work]

/-- The end of a constructor keeps locks and clients as they should be. -/
theorem Sound.of_loaded (h : s.Sound) (hstage : (s.stage c).IsLoading)
    (spot future : Option (List Asset)) : (s.loaded c spot future).Sound := by
  have hsynced := h.synced c hstage.isSynced
  have hempty := h.loading c hstage
  have hunique : ∀ other : Constructor, other.2 = c.2 → (s.stage other).IsLoading → other = c := by
    intro other hother hloading
    have hheld := (h.load c.2 c).mpr ⟨rfl, hstage⟩
    exact Option.some.inj (((h.load c.2 other).mpr ⟨hother, hloading⟩).symm.trans hheld)
  cases h
  unfold Setup.loaded
  cases spot <;> cases future <;> constructor <;>
    simp only [setHeld, setStage, setAssets, Function.update_apply] <;>
    grind [SetupStage.IsLoading, SetupStage.IsSynced]

/-- A response with assets keeps locks and clients as they should be. -/
theorem Sound.of_fetched (h : s.Sound) (hstage : (s.stage c).IsLoading)
    (spot future : Option (Option (List Asset))) : (s.fetched c spot future).Sound := by
  have hsynced := h.synced c hstage.isSynced
  have hset (spot future : Option (Option (List Asset))) (hpending : spot = none ∨ future = none) :
      (s.setStage c (.loading spot future)).Sound := by
    cases h
    constructor <;> simp only [setStage, Function.update_apply] <;>
      grind [SetupStage.IsLoading, SetupStage.IsSynced]
  rcases spot with _ | spot
  · exact hset none future (.inl rfl)
  · rcases future with _ | future
    · exact hset (some spot) none (.inr rfl)
    · exact h.of_loaded hstage spot future

/-- A response with assets keeps the threads as they should be. -/
theorem Settled.fetched (h : Settled thread s) (hstage : (s.stage c).IsLoading)
    (spot future : Option (Option (List Asset))) : Settled thread (s.fetched c spot future) := by
  obtain ⟨stage, hnot, hstages⟩ := stage_fetched (s := s) (c := c) spot future
  have hiff (other : Constructor) :
      ((s.fetched c spot future).stage other).IsEntering ↔ (s.stage other).IsEntering := by
    rw [hstages]
    by_cases heq : other = c
    · subst heq
      rw [Function.update_self]
      refine iff_of_false hnot fun hentering => ?_
      obtain ⟨guard, hguard⟩ := SetupStage.isEntering_iff.mp hentering
      rw [hguard] at hstage
      exact hstage
    · rw [Function.update_of_ne heq]
  obtain ⟨hblocked, -, -⟩ := blocked_fetched (s := s) (c := c) spot future
  refine ⟨fun n other hother => ?_, fun other hentering => ?_⟩
  · rw [hblocked] at hother
    rw [hiff]
    exact h.blocked n other hother
  · rw [hblocked]
    exact h.entering other ((hiff other).mp hentering)

end Assets

namespace Invariant

/-- Before all set-ups. -/
theorem start : Invariant thread start where
  sound := by
    constructor <;> simp [Setup.start, SetupStage.IsLoading, SetupStage.IsSynced]
  settled := by
    constructor <;> simp [Setup.start, SetupStage.IsEntering]
  running := rfl

/-- A run of a set-up. -/
theorem polled (hruns : Runs thread call s) (hrunning : s.aborted = false)
    (h : Polled thread s call t) : Invariant thread t :=
  ⟨h.sound, h.settled hruns, h.frame.aborted.trans hrunning⟩

/-- Every step in which no request for the time fails. -/
theorem step (h : Invariant thread s) {action : SetupAction} (hplain : Plain action)
    (hfails : ¬TimeFails action) (hstep : s.step thread action = some t) : Invariant thread t := by
  obtain ⟨hrunning, hstepped⟩ := stepped_of_step hstep
  cases hstepped with
  | begin both hfree =>
    exact .polled (h.settled.openCall both h.sound hfree)
      ((blocked_openCall both).2.trans hrunning) (h.polled_openCall both hfree)
  | acquire n c guard hblocked hstage hfree =>
    exact .polled (h.settled.unblock hblocked) hrunning (h.polled_unblock hblocked)
  | time c response localTime hstage hfree =>
    exact .polled (h.settled.synced hstage hfree) ((blocked_synced _ _).2.1.trans hrunning)
      (h.polled_synced hstage hfree hplain hfails)
  | assets c market response spot future hstage hfree hwork =>
    exact ⟨h.sound.of_fetched hstage spot future, h.settled.fetched hstage spot future,
      (blocked_fetched spot future).2.1.trans hrunning⟩

end Invariant

/-- A constructor without a limiter aborts the process where it would use one. -/
theorem aborted_enter (hstage : s.stage c = .entering .loadAssets)
    (hfree : s.held (c.2, .loadAssets) = none) (hempty : (s.assets c.2).spot = ∅)
    (hlimiter : s.limiter c.2 = none) : (s.enter thread c).aborted = true := by
  simp [Setup.enter, hstage, enterLoad, hfree, hempty, hlimiter]

/-- Nobody loads the assets of an exchange while its time is requested. -/
theorem Sound.load_free (h : s.Sound) (hstage : s.stage c = .syncing) :
    s.held (c.2, .loadAssets) = none := by
  cases hheld : s.held (c.2, .loadAssets) with
  | none => rfl
  | some other =>
    obtain ⟨hexchange, hloading⟩ := (h.load c.2 other).mp hheld
    exact absurd (hexchange ▸ h.unsynced c hstage) (h.synced other hloading.isSynced).2

/-- A request for the time that fails aborts the process. -/
theorem Invariant.aborted_of_timeFails (h : Invariant thread s) {action : SetupAction}
    (hfails : TimeFails action) (hstep : s.step thread action = some t) : t.aborted = true := by
  obtain ⟨hrunning, hstepped⟩ := stepped_of_step hstep
  cases hstepped with
  | begin => exact hfails.elim
  | acquire => exact hfails.elim
  | assets => exact hfails.elim
  | time c response localTime hstage hfree =>
    have hlimiter := h.sound.unsynced c hstage
    have hsynced : s.synced c response localTime =
        (s.setHeld (c.2, .syncTime) none).setStage c (.entering .loadAssets) := by
      unfold Setup.synced
      rw [show response.bind (serverTime c.2) = none from hfails]
    have haborts : ((s.synced c response localTime).enter thread c).aborted = true := by
      rw [hsynced]
      refine aborted_enter ?_ ?_ (h.sound.empty c.2 hlimiter) hlimiter
      · simp [setStage]
      · simpa [setStage, setHeld] using h.sound.load_free hstage
    obtain ⟨k, e⟩ := c
    cases e with
    | gate =>
      simp only [Setup.poll]
      rw [if_pos (.inl haborts)]
      exact haborts
    | binance =>
      have hgate : ¬((s.synced (k, .binance) response localTime).stage (k, .gate)).IsEntering := by
        rw [stage_synced, Function.update_of_ne (by simp)]
        intro hentering
        have hwait := h.settled.entering (k, .gate) hentering
        simp [hfree] at hwait
      simp only [Setup.poll]
      rw [enter_of_not hgate, if_neg]
      · exact haborts
      · rw [(blocked_synced _ _).1, (blocked_synced _ _).2.1]
        simp [hrunning, hfree]

/-- In every run of set-ups on any threads whose responses do not give the offset that stands for
none, the process is aborted exactly by the first request for a time that fails. -/
theorem setup_aborts_iff (thread : ℕ → ℕ) (actions : List SetupAction)
    (hplain : ∀ action ∈ actions, Plain action) :
    GuardedRun.StatesSatisfy (step thread) (fun s => s.aborted = false) start actions ↔
      GuardedRun.StepsSatisfy (step thread) (fun _ action => ¬TimeFails action) start actions := by
  have hguard : GuardedRun.StepsSatisfy (step thread) (fun _ => Plain) start actions :=
    GuardedRun.stepsSatisfy_of_forall fun action haction _ => hplain action haction
  have hstart : Invariant thread start := Invariant.start
  refine hguard.statesSatisfy_iff (fun s h => h.running) (fun s action t h hplain hstep => ?_)
    hstart
  refine ⟨⟨fun hrunning hfails => ?_, fun hfails => (h.step hplain hfails hstep).running⟩,
    fun hfails => h.step hplain hfails hstep⟩
  rw [h.aborted_of_timeFails hfails hstep] at hrunning
  cases hrunning

/-- A set-up of both exchanges whose request for the time of Binance fails. -/
def failingRun : List SetupAction := [.begin true, .time (0, .binance) none 0]

/-- This set-up aborts the process. -/
theorem failingRun_aborts : ¬GuardedRun.StatesSatisfy (step id) (fun s => s.aborted = false) start
    failingRun := by
  rw [setup_aborts_iff id failingRun]
  · intro h
    obtain ⟨-, hrest⟩ := h _ rfl
    exact (hrest _ rfl).1 rfl
  · intro action haction
    simp only [failingRun, List.mem_cons, List.not_mem_nil, or_false] at haction
    rcases haction with rfl | rfl
    · trivial
    · exact fun _ _ hjson => nomatch hjson

end Setup

end Arbexpert.Worker
