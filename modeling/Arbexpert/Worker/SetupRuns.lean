import Arbexpert.Worker.SetupLocks
import Mathlib.Algebra.Order.BigOperators.Group.Finset

/-!
# Runs of set-ups on several threads

Clients that are set up at any times on any threads agree. A set-up that begins while another one of
its thread waits for a response of the same exchange blocks this thread for ever. When set-ups begin
only on threads whose other set-ups are finished, all of them can be finished: a thread that waits
for Gate holds no lock of Binance.
-/

namespace Arbexpert.Worker.Setup

open Arbexpert.Base

variable {thread : ℕ → ℕ} {s t u : Setup} {c : Constructor} {call : ℕ}

/-- The invariant in every run that does not abort. -/
theorem invariant_of_reaches {guard : Setup → SetupAction → Prop}
    (hguard : ∀ s action, guard s action → Plain action) (h : Invariant thread s)
    (hrun : GuardedRun.Reaches (step thread) guard s t) :
    t.aborted = true ∨ Invariant thread t := by
  refine hrun.invariant (I := fun u => u.aborted = true ∨ Invariant thread u) (.inr h) ?_
  rintro u action v (haborted | hu) hok hstep
  · rw [(stepped_of_step hstep).1] at haborted
    cases haborted
  · by_cases hfails : TimeFails action
    · exact .inl (hu.aborted_of_timeFails hfails hstep)
    · exact .inr (hu.step (hguard u action hok) hfails hstep)

/-- The invariant in every run from the start that does not abort. -/
theorem invariant_of_start
    (hrun : GuardedRun.Reaches (step thread) (fun _ => Plain) start s)
    (hrunning : s.aborted = false) : Invariant thread s :=
  (invariant_of_reaches (fun _ _ => id) .start hrun).resolve_left (by simp [hrunning])

/-- A run goes on from a state that was not aborted. -/
theorem running_of_reaches {guard : Setup → SetupAction → Prop}
    (hrun : GuardedRun.Reaches (step thread) guard s t) (hrunning : t.aborted = false) :
    s.aborted = false := by
  cases hrun using Relation.ReflTransGen.head_induction_on with
  | refl => exact hrunning
  | head hfirst _ =>
    obtain ⟨action, -, hstep⟩ := hfirst
    exact (stepped_of_step hstep).1

/-- A response with the time. -/
def timeResponse : Value :=
  .object [("server_time", .number (.posInt 0)), ("serverTime", .number (.posInt 0))]

/-- Both exchanges read the time in this response. -/
theorem serverTime_timeResponse (e : SetupExchange) : serverTime e timeResponse = some 0 := by
  cases e <;> rfl

/-- A response with the local time of the server gives the offset zero. -/
theorem plain_timeResponse (c : Constructor) : Plain (.time c (some timeResponse) 0) := by
  intro json server hjson hserver
  cases hjson
  cases (serverTime_timeResponse c.2).symm.trans hserver
  decide

section Agreement

/-- The offset and the limiter of an exchange stay once they are there, and so do its assets. -/
structure Keeps (s t : Setup) : Prop where
  offset : ∀ e, s.limiter e ≠ none → t.timeOffset e = s.timeOffset e ∧ t.limiter e = s.limiter e
  assets : ∀ e, (s.assets e).spot ≠ ∅ → t.assets e = s.assets e

/-- What stays in two runs stays in both together. -/
theorem Keeps.trans (h : Keeps s t) (hnext : Keeps t u) : Keeps s u where
  offset e he := by
    obtain ⟨hoffset, hlimiter⟩ := h.offset e he
    obtain ⟨hoffset', hlimiter'⟩ := hnext.offset e (by rwa [hlimiter])
    exact ⟨hoffset'.trans hoffset, hlimiter'.trans hlimiter⟩
  assets e he := by
    have hassets := h.assets e he
    exact (hnext.assets e (by rwa [hassets])).trans hassets

/-- Everything stays where nothing is written. -/
theorem Keeps.of_eq (hoffset : t.timeOffset = s.timeOffset) (hlimiter : t.limiter = s.limiter)
    (hassets : t.assets = s.assets) : Keeps s t :=
  ⟨fun e _ => ⟨congrFun hoffset e, congrFun hlimiter e⟩, fun e _ => congrFun hassets e⟩

/-- A run of a constructor does not write the variables of the exchanges. -/
theorem shared_enter (thread : ℕ → ℕ) (s : Setup) (c : Constructor) :
    (s.enter thread c).timeOffset = s.timeOffset ∧ (s.enter thread c).limiter = s.limiter ∧
      (s.enter thread c).assets = s.assets := by
  have hload (s : Setup) : (s.enterLoad thread c).timeOffset = s.timeOffset ∧
      (s.enterLoad thread c).limiter = s.limiter ∧ (s.enterLoad thread c).assets = s.assets := by
    unfold enterLoad
    split
    · exact ⟨rfl, rfl, rfl⟩
    · split
      · split <;> exact ⟨rfl, rfl, rfl⟩
      · exact ⟨rfl, rfl, rfl⟩
  unfold Setup.enter
  split
  · split
    · exact ⟨rfl, rfl, rfl⟩
    · split
      · exact ⟨rfl, rfl, rfl⟩
      · exact hload _
  · exact hload s
  · exact ⟨rfl, rfl, rfl⟩

/-- What stays until a set-up runs stays in its run. -/
theorem Keeps.poll (h : Keeps s t) : Keeps s (t.poll thread call) := by
  obtain ⟨hoffset, hlimiter, hassets⟩ := shared_enter thread t (call, .gate)
  have hgate : Keeps s (t.enter thread (call, .gate)) :=
    h.trans (.of_eq hoffset hlimiter hassets)
  simp only [Setup.poll]
  split
  · exact hgate
  · obtain ⟨hoffset', hlimiter', hassets'⟩ :=
      shared_enter thread (t.enter thread (call, .gate)) (call, .binance)
    exact hgate.trans (.of_eq hoffset' hlimiter' hassets')

/-- Only the constructor that synchronises the time of an exchange writes its offset, before there
is one, and only the one that loads its assets writes these, while there are none. -/
theorem Invariant.keeps (h : Invariant thread s) {action : SetupAction}
    (hstep : Stepped thread s action t) : Keeps s t := by
  cases hstep with
  | begin both hfree =>
    refine Keeps.poll (.of_eq ?_ ?_ ?_) <;> cases both <;> rfl
  | acquire n c => exact Keeps.poll (t := s.unblock n) (.of_eq rfl rfl rfl)
  | time c response localTime hstage hfree =>
    refine Keeps.poll ⟨fun e he => ?_, fun e _ => ?_⟩
    · have hne : e ≠ c.2 := by
        rintro rfl
        exact he (h.sound.unsynced c hstage)
      unfold Setup.synced
      split
      · exact ⟨rfl, rfl⟩
      · exact ⟨Function.update_of_ne hne _ _, Function.update_of_ne hne _ _⟩
    · unfold Setup.synced
      split <;> rfl
  | assets c market response spot future hstage hfree hwork =>
    have hempty := h.sound.loading c hstage
    rcases spot with _ | _ | spot
    · exact .of_eq rfl rfl rfl
    · rcases future with _ | future <;> exact .of_eq rfl rfl rfl
    · rcases future with _ | _ | future
      · exact .of_eq rfl rfl rfl
      · exact .of_eq rfl rfl rfl
      · refine ⟨fun e _ => ⟨rfl, rfl⟩, fun e he => Function.update_of_ne ?_ _ _⟩
        rintro rfl
        exact he hempty

/-- The variables of the exchanges stay in every run. -/
theorem keeps_of_reaches (h : Invariant thread s)
    (hrun : GuardedRun.Reaches (step thread) (fun _ => Plain) s t) : Keeps s t := by
  induction hrun with
  | refl => exact .of_eq rfl rfl rfl
  | tail hbefore hlast ih =>
    obtain ⟨action, -, hstep⟩ := hlast
    obtain ⟨hrunning, hstepped⟩ := stepped_of_step hstep
    have hu := (invariant_of_reaches (fun _ _ => id) h hbefore).resolve_left (by simp [hrunning])
    exact ih.trans (hu.keeps hstepped)

/-- In every run of set-ups on any threads whose responses do not give the offset that stands for
none, two clients of an exchange that are finished at any times have the same time offset, and the
same assets where both have some. The limiters of the exchange are there by then, and are never
built again. -/
theorem clients_agree (thread : ℕ → ℕ) (s t : Setup)
    (hrun : GuardedRun.Reaches (step thread) (fun _ => Plain) start s)
    (hrest : GuardedRun.Reaches (step thread) (fun _ => Plain) s t) (hrunning : t.aborted = false)
    (c other : Constructor) (hexchange : other.2 = c.2) (hdone : s.stage c = .done)
    (hother : t.stage other = .done) :
    (t.client other).timeOffsetMs = (s.client c).timeOffsetMs ∧
      (s.limiter c.2).isSome ∧ t.limiter c.2 = s.limiter c.2 ∧
        ∀ assets assets', (s.client c).assets = some assets →
          (t.client other).assets = some assets' → assets.spot ≠ ∅ → assets'.spot ≠ ∅ →
            assets' = assets := by
  have hs := invariant_of_start hrun (running_of_reaches hrest hrunning)
  have ht := invariant_of_start (hrun.trans hrest) hrunning
  have hkeeps := keeps_of_reaches hs hrest
  obtain ⟨hoffset, hlimiter⟩ := hs.sound.synced c (by rw [hdone]; trivial)
  obtain ⟨hoffset', -⟩ := ht.sound.synced other (by rw [hother]; trivial)
  obtain ⟨hsameOffset, hsameLimiter⟩ := hkeeps.offset c.2 hlimiter
  refine ⟨?_, Option.isSome_iff_ne_none.mpr hlimiter, hsameLimiter,
    fun assets assets' hassets hassets' hspot hspot' => ?_⟩
  · rw [hoffset', hexchange, hsameOffset, hoffset]
  · obtain rfl := (hs.sound.assets c assets hassets).resolve_left hspot
    obtain rfl := (ht.sound.assets other assets' hassets').resolve_left hspot'
    rw [hexchange]
    exact hkeeps.assets c.2 hspot

/-- A response with one pair. -/
def pairResponse : Value :=
  .array [.object [("id", .string "BTC_USDT"), ("trade_status", .string "tradable")]]

/-- A set-up of Gate that receives its time and its assets. -/
def loadRun : List SetupAction :=
  [.begin false, .time (0, .gate) (some timeResponse) 0,
    .assets (0, .gate) .spot (some pairResponse),
    .assets (0, .gate) .future (some (.array []))]

/-- The actions of this set-up, and the begin of another one, are plain. -/
theorem plain_of_mem_loadRun {action : SetupAction} (h : action ∈ loadRun) : Plain action := by
  simp only [loadRun, List.mem_cons, List.not_mem_nil, or_false] at h
  rcases h with rfl | rfl | rfl | rfl
  · trivial
  · exact plain_timeResponse _
  · trivial
  · trivial

/-- A second set-up of the thread is finished at once, and agrees with the first one. -/
theorem loadRun_agrees : ∃ s t : Setup,
    GuardedRun.exec (step fun _ => 0) start loadRun = some s ∧
      s.step (fun _ => 0) (.begin false) = some t ∧
        (t.client (1, .gate)).timeOffsetMs = (s.client (0, .gate)).timeOffsetMs ∧
          t.limiter .gate = s.limiter .gate := by
  have hrun : (GuardedRun.exec (step fun _ => 0) start loadRun).bind (fun s =>
      (s.step (fun _ => 0) (.begin false)).map fun t =>
        (s.stage (0, .gate), t.stage (1, .gate), t.aborted)) = some (.done, .done, false) := by
    decide +kernel
  obtain ⟨s, hs, hrest⟩ := Option.bind_eq_some_iff.mp hrun
  obtain ⟨t, ht, hstages⟩ := Option.map_eq_some_iff.mp hrest
  simp only [Prod.mk.injEq] at hstages
  obtain ⟨hdone, hother, hrunning⟩ := hstages
  have hreaches : GuardedRun.Reaches (step fun _ => 0) (fun _ => Plain) start s :=
    GuardedRun.reaches_of_exec (GuardedRun.stepsSatisfy_of_forall
      fun action haction _ => plain_of_mem_loadRun haction) hs
  obtain ⟨hoffset, -, hlimiter, -⟩ := clients_agree (fun _ => 0) s t hreaches
    (.single ⟨.begin false, trivial, ht⟩) hrunning (0, .gate) (1, .gate) rfl hdone hother
  exact ⟨s, t, hs, ht, hoffset, hlimiter⟩

end Agreement

section Nested

/-- A constructor waits for a response behind a lock. -/
def Waiting (s : Setup) (c : Constructor) : Prop :=
  s.stage c = .syncing ∨ (s.stage c).IsLoading

/-- A constructor that was begun, is not done and is not about to take a lock waits. -/
theorem waiting_of_not_isEntering (habsent : s.stage c ≠ .absent) (hdone : s.stage c ≠ .done)
    (hentering : ¬(s.stage c).IsEntering) : s.Waiting c := by
  unfold Waiting
  cases hstage : s.stage c with
  | absent => exact absurd hstage habsent
  | entering => exact absurd (by rw [hstage]; trivial) hentering
  | syncing => exact .inl rfl
  | loading => exact .inr trivial
  | done => exact absurd hstage hdone

/-- A constructor that waits was begun, is not done, and is not about to take a lock. -/
theorem Waiting.ne (h : s.Waiting c) :
    s.stage c ≠ .absent ∧ s.stage c ≠ .done ∧ ¬(s.stage c).IsEntering := by
  rcases h with h | h
  · rw [h]
    exact ⟨nofun, nofun, id⟩
  · cases hstage : s.stage c with
    | loading => exact ⟨nofun, nofun, id⟩
    | _ =>
      rw [hstage] at h
      exact h.elim

/-- The constructor that holds a lock waits for a response of its exchange, and one that waits holds
a lock. -/
theorem Sound.waiting_of_held (h : s.Sound) {e : SetupExchange} {guard : Guard}
    (hheld : s.held (e, guard) = some c) : c.2 = e ∧ s.Waiting c := by
  cases guard with
  | syncTime => exact ((h.sync e c).mp hheld).imp_right .inl
  | loadAssets => exact ((h.load e c).mp hheld).imp_right .inr

/-- While a constructor waits for a response, another one of its exchange does not get past both
locks. -/
theorem Outcome.isEntering_of_waiting {stage : SetupStage} (h : s.Sound) {first second : ℕ}
    {e : SetupExchange} (houtcome : Outcome s (second, e) stage) (hwaiting : s.Waiting (first, e))
    (hentering : (s.stage (second, e)).IsEntering) : stage.IsEntering := by
  have hpast (harrives : s.Arrives (second, e) .loadAssets)
      (hfree : s.held (e, .loadAssets) = none) : False := by
    rcases hwaiting with hstage | hstage
    · rcases harrives with hsame | ⟨-, hnone⟩
      · -- the other one would have synchronised the time before
        exact (h.synced (second, e) (by rw [hsame]; trivial)).2 (h.unsynced (first, e) hstage)
      · exact nomatch hnone.symm.trans ((h.sync e (first, e)).mpr ⟨rfl, hstage⟩)
    · exact nomatch hfree.symm.trans ((h.load e (first, e)).mpr ⟨rfl, hstage⟩)
  cases houtcome with
  | rests => exact hentering
  | waits => trivial
  | syncs _ hfree hlimiter =>
    rcases hwaiting with hstage | hstage
    · exact nomatch hfree.symm.trans ((h.sync e (first, e)).mpr ⟨rfl, hstage⟩)
    · exact absurd hlimiter (h.synced (first, e) hstage.isSynced).2
  | loads harrives hfree => exact (hpast harrives hfree).elim
  | takes harrives hfree => exact (hpast harrives hfree).elim

/-- A set-up waits for a response on a thread that is blocked by another set-up, which is about to
take a lock of the same exchange. -/
structure Jammed (thread : ℕ → ℕ) (first second : ℕ) (e : SetupExchange) (s : Setup) : Prop where
  waiting : s.Waiting (first, e)
  entering : (s.stage (second, e)).IsEntering
  blocked : ∃ e', s.blocked (thread second) = some (second, e')

/-- A set-up that runs while another one waits for a response of its exchange blocks the thread. -/
theorem Polled.jammed (h : Polled thread s call t) (hsound : s.Sound) {first : ℕ}
    {e : SetupExchange} (hne : first ≠ call) (hwaiting : s.Waiting (first, e))
    (hentering : (s.stage (call, e)).IsEntering) : Jammed thread first call e t := by
  have hstill : (t.stage (call, e)).IsEntering := by
    rcases h.outcome (c := (call, e)) rfl with houtcome | ⟨-, -, hsame⟩
    · exact houtcome.isEntering_of_waiting hsound hwaiting hentering
    · rwa [hsame]
  refine ⟨by rwa [Waiting, h.frame.stage _ hne], hstill, ?_⟩
  rcases h.blocked hstill rfl with hb | ⟨-, hb⟩
  · exact ⟨e, hb⟩
  · exact ⟨.gate, hb⟩

/-- A thread that is blocked does nothing but get its lock. -/
theorem Invariant.blocked_step (h : Invariant thread s) {action : SetupAction}
    (hplain : Plain action) (hfails : ¬TimeFails action) (hstep : Stepped thread s action t)
    {n : ℕ} (hblocked : s.blocked n ≠ none) :
    (∃ c, s.blocked n = some c ∧ Polled thread (s.unblock n) c.1 t) ∨
      t.blocked n = s.blocked n ∧
        ∀ c, thread c.1 = n → s.stage c ≠ .absent → t.stage c = s.stage c := by
  have hne {m : ℕ} (hfree : s.blocked m = none) : n ≠ m := by
    rintro rfl
    exact hblocked hfree
  cases hstep with
  | begin both hfree =>
    have hframe := (h.polled_openCall both hfree).frame
    refine .inr ⟨(hframe.blocked n (hne hfree)).trans (congrFun (blocked_openCall both).1 n),
      fun c _ hstage => ?_⟩
    have hold := (h.sound.begun c hstage).ne
    rw [hframe.stage c hold, stage_openCall both hold]
  | acquire m c guard hm hstage hfree =>
    have hpolled := h.polled_unblock hm
    by_cases heq : m = n
    · subst heq
      exact .inl ⟨c, hm, hpolled⟩
    · obtain ⟨rfl, -⟩ := h.settled.blocked m c hm
      refine .inr ⟨(hpolled.frame.blocked n (Ne.symm heq)).trans
        (Function.update_of_ne (Ne.symm heq) _ _), fun other hother _ =>
          hpolled.frame.stage other ?_⟩
      intro hsame
      rw [hsame] at hother
      exact heq hother
  | time c response localTime hstage hfree =>
    have hframe := (h.polled_synced hstage hfree hplain hfails).frame
    refine .inr ⟨(hframe.blocked n (hne hfree)).trans (congrFun (blocked_synced _ _).1 n),
      fun other hother _ => ?_⟩
    have hcall : other.1 ≠ c.1 := fun hsame => hne hfree (by rw [← hother, hsame])
    rw [hframe.stage other hcall, stage_synced]
    exact Function.update_of_ne (fun heq => hcall (congrArg Prod.fst heq)) _ _
  | assets c market response spot future hstage hfree hwork =>
    obtain ⟨stage, -, hstages⟩ := stage_fetched (s := s) (c := c) spot future
    refine .inr ⟨congrFun (blocked_fetched _ _).1 n, fun other hother _ => ?_⟩
    rw [hstages]
    refine Function.update_of_ne ?_ _ _
    rintro rfl
    exact hne hfree hother.symm

/-- A thread that is blocked in this way stays so. -/
theorem Jammed.step {first second : ℕ} {e : SetupExchange}
    (hjammed : Jammed thread first second e s) (h : Invariant thread s)
    (hthread : thread first = thread second) (hne : first ≠ second)
    {action : SetupAction} (hplain : Plain action) (hfails : ¬TimeFails action)
    (hstep : s.step thread action = some t) : Jammed thread first second e t := by
  obtain ⟨hwaiting, hentering, e', hblocked⟩ := hjammed
  rcases h.blocked_step hplain hfails (stepped_of_step hstep).2 (n := thread second)
    (by rw [hblocked]; nofun) with ⟨c, hc, hpolled⟩ | ⟨hsame, hstages⟩
  · cases hblocked.symm.trans hc
    exact hpolled.jammed (h.sound.unblock _) hne hwaiting hentering
  · have hsecond : s.stage (second, e) ≠ .absent := fun habsent => by
      rw [habsent] at hentering
      exact hentering
    refine ⟨?_, ?_, e', hsame.trans hblocked⟩
    · rwa [Waiting, hstages (first, e) hthread hwaiting.ne.1]
    · rwa [hstages (second, e) rfl hsecond]

/-- The constructors of a new set-up are about to take a lock. -/
theorem isEntering_openCall {both : Bool} {e : SetupExchange} (h : both = true ∨ e = .gate) :
    ((s.openCall both).stage (s.calls, e)).IsEntering := by
  have hstage : (s.openCall both).stage (s.calls, e) = .entering .syncTime := by
    rcases h with rfl | rfl
    · cases e <;> simp [Setup.openCall, setStage]
    · cases both <;> simp [Setup.openCall, setStage]
  rw [hstage]
  trivial

/-- While a set-up of a thread waits for a response of an exchange, a second set-up of this thread
with the same exchange blocks the thread for ever: whatever happens then, neither of the two is
finished before the process is aborted. -/
theorem nested_setup_blocks (thread : ℕ → ℕ) (s t u : Setup) (first : ℕ) (e : SetupExchange)
    (both : Bool) (hboth : both = true ∨ e = .gate)
    (hrun : GuardedRun.Reaches (step thread) (fun _ => Plain) start s)
    (hthread : thread first = thread s.calls)
    (hfirst : s.stage (first, e) ≠ .absent ∧ s.stage (first, e) ≠ .done)
    (hstep : s.step thread (.begin both) = some t)
    (hrest : GuardedRun.Reaches (step thread) (fun _ => Plain) t u) (hrunning : u.aborted = false) :
    u.blocked (thread first) ≠ none ∧ u.stage (first, e) ≠ .done ∧
      u.stage (s.calls, e) ≠ .done := by
  obtain ⟨hsrunning, hstepped⟩ := stepped_of_step hstep
  have hs := invariant_of_start hrun hsrunning
  have hne : first ≠ s.calls := (hs.sound.begun (first, e) hfirst.1).ne
  have hbegin : Plain (.begin both) := trivial
  have hjammed : Jammed thread first s.calls e t := by
    cases hstepped with
    | begin both hfree =>
      have hnot : ¬(s.stage (first, e)).IsEntering := fun hentering => by
        have hwait := hs.settled.entering (first, e) hentering
        simp [hthread, hfree] at hwait
      have hwaiting := waiting_of_not_isEntering hfirst.1 hfirst.2 hnot
      refine (hs.polled_openCall both hfree).jammed (hs.sound.openCall both) hne ?_
        (isEntering_openCall hboth)
      rwa [Waiting, stage_openCall both hne]
  have hjam : u.aborted = true ∨ Invariant thread u ∧ Jammed thread first s.calls e u := by
    refine hrest.invariant (I := fun v => v.aborted = true ∨ Invariant thread v ∧
      Jammed thread first s.calls e v) (.inr ⟨hs.step hbegin id hstep, hjammed⟩) ?_
    rintro v action w (haborted | ⟨hv, hvjammed⟩) hplain hvstep
    · rw [(stepped_of_step hvstep).1] at haborted
      cases haborted
    · by_cases hfails : TimeFails action
      · exact .inl (hv.aborted_of_timeFails hfails hvstep)
      · exact .inr ⟨hv.step hplain hfails hvstep,
          hvjammed.step hv hthread hne hplain hfails hvstep⟩
  obtain ⟨-, hwaiting, hentering, e', hblocked⟩ := hjam.resolve_left (by simp [hrunning])
  refine ⟨by rw [hthread, hblocked]; nofun, hwaiting.ne.2.1, fun hdone => ?_⟩
  rw [hdone] at hentering
  exact hentering

/-- A second set-up of a thread whose first one waits for the time of Gate blocks it for ever. -/
theorem second_setup_blocks : ∃ s t : Setup, start.step (fun _ => 0) (.begin true) = some s ∧
    s.step (fun _ => 0) (.begin true) = some t ∧
      ∀ u, GuardedRun.Reaches (step fun _ => 0) (fun _ => Plain) t u → u.aborted = false →
        u.blocked 0 ≠ none ∧ u.stage (0, .gate) ≠ .done ∧ u.stage (1, .gate) ≠ .done := by
  refine ⟨(start.openCall true).poll (fun _ => 0) 0, _, rfl, rfl, fun u hrest hrunning => ?_⟩
  exact nested_setup_blocks (fun _ => 0) _ _ u 0 .gate true (.inl rfl)
    (.single ⟨.begin true, trivial, rfl⟩) rfl ⟨by decide, by decide⟩ rfl hrest hrunning

end Nested

section Tidy

/-- A set-up begins on a thread where all others are finished, and the responses are plain. -/
def Tidy (thread : ℕ → ℕ) (s : Setup) : SetupAction → Prop
  | .begin _ => ∀ c, thread c.1 = thread s.calls → (s.stage c).work = 0
  | action => Plain action

/-- One set-up of each thread has work left, and Gate does not wait for a lock after Binance ran. -/
structure Orderly (thread : ℕ → ℕ) (s : Setup) : Prop where
  single : ∀ c c', 0 < (s.stage c).work → 0 < (s.stage c').work → thread c.1 = thread c'.1 →
    c.1 = c'.1
  gate : ∀ k, (s.stage (k, .gate)).IsEntering →
    s.stage (k, .binance) = .absent ∨ s.stage (k, .binance) = .entering .syncTime

/-- The responses of a tidy run are plain. -/
theorem Tidy.plain {action : SetupAction} (h : Tidy thread s action) : Plain action := by
  cases action with
  | begin => trivial
  | _ => exact h

/-- A step leaves no constructor with more work, but for those that begin. -/
theorem Invariant.work_le (h : Invariant thread s) {action : SetupAction} (hplain : Plain action)
    (hfails : ¬TimeFails action) (hstep : Stepped thread s action t) (c : Constructor)
    (hc : (∃ both, action = .begin both) → c.1 ≠ s.calls) :
    (t.stage c).work ≤ (s.stage c).work := by
  cases hstep with
  | begin both hfree =>
    refine ((h.polled_openCall both hfree).work_le c).trans_eq ?_
    rw [stage_openCall both (hc ⟨both, rfl⟩)]
  | acquire n other guard hblocked hstage hfree => exact (h.polled_unblock hblocked).work_le c
  | time other response localTime hstage hfree =>
    refine ((h.polled_synced hstage hfree hplain hfails).work_le c).trans ?_
    rw [stage_synced]
    by_cases heq : c = other
    · subst heq
      rw [Function.update_self, hstage]
      decide
    · rw [Function.update_of_ne heq]
  | assets other market response spot future hstage hfree hwork =>
    by_cases heq : c = other
    · subst heq
      exact (work_fetched hstage hwork).le
    · obtain ⟨stage, -, hstages⟩ := stage_fetched (s := s) (c := other) spot future
      rw [hstages, Function.update_of_ne heq]

/-- The number of set-ups changes when one begins. -/
theorem Invariant.calls_eq (h : Invariant thread s) {action : SetupAction} (hplain : Plain action)
    (hfails : ¬TimeFails action) (hbegin : ∀ both, action ≠ .begin both)
    (hstep : Stepped thread s action t) : t.calls = s.calls := by
  cases hstep with
  | begin both => exact absurd rfl (hbegin both)
  | acquire n c guard hblocked hstage hfree => exact (h.polled_unblock hblocked).frame.calls
  | time c response localTime hstage hfree =>
    exact (h.polled_synced hstage hfree hplain hfails).frame.calls.trans
      (blocked_synced _ _).2.2.1
  | assets c market response spot future hstage hfree hwork => exact (blocked_fetched _ _).2.2

/-- In tidy runs that do not abort, the state stays orderly. -/
theorem Orderly.step (horderly : Orderly thread s) (h : Invariant thread s) {action : SetupAction}
    (htidy : Tidy thread s action) (hfails : ¬TimeFails action)
    (hstep : Stepped thread s action t) : Orderly thread t := by
  have hwork := h.work_le htidy.plain hfails hstep
  have hsingle (hbegin : ∀ both, action ≠ .begin both) (c c' : Constructor)
      (hc : 0 < (t.stage c).work) (hc' : 0 < (t.stage c').work)
      (hthread : thread c.1 = thread c'.1) : c.1 = c'.1 :=
    horderly.single c c' (hc.trans_le (hwork c fun ⟨both, heq⟩ => absurd heq (hbegin both)))
      (hc'.trans_le (hwork c' fun ⟨both, heq⟩ => absurd heq (hbegin both))) hthread
  cases hstep with
  | begin both hfree =>
    have hpolled := h.polled_openCall both hfree
    have hold (c : Constructor) (hc : c.1 ≠ s.calls)
        (hpos : 0 < (((s.openCall both).poll thread s.calls).stage c).work) :
        0 < (s.stage c).work ∧ thread c.1 ≠ thread s.calls := by
      have hpos' := hpos.trans_le (hwork c fun _ => hc)
      exact ⟨hpos', fun heq => hpos'.ne' (htidy c heq)⟩
    refine ⟨fun c c' hc hc' hthread => ?_, fun k hgate => ?_⟩
    · by_cases hnew : c.1 = s.calls
      · by_cases hnew' : c'.1 = s.calls
        · exact hnew.trans hnew'.symm
        · exact absurd (by rw [← hthread, hnew]) (hold c' hnew' hc').2
      · by_cases hnew' : c'.1 = s.calls
        · exact absurd (by rw [hthread, hnew']) (hold c hnew hc).2
        · exact horderly.single c c' (hold c hnew hc).1 (hold c' hnew' hc').1 hthread
    · by_cases hk : k = s.calls
      · subst hk
        rw [(hpolled.gate hgate).2]
        cases both <;> simp [Setup.openCall, setStage, h.sound.stage_calls .binance]
      · rw [hpolled.frame.stage _ hk, stage_openCall both hk] at hgate ⊢
        exact horderly.gate k hgate
  | acquire n c guard hblocked hstage hfree =>
    have hpolled := h.polled_unblock hblocked
    refine ⟨hsingle (by simp), fun k hgate => ?_⟩
    by_cases hk : k = c.1
    · subst hk
      rw [(hpolled.gate hgate).2]
      exact horderly.gate _ (hpolled.gate hgate).1
    · rw [hpolled.frame.stage _ hk] at hgate ⊢
      exact horderly.gate k hgate
  | time c response localTime hstage hfree =>
    have hpolled := h.polled_synced hstage hfree htidy hfails
    refine ⟨hsingle (by simp), fun k hgate => ?_⟩
    by_cases hk : k = c.1
    · -- the constructor of Gate does not wait for the assets, whose lock is free
      subst hk
      have hentering := (hpolled.gate hgate).1
      rw [stage_synced] at hentering
      by_cases hc : (c.1, .gate) = c
      · have houtcome := (hpolled.outcome (c := (c.1, .gate)) rfl).resolve_right (by simp)
        refine absurd hgate (houtcome.not_isEntering (by rw [stage_synced, hc]; simp) ?_)
        rw [(blocked_synced _ _).2.2.2, Function.update_of_ne (by simp)]
        exact congrArg Prod.snd hc ▸ h.sound.load_free hstage
      · rw [Function.update_of_ne hc] at hentering
        have hwait := h.settled.entering (c.1, .gate) hentering
        simp [hfree] at hwait
    · have hne : ∀ e, (k, e) ≠ c := fun e heq => hk (congrArg Prod.fst heq)
      rw [hpolled.frame.stage _ hk, stage_synced, Function.update_of_ne (hne _)] at hgate ⊢
      exact horderly.gate k hgate
  | assets c market response spot future hstage hfree hless =>
    obtain ⟨stage, hnot, hstages⟩ := stage_fetched (s := s) (c := c) spot future
    refine ⟨hsingle (by simp), fun k hgate => ?_⟩
    rw [hstages] at hgate ⊢
    by_cases hk : k = c.1
    · subst hk
      by_cases hc : (c.1, .gate) = c
      · rw [hc, Function.update_self] at hgate
        exact absurd hgate hnot
      · rw [Function.update_of_ne hc] at hgate
        have hwait := h.settled.entering (c.1, .gate) hgate
        simp [hfree] at hwait
    · have hne : ∀ e, (k, e) ≠ c := fun e heq => hk (congrArg Prod.fst heq)
      rw [Function.update_of_ne (hne _)] at hgate ⊢
      exact horderly.gate k hgate

/-- A constructor that waits for a response on a thread that is not blocked may receive one. -/
theorem exists_step_of_waiting (h : Invariant thread s) (hwaiting : s.Waiting c)
    (hfree : s.blocked (thread c.1) = none) :
    ∃ action t, (∀ both, action ≠ .begin both) ∧ Plain action ∧ ¬TimeFails action ∧
      s.step thread action = some t ∧ (t.stage c).work < (s.stage c).work := by
  rcases hwaiting with hstage | hstage
  · have hplain := plain_timeResponse c
    have hfails : ¬TimeFails (.time c (some timeResponse) 0) := by
      simp [TimeFails, serverTime_timeResponse]
    refine ⟨.time c (some timeResponse) 0, _, by simp, hplain, hfails,
      by simp only [Setup.step, h.running, hstage, hfree]; rfl, ?_⟩
    refine ((h.polled_synced hstage hfree hplain hfails).work_le c).trans_lt ?_
    rw [stage_synced, Function.update_self, hstage]
    decide
  · obtain ⟨spot, future, hloading⟩ : ∃ spot future, s.stage c = .loading spot future := by
      cases hs : s.stage c with
      | loading spot future => exact ⟨spot, future, rfl⟩
      | _ =>
        rw [hs] at hstage
        exact hstage.elim
    cases spot with
    | none =>
      refine ⟨.assets c .spot none, _, by simp, trivial, id,
        by simp only [Setup.step, h.running, hloading, hfree]; rfl, work_fetched hstage ?_⟩
      rw [hloading]
      cases future <;> simp [SetupStage.work]
    | some spot =>
      cases future with
      | none =>
        exact ⟨.assets c .future none, _, by simp, trivial, id,
          by simp only [Setup.step, h.running, hloading, hfree]; rfl,
          work_fetched hstage (.inl ⟨rfl, rfl⟩)⟩
      | some future => exact absurd hloading (h.sound.pending c spot future)

/-- A thread may get a lock that is free. -/
theorem exists_step_of_free (h : Invariant thread s) {n : ℕ} {guard : Guard}
    (hblocked : s.blocked n = some c) (hstage : s.stage c = .entering guard)
    (hfree : s.held (c.2, guard) = none) :
    ∃ t, s.step thread (.acquire n) = some t ∧ (t.stage c).work < (s.stage c).work := by
  have hpolled := h.polled_unblock hblocked
  refine ⟨_, by simp only [Setup.step, h.running, hblocked, Option.bind_some, hstage, hfree]; rfl,
    ?_⟩
  rcases hpolled.outcome (c := c) rfl with houtcome | ⟨hbinance, hgate, -⟩
  · exact houtcome.work_lt hstage hfree
  · -- Gate would block the thread itself
    have hwait := h.settled.entering (c.1, .gate) (hpolled.gate hgate).1
    rw [(h.settled.blocked n c hblocked).1, hblocked] at hwait
    simp [Prod.ext_iff, hbinance] at hwait

/-- Where the thread of a constructor that waits for a response is blocked, Gate waits for the
response, and Binance for a lock. -/
theorem Orderly.blocked_of_waiting (horderly : Orderly thread s) (h : Invariant thread s)
    (hwaiting : s.Waiting c) {other : Constructor}
    (hblocked : s.blocked (thread c.1) = some other) : c.2 = .gate ∧ other.2 = .binance := by
  obtain ⟨hthread, hentering⟩ := h.settled.blocked _ other hblocked
  obtain ⟨habsent, hdone, hnot⟩ := hwaiting.ne
  have hpos : 0 < (s.stage c).work := Nat.pos_of_ne_zero fun hzero =>
    (SetupStage.work_eq_zero hzero).elim habsent hdone
  have hcall := horderly.single other c hentering.work_pos hpos hthread
  obtain ⟨k, e⟩ := c
  obtain ⟨k', e'⟩ := other
  obtain rfl : k' = k := hcall
  cases e' with
  | gate =>
    cases e with
    | gate => exact absurd hentering hnot
    | binance =>
      rcases horderly.gate k' hentering with hs | hs
      · exact absurd hs habsent
      · rw [hs] at hnot
        exact absurd trivial hnot
  | binance =>
    cases e with
    | gate => exact ⟨rfl, rfl⟩
    | binance => exact absurd hentering hnot

/-- When each constructor that waits for a response is on a blocked thread, some blocked thread
waits for a lock that is free. -/
theorem Orderly.exists_free (horderly : Orderly thread s) (h : Invariant thread s)
    (hwaits : ∀ c, s.Waiting c → s.blocked (thread c.1) ≠ none) {n : ℕ}
    (hblocked : s.blocked n = some c) : ∃ n c guard, s.blocked n = some c ∧
      s.stage c = .entering guard ∧ s.held (c.2, guard) = none := by
  obtain ⟨guard, hguard⟩ := SetupStage.isEntering_iff.mp (h.settled.blocked n c hblocked).2
  cases hheld : s.held (c.2, guard) with
  | none => exact ⟨n, c, guard, hblocked, hguard, hheld⟩
  | some holder =>
    -- the holder waits for Gate on a thread that Binance blocks, and nobody waits for Binance so
    obtain ⟨-, hwaiting⟩ := h.sound.waiting_of_held hheld
    obtain ⟨other, hother⟩ := Option.ne_none_iff_exists'.mp (hwaits holder hwaiting)
    obtain ⟨-, hbinance⟩ := horderly.blocked_of_waiting h hwaiting hother
    obtain ⟨guard', hguard'⟩ := SetupStage.isEntering_iff.mp (h.settled.blocked _ other hother).2
    cases hheld' : s.held (other.2, guard') with
    | none => exact ⟨_, other, guard', hother, hguard', hheld'⟩
    | some holder' =>
      obtain ⟨hexchange, hwaiting'⟩ := h.sound.waiting_of_held hheld'
      obtain ⟨other', hother'⟩ := Option.ne_none_iff_exists'.mp (hwaits holder' hwaiting')
      obtain ⟨hgate, -⟩ := horderly.blocked_of_waiting h hwaiting' hother'
      rw [hexchange, hbinance] at hgate
      cases hgate

/-- The work that is left. -/
def totalWork (s : Setup) : ℕ :=
  ∑ call ∈ Finset.range s.calls,
    ((s.stage (call, .gate)).work + (s.stage (call, .binance)).work)

/-- Less work is left when one constructor has less, and none more. -/
theorem totalWork_lt (hcalls : t.calls = s.calls) (hc : c.1 < s.calls)
    (hle : ∀ other, (t.stage other).work ≤ (s.stage other).work)
    (hlt : (t.stage c).work < (s.stage c).work) : t.totalWork < s.totalWork := by
  unfold totalWork
  rw [hcalls]
  refine Finset.sum_lt_sum (fun k _ => Nat.add_le_add (hle _) (hle _))
    ⟨c.1, Finset.mem_range.mpr hc, ?_⟩
  obtain ⟨k, e⟩ := c
  cases e with
  | gate => exact Nat.add_lt_add_of_lt_of_le hlt (hle _)
  | binance => exact Nat.add_lt_add_of_le_of_lt (hle _) hlt

/-- A step in which no set-up begins, and after which one constructor has less work. -/
theorem Invariant.totalWork_lt (h : Invariant thread s) {action : SetupAction}
    (hplain : Plain action) (hfails : ¬TimeFails action) (hbegin : ∀ both, action ≠ .begin both)
    (hstep : s.step thread action = some t) (hlt : (t.stage c).work < (s.stage c).work) :
    t.totalWork < s.totalWork := by
  have hstepped := (stepped_of_step hstep).2
  refine Setup.totalWork_lt (h.calls_eq hplain hfails hbegin hstepped)
    (h.sound.begun c fun habsent => ?_)
    (fun other => h.work_le hplain hfails hstepped other
      fun ⟨both, heq⟩ => absurd heq (hbegin both)) hlt
  rw [habsent] at hlt
  exact Nat.not_lt_zero _ hlt

/-- While each thread has one set-up, some step leaves less work, as long as any is left. -/
theorem Orderly.exists_step (horderly : Orderly thread s) (h : Invariant thread s)
    (hc : (s.stage c).work ≠ 0) : ∃ action t, Tidy thread s action ∧ ¬TimeFails action ∧
      s.step thread action = some t ∧ t.totalWork < s.totalWork := by
  by_cases hwaits : ∃ c, s.Waiting c ∧ s.blocked (thread c.1) = none
  · obtain ⟨c, hwaiting, hfree⟩ := hwaits
    obtain ⟨action, t, hbegin, hplain, hfails, hstep, hlt⟩ :=
      exists_step_of_waiting h hwaiting hfree
    refine ⟨action, t, ?_, hfails, hstep, h.totalWork_lt hplain hfails hbegin hstep hlt⟩
    cases action with
    | begin both => exact absurd rfl (hbegin both)
    | _ => exact hplain
  · simp only [not_exists, not_and] at hwaits
    obtain ⟨n, b, hblocked⟩ : ∃ n b, s.blocked n = some b := by
      by_cases hentering : (s.stage c).IsEntering
      · rcases h.settled.entering c hentering with hb | ⟨-, hb⟩
        · exact ⟨_, _, hb⟩
        · exact ⟨_, _, hb⟩
      · have hwaiting := waiting_of_not_isEntering (fun habsent => hc (by rw [habsent]; rfl))
          (fun hdone => hc (by rw [hdone]; rfl)) hentering
        exact ⟨_, Option.ne_none_iff_exists'.mp (hwaits c hwaiting)⟩
    obtain ⟨n, c, guard, hblocked, hstage, hfree⟩ := horderly.exists_free h hwaits hblocked
    obtain ⟨t, hstep, hlt⟩ := exists_step_of_free h hblocked hstage hfree
    have hacquire : Plain (.acquire n) := trivial
    exact ⟨.acquire n, t, hacquire, id, hstep, h.totalWork_lt hacquire id nofun hstep hlt⟩

/-- When set-ups begin only on threads whose other set-ups are finished, then from every state of a
run that was not aborted all of them can still be finished: no thread waits for ever. -/
theorem tidy_setups_finish (thread : ℕ → ℕ) (s : Setup)
    (hrun : GuardedRun.Reaches (step thread) (Tidy thread) start s) (hrunning : s.aborted = false) :
    ∃ t, GuardedRun.Reaches (step thread) (Tidy thread) s t ∧ t.aborted = false ∧
      ∀ c, t.stage c = .absent ∨ t.stage c = .done := by
  have hstart : Orderly thread start := ⟨fun _ _ h => absurd h (lt_irrefl _), fun _ h => h.elim⟩
  have hs : s.aborted = true ∨ Invariant thread s ∧ Orderly thread s := by
    refine hrun.invariant (I := fun u => u.aborted = true ∨ Invariant thread u ∧ Orderly thread u)
      (.inr ⟨.start, hstart⟩) ?_
    rintro u action v (haborted | ⟨hu, horderly⟩) htidy hstep
    · simp [(stepped_of_step hstep).1] at haborted
    · by_cases hfails : TimeFails action
      · exact .inl (hu.aborted_of_timeFails hfails hstep)
      · exact .inr ⟨hu.step htidy.plain hfails hstep,
          horderly.step hu htidy hfails (stepped_of_step hstep).2⟩
  obtain ⟨t, hreaches, ⟨ht, -⟩, hdone⟩ := GuardedRun.exists_reaches_of_measure totalWork
    (I := fun u => Invariant thread u ∧ Orderly thread u) (Q := fun u => ∀ c, (u.stage c).work = 0)
    (fun u ⟨hu, horderly⟩ hleft => by
      obtain ⟨c, hc⟩ := not_forall.mp hleft
      obtain ⟨action, v, htidy, hfails, hstep, hlt⟩ := horderly.exists_step hu hc
      exact ⟨action, v, htidy, hstep, ⟨hu.step htidy.plain hfails hstep,
        horderly.step hu htidy hfails (stepped_of_step hstep).2⟩, hlt⟩)
    (hs.resolve_left (by simp [hrunning]))
  exact ⟨t, hreaches, ht.running, fun c => SetupStage.work_eq_zero (hdone c)⟩

/-- Two threads that set up both exchanges at the same time can finish. -/
theorem two_setups_finish : ∃ s t : Setup,
    GuardedRun.exec (step id) start [.begin true, .begin true] = some s ∧ s.blocked 1 ≠ none ∧
      GuardedRun.Reaches (step id) (Tidy id) s t ∧ t.aborted = false ∧
        ∀ c, t.stage c = .absent ∨ t.stage c = .done := by
  have hrun : (GuardedRun.exec (step id) start [.begin true, .begin true]).map
      (fun s => (s.blocked 1, s.aborted)) = some (some (1, .gate), false) := by
    decide +kernel
  obtain ⟨s, hs, hstate⟩ := Option.map_eq_some_iff.mp hrun
  obtain ⟨hblocked, hrunning⟩ := Prod.mk.inj hstate
  have hreaches : GuardedRun.Reaches (step id) (Tidy id) start s := by
    refine GuardedRun.reaches_of_exec ?_ hs
    intro u hu
    refine ⟨fun c _ => rfl, fun v hv => ⟨fun c hc => ?_, trivial⟩⟩
    cases hu
    obtain ⟨k, e⟩ := c
    obtain rfl : k = 1 := hc
    cases e <;> rfl
  obtain ⟨t, hfinish⟩ := tidy_setups_finish id s hreaches hrunning
  exact ⟨s, t, hs, by rw [hblocked]; nofun, hfinish⟩

end Tidy

end Arbexpert.Worker.Setup
