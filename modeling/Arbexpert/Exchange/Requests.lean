import Arbexpert.Base.Requests
import Arbexpert.Binance.Sync
import Arbexpert.Exchange.Initialisation

/-!
# The requests that events cause

On Gate an initialisation gives up after five snapshots that are too old, so that the requests of a
run are few; on Binance it asks for another snapshot as long as they are too old. On both it sleeps
five times at most.
-/

namespace Arbexpert.Gate

open Arbexpert.Base

variable {D : Type*} [LinearOrder D] [Zero D] {s t : GateState D}

/-- A handler that is suspended after an attempt sleeps. -/
theorem stage_replayAttempt {task : InitTask D} {snapshot : OrderBook D} {retries : ℕ} :
    ∀ next ∈ (replayAttempt s task snapshot retries).2,
      next.stage = .replaying snapshot (retries + 1) ∧ retries ≠ 5 := by
  unfold replayAttempt
  split
  rename_i feed outcome heq
  have houtcome := congrArg Prod.snd heq
  cases outcome with
  | ended => exact nofun
  | sleeping next =>
    intro other hother
    cases hother
    exact FeedState.sleeping_replayAttempt houtcome
  | replay processed => exact nofun

/-- A broadcast leaves the handlers alone. -/
theorem tasks_broadcastUpdate (symbol : String) (ref : BookRef) (update : OrderBookUpdate D) :
    (broadcastUpdate s symbol ref update).tasks = s.tasks := by
  rw [broadcastUpdate_toFeedState]
  split
  · rw [FeedState.tasks_deliver]
    rfl
  · rfl

/-- A response is handled. -/
theorem depth_handlerStep {i first retries : ℕ} {task : InitTask D}
    (htask : s.tasks[i]? = some task) (hstage : task.stage = .fetching first retries)
    (response : Option (DepthSnapshot D)) :
    HandlerStep (fun n => n + 1 ≠ 5) s.tasks (.depth i response)
      (replaceTask (depthResponse s task first retries response).1.tasks i
        (depthResponse s task first retries response).2) := by
  unfold depthResponse
  split
  · exact .depth _ htask hstage nofun
  · split
    · split
      · exact .depth _ htask hstage nofun
      · rename_i hmore
        refine .depth _ htask hstage fun other hother => ?_
        cases hother
        exact .inl ⟨rfl, hmore⟩
    · rw [tasks_replayAttempt]
      exact .depth _ htask hstage fun other hother =>
        .inr ⟨_, (stage_replayAttempt other hother).1⟩

/-- An initialisation starts. -/
theorem startInit_handlerStep (event : GateEvent) (ref : BookRef) (text : Option Value) :
    HandlerStep (fun n => n + 1 ≠ 5) s.tasks (.message text) (startInit s event ref).tasks := by
  unfold startInit
  split
  · exact .fetch text rfl
  · dsimp only
    split
    · rw [tasks_replayAttempt]
      exact .keep nofun nofun
    · rename_i next hnext
      simp only [FeedState.addTask]
      rw [tasks_replayAttempt]
      exact .sleep text (stage_replayAttempt next hnext).1

variable [DecimalText D]

/-- An event is handled. -/
theorem handleEvent_handlerStep (market : MarketType) (event : GateEvent) (ref : BookRef)
    (text : Option Value) : HandlerStep (fun n => n + 1 ≠ 5) s.tasks (.message text)
      (handleEvent market s event ref).tasks := by
  unfold handleEvent
  dsimp only
  split
  · split
    · split
      · exact .keep nofun nofun
      · rw [tasks_broadcastUpdate]
        exact .keep nofun nofun
    · exact startInit_handlerStep event ref text
  · split
    · rw [FeedState.tasks_pushInit]
      exact .keep nofun nofun
    · split
      · exact .keep nofun nofun
      · split
        · exact .keep nofun nofun
        · rw [tasks_broadcastUpdate]
          exact .keep nofun nofun

/-- What a step of the Gate client does to the handlers. -/
theorem gateStep_handlerStep {market : MarketType} {action : FeedAction D}
    (hstep : gateStep market s action = some t) :
    HandlerStep (fun n => n + 1 ≠ 5) s.tasks action t.tasks := by
  unfold gateStep at hstep
  split at hstep
  · cases hstep
  · cases action with
    | message text =>
      cases hstep
      unfold handleMessage
      split
      · exact .keep nofun nofun
      · split
        · exact .keep nofun nofun
        · exact handleEvent_handlerStep market _ _ text
    | depth i response =>
      cases resumes_of_resumeTask hstep with
      | fetched response htask hstage =>
        rw [FeedState.tasks_setTask]
        exact depth_handlerStep htask hstage response
    | wake i =>
      cases resumes_of_resumeTask hstep with
      | woke htask hstage =>
        rw [FeedState.tasks_setTask, tasks_replayAttempt]
        exact .wake htask hstage stage_replayAttempt
    | watch symbol waiter subscribes sends =>
      cases hstep
      rw [FeedState.tasks_watch]
      exact .keep nofun nofun
    | unwatch symbol unsubscribes =>
      cases hstep
      rw [FeedState.tasks_unwatch]
      exact .keep nofun nofun
    | fail =>
      cases hstep
      exact .fail
    | resume k =>
      obtain ⟨feed, hfeed, rfl⟩ := Option.map_eq_some_iff.mp hstep
      obtain ⟨entry, hentry, rfl⟩ := Option.map_eq_some_iff.mp hfeed
      exact .keep nofun nofun

end Arbexpert.Gate

namespace Arbexpert.Binance

open Arbexpert.Base

variable {D : Type*} [LinearOrder D] [Zero D] {s t : FeedState D}

/-- A handler that is suspended after an attempt sleeps. -/
theorem stage_replayAttempt {task : InitTask D} {snapshot : OrderBook D} {retries : ℕ} :
    ∀ next ∈ (replayAttempt s task snapshot retries).2,
      next.stage = .replaying snapshot (retries + 1) ∧ retries ≠ 5 := by
  unfold replayAttempt
  split
  rename_i feed outcome heq
  have houtcome := congrArg Prod.snd heq
  cases outcome with
  | ended => exact nofun
  | sleeping next =>
    intro other hother
    cases hother
    exact FeedState.sleeping_replayAttempt houtcome
  | replay processed => exact nofun

/-- A response is handled. -/
theorem depth_handlerStep {i first retries : ℕ} {task : InitTask D}
    (htask : s.tasks[i]? = some task) (hstage : task.stage = .fetching first retries)
    (response : Option (DepthSnapshot D)) :
    HandlerStep (fun _ => True) s.tasks (.depth i response)
      (replaceTask (depthResponse s task first retries response).1.tasks i
        (depthResponse s task first retries response).2) := by
  unfold depthResponse
  split
  · exact .depth _ htask hstage nofun
  · split
    · refine .depth _ htask hstage fun other hother => ?_
      cases hother
      exact .inl ⟨rfl, trivial⟩
    · rw [tasks_replayAttempt]
      exact .depth _ htask hstage fun other hother =>
        .inr ⟨_, (stage_replayAttempt other hother).1⟩

/-- An initialisation starts. -/
theorem startInit_handlerStep (event : BinanceEvent) (ref : BookRef) (text : Option Value) :
    HandlerStep (fun _ => True) s.tasks (.message text) (startInit s event ref).tasks := by
  unfold startInit
  split
  · exact .fetch text rfl
  · dsimp only
    split
    · rw [tasks_replayAttempt]
      exact .keep nofun nofun
    · rename_i next hnext
      simp only [FeedState.addTask]
      rw [tasks_replayAttempt]
      exact .sleep text (stage_replayAttempt next hnext).1

variable [DecimalText D]

/-- An event is handled. -/
theorem handleEvent_handlerStep (market : MarketType) (event : BinanceEvent) (ref : BookRef)
    (text : Option Value) : HandlerStep (fun _ => True) s.tasks (.message text)
      (handleEvent market s event ref).tasks := by
  unfold handleEvent
  dsimp only
  split
  · exact startInit_handlerStep event ref text
  · split
    · rw [FeedState.tasks_pushInit]
      exact .keep nofun nofun
    · split
      · exact .keep nofun nofun
      · exact .keep nofun nofun
      · split
        · exact .keep nofun nofun
        · unfold broadcastUpdate
          rw [FeedState.tasks_deliver]
          exact .keep nofun nofun

/-- What a step of the Binance client does to the handlers. -/
theorem binanceStep_handlerStep {market : MarketType} {action : FeedAction D}
    (hstep : binanceStep market s action = some t) :
    HandlerStep (fun _ => True) s.tasks action t.tasks := by
  unfold binanceStep at hstep
  split at hstep
  · cases hstep
  · cases action with
    | message text =>
      cases hstep
      unfold handleMessage
      split
      · exact .keep nofun nofun
      · split
        · exact .keep nofun nofun
        · exact handleEvent_handlerStep market _ _ text
    | depth i response =>
      cases resumes_of_resumeTask hstep with
      | fetched response htask hstage =>
        rw [FeedState.tasks_setTask]
        exact depth_handlerStep htask hstage response
    | wake i =>
      cases resumes_of_resumeTask hstep with
      | woke htask hstage =>
        rw [FeedState.tasks_setTask, tasks_replayAttempt]
        exact .wake htask hstage stage_replayAttempt
    | watch symbol waiter subscribes sends =>
      cases hstep
      rw [FeedState.tasks_watch]
      exact .keep nofun nofun
    | unwatch symbol unsubscribes =>
      cases hstep
      rw [FeedState.tasks_unwatch]
      exact .keep nofun nofun
    | fail =>
      cases hstep
      exact .fail
    | resume k =>
      obtain ⟨entry, hentry, rfl⟩ := Option.map_eq_some_iff.mp hstep
      exact .keep nofun nofun

end Arbexpert.Binance

namespace Arbexpert.Exchange

open Arbexpert.Base

variable {D : Type*} [LinearOrder D] [Zero D] [DecimalText D]

/-- In every run of a Gate sub-client the responses to snapshot requests are at most five for each
message, and so are the ends of sleeps, of which there are no more on Binance either. -/
theorem initialisations_bounded (market : MarketType) (actions : List (FeedAction D)) :
    (∀ s, GuardedRun.exec (Gate.gateStep market) Gate.gateStart actions = some s →
      actions.countP FeedAction.isDepth ≤ 5 * actions.countP FeedAction.isMessage ∧
        actions.countP FeedAction.isWake ≤ 5 * actions.countP FeedAction.isMessage) ∧
      ∀ s, GuardedRun.exec (Binance.binanceStep market) FeedState.start actions = some s →
        actions.countP FeedAction.isWake ≤ 5 * actions.countP FeedAction.isMessage := by
  refine ⟨fun s hrun => ⟨?_, ?_⟩, fun s hrun => ?_⟩
  · exact responses_bounded (fun s : Gate.GateState D => s.tasks) (fun _ hmore => hmore)
      (fun _ _ _ hstep => Gate.gateStep_handlerStep hstep) rfl hrun
  · exact sleeps_bounded (fun s : Gate.GateState D => s.tasks)
      (fun _ _ _ hstep => Gate.gateStep_handlerStep hstep) rfl hrun
  · exact sleeps_bounded FeedState.tasks
      (fun _ _ _ hstep => Binance.binanceStep_handlerStep hstep) rfl hrun

/-- A snapshot that is older than every event. -/
def oldSnapshot (D : Type*) : DepthSnapshot D := ⟨0, [], [], by decide⟩

/-- A Gate initialisation that gives up after five old snapshots. -/
def givenUpRun : List (FeedAction ℕ) :=
  [.watch "BTC_USDT" 0 true true, .message (levellessMessage 4 4)] ++
    List.replicate 5 (.depth 0 (some (oldSnapshot ℕ)))

/-- The bound is reached. -/
theorem givenUpRun_bounded : ∃ s,
    GuardedRun.exec (Gate.gateStep .spot) Gate.gateStart givenUpRun = some s ∧
      givenUpRun.countP FeedAction.isDepth = 5 * givenUpRun.countP FeedAction.isMessage ∧
      givenUpRun.countP FeedAction.isWake ≤ 5 * givenUpRun.countP FeedAction.isMessage :=
  ⟨_, rfl, rfl, ((initialisations_bounded .spot givenUpRun).1 _ rfl).2⟩

/-- A Binance handler waits for a snapshot that is not older than its event. -/
structure Asking (s : FeedState D) : Prop where
  running : s.aborted = false
  task : ∃ task retries, s.tasks = [task] ∧ task.stage = .fetching 4 retries

/-- Each old snapshot makes it ask again. -/
theorem Asking.depth {s : FeedState D} (h : Asking s) (market : MarketType) : ∃ t,
    Binance.binanceStep market s (.depth 0 (some (oldSnapshot D))) = some t ∧ Asking t := by
  obtain ⟨hrunning, task, retries, htasks, hstage⟩ := h
  refine ⟨s.setTask 0 (some { task with stage := .fetching 4 (retries + 1) }), ?_, hrunning,
    { task with stage := .fetching 4 (retries + 1) }, retries + 1, ?_, rfl⟩
  · simp [Binance.binanceStep, Binance.resumeTask, Binance.depthResponse, hrunning, htasks, hstage,
      oldSnapshot]
  · simp [FeedState.setTask, htasks]

/-- It asks again as often as it gets old snapshots. -/
theorem Asking.exec {s : FeedState D} (h : Asking s) (market : MarketType) (n : ℕ) : ∃ t,
    GuardedRun.exec (Binance.binanceStep market) s
      (List.replicate n (.depth 0 (some (oldSnapshot D)))) = some t := by
  induction n generalizing s with
  | zero => exact ⟨s, rfl⟩
  | succ n ih =>
    obtain ⟨t, hstep, hasking⟩ := h.depth market
    obtain ⟨u, hrest⟩ := ih hasking
    exact ⟨u, by rw [List.replicate_succ, GuardedRun.exec, hstep, Option.bind_some, hrest]⟩

/-- On Binance one message can cause any number of responses to snapshot requests. -/
theorem binance_requests_unbounded (market : MarketType) (n : ℕ) : ∃ actions s,
    GuardedRun.exec (Binance.binanceStep market) (FeedState.start : FeedState D) actions = some s ∧
      actions.countP FeedAction.isMessage = 1 ∧ actions.countP FeedAction.isDepth = n := by
  have hopened : ∃ s : FeedState D, GuardedRun.exec (Binance.binanceStep market) FeedState.start
      [.watch "BTCUSDT" 0 true true, .message (some (Binance.depthUpdate 4 4))] = some s ∧
      Asking s := ⟨_, rfl, rfl, _, 0, rfl, rfl⟩
  obtain ⟨s, hopen, hasking⟩ := hopened
  obtain ⟨t, hrest⟩ := hasking.exec market n
  refine ⟨[.watch "BTCUSDT" 0 true true, .message (some (Binance.depthUpdate 4 4))] ++
    List.replicate n (.depth 0 (some (oldSnapshot D))), t, ?_, ?_, ?_⟩
  · rw [GuardedRun.exec_append, hopen, Option.bind_some, hrest]
  · simp [List.countP_cons, FeedAction.isMessage, List.countP_replicate]
  · simp [FeedAction.isDepth, List.countP_replicate]

end Arbexpert.Exchange
