import Arbexpert.Foundation.Projection
import Arbexpert.Worker.Legs
import Arbexpert.Worker.Router

/-!
# The tasks of a worker

A worker takes the requests of its channel in their order. A request to monitor arbitrages makes two
tasks for each of them, one for each leg; a task that has ended is started again with the exchanges,
the symbol and the arbitrage that it passes on. So no task is lost, and what an arbitrage and its
notifications go through is what they would go through alone.
-/

namespace Arbexpert.Worker

open Arbexpert.Base

/-- What a task passes on to the one that follows it: the names of the exchanges, its symbol, and
the arbitrage, which is shared. -/
structure Reenter where
  spot : String
  future : String
  symbol : String
  arbitrage : ℕ
  deriving DecidableEq

/-- A running call of `start_monitor`. -/
structure MonitorCall where
  items : List ℕ
  tasks : List Reenter
  deriving DecidableEq

/-- A worker with its exchanges and arbitrages, the requests that were sent to it and those that it
has not received, its calls, and the notifications of its tasks. -/
structure WorkerLoop (C D : Type*) where
  exchanges : List String
  arbitrages : ℕ → Arbitrage D
  sent : List (Request C ℕ)
  channel : List (Request C ℕ)
  calls : List MonitorCall
  broadcast : List (ℕ × Arbitrage D)

/-- What can happen next: a request is sent or received, or a task of a call ends. -/
inductive WorkerAction (C D : Type*)
  | send (request : Request C ℕ)
  | recv
  | finish (call i : ℕ) (result : Option (OrderBook D))

/-- The exchange at which a task watches its symbol. -/
def Reenter.target (task : Reenter) : String :=
  match marketOf task.symbol with
  | .future => task.future
  | .spot => task.spot

variable {C D : Type*}

/-- The tasks of an arbitrage; `none` where the source stops because there is no such exchange. -/
def itemTasks (exchanges : List String) (arbitrages : ℕ → Arbitrage D) (item : ℕ) :
    Option (List Reenter) :=
  (exchanges.find? (· = (arbitrages item).spot.exchange)).bind fun spot =>
    (exchanges.find? (· = (arbitrages item).future.exchange)).map fun future =>
      [(arbitrages item).symbol .spot, (arbitrages item).symbol .future].map fun symbol =>
        ⟨spot, future, symbol, item⟩

/-- The tasks that `start_monitor` pushes first. -/
def startMonitor (exchanges : List String) (arbitrages : ℕ → Arbitrage D) :
    List ℕ → Option (List Reenter)
  | [] => some []
  | item :: rest =>
    (itemTasks exchanges arbitrages item).bind fun tasks =>
      (startMonitor exchanges arbitrages rest).map fun more => tasks ++ more

namespace WorkerLoop

/-- A worker that has set up its exchanges. -/
def start (exchanges : List String) (arbitrages : ℕ → Arbitrage D) : WorkerLoop C D :=
  ⟨exchanges, arbitrages, [], [], [], []⟩

/-- A request is processed up to its first wait. -/
def processRequest (s : WorkerLoop C D) : Request C ℕ → Option (WorkerLoop C D)
  | .startArbitrage _ => some s
  | .startMonitor items =>
    (startMonitor s.exchanges s.arbitrages items).map fun tasks =>
      { s with calls := s.calls ++ [⟨items, tasks⟩] }

variable [DecimalArith D] [LinearOrder D]

/-- A task ends after its step of the monitor, and is started again. -/
def finish (s : WorkerLoop C D) (call i : ℕ) (result : Option (OrderBook D)) :
    Option (WorkerLoop C D) :=
  s.calls[call]?.bind fun running =>
    running.tasks[i]?.bind fun task =>
      let monitor : Monitor D := ⟨s.arbitrages task.arbitrage, [], fun _ => none⟩
      (monitor.step ⟨task.symbol, result⟩).map fun monitor =>
        { s with
          arbitrages := Function.update s.arbitrages task.arbitrage monitor.arbitrage
          broadcast := s.broadcast ++ monitor.notifications.map fun sent => (task.arbitrage, sent)
          calls := s.calls.set call
            { running with tasks := running.tasks.eraseIdx i ++ [task] } }

/-- One step of a worker; `none` also where the source stops. -/
def step (s : WorkerLoop C D) : WorkerAction C D → Option (WorkerLoop C D)
  | .send request => some { s with sent := s.sent ++ [request], channel := s.channel ++ [request] }
  | .recv =>
    match s.channel with
    | [] => none
    | request :: channel => { s with channel }.processRequest request
  | .finish call i result => s.finish call i result

end WorkerLoop

section Tasks

/-- The tasks of both legs of an arbitrage. -/
def legTasks (arbitrages : ℕ → Arbitrage D) (item : ℕ) : List Reenter :=
  [MarketType.spot, MarketType.future].map fun market =>
    ⟨(arbitrages item).spot.exchange, (arbitrages item).future.exchange,
      (arbitrages item).symbol market, item⟩

variable {exchanges : List String} {arbitrages arbitrages' : ℕ → Arbitrage D} {item : ℕ}

/-- An exchange that is found has the name that was looked for. -/
theorem eq_of_find? {name found : String} (h : exchanges.find? (· = name) = some found) :
    found = name := by
  have hfound := List.find?_some h
  exact of_decide_eq_true hfound

/-- The tasks of an arbitrage are those of its legs. -/
theorem itemTasks_eq_some {tasks : List Reenter}
    (h : itemTasks exchanges arbitrages item = some tasks) : tasks = legTasks arbitrages item := by
  obtain ⟨spot, hspot, hrest⟩ := Option.bind_eq_some_iff.mp h
  obtain ⟨future, hfuture, rfl⟩ := Option.map_eq_some_iff.mp hrest
  rw [eq_of_find? hspot, eq_of_find? hfuture]
  rfl

/-- The first tasks of a call are those of the legs of its arbitrages. -/
theorem startMonitor_eq_some {items : List ℕ} {tasks : List Reenter}
    (h : startMonitor exchanges arbitrages items = some tasks) :
    tasks = items.flatMap (legTasks arbitrages) := by
  induction items generalizing tasks with
  | nil =>
    cases h
    rfl
  | cons item rest ih =>
    obtain ⟨first, hfirst, hrest⟩ := Option.bind_eq_some_iff.mp h
    obtain ⟨more, hmore, rfl⟩ := Option.map_eq_some_iff.mp hrest
    rw [itemTasks_eq_some hfirst, ih hmore, List.flatMap_cons]

/-- A task watches at the exchange of the leg whose market its symbol names. -/
theorem target_of_mem {task : Reenter} (h : task ∈ legTasks arbitrages item) :
    task.arbitrage = item ∧
      task.target = ((arbitrages item).leg (marketOf task.symbol)).exchange := by
  obtain ⟨market, _, rfl⟩ := List.mem_map.mp h
  refine ⟨rfl, ?_⟩
  unfold Reenter.target
  dsimp only
  cases marketOf ((arbitrages item).symbol market) <;> rfl

/-- The tasks only depend on the assets of the arbitrages. -/
theorem legTasks_congr (h : ∀ k, (arbitrages k).spot = (arbitrages' k).spot ∧
    (arbitrages k).future = (arbitrages' k).future) :
    legTasks arbitrages = legTasks arbitrages' := by
  funext item
  refine List.map_congr_left fun market _ => ?_
  rw [(h item).1, (h item).2]
  cases market with
  | spot => rw [Arbitrage.symbol, Arbitrage.symbol, (h item).1]
  | future => rw [Arbitrage.symbol, Arbitrage.symbol, (h item).2]

end Tasks

variable [DecimalArith D] [LinearOrder D]

/-- A step of a monitor keeps its assets. -/
theorem Monitor.step_assets {s t : Monitor D} {action : MonitorAction D}
    (hstep : s.step action = some t) :
    t.arbitrage.spot = s.arbitrage.spot ∧ t.arbitrage.future = s.arbitrage.future := by
  unfold Monitor.step at hstep
  split at hstep
  · cases hstep
    exact ⟨rfl, rfl⟩
  · obtain ⟨new, _, rfl⟩ := Option.map_eq_some_iff.mp hstep
    exact ⟨rfl, rfl⟩

/-- A step of a monitor only depends on its arbitrage, and appends its notifications. -/
theorem Monitor.step_of_arbitrage {s t m : Monitor D} {action : MonitorAction D}
    (harbitrage : s.arbitrage = m.arbitrage) (hnone : s.notifications = [])
    (hstep : s.step action = some t) : ∃ m', m.step action = some m' ∧
      m'.arbitrage = t.arbitrage ∧ m'.notifications = m.notifications ++ t.notifications := by
  obtain ⟨arbitrage, notifications, lastBook⟩ := m
  cases harbitrage
  unfold Monitor.step at hstep ⊢
  split at hstep
  · cases hstep
    exact ⟨_, rfl, rfl, by simp [hnone]⟩
  · obtain ⟨new, hnew, rfl⟩ := Option.map_eq_some_iff.mp hstep
    refine ⟨_, Option.map_eq_some_iff.mpr ⟨new, hnew, rfl⟩, rfl, ?_⟩
    dsimp only
    split <;> simp [hnone]

namespace WorkerLoop

variable {s t : WorkerLoop C D} {action : WorkerAction C D} {exchanges : List String}
  {arbitrages : ℕ → Arbitrage D}

/-- The arbitrages of a request to monitor. -/
def monitored : Request C ℕ → Option (List ℕ)
  | .startArbitrage _ => none
  | .startMonitor items => some items

/-- The assets are as at the start, each call has the tasks of both legs of its arbitrages, and the
requests to monitor have been received in their order or wait in the channel. -/
structure Conserved (arbitrages : ℕ → Arbitrage D) (s : WorkerLoop C D) : Prop where
  assets : ∀ k, (s.arbitrages k).spot = (arbitrages k).spot ∧
    (s.arbitrages k).future = (arbitrages k).future
  tasks : ∀ call ∈ s.calls, call.tasks.Perm (call.items.flatMap (legTasks arbitrages))
  requests : s.sent.filterMap monitored =
    s.calls.map MonitorCall.items ++ s.channel.filterMap monitored

omit [DecimalArith D] [LinearOrder D] in
/-- Nothing has been received at the start. -/
theorem conserved_start : (start exchanges arbitrages : WorkerLoop C D).Conserved arbitrages where
  assets _ := ⟨rfl, rfl⟩
  tasks := nofun
  requests := rfl

/-- What the end of a task does. -/
theorem finish_eq_some {call i : ℕ} {result : Option (OrderBook D)}
    (hstep : s.finish call i result = some t) : ∃ running task, ∃ monitor : Monitor D,
      s.calls[call]? = some running ∧ running.tasks[i]? = some task ∧
      (⟨s.arbitrages task.arbitrage, [], fun _ => none⟩ : Monitor D).step ⟨task.symbol, result⟩ =
        some monitor ∧
      t = { s with
        arbitrages := Function.update s.arbitrages task.arbitrage monitor.arbitrage
        broadcast := s.broadcast ++ monitor.notifications.map fun sent => (task.arbitrage, sent)
        calls := s.calls.set call
          { running with tasks := running.tasks.eraseIdx i ++ [task] } } := by
  obtain ⟨running, hrunning, hrest⟩ := Option.bind_eq_some_iff.mp hstep
  obtain ⟨task, htask, hmap⟩ := Option.bind_eq_some_iff.mp hrest
  obtain ⟨monitor, hmonitor, rfl⟩ := Option.map_eq_some_iff.mp hmap
  exact ⟨running, task, monitor, hrunning, htask, hmonitor, rfl⟩

/-- A task that ends is started again. -/
theorem Conserved.finish (h : s.Conserved arbitrages) {call i : ℕ} {result : Option (OrderBook D)}
    (hstep : s.finish call i result = some t) : t.Conserved arbitrages := by
  obtain ⟨running, task, monitor, hrunning, htask, hmonitor, rfl⟩ := finish_eq_some hstep
  obtain ⟨hspot, hfuture⟩ := Monitor.step_assets hmonitor
  constructor
  case assets =>
    intro k
    by_cases hk : k = task.arbitrage
    · subst hk
      obtain ⟨hspot', hfuture'⟩ := h.assets task.arbitrage
      simp only [Function.update_self]
      exact ⟨hspot.trans hspot', hfuture.trans hfuture'⟩
    · simp only [Function.update_of_ne hk]
      exact h.assets k
  case tasks =>
    intro other hother
    rcases List.mem_or_eq_of_mem_set hother with hold | rfl
    · exact h.tasks other hold
    · obtain ⟨hi, rfl⟩ := List.getElem?_eq_some_iff.mp htask
      have hperm : (running.tasks.eraseIdx i ++ [running.tasks[i]]).Perm running.tasks :=
        List.perm_append_singleton _ _ |>.trans (List.getElem_cons_eraseIdx_perm hi)
      exact hperm.trans (h.tasks running (List.mem_of_getElem? hrunning))
  case requests =>
    obtain ⟨hcalls, hset, _⟩ := Projection.split_of_getElem? hrunning
    have hitems (tasks : List Reenter) :
        (s.calls.set call { running with tasks }).map MonitorCall.items =
          s.calls.map MonitorCall.items := by
      conv_rhs => rw [hcalls]
      rw [hset, List.map_append, List.map_append, List.map_cons, List.map_cons]
    rw [hitems]
    exact h.requests

/-- Every step keeps the tasks. -/
theorem Conserved.step (h : s.Conserved arbitrages) (hstep : s.step action = some t) :
    t.Conserved arbitrages := by
  cases action with
  | send request =>
    cases hstep
    refine ⟨h.assets, h.tasks, ?_⟩
    rw [List.filterMap_append, List.filterMap_append, h.requests, List.append_assoc]
  | recv =>
    simp only [WorkerLoop.step] at hstep
    split at hstep
    · cases hstep
    · rename_i request channel hchannel
      have hrequests := h.requests
      rw [hchannel] at hrequests
      cases request with
      | startArbitrage command =>
        cases hstep
        exact ⟨h.assets, h.tasks, hrequests⟩
      | startMonitor items =>
        obtain ⟨tasks, htasks, rfl⟩ := Option.map_eq_some_iff.mp hstep
        refine ⟨h.assets, fun call hcall => ?_, ?_⟩
        · rcases List.mem_append.mp hcall with hold | hnew
          · exact h.tasks call hold
          · rw [List.mem_singleton.mp hnew, startMonitor_eq_some htasks, legTasks_congr h.assets]
        · rw [hrequests, List.map_append, List.append_assoc]
          rfl
  | finish call i result => exact h.finish hstep

/-- No task of a worker is lost or doubled: each call has the two tasks of each of its arbitrages,
each task watches at the exchange of its leg, and the calls are those of the requests in the order
in which they were sent. -/
theorem worker_keeps_tasks {s : WorkerLoop C D}
    (hrun : GuardedRun.Reaches step (fun _ _ => True) (start exchanges arbitrages) s) :
    (∀ call ∈ s.calls, call.tasks.Perm (call.items.flatMap (legTasks arbitrages)) ∧
      ∀ task ∈ call.tasks, task.target =
        ((s.arbitrages task.arbitrage).leg (marketOf task.symbol)).exchange) ∧
      s.sent.filterMap monitored =
        s.calls.map MonitorCall.items ++ s.channel.filterMap monitored := by
  have hkept : s.Conserved arbitrages :=
    hrun.invariant conserved_start fun _ _ _ h _ hstep => h.step hstep
  refine ⟨fun call hcall => ⟨hkept.tasks call hcall, fun task htask => ?_⟩, hkept.requests⟩
  obtain ⟨item, _, hmem⟩ := List.mem_flatMap.mp ((hkept.tasks call hcall).mem_iff.mp htask)
  obtain ⟨rfl, htarget⟩ := target_of_mem hmem
  obtain ⟨hspot, hfuture⟩ := hkept.assets task.arbitrage
  rw [htarget]
  cases marketOf task.symbol with
  | spot => exact congrArg Asset.exchange hspot.symm
  | future => exact congrArg Asset.exchange hfuture.symm

/-- Arbitrages between two exchanges. -/
def crossedPair (k : ℕ) : Arbitrage ℚ :=
  ⟨⟨"BTC_USDT", "BTC", "USDT", .spot, if k = 0 then "Gate" else "Binance"⟩,
    ⟨"BTCUSDT", "BTC", "USDT", .future, "Binance"⟩, ArbitrageSnaphot.default⟩

/-- A request to monitor two arbitrages, after which the watches of two tasks fail. -/
def restartRun : List (WorkerAction Unit ℚ) :=
  [.send (.startMonitor [0, 1]), .recv, .finish 0 1 none, .finish 0 2 none]

/-- The tasks are started again. -/
theorem restartRun_keeps_tasks : ∃ s : WorkerLoop Unit ℚ,
    GuardedRun.exec step (start ["Gate", "Binance"] crossedPair) restartRun = some s ∧
      s.calls.map MonitorCall.items = [[0, 1]] ∧
      ∀ call ∈ s.calls, call.tasks.Perm (call.items.flatMap (legTasks crossedPair)) := by
  refine ⟨_, rfl, rfl, ?_⟩
  have hrun := GuardedRun.reaches_of_exec (GuardedRun.stepsSatisfy_of_forall
    (P := fun _ _ => True) fun _ _ _ => trivial)
    (rfl : GuardedRun.exec step (start ["Gate", "Binance"] crossedPair) restartRun = _)
  exact fun call hcall => ((worker_keeps_tasks hrun).1 call hcall).1

/-- What an action does to one arbitrage. -/
def ownAction (k : ℕ) (s : WorkerLoop C D) : WorkerAction C D → Option (MonitorAction D)
  | .finish call i result =>
    (s.calls[call]?).bind fun running => (running.tasks[i]?).bind fun task =>
      if task.arbitrage = k then some ⟨task.symbol, result⟩ else none
  | _ => none

/-- An arbitrage and its notifications are those of a monitor. -/
def Shows (k : ℕ) (s : WorkerLoop C D) (monitor : Monitor D) : Prop :=
  monitor.arbitrage = s.arbitrages k ∧
    monitor.notifications = (s.broadcast.filter fun sent => sent.1 = k).map Prod.snd

/-- The end of a task is a step of the monitor of its arbitrage, and of no other one. -/
theorem Shows.finish {k call i : ℕ} {result : Option (OrderBook D)} {monitor : Monitor D}
    (h : s.Shows k monitor) (hstep : s.finish call i result = some t) :
    (ownAction k s (.finish call i result) = none → t.Shows k monitor) ∧
      ∀ own, ownAction k s (.finish call i result) = some own →
        ∃ next, monitor.step own = some next ∧ t.Shows k next := by
  obtain ⟨running, task, stepped, hrunning, htask, hstepped, rfl⟩ := finish_eq_some hstep
  obtain ⟨harbitrage, hnotifications⟩ := h
  simp only [ownAction, hrunning, htask, Option.bind_some]
  by_cases hk : task.arbitrage = k
  · subst hk
    refine ⟨by simp, fun own hown => ?_⟩
    cases Option.some.inj ((if_pos rfl).symm.trans hown)
    obtain ⟨next, hnext, harbitrage', hsent⟩ :=
      Monitor.step_of_arbitrage harbitrage.symm rfl hstepped
    refine ⟨next, hnext, ?_, ?_⟩
    · dsimp only
      rw [harbitrage', Function.update_self]
    · rw [hsent, hnotifications, List.filter_append, List.map_append, List.filter_map]
      simp [Function.comp_def]
  · rw [if_neg hk]
    refine ⟨fun _ => ⟨?_, ?_⟩, nofun⟩
    · dsimp only
      rw [harbitrage, Function.update_of_ne (Ne.symm hk)]
    · rw [hnotifications, List.filter_append, List.map_append, List.filter_map]
      simp [Function.comp_def, hk]

/-- Every step of a worker is a step of the monitor of an arbitrage, or does not matter to it. -/
theorem Shows.step {k : ℕ} {monitor : Monitor D} (h : s.Shows k monitor)
    (hstep : s.step action = some t) :
    (ownAction k s action = none → t.Shows k monitor) ∧
      ∀ own, ownAction k s action = some own →
        ∃ next, monitor.step own = some next ∧ t.Shows k next := by
  cases action with
  | send request =>
    cases hstep
    exact ⟨fun _ => h, nofun⟩
  | recv =>
    refine ⟨fun _ => ?_, nofun⟩
    simp only [WorkerLoop.step] at hstep
    split at hstep
    · cases hstep
    · rename_i request channel hchannel
      cases request with
      | startArbitrage command =>
        cases hstep
        exact h
      | startMonitor items =>
        obtain ⟨tasks, _, rfl⟩ := Option.map_eq_some_iff.mp hstep
        exact h
  | finish call i result => exact h.finish hstep

/-- Every run of a worker is, for each arbitrage, a run of its monitor whose steps are the ends of
its tasks. Neither its snapshot nor its notifications depend on other arbitrages. -/
theorem worker_shows_monitor {actions : List (WorkerAction C D)}
    (hrun : GuardedRun.exec step (start exchanges arbitrages) actions = some s) (k : ℕ) :
    ∃ monitor, GuardedRun.exec Monitor.step (⟨arbitrages k, [], fun _ => none⟩ : Monitor D)
        (Projection.project step (ownAction k) (start exchanges arbitrages) actions) =
          some monitor ∧ s.Shows k monitor :=
  Projection.exec_project (R := Shows k)
    (fun _ _ _ own _ h hown hstep => (h.step hstep).2 own hown)
    (fun _ _ _ _ h hown hstep => (h.step hstep).1 hown) ⟨rfl, rfl⟩ hrun

/-- The first arbitrage shows the run of its one task that has ended. -/
theorem restartRun_shows_monitor : ∃ s : WorkerLoop Unit ℚ,
    GuardedRun.exec step (start ["Gate", "Binance"] crossedPair) restartRun = some s ∧
      ∃ monitor, GuardedRun.exec Monitor.step
        (⟨crossedPair 0, [], fun _ => none⟩ : Monitor ℚ) [⟨"BTC/USDT:USDT", none⟩] = some monitor ∧
        s.Shows 0 monitor := by
  refine ⟨_, rfl, ?_⟩
  exact worker_shows_monitor
    (rfl : GuardedRun.exec step (start ["Gate", "Binance"] crossedPair) restartRun = _) 0

end WorkerLoop

end Arbexpert.Worker
