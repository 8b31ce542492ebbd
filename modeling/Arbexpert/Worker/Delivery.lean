import Arbexpert.Foundation.GuardedRun
import Arbexpert.Worker.Router
import Mathlib.Algebra.BigOperators.Group.Finset.Piecewise

/-!
# Which worker gets an arbitrage

The workers have the ids below their number. The publishing run reduces what it draws
to such an id, a request does not, and a symbol keeps the id that was stored first. An
arbitrage that is published under a stored id without a channel is sent to nobody.
-/

namespace Arbexpert.Worker

open Arbexpert.Base

variable {C α : Type*}

/-- The arbitrages that a request asks to monitor. -/
def Request.items : Request C α → List α
  | .startArbitrage _ => []
  | .startMonitor items => items

/-- What the requests to a worker hold, all together. -/
def GlobalState.collected {β : Type*} (f : Request C α → List β) (s : GlobalState C α) (id : ℕ) :
    List β :=
  ((s.workerChannels.lookup id).getD []).flatMap f

/-- The arbitrages that a worker is asked to monitor. -/
def GlobalState.monitored (s : GlobalState C α) (id : ℕ) : List α := s.collected Request.items id

/-- The arbitrages that are published and about to be sent. -/
def CrossRun.inFlight : CrossRun α → List α
  | .sending _ items _ => items
  | _ => []

/-- The worker of the group that the publishing run works on. -/
def CrossRun.worker : CrossRun α → Option ℕ
  | .publishing workerId _ _ => some workerId
  | .sending workerId _ _ => some workerId
  | _ => none

namespace Server

/-- Every stored worker id has a channel, and every published arbitrage is in the channel
of exactly one worker, once, or about to be sent. -/
structure Routed [DecidableEq α] (s : Server C α) : Prop where
  registered : ∀ symbol id, s.symbolMap.lookup symbol = some id → id ∈ s.workerChannels
  delivered : ∀ x, s.arbitrages.count x =
    ∑ id ∈ s.workerChannels.keys, (s.monitored id).count x + s.cross.inFlight.count x

/-- A request that stores a worker for its symbol draws the id of a worker. -/
def DrawsWorker (cpus : NumCpus) (s : Server C α) : ServerAction C α → Prop
  | .startArbitrage _ path _ =>
    s.symbolMap.lookup (symbolOfPath path) = none → s.nextWorker < cpus.count
  | _ => True

/-- The channels are those of the workers, the publishing run has one of them, and it
starts when the flag is set. -/
structure Staffed (cpus : NumCpus) (s : Server C α) : Prop where
  channels : s.workerChannels.keys = Finset.range cpus.count
  worker : ∀ id, s.cross.worker = some id → id < cpus.count
  idle : s.started = false → s.cross = .idle

end Server

/-- After a number of starts the workers have the ids below that number. -/
theorem GlobalState.iterate_onWorkerStart {n : ℕ} (hn : n < 2 ^ 32) :
    ((GlobalState.onWorkerStart^[n] (GlobalState.new : GlobalState C α)).workerChannels.keys =
        Finset.range n) ∧
      (GlobalState.onWorkerStart^[n] (GlobalState.new : GlobalState C α)).lastId = n := by
  induction n with
  | zero => exact ⟨rfl, rfl⟩
  | succ n ih =>
    obtain ⟨hkeys, hlast⟩ := ih (by omega)
    rw [Function.iterate_succ_apply']
    constructor
    · rw [onWorkerStart, keys_insert, hlast, hkeys, Finset.range_add_one]
    · rw [onWorkerStart, hlast, fetchAdd, Nat.mod_eq_of_lt hn]

namespace GlobalState

variable {s : GlobalState C α}

/-- A worker that starts has no requests. -/
theorem collected_onWorkerStart {β : Type*} (f : Request C α → List β) (s : GlobalState C α)
    (id : ℕ) : s.onWorkerStart.collected f id = if id = s.lastId then [] else s.collected f id := by
  unfold collected onWorkerStart
  split
  · rename_i hid
    rw [hid, Finmap.lookup_insert]
    rfl
  · rename_i hid
    rw [Finmap.lookup_insert_of_ne _ hid]

/-- After a number of starts nothing is stored, published or sent. -/
theorem iterate_onWorkerStart_fresh {β : Type*} (n : ℕ) (f : Request C α → List β) :
    (onWorkerStart^[n] (new : GlobalState C α)).symbolMap = ∅ ∧
      (onWorkerStart^[n] (new : GlobalState C α)).arbitrages = [] ∧
      (onWorkerStart^[n] (new : GlobalState C α)).started = false ∧
      ∀ id, (onWorkerStart^[n] (new : GlobalState C α)).collected f id = [] := by
  induction n with
  | zero => exact ⟨rfl, rfl, rfl, fun _ => rfl⟩
  | succ n ih =>
    obtain ⟨hmap, harbitrages, hstarted, hcollected⟩ := ih
    rw [Function.iterate_succ_apply']
    refine ⟨hmap, harbitrages, hstarted, fun id => ?_⟩
    rw [collected_onWorkerStart, hcollected, ite_self]

/-- Routing changes nothing but the map and the counter. -/
theorem route_eq (s : GlobalState C α) (symbol : String) (draw : ℕ → ℕ) :
    (s.route symbol draw).1.workerChannels = s.workerChannels ∧
      (s.route symbol draw).1.arbitrages = s.arbitrages ∧
      (s.route symbol draw).1.started = s.started := by
  unfold route
  split <;> exact ⟨rfl, rfl, rfl⟩

/-- The worker of a routed symbol is stored. -/
theorem lookup_route (s : GlobalState C α) (symbol : String) (draw : ℕ → ℕ) :
    (s.route symbol draw).1.symbolMap.lookup symbol = some (s.route symbol draw).2 := by
  unfold route
  split
  · assumption
  · exact Finmap.lookup_insert _

/-- All stored ids have a property after routing exactly if they had it before, and a number that
is drawn has it. -/
theorem route_stored_iff (P : String → ℕ → Prop) (symbol : String) (draw : ℕ → ℕ) :
    (∀ other id, (s.route symbol draw).1.symbolMap.lookup other = some id → P other id) ↔
      (∀ other id, s.symbolMap.lookup other = some id → P other id) ∧
        (s.symbolMap.lookup symbol = none → P symbol (draw s.nextWorker)) := by
  unfold route
  cases hlookup : s.symbolMap.lookup symbol with
  | some id => exact (and_iff_left nofun).symm
  | none =>
    simp only [true_imp_iff]
    constructor
    · intro hall
      refine ⟨fun other id hother => hall other id ?_, hall symbol _ (Finmap.lookup_insert _)⟩
      have hne : other ≠ symbol := by
        rintro rfl
        rw [hlookup] at hother
        cases hother
      exact (Finmap.lookup_insert_of_ne _ hne).trans hother
    · rintro ⟨hall, hdraw⟩ other id hother
      by_cases heq : other = symbol
      · subst heq
        rw [Finmap.lookup_insert] at hother
        cases hother
        exact hdraw
      · rw [Finmap.lookup_insert_of_ne _ heq] at hother
        exact hall other id hother

/-- Every stored id stays the id of a worker exactly if a number that is drawn is one. -/
theorem route_registered_iff (workers : Finset ℕ)
    (h : ∀ symbol id, s.symbolMap.lookup symbol = some id → id ∈ workers) (symbol : String)
    (draw : ℕ → ℕ) :
    (∀ other id, (s.route symbol draw).1.symbolMap.lookup other = some id → id ∈ workers) ↔
      (s.symbolMap.lookup symbol = none → draw s.nextWorker ∈ workers) :=
  (route_stored_iff (fun _ id => id ∈ workers) symbol draw).trans (and_iff_right h)

/-- Sending changes nothing but a channel, and no channel is made. -/
theorem send_eq (s : GlobalState C α) (workerId : ℕ) (request : Request C α) :
    (s.send workerId request).1.workerChannels.keys = s.workerChannels.keys ∧
      (s.send workerId request).1.symbolMap = s.symbolMap ∧
      (s.send workerId request).1.arbitrages = s.arbitrages ∧
      (s.send workerId request).1.started = s.started := by
  unfold send
  split
  · exact ⟨rfl, rfl, rfl, rfl⟩
  · rename_i requests hlookup
    refine ⟨?_, rfl, rfl, rfl⟩
    rw [keys_insert, Finset.insert_eq_of_mem]
    exact Finmap.mem_keys.mpr (Finmap.mem_of_lookup_eq_some hlookup)

/-- Sending adds what the request holds to the collection of its worker, if the worker has a
channel. -/
theorem collected_send {β : Type*} (f : Request C α → List β) (s : GlobalState C α)
    (workerId : ℕ) (request : Request C α) (id : ℕ) :
    (s.send workerId request).1.collected f id =
      if id = workerId ∧ workerId ∈ s.workerChannels.keys then s.collected f id ++ f request
      else s.collected f id := by
  unfold send
  split
  · rename_i hlookup
    rw [if_neg]
    rintro ⟨_, hmem⟩
    exact Finmap.lookup_eq_none.mp hlookup (Finmap.mem_keys.mp hmem)
  · rename_i requests hlookup
    have hmem : workerId ∈ s.workerChannels.keys :=
      Finmap.mem_keys.mpr (Finmap.mem_of_lookup_eq_some hlookup)
    by_cases hid : id = workerId
    · subst hid
      simp [collected, hlookup, hmem]
    · simp [collected, hid, Finmap.lookup_insert_of_ne]

/-- Sending adds what the request holds to the collection of all workers, if the worker of the
request has a channel. -/
theorem sum_collected_send {β : Type*} (f : Request C α → List β) (s : GlobalState C α)
    (workerId : ℕ) (request : Request C α) :
    ∑ id ∈ (s.send workerId request).1.workerChannels.keys,
        ((s.send workerId request).1.collected f id : Multiset β) =
      ∑ id ∈ s.workerChannels.keys, (s.collected f id : Multiset β) +
        if workerId ∈ s.workerChannels.keys then (f request : Multiset β) else 0 := by
  have hcollected (id : ℕ) (hid : id ∈ s.workerChannels.keys) :
      ((s.send workerId request).1.collected f id : Multiset β) = s.collected f id +
        if id = workerId then (f request : Multiset β) else 0 := by
    rw [collected_send]
    by_cases heq : id = workerId
    · rw [if_pos ⟨heq, heq ▸ hid⟩, if_pos heq, Multiset.coe_add]
    · rw [if_neg fun hand => heq hand.1, if_neg heq, add_zero]
  rw [(send_eq s workerId request).1, Finset.sum_congr rfl hcollected, Finset.sum_add_distrib,
    Finset.sum_ite_eq']

/-- Sending to a worker adds the items of the request to what all workers monitor. -/
theorem sum_monitored_send [DecidableEq α] {workerId : ℕ}
    (hworker : workerId ∈ s.workerChannels.keys) (request : Request C α) (x : α) :
    ∑ id ∈ (s.send workerId request).1.workerChannels.keys,
        ((s.send workerId request).1.monitored id).count x =
      ∑ id ∈ s.workerChannels.keys, (s.monitored id).count x + request.items.count x := by
  have hsum := congrArg (Multiset.count x) (sum_collected_send Request.items s workerId request)
  simp only [if_pos hworker, Multiset.count_add, Multiset.count_sum', Multiset.coe_count] at hsum
  exact hsum

/-- A command asks to monitor nothing. -/
theorem monitored_send_command (s : GlobalState C α) (workerId : ℕ) (command : C) (id : ℕ) :
    (s.send workerId (.startArbitrage command)).1.monitored id = s.monitored id := by
  apply (collected_send Request.items s workerId (.startArbitrage command) id).trans
  rw [Request.items, List.append_nil, ite_self]
  rfl

end GlobalState

namespace Server

variable {cpus : NumCpus} {s t : Server C α} {action : ServerAction C α}

/-- No step makes or removes a channel. -/
theorem Advances.keys_eq (h : s.Advances cpus action t) :
    t.workerChannels.keys = s.workerChannels.keys := by
  cases h with
  | startArbitrage => exact congrArg Finmap.keys (s.toGlobalState.route_eq _ _).1
  | sendArbitrage => exact (s.toGlobalState.send_eq _ _).1
  | route => exact congrArg Finmap.keys (s.toGlobalState.route_eq _ _).1
  | send => exact (s.toGlobalState.send_eq _ _).1
  | _ => rfl

/-- The flag stays as it is in a critical section of the publishing run. -/
theorem Advances.started_eq (h : s.Advances cpus .crossNext t) : t.started = s.started := by
  cases h with
  | route => exact (s.toGlobalState.route_eq _ _).2.2
  | send => exact (s.toGlobalState.send_eq _ _).2.2.2
  | _ => rfl

/-- Only a publishing run that is under way has a next critical section. -/
theorem Advances.cross_ne_idle (h : s.Advances cpus .crossNext t) : s.cross ≠ .idle := by
  cases h <;> simp_all

/-- The server with all workers registered is staffed. -/
theorem staffed_start (cpus : NumCpus) : (start cpus : Server C α).Staffed cpus where
  channels := (GlobalState.iterate_onWorkerStart cpus.lt).1
  worker := nofun
  idle _ := rfl

/-- A worker is a number below that of the processors. -/
theorem Staffed.mem_iff (h : s.Staffed cpus) {id : ℕ} :
    id ∈ s.workerChannels.keys ↔ id < cpus.count := by
  rw [h.channels, Finset.mem_range]

variable [DecidableEq α]

/-- Nothing is stored and nothing published at the start. -/
theorem routed_start (cpus : NumCpus) : (start cpus : Server C α).Routed := by
  obtain ⟨hmap, harbitrages, _, hcollected⟩ :=
    GlobalState.iterate_onWorkerStart_fresh (C := C) (α := α) cpus.count Request.items
  have hmonitored (id : ℕ) : (GlobalState.onWorkerStart^[cpus.count] GlobalState.new :
      GlobalState C α).monitored id = [] := hcollected id
  refine ⟨fun symbol id hlookup => ?_, fun x => ?_⟩
  · simp [start, hmap] at hlookup
  · simp [start, harbitrages, hmonitored, CrossRun.inFlight]

/-- A request keeps the routing sound exactly if it draws the id of a worker, should it
draw. -/
theorem routed_startArbitrage_iff (hstaffed : s.Staffed cpus) (h : s.Routed) (i : ℕ)
    (path : String) (command : C) : (s.startArbitrage i path command).Routed ↔
      (s.symbolMap.lookup (symbolOfPath path) = none → s.nextWorker < cpus.count) := by
  obtain ⟨hchannels, harbitrages, _⟩ := s.toGlobalState.route_eq (symbolOfPath path) id
  have hiff := GlobalState.route_registered_iff s.workerChannels.keys
    (fun symbol id hlookup => Finmap.mem_keys.mpr (h.registered symbol id hlookup))
    (symbolOfPath path) id
  rw [id, hstaffed.mem_iff] at hiff
  rw [← hiff]
  constructor
  · intro ht symbol id hlookup
    have hmem := ht.registered symbol id hlookup
    exact Finmap.mem_keys.mpr (by simpa only [startArbitrage, hchannels] using hmem)
  · intro hall
    refine ⟨fun symbol id hlookup => ?_, fun x => ?_⟩
    · simpa only [startArbitrage, hchannels] using Finmap.mem_keys.mp (hall symbol id hlookup)
    · simpa only [startArbitrage, hchannels, harbitrages, GlobalState.monitored,
        GlobalState.collected] using h.delivered x

/-- Sending a command keeps the routing sound. -/
theorem Routed.sendArbitrage (h : s.Routed) (i : ℕ) (command : C) (workerId : ℕ) :
    (s.sendArbitrage i command workerId).Routed := by
  obtain ⟨hkeys, hmap, harbitrages, _⟩ :=
    s.toGlobalState.send_eq workerId (.startArbitrage command)
  refine ⟨fun symbol id hlookup => ?_, fun x => ?_⟩
  · simp only [Server.sendArbitrage, hmap] at hlookup
    simpa only [Server.sendArbitrage, ← Finmap.mem_keys, hkeys] using h.registered symbol id hlookup
  · simpa only [Server.sendArbitrage, hkeys, harbitrages, GlobalState.monitored_send_command]
      using h.delivered x

/-- A publishing run draws the id of a worker, should it draw. -/
theorem Routed.route_key (hstaffed : s.Staffed cpus) (h : s.Routed) (key : String) :
    ∀ symbol id, (s.route key fun n => n % cpus.count).1.symbolMap.lookup symbol = some id →
      id ∈ s.workerChannels.keys := by
  refine (GlobalState.route_registered_iff s.workerChannels.keys
    (fun symbol id hlookup => ?_) key fun n => n % cpus.count).mpr fun _ => ?_
  · exact Finmap.mem_keys.mpr (h.registered symbol id hlookup)
  · exact hstaffed.mem_iff.mpr (Nat.mod_lt _ cpus.pos)

/-- Each critical section of the publishing run keeps the routing sound. -/
theorem Routed.crossNext (hstaffed : s.Staffed cpus) (h : s.Routed)
    (hadvances : s.Advances cpus .crossNext t) : t.Routed := by
  cases hadvances with
  | finish hcross =>
    refine ⟨h.registered, fun x => ?_⟩
    simpa [hcross, CrossRun.inFlight] using h.delivered x
  | @route key items groups hcross =>
    obtain ⟨hchannels, harbitrages, _⟩ :=
      s.toGlobalState.route_eq key fun n => n % cpus.count
    have hall := h.route_key hstaffed key
    refine ⟨fun symbol id hlookup => ?_, fun x => ?_⟩
    · simpa only [hchannels] using Finmap.mem_keys.mp (hall symbol id hlookup)
    · simpa [hcross, hchannels, harbitrages, GlobalState.monitored, GlobalState.collected,
        CrossRun.inFlight] using h.delivered x
  | publish hcross =>
    refine ⟨h.registered, fun x => ?_⟩
    have hdelivered := h.delivered x
    simp only [hcross, CrossRun.inFlight, List.count_nil, Nat.add_zero] at hdelivered
    simp only [CrossRun.inFlight, List.count_append, hdelivered]
    rfl
  | @send workerId items groups hcross =>
    obtain ⟨hkeys, hmap, harbitrages, _⟩ :=
      s.toGlobalState.send_eq workerId (.startMonitor items)
    have hworker : workerId ∈ s.workerChannels.keys :=
      hstaffed.mem_iff.mpr (hstaffed.worker workerId (by rw [hcross]; rfl))
    refine ⟨fun symbol id hlookup => ?_, fun x => ?_⟩
    · simp only [hmap] at hlookup
      simpa only [← Finmap.mem_keys, hkeys] using h.registered symbol id hlookup
    · have hdelivered := h.delivered x
      simp only [hcross, CrossRun.inFlight] at hdelivered
      simp only [harbitrages, hdelivered, GlobalState.sum_monitored_send hworker, CrossRun.inFlight,
        List.count_nil, Nat.add_zero, Request.items]

/-- Every step has the workers of the server. -/
theorem Staffed.step (hstaffed : s.Staffed cpus) (h : s.Routed)
    (hadvances : s.Advances cpus action t) : t.Staffed cpus := by
  have hchannels := hadvances.keys_eq.trans hstaffed.channels
  have hstarted (hcross : s.cross ≠ .idle) : s.started ≠ false :=
    fun hfalse => hcross (hstaffed.idle hfalse)
  cases hadvances with
  | startArbitrage =>
    obtain ⟨_, _, hkept⟩ := s.toGlobalState.route_eq _ id
    exact ⟨hchannels, hstaffed.worker, fun hfalse => hstaffed.idle (hkept.symm.trans hfalse)⟩
  | sendArbitrage =>
    obtain ⟨_, _, _, hkept⟩ := s.toGlobalState.send_eq _ _
    exact ⟨hchannels, hstaffed.worker, fun hfalse => hstaffed.idle (hkept.symm.trans hfalse)⟩
  | ignore => exact hstaffed
  | begin => exact ⟨hchannels, nofun, nofun⟩
  | finish => exact ⟨hchannels, nofun, fun _ => rfl⟩
  | @route key items groups hcross =>
    obtain ⟨_, _, hkept⟩ := s.toGlobalState.route_eq key fun n => n % cpus.count
    refine ⟨hchannels, fun id hid => ?_, fun hfalse => ?_⟩
    · cases hid
      exact hstaffed.mem_iff.mp
        (h.route_key hstaffed key key _ (GlobalState.lookup_route _ _ _))
    · exact absurd (hkept.symm.trans hfalse) (hstarted (by simp [hcross]))
  | @publish workerId items groups hcross =>
    refine ⟨hchannels, fun id hid => ?_, fun hfalse => ?_⟩
    · cases hid
      exact hstaffed.worker workerId (by rw [hcross]; rfl)
    · exact absurd hfalse (hstarted (by simp [hcross]))
  | @send workerId items groups hcross =>
    obtain ⟨_, _, _, hkept⟩ := s.toGlobalState.send_eq workerId (.startMonitor items)
    refine ⟨hchannels, nofun, fun hfalse => ?_⟩
    exact absurd (hkept.symm.trans hfalse) (hstarted (by simp [hcross]))

/-- A step keeps the routing sound exactly if a request draws the id of a worker, should
it draw. -/
theorem routed_step_iff (hstaffed : s.Staffed cpus) (h : s.Routed)
    (hadvances : s.Advances cpus action t) : t.Routed ↔ s.DrawsWorker cpus action := by
  cases action with
  | startArbitrage i path command =>
    cases hadvances
    exact routed_startArbitrage_iff hstaffed h i path command
  | sendArbitrage i =>
    cases hadvances
    exact iff_of_true (h.sendArbitrage i _ _) trivial
  | crossAssets groups =>
    apply iff_of_true _ trivial
    cases hadvances with
    | ignore => exact h
    | begin hstarted =>
      refine ⟨h.registered, fun x => ?_⟩
      have hdelivered := h.delivered x
      rw [hstaffed.idle hstarted] at hdelivered
      exact hdelivered
  | crossNext => exact iff_of_true (h.crossNext hstaffed hadvances) trivial

/-- In a run of any requests and publishing runs, however their critical sections are
interleaved, every state has a channel for each stored id, and each published arbitrage
in one request to one worker or about to be sent, exactly if no request for a symbol
without a stored id draws a number that is not below that of the processors. -/
theorem deliveries_routed_iff (cpus : NumCpus) (actions : List (ServerAction C α)) :
    GuardedRun.StatesSatisfy (step cpus) Routed (start cpus) actions ↔
      GuardedRun.StepsSatisfy (step cpus) (DrawsWorker cpus) (start cpus) actions :=
  GuardedRun.statesSatisfy_iff_stepsSatisfy (I := fun s => s.Staffed cpus)
    (fun _ _ _ hstaffed h hstep => hstaffed.step h (advances_of_step hstep))
    (fun _ _ _ hstaffed h hstep => routed_step_iff hstaffed h (advances_of_step hstep))
    (staffed_start cpus)
    (routed_start cpus)

/-- With one worker the second request stores the id 1, which has no channel; then the
arbitrage of its symbol is published and sent to nobody. -/
theorem second_request_loses_arbitrage :
    (GuardedRun.exec (step ⟨1, by decide, by decide⟩) (start ⟨1, by decide, by decide⟩)
        [.startArbitrage 0 "ETH-USDT" (), .startArbitrage 1 "BTC-USDT" (),
          .crossAssets [("BTC/USDT", [7])], .crossNext, .crossNext, .crossNext]).map
      (fun s => (s.symbolMap.lookup "BTC/USDT", decide (1 ∈ s.workerChannels), s.arbitrages,
        s.monitored 0, s.cross.inFlight)) = some (some 1, false, [7], [], ([] : List ℕ)) := by
  rfl

end Server

end Arbexpert.Worker
