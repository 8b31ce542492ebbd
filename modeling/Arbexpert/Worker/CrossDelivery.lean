import Arbexpert.Worker.CrossAssets
import Arbexpert.Worker.Delivery
import Arbexpert.Worker.Legs

/-!
# How the groups of a publishing run are delivered

The run works through its groups one after the other. A group is published whatever its worker is,
and it is sent when the worker that is stored for its symbol has a channel. A stored worker never
changes, so in the end the groups that were sent are those whose symbol has a worker with a channel.
-/

namespace Arbexpert.Worker

open Arbexpert.Base

variable {C α : Type*}

/-- The group that a request asks to monitor. -/
def Request.batch : Request C α → List (List α)
  | .startArbitrage _ => []
  | .startMonitor items => [items]

/-- The groups that were sent, over all channels. -/
def GlobalState.sent (s : GlobalState C α) : Multiset (List α) :=
  ∑ id ∈ s.workerChannels.keys, (s.collected Request.batch id : Multiset (List α))

/-- Where a publishing run stands in its groups: `done` were worked through, and the worker of the
group in work is stored under its key. -/
def CrossRun.Continues (workers : HashMap String ℕ) (groups done : List (String × List α)) :
    CrossRun α → Prop
  | .idle => groups = done
  | .routing rest => groups = done ++ rest
  | .publishing workerId items rest =>
    ∃ key, workers.lookup key = some workerId ∧ groups = done ++ (key, items) :: rest
  | .sending workerId items rest =>
    ∃ key, workers.lookup key = some workerId ∧ groups = done ++ (key, items) :: rest

/-- The run stands where it stood when no stored worker has changed. -/
theorem CrossRun.Continues.mono {groups done : List (String × List α)} {run : CrossRun α}
    {workers known : HashMap String ℕ}
    (h : run.Continues workers groups done)
    (hworkers : ∀ symbol id, workers.lookup symbol = some id → known.lookup symbol = some id) :
    run.Continues known groups done := by
  cases run with
  | idle => exact h
  | routing rest => exact h
  | publishing workerId items rest =>
    obtain ⟨key, hkey, hgroups⟩ := h
    exact ⟨key, hworkers key workerId hkey, hgroups⟩
  | sending workerId items rest =>
    obtain ⟨key, hkey, hgroups⟩ := h
    exact ⟨key, hworkers key workerId hkey, hgroups⟩

namespace Server

/-- The worker that is stored for a symbol is one of the server. -/
def Serves (cpus : NumCpus) (s : Server C α) (symbol : String) : Bool :=
  (s.symbolMap.lookup symbol).any fun id => id < cpus.count

/-- The progress of a publishing run: the groups that were worked through are published, and those
with a worker were sent. -/
structure Progress (cpus : NumCpus) (s : Server C α) (groups done : List (String × List α)) :
    Prop where
  cross : s.cross.Continues s.symbolMap groups done
  published : s.arbitrages = done.flatMap Prod.snd ++ s.cross.inFlight
  stored : ∀ group ∈ done, (s.symbolMap.lookup group.1).isSome
  sent : s.sent = ((done.filter fun group => s.Serves cpus group.1).map Prod.snd :
    Multiset (List α))

/-- A request for one of the symbols that stores a worker draws the id of a worker. -/
def DrawsWorkerFor (symbols : Finset String) (cpus : NumCpus) (s : Server C α) :
    ServerAction C α → Prop
  | .startArbitrage _ path _ => symbolOfPath path ∈ symbols →
    s.symbolMap.lookup (symbolOfPath path) = none → s.nextWorker < cpus.count
  | _ => True

/-- The workers that are stored for some symbols are workers of the server. -/
def WorkersKnown (symbols : Finset String) (cpus : NumCpus) (s : Server C α) : Prop :=
  ∀ symbol ∈ symbols, ∀ id, s.symbolMap.lookup symbol = some id → id < cpus.count

end Server

namespace GlobalState

variable {s : GlobalState C α}

/-- Routing a symbol changes no stored worker. -/
theorem lookup_route_of_some {other : String} {id : ℕ}
    (hother : s.symbolMap.lookup other = some id) (symbol : String) (draw : ℕ → ℕ) :
    (s.route symbol draw).1.symbolMap.lookup other = some id := by
  unfold route
  split
  · exact hother
  · rename_i hnone
    have hne : other ≠ symbol := by
      rintro rfl
      rw [hnone] at hother
      cases hother
    exact (Finmap.lookup_insert_of_ne _ hne).trans hother

/-- Routing sends nothing. -/
theorem sent_route (s : GlobalState C α) (symbol : String) (draw : ℕ → ℕ) :
    (s.route symbol draw).1.sent = s.sent := by
  unfold sent collected
  rw [(s.route_eq symbol draw).1]

/-- The group of a request is sent if its worker has a channel. -/
theorem sent_send (s : GlobalState C α) (workerId : ℕ) (request : Request C α) :
    (s.send workerId request).1.sent = s.sent +
      if workerId ∈ s.workerChannels.keys then (request.batch : Multiset (List α)) else 0 :=
  sum_collected_send Request.batch s workerId request

/-- A command sends no group. -/
theorem sent_send_command (s : GlobalState C α) (workerId : ℕ) (command : C) :
    (s.send workerId (.startArbitrage command)).1.sent = s.sent := by
  rw [sent_send, Request.batch, Multiset.coe_nil, ite_self, add_zero]

end GlobalState

namespace Server

variable {cpus : NumCpus} {s t : Server C α} {action : ServerAction C α}
  {groups done : List (String × List α)}

/-- The channels of the server are those of its workers. -/
def Channels (cpus : NumCpus) (s : Server C α) : Prop :=
  s.workerChannels.keys = Finset.range cpus.count

/-- Stored workers that stay, and the same requests in the channels, keep what was sent. -/
theorem Progress.of_workers (h : s.Progress cpus groups done)
    (hworkers : ∀ symbol id, s.symbolMap.lookup symbol = some id →
      t.symbolMap.lookup symbol = some id)
    (hsent : t.sent = s.sent) (hcross : t.cross.Continues t.symbolMap groups done)
    (hpublished : t.arbitrages = done.flatMap Prod.snd ++ t.cross.inFlight) :
    t.Progress cpus groups done where
  cross := hcross
  published := hpublished
  stored group hgroup := by
    obtain ⟨id, hid⟩ := Option.isSome_iff_exists.mp (h.stored group hgroup)
    rw [hworkers _ _ hid]
    rfl
  sent := by
    rw [hsent, h.sent]
    congr 2
    refine List.filter_congr fun group hgroup => ?_
    obtain ⟨id, hid⟩ := Option.isSome_iff_exists.mp (h.stored group hgroup)
    rw [Serves, Serves, hid, hworkers _ _ hid]

/-- A step outside of the publishing run keeps its progress. -/
theorem Progress.mono (h : s.Progress cpus groups done)
    (hworkers : ∀ symbol id, s.symbolMap.lookup symbol = some id →
      t.symbolMap.lookup symbol = some id)
    (harbitrages : t.arbitrages = s.arbitrages) (hsent : t.sent = s.sent)
    (hcross : t.cross = s.cross) : t.Progress cpus groups done := by
  apply h.of_workers hworkers hsent
  · rw [hcross]
    exact h.cross.mono hworkers
  · rw [harbitrages, hcross, h.published]

/-- A request changes no progress: it stores a worker for a new symbol only. -/
theorem Progress.startArbitrage (h : s.Progress cpus groups done) (i : ℕ) (path : String)
    (command : C) : (s.startArbitrage i path command).Progress cpus groups done :=
  h.mono (fun _ _ hid => GlobalState.lookup_route_of_some hid _ _)
    (s.toGlobalState.route_eq _ _).2.1 (GlobalState.sent_route _ _ _) rfl

/-- Sending a command changes no progress. -/
theorem Progress.sendArbitrage (h : s.Progress cpus groups done) (i : ℕ) (command : C)
    (workerId : ℕ) : (s.sendArbitrage i command workerId).Progress cpus groups done := by
  obtain ⟨_, hmap, harbitrages, _⟩ := s.toGlobalState.send_eq workerId (.startArbitrage command)
  refine h.mono (fun _ _ hid => ?_) harbitrages (GlobalState.sent_send_command _ _ _) rfl
  simpa only [Server.sendArbitrage, hmap] using hid

/-- The group in work is sent when its worker has a channel, and the run goes on with the rest. -/
theorem Progress.send (hchannels : s.Channels cpus) (h : s.Progress cpus groups done)
    {workerId : ℕ} {items : List α} {rest : List (String × List α)}
    (hcross : s.cross = .sending workerId items rest) :
    ∃ key, Progress cpus { s with
      toGlobalState := (s.send workerId (.startMonitor items)).1
      cross := .routing rest } groups (done ++ [(key, items)]) := by
  have hcontinues := h.cross
  have hpublished := h.published
  rw [hcross] at hcontinues hpublished
  obtain ⟨key, hkey, hgroups⟩ := hcontinues
  obtain ⟨_, hmap, harbitrages, _⟩ := s.toGlobalState.send_eq workerId (.startMonitor items)
  have hserves (symbol : String) : Serves cpus { s with
      toGlobalState := (s.send workerId (.startMonitor items)).1
      cross := .routing rest } symbol = s.Serves cpus symbol := by
    simp only [Serves, hmap]
  have hmem : workerId ∈ s.workerChannels.keys ↔ s.Serves cpus key = true := by
    rw [show s.workerChannels.keys = _ from hchannels, Finset.mem_range, Serves, hkey]
    simp
  refine ⟨key, ?_, ?_, fun group hgroup => ?_, ?_⟩
  · simpa [CrossRun.Continues] using hgroups
  · simp [harbitrages, hpublished, CrossRun.inFlight]
  · rw [hmap]
    rcases List.mem_append.mp hgroup with hold | hnew
    · exact h.stored group hold
    · cases List.mem_singleton.mp hnew
      rw [hkey]
      rfl
  · apply (GlobalState.sent_send _ _ _).trans
    simp only [hserves]
    rw [show s.toGlobalState.sent = _ from h.sent, List.filter_append, List.map_append,
      ← Multiset.coe_add]
    congr 1
    by_cases hserved : s.Serves cpus key = true
    · simp [hmem.mpr hserved, hserved, Request.batch]
    · simp [hmem.not.mpr hserved, hserved]

/-- Each critical section of the publishing run makes progress. -/
theorem Progress.crossNext (hchannels : s.Channels cpus) (h : s.Progress cpus groups done)
    (hadvances : s.Advances cpus .crossNext t) : ∃ done, t.Progress cpus groups done := by
  have hcontinues := h.cross
  have hpublished := h.published
  cases hadvances with
  | finish hcross =>
    rw [hcross] at hcontinues hpublished
    exact ⟨done, h.of_workers (fun _ _ hid => hid) rfl (hcontinues.trans (List.append_nil _))
      hpublished⟩
  | @route key items rest hcross =>
    rw [hcross] at hcontinues hpublished
    refine ⟨done, h.of_workers (fun _ _ hid => GlobalState.lookup_route_of_some hid _ _)
      (GlobalState.sent_route _ _ _) ⟨key, GlobalState.lookup_route _ _ _, hcontinues⟩ ?_⟩
    exact (s.toGlobalState.route_eq key _).2.1.trans hpublished
  | publish hcross =>
    rw [hcross] at hcontinues hpublished
    refine ⟨done, h.of_workers (fun _ _ hid => hid) rfl hcontinues ?_⟩
    simp [hpublished, CrossRun.inFlight]
  | send hcross =>
    obtain ⟨key, hsend⟩ := h.send hchannels hcross
    exact ⟨_, hsend⟩

/-- Nothing was published or sent before a publishing run has started; afterwards one run makes
progress in its groups. -/
structure Publishes (cpus : NumCpus) (allowed : List (String × List α) → Prop)
    (s : Server C α) : Prop where
  channels : s.Channels cpus
  fresh : s.started = false → s.cross = .idle ∧ s.arbitrages = [] ∧ s.sent = 0
  progress : s.started = true → ∃ groups done, allowed groups ∧ s.Progress cpus groups done

variable {allowed : List (String × List α) → Prop}

/-- A step that leaves the flag, the publishing run and its progress alone. -/
theorem Publishes.mono (h : s.Publishes cpus allowed) (hchannels : t.Channels cpus)
    (hstarted : t.started = s.started) (hcross : t.cross = s.cross)
    (harbitrages : t.arbitrages = s.arbitrages) (hsent : t.sent = s.sent)
    (hprogress : ∀ groups done, s.Progress cpus groups done → t.Progress cpus groups done) :
    t.Publishes cpus allowed where
  channels := hchannels
  fresh hfalse := by
    rw [hcross, harbitrages, hsent]
    exact h.fresh (hstarted.symm.trans hfalse)
  progress htrue := by
    obtain ⟨groups, done, hallowed, hdone⟩ := h.progress (hstarted.symm.trans htrue)
    exact ⟨groups, done, hallowed, hprogress groups done hdone⟩

/-- Every step keeps the account of the publishing run. -/
theorem Publishes.step (h : s.Publishes cpus allowed)
    (hallowed : ∀ groups, action = .crossAssets groups → allowed groups)
    (hadvances : s.Advances cpus action t) : t.Publishes cpus allowed := by
  have hchannels : t.Channels cpus := hadvances.keys_eq.trans h.channels
  cases action with
  | startArbitrage i path command =>
    cases hadvances
    obtain ⟨_, harbitrages, hstarted⟩ := s.toGlobalState.route_eq (symbolOfPath path) id
    exact h.mono hchannels hstarted rfl harbitrages (GlobalState.sent_route _ _ _)
      fun _ _ hdone => hdone.startArbitrage i path command
  | sendArbitrage i =>
    cases hadvances with
    | @sendArbitrage _ command workerId _ =>
      obtain ⟨_, _, harbitrages, hstarted⟩ :=
        s.toGlobalState.send_eq workerId (.startArbitrage command)
      exact h.mono hchannels hstarted rfl harbitrages (GlobalState.sent_send_command _ _ _)
        fun _ _ hdone => hdone.sendArbitrage i command workerId
  | crossAssets groups =>
    cases hadvances with
    | ignore => exact h
    | begin hstarted =>
      obtain ⟨_, harbitrages, hsent⟩ := h.fresh hstarted
      refine ⟨hchannels, nofun, fun _ => ⟨groups, [], hallowed groups rfl, ?_⟩⟩
      exact ⟨rfl, harbitrages, fun _ hmem => absurd hmem List.not_mem_nil, hsent⟩
  | crossNext =>
    have hstarted : s.started = true := by
      by_contra hfalse
      exact hadvances.cross_ne_idle (h.fresh (by simpa using hfalse)).1
    obtain ⟨groups, done, hgroups, hdone⟩ := h.progress hstarted
    obtain ⟨next, hnext⟩ := hdone.crossNext h.channels hadvances
    refine ⟨hchannels, fun hfalse => ?_, fun _ => ⟨groups, next, hgroups, hnext⟩⟩
    rw [hadvances.started_eq, hstarted] at hfalse
    cases hfalse

/-- The server has published nothing when its workers have registered. -/
theorem publishes_start (cpus : NumCpus) : (start cpus : Server C α).Publishes cpus allowed := by
  obtain ⟨_, harbitrages, hstarted, hcollected⟩ :=
    GlobalState.iterate_onWorkerStart_fresh (C := C) cpus.count (Request.batch (α := α))
  refine ⟨(GlobalState.iterate_onWorkerStart cpus.lt).1, fun _ => ⟨rfl, harbitrages, ?_⟩,
    fun htrue => ?_⟩
  · exact Finset.sum_eq_zero fun id _ => congrArg _ (hcollected id)
  · exact absurd (hstarted.symm.trans htrue) Bool.false_ne_true

/-- When the publishing run has ended, its groups were published in their order, and those whose
symbol has a worker were sent, each in one request. -/
theorem exists_groups_of_run {actions : List (ServerAction C α)}
    (hallowed : ∀ groups, .crossAssets groups ∈ actions → allowed groups)
    (hrun : GuardedRun.exec (step cpus) (start cpus) actions = some s)
    (hstarted : s.started = true) (hidle : s.cross = .idle) :
    ∃ groups, allowed groups ∧ s.arbitrages = groups.flatMap Prod.snd ∧
      (∀ group ∈ groups, (s.symbolMap.lookup group.1).isSome) ∧
      s.sent = ((groups.filter fun group => s.Serves cpus group.1).map Prod.snd :
        Multiset (List α)) := by
  have hguard : GuardedRun.StepsSatisfy (step cpus)
      (fun _ action => ∀ groups, action = .crossAssets groups → allowed groups)
      (start cpus) actions :=
    GuardedRun.stepsSatisfy_of_forall fun action hmem _ groups haction =>
      hallowed groups (haction ▸ hmem)
  have hpublishes : s.Publishes cpus allowed :=
    (GuardedRun.reaches_of_exec hguard hrun).invariant (publishes_start cpus)
      fun _ _ _ h hgroups hstep => h.step hgroups (advances_of_step hstep)
  obtain ⟨groups, done, hgroups, hprogress⟩ := hpublishes.progress hstarted
  obtain ⟨hcross, hpublished, hstored, hsent⟩ := hprogress
  rw [hidle] at hcross hpublished
  cases hcross
  exact ⟨groups, hgroups, hpublished.trans (List.append_nil _), hstored, hsent⟩

/-- The workers of some symbols are known after a step exactly if they were before and a request
for one of the symbols draws the id of a worker, should it draw. -/
theorem workersKnown_step_iff {symbols : Finset String} (hadvances : s.Advances cpus action t) :
    t.WorkersKnown symbols cpus ↔
      s.WorkersKnown symbols cpus ∧ s.DrawsWorkerFor symbols cpus action := by
  have hroute (symbol : String) (draw : ℕ → ℕ) :
      (∀ other ∈ symbols, ∀ id, (s.route symbol draw).1.symbolMap.lookup other = some id →
        id < cpus.count) ↔ s.WorkersKnown symbols cpus ∧ (symbol ∈ symbols →
          s.symbolMap.lookup symbol = none → draw s.nextWorker < cpus.count) := by
    have hiff := s.toGlobalState.route_stored_iff
      (fun other id => other ∈ symbols → id < cpus.count) symbol draw
    constructor
    · intro h
      obtain ⟨hknown, hdraws⟩ := hiff.mp fun other id hid hother => h other hother id hid
      exact ⟨fun other hother id hid => hknown other id hid hother,
        fun hmem hnone => hdraws hnone hmem⟩
    · intro ⟨hknown, hdraws⟩ other hother id hid
      exact hiff.mpr ⟨fun other id hid hother => hknown other hother id hid,
        fun hnone hmem => hdraws hmem hnone⟩ other id hid hother
  cases hadvances with
  | @startArbitrage i path command _ => exact hroute (symbolOfPath path) id
  | @sendArbitrage i command workerId _ =>
    have hmap := (s.toGlobalState.send_eq workerId (.startArbitrage command)).2.1
    simp only [WorkersKnown, Server.sendArbitrage, hmap, DrawsWorkerFor, and_true]
  | @route key items rest _ =>
    refine (hroute key fun n => n % cpus.count).trans (and_congr_right fun _ => ?_)
    exact iff_of_true (fun _ _ => Nat.mod_lt _ cpus.pos) trivial
  | @send workerId items rest _ =>
    have hmap := (s.toGlobalState.send_eq workerId (.startMonitor items)).2.1
    simp only [WorkersKnown, hmap, DrawsWorkerFor, and_true]
  | _ => exact (and_iff_left trivial).symm

/-- The server knows no worker before the first request. -/
theorem workersKnown_start (symbols : Finset String) (cpus : NumCpus) :
    (start cpus : Server C α).WorkersKnown symbols cpus := by
  have hmap := (GlobalState.iterate_onWorkerStart_fresh (C := C) (α := α) cpus.count
    Request.items).1
  intro symbol _ id hid
  rw [show (start cpus : Server C α).symbolMap = ∅ from hmap] at hid
  cases hid

end Server

variable {D : Type*} [DecimalArith D]

/-- The arbitrages of the cross product with one spot symbol, in the order in which they are made.
-/
def crossGroup (exchanges : List ListedExchange) (symbol : String) : List (Arbitrage D) :=
  (Grouping.group (fun pair => pair.1.symbol) (crossPairs exchanges) symbol).map fun pair =>
    Arbitrage.new pair.1 pair.2

/-- Groups that a loop over a map of shared lists visits, in some order. -/
def Iterates (map : HashMap String (Arc (List α))) (groups : List (String × List α)) : Prop :=
  (groups : Multiset (String × List α)) = map.entries.map fun entry => (entry.1, entry.2.value)

/-- A publishing run visits the groups of the cross product. -/
def IteratesCross (exchanges : List ListedExchange) (groups : List (String × List (Arbitrage D))) :
    Prop :=
  ∃ map, crossArbitrages exchanges = some map ∧ Iterates map groups

/-- The groups that are visited are those of the spot symbols, each taken once. -/
theorem IteratesCross.coe_eq {exchanges : List ListedExchange}
    {groups : List (String × List (Arbitrage D))} (h : IteratesCross exchanges groups) :
    (groups : Multiset (String × List (Arbitrage D))) =
      (spotSymbols exchanges).val.map fun symbol => (symbol, crossGroup exchanges symbol) := by
  obtain ⟨map, hmap, hgroups⟩ := h
  obtain ⟨_, hcross, hholds⟩ := exists_crossArbitrages (D := D) exchanges
  cases Option.some.inj (hmap.symm.trans hcross)
  have hkeys : map.keys = spotSymbols exchanges := by
    ext symbol
    rw [hholds.mem_keys, spotSymbols, List.mem_toFinset, List.mem_map]
    exact exists_congr fun pair => and_congr_left' (perm_crossPairs exchanges).mem_iff
  rw [hgroups, hholds.entries, hkeys, Multiset.map_map]
  rfl

/-- The groups that are visited are found again from their keys. -/
theorem IteratesCross.eq_map {exchanges : List ListedExchange}
    {groups : List (String × List (Arbitrage D))} (h : IteratesCross exchanges groups) :
    groups = (groups.map Prod.fst).map fun symbol => (symbol, crossGroup exchanges symbol) := by
  have hgroup : ∀ group ∈ groups, group = (group.1, crossGroup exchanges group.1) := by
    intro group hmem
    rw [← Multiset.mem_coe, h.coe_eq, Multiset.mem_map] at hmem
    obtain ⟨symbol, _, rfl⟩ := hmem
    rfl
  rw [List.map_map]
  conv_lhs => rw [← List.map_id groups]
  exact List.map_congr_left hgroup

/-- The keys of the groups that are visited are the spot symbols. -/
theorem IteratesCross.coe_keys {exchanges : List ListedExchange}
    {groups : List (String × List (Arbitrage D))} (h : IteratesCross exchanges groups) :
    ((groups.map Prod.fst : List String) : Multiset String) = (spotSymbols exchanges).val := by
  rw [← Multiset.map_coe, h.coe_eq, Multiset.map_map]
  exact Multiset.map_id _

/-- A symbol is the key of a group that is visited exactly if it is a spot symbol. -/
theorem IteratesCross.mem_keys {exchanges : List ListedExchange}
    {groups : List (String × List (Arbitrage D))} (h : IteratesCross exchanges groups)
    {symbol : String} : symbol ∈ groups.map Prod.fst ↔ symbol ∈ spotSymbols exchanges := by
  rw [← Multiset.mem_coe, h.coe_keys, Finset.mem_val]

/-- No two groups that are visited have the same key. -/
theorem IteratesCross.nodup_keys {exchanges : List ListedExchange}
    {groups : List (String × List (Arbitrage D))} (h : IteratesCross exchanges groups) :
    (groups.map Prod.fst).Nodup := by
  rw [← Multiset.coe_nodup, h.coe_keys]
  exact (spotSymbols exchanges).nodup

/-- The groups that are visited make up the pairs of the cross product. -/
theorem IteratesCross.flatMap_eq {exchanges : List ListedExchange}
    {groups : List (String × List (Arbitrage D))} (h : IteratesCross exchanges groups) :
    groups.flatMap Prod.snd = ((groups.map Prod.fst).flatMap
      (Grouping.group (fun pair => pair.1.symbol) (crossPairs exchanges))).map fun pair =>
        Arbitrage.new pair.1 pair.2 := by
  conv_lhs => rw [h.eq_map]
  rw [List.flatMap_map, List.map_flatMap]
  rfl

/-- The arbitrages of one spot symbol among those of the groups are the group of the symbol. -/
theorem IteratesCross.filter_flatMap {exchanges : List ListedExchange}
    {groups : List (String × List (Arbitrage D))} (h : IteratesCross exchanges groups)
    {symbol : String} (hsymbol : symbol ∈ spotSymbols exchanges) :
    (groups.flatMap Prod.snd).filter (fun arbitrage => arbitrage.spot.symbol = symbol) =
      crossGroup exchanges symbol := by
  rw [h.flatMap_eq, List.filter_map]
  exact congrArg _ (Grouping.group_flatMap_group h.nodup_keys (h.mem_keys.mpr hsymbol))

/-- The groups that are visited hold each pair of the cross product once. -/
theorem IteratesCross.perm_crossProduct {exchanges : List ListedExchange}
    {groups : List (String × List (Arbitrage D))} (h : IteratesCross exchanges groups) :
    (groups.flatMap Prod.snd).Perm (crossProduct exchanges) := by
  have hgroups : ((groups.map Prod.fst).flatMap (Grouping.group (fun pair => pair.1.symbol)
      (crossPairs exchanges))).Perm (crossPairs exchanges) := by
    refine Grouping.perm_flatMap_group h.nodup_keys fun pair hpair => h.mem_keys.mpr ?_
    exact List.mem_toFinset.mpr
      (List.mem_map_of_mem ((perm_crossPairs exchanges).mem_iff.mp hpair))
  rw [h.flatMap_eq]
  exact (hgroups.map _).trans ((perm_crossPairs exchanges).map _)

/-- The publishing run has crossed the assets of all exchanges: the shared lists were only extended
by their one owner, each pair of the cross product was published once and nothing else was, and
the arbitrages of each spot symbol were sent in one request of their own. -/
structure Server.CrossComplete (exchanges : List ListedExchange) (s : Server C (Arbitrage D)) :
    Prop where
  unwraps : (crossArbitrages exchanges : Option (HashMap String (Arc (List (Arbitrage D))))).isSome
  published : s.arbitrages.Perm (crossProduct exchanges)
  together : s.sent = (spotSymbols exchanges).val.map fun symbol =>
    s.arbitrages.filter fun arbitrage => arbitrage.spot.symbol = symbol

/-- When the publishing run has ended, it has crossed the assets of all exchanges exactly if the
workers stored for their spot symbols exist. -/
theorem Server.crossComplete_iff_workersKnown {cpus : NumCpus} {exchanges : List ListedExchange}
    {s : Server C (Arbitrage D)} {groups : List (String × List (Arbitrage D))}
    (hgroups : IteratesCross exchanges groups)
    (harbitrages : s.arbitrages = groups.flatMap Prod.snd)
    (hstored : ∀ group ∈ groups, (s.symbolMap.lookup group.1).isSome)
    (hsent : s.sent = ((groups.filter fun group => s.Serves cpus group.1).map Prod.snd :
      Multiset (List (Arbitrage D)))) :
    s.CrossComplete exchanges ↔ s.WorkersKnown (spotSymbols exchanges) cpus := by
  have hpublished : s.arbitrages.Perm (crossProduct exchanges) :=
    harbitrages ▸ hgroups.perm_crossProduct
  have hlists : ((groups.map Prod.snd : List (List (Arbitrage D))) :
      Multiset (List (Arbitrage D))) = (spotSymbols exchanges).val.map fun symbol =>
        s.arbitrages.filter fun arbitrage => arbitrage.spot.symbol = symbol := by
    rw [← Multiset.map_coe, hgroups.coe_eq, Multiset.map_map, harbitrages]
    exact Multiset.map_congr rfl fun symbol hsymbol => (hgroups.filter_flatMap hsymbol).symm
  have hserved : s.sent = (groups.map Prod.snd : Multiset (List (Arbitrage D))) ↔
      ∀ group ∈ groups, s.Serves cpus group.1 = true := by
    rw [hsent, ← List.length_filter_eq_length_iff]
    constructor
    · intro heq
      simpa using congrArg Multiset.card heq
    · intro hlength
      rw [List.filter_sublist.eq_of_length hlength]
  have hknown : (∀ group ∈ groups, s.Serves cpus group.1 = true) ↔
      s.WorkersKnown (spotSymbols exchanges) cpus := by
    constructor
    · intro h symbol hsymbol id hid
      obtain ⟨group, hgroup, rfl⟩ := List.mem_map.mp (hgroups.mem_keys.mpr hsymbol)
      simpa [Serves, hid] using h group hgroup
    · intro h group hgroup
      obtain ⟨id, hid⟩ := Option.isSome_iff_exists.mp (hstored group hgroup)
      have hmem : group.1 ∈ spotSymbols exchanges :=
        hgroups.mem_keys.mp (List.mem_map_of_mem hgroup)
      simpa [Serves, hid] using h group.1 hmem id hid
  constructor
  · intro h
    exact hknown.mp (hserved.mp (h.together.trans hlists.symm))
  · intro h
    obtain ⟨map, hmap, _⟩ := hgroups
    exact ⟨hmap ▸ rfl, hpublished, (hserved.mpr (hknown.mpr h)).trans hlists⟩

/-- The one publishing run that passes the flag crosses the assets of all exchanges exactly if each
request for one of their spot symbols that stores a worker draws the id of a worker. A drawn number
is stored as it is, and the group of a symbol whose worker has no channel is sent to nobody. -/
theorem Server.cross_complete_iff (cpus : NumCpus) (exchanges : List ListedExchange)
    (actions : List (ServerAction C (Arbitrage D))) (s : Server C (Arbitrage D))
    (hgroups : ∀ groups, .crossAssets groups ∈ actions → IteratesCross exchanges groups)
    (hrun : GuardedRun.exec (step cpus) (start cpus) actions = some s)
    (hstarted : s.started = true) (hidle : s.cross = .idle) :
    s.CrossComplete exchanges ↔ GuardedRun.StepsSatisfy (step cpus)
      (DrawsWorkerFor (spotSymbols exchanges) cpus) (start cpus) actions := by
  obtain ⟨groups, hcross, harbitrages, hstored, hsent⟩ :=
    exists_groups_of_run hgroups hrun hstarted hidle
  rw [crossComplete_iff_workersKnown hcross harbitrages hstored hsent]
  exact (GuardedRun.stepsSatisfy_iff_of_exec
    (fun _ _ _ hstep => workersKnown_step_iff (advances_of_step hstep))
    (workersKnown_start _ cpus) hrun).symm

/-- An asset quoted in USDT. -/
def usdtAsset (base : String) (market : MarketType) (exchange : String) : Asset :=
  ⟨base ++ "/USDT", base, "USDT", market, exchange⟩

/-- An exchange with one asset in each market. -/
def listedExchange (name spot future : String) : ListedExchange where
  name := name
  assets := ⟨Finmap.singleton (spot ++ "/USDT") (usdtAsset spot .spot name),
    Finmap.singleton (future ++ "/USDT") (usdtAsset future .future name)⟩

/-- Three exchanges: the futures of bitcoin are on the first one, those of ether on the second one,
and those of another asset on the third one. -/
def threeExchanges : List ListedExchange :=
  [listedExchange "Gate" "BTC" "BTC", listedExchange "MEXC" "BTC" "ETH",
    listedExchange "Binance" "ETH" "SOL"]

/-- The arbitrages of bitcoin between two spot markets and one futures market. -/
def bitcoinArbitrages : List (Arbitrage ℚ) :=
  [Arbitrage.new (usdtAsset "BTC" .spot "Gate") (usdtAsset "BTC" .future "Gate"),
    Arbitrage.new (usdtAsset "BTC" .spot "MEXC") (usdtAsset "BTC" .future "Gate")]

/-- The arbitrage of ether. -/
def etherArbitrages : List (Arbitrage ℚ) :=
  [Arbitrage.new (usdtAsset "ETH" .spot "Binance") (usdtAsset "ETH" .future "MEXC")]

/-- The groups of the two spot symbols. -/
def twoGroups : List (String × List (Arbitrage ℚ)) :=
  [("ETH/USDT", etherArbitrages), ("BTC/USDT", bitcoinArbitrages)]

/-- The assets of the exchanges by base. -/
theorem entries_threeExchanges : entries (symbolMap threeExchanges) =
    [("BTC", [(usdtAsset "BTC" .spot "Gate", .spot, "Gate"),
        (usdtAsset "BTC" .future "Gate", .future, "Gate"),
        (usdtAsset "BTC" .spot "MEXC", .spot, "MEXC")]),
      ("ETH", [(usdtAsset "ETH" .future "MEXC", .future, "MEXC"),
        (usdtAsset "ETH" .spot "Binance", .spot, "Binance")]),
      ("SOL", [(usdtAsset "SOL" .future "Binance", .future, "Binance")])] :=
  entries_eq_of_keys (by decide +kernel) (by decide +kernel) (by decide +kernel)

/-- The cross product of the exchanges has two groups. -/
theorem iteratesCross_twoGroups : IteratesCross threeExchanges twoGroups := by
  refine ⟨(Finmap.singleton "BTC/USDT" (Arc.new bitcoinArbitrages)).insert "ETH/USDT"
      (Arc.new etherArbitrages), ?_, ?_⟩
  · unfold crossArbitrages values
    rw [entries_threeExchanges]
    decide +kernel
  · unfold Iterates
    decide +kernel

/-- A request for bitcoin is routed before the exchanges are crossed, and sent while the first group
is. The second crossing finds the flag set. -/
def crossedRun : List (ServerAction Unit (Arbitrage ℚ)) :=
  [.startArbitrage 0 "BTC-USDT" (), .crossAssets twoGroups, .crossNext, .crossNext,
    .sendArbitrage 0, .crossAssets twoGroups, .crossNext, .crossNext, .crossNext, .crossNext,
    .crossNext]

/-- With two workers the arbitrages of both symbols are published, and sent in one request each. -/
theorem Server.twoGroups_crossed :
    ∃ s : Server Unit (Arbitrage ℚ), GuardedRun.exec (step ⟨2, by decide, by decide⟩)
        (start ⟨2, by decide, by decide⟩) crossedRun = some s ∧
      s.arbitrages = etherArbitrages ++ bitcoinArbitrages ∧
      s.CrossComplete threeExchanges := by
  refine ⟨_, rfl, rfl, (cross_complete_iff ⟨2, by decide, by decide⟩ threeExchanges crossedRun _
    ?_ rfl rfl rfl).mpr ?_⟩
  · intro groups hgroups
    simp only [crossedRun, List.mem_cons, ServerAction.crossAssets.injEq, reduceCtorEq,
      List.not_mem_nil, or_false, false_or, or_self] at hgroups
    rw [hgroups]
    exact iteratesCross_twoGroups
  · refine fun t _ => ⟨fun _ _ => by decide, ?_⟩
    refine GuardedRun.stepsSatisfy_of_forall fun action haction _ => ?_
    simp only [List.mem_cons, List.not_mem_nil, or_false] at haction
    obtain rfl | rfl | rfl | rfl | rfl | rfl | rfl | rfl | rfl | rfl := haction <;> trivial

/-- The asset of one market for bitcoin. -/
def bitcoin (market : MarketType) : Asset := usdtAsset "BTC" market "Gate"

/-- An exchange with bitcoin in both markets. -/
def bitcoinExchange : ListedExchange := listedExchange "Gate" "BTC" "BTC"

/-- The group of the one spot symbol. -/
def bitcoinGroups : List (String × List (Arbitrage ℚ)) :=
  [("BTC/USDT", [Arbitrage.new (bitcoin .spot) (bitcoin .future)])]

/-- The cross product of the two assets has one group. -/
theorem iteratesCross_bitcoinGroups : IteratesCross [bitcoinExchange] bitcoinGroups :=
  ⟨Finmap.singleton "BTC/USDT" (Arc.new [Arbitrage.new (bitcoin .spot) (bitcoin .future)]),
    by decide +kernel, rfl⟩

/-- With one worker the second request stores the id 1, which has no channel; then the pair of its
symbol is published and sent to nobody. -/
theorem Server.second_request_loses_group :
    ∃ s : Server Unit (Arbitrage ℚ), GuardedRun.exec (step ⟨1, by decide, by decide⟩)
        (start ⟨1, by decide, by decide⟩)
        [.startArbitrage 0 "ETH-USDT" (), .startArbitrage 1 "BTC-USDT" (),
          .crossAssets bitcoinGroups, .crossNext, .crossNext, .crossNext, .crossNext] = some s ∧
      s.started = true ∧ s.cross = .idle ∧ IteratesCross [bitcoinExchange] bitcoinGroups ∧
      s.sent = 0 ∧ ¬ s.CrossComplete [bitcoinExchange] := by
  refine ⟨_, rfl, rfl, rfl, iteratesCross_bitcoinGroups, rfl, fun h => ?_⟩
  have hcard := congrArg Multiset.card h.together
  rw [Multiset.card_map] at hcard
  revert hcard
  decide +kernel

end Arbexpert.Worker
