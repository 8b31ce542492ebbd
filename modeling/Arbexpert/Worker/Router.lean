import Arbexpert.Base.HashMap
import Mathlib.Logic.Function.Iterate

/-!
# Routing of symbols to workers

Each worker registers a channel when it starts. A request for a symbol and the run that
publishes all arbitrages share the map from symbols to workers: whoever comes first
draws a worker for the symbol from a common counter. The critical sections of the two
handlers may be interleaved in any way.
-/

namespace Arbexpert.Worker

open Arbexpert.Base

/-- The number of processors, which is the number of workers. -/
structure NumCpus where
  count : ℕ
  pos : 0 < count
  lt : count < 2 ^ 32

/-- A request to a worker, with a command or with the arbitrages to monitor. -/
inductive Request (C α : Type*)
  | startArbitrage (command : C)
  | startMonitor (items : List α)

/-- The state that the handlers share. A channel holds the requests that were sent. -/
structure GlobalState (C α : Type*) where
  lastId : ℕ
  symbolMap : HashMap String ℕ
  workerChannels : HashMap ℕ (List (Request C α))
  nextWorker : ℕ
  started : Bool
  arbitrages : List α

/-- Where a request to start an arbitrage stands; it ends with "Started!" or with
"Worker not found". -/
inductive StartHandler (C : Type*)
  | idle
  | routed (command : C) (workerId : ℕ)
  | responded (started : Bool)

/-- Where the publishing run stands, with the groups of arbitrages by symbol that are
left: it routes a group, then publishes it, then sends it. -/
inductive CrossRun (α : Type*)
  | idle
  | routing (groups : List (String × List α))
  | publishing (workerId : ℕ) (items : List α) (groups : List (String × List α))
  | sending (workerId : ℕ) (items : List α) (groups : List (String × List α))

/-- The shared state with the handlers. -/
structure Server (C α : Type*) extends GlobalState C α where
  handlers : ℕ → StartHandler C
  cross : CrossRun α

/-- What can happen next: a request was parsed, a request goes on, a publishing run is
started with its groups, or the run goes on. -/
inductive ServerAction (C α : Type*)
  | startArbitrage (i : ℕ) (path : String) (command : C)
  | sendArbitrage (i : ℕ)
  | crossAssets (groups : List (String × List α))
  | crossNext

/-- The symbol of a request path. -/
def symbolOfPath (path : String) : String :=
  String.ofList (path.toList.map fun c => if c = '-' then '/' else c)

/-- The counter after a draw. -/
def fetchAdd (n : ℕ) : ℕ := (n + 1) % 2 ^ 32

variable {C α : Type*}

namespace GlobalState

/-- The state before any worker has started. -/
def new : GlobalState C α := ⟨0, ∅, ∅, 0, false, []⟩

/-- A worker starts and registers its channel. -/
def onWorkerStart (s : GlobalState C α) : GlobalState C α :=
  { s with
    lastId := fetchAdd s.lastId
    workerChannels := s.workerChannels.insert s.lastId [] }

/-- The worker of a symbol: the stored one, or the drawn one, which is then stored. The
argument says how a drawn number becomes a worker. -/
def route (s : GlobalState C α) (symbol : String) (draw : ℕ → ℕ) : GlobalState C α × ℕ :=
  match s.symbolMap.lookup symbol with
  | some id => (s, id)
  | none =>
    ({ s with
      symbolMap := s.symbolMap.insert symbol (draw s.nextWorker)
      nextWorker := fetchAdd s.nextWorker }, draw s.nextWorker)

/-- Send a request to a worker, if it has a channel; the flag says whether it has. -/
def send (s : GlobalState C α) (workerId : ℕ) (request : Request C α) :
    GlobalState C α × Bool :=
  match s.workerChannels.lookup workerId with
  | none => (s, false)
  | some requests =>
    ({ s with workerChannels := s.workerChannels.insert workerId (requests ++ [request]) }, true)

end GlobalState

namespace Server

/-- The server once all workers have registered. -/
def start (cpus : NumCpus) : Server C α where
  toGlobalState := GlobalState.onWorkerStart^[cpus.count] GlobalState.new
  handlers := fun _ => .idle
  cross := .idle

/-- A parsed request finds or draws its worker; the drawn number is used as it is. -/
def startArbitrage (s : Server C α) (i : ℕ) (path : String) (command : C) : Server C α :=
  let routed := s.route (symbolOfPath path) id
  { s with
    toGlobalState := routed.1
    handlers := Function.update s.handlers i (.routed command routed.2) }

/-- A request is sent to its worker. -/
def sendArbitrage (s : Server C α) (i : ℕ) (command : C) (workerId : ℕ) : Server C α :=
  let sent := s.send workerId (.startArbitrage command)
  { s with
    toGlobalState := sent.1
    handlers := Function.update s.handlers i (.responded sent.2) }

/-- A publishing run starts; only the first one does anything. -/
def crossAssets (s : Server C α) (groups : List (String × List α)) : Server C α :=
  if s.started then s else { s with started := true, cross := .routing groups }

/-- The next critical section of the publishing run. A drawn number is reduced modulo
the number of workers. -/
def crossNext (cpus : NumCpus) (s : Server C α) : Option (Server C α) :=
  match s.cross with
  | .idle => none
  | .routing [] => some { s with cross := .idle }
  | .routing ((key, items) :: groups) =>
    let routed := s.route key fun n => n % cpus.count
    some { s with toGlobalState := routed.1, cross := .publishing routed.2 items groups }
  | .publishing workerId items groups =>
    some { s with
      arbitrages := s.arbitrages ++ items
      cross := .sending workerId items groups }
  | .sending workerId items groups =>
    some { s with
      toGlobalState := (s.send workerId (.startMonitor items)).1
      cross := .routing groups }

/-- One step of the server. -/
def step (cpus : NumCpus) (s : Server C α) : ServerAction C α → Option (Server C α)
  | .startArbitrage i path command =>
    match s.handlers i with
    | .idle => some (s.startArbitrage i path command)
    | _ => none
  | .sendArbitrage i =>
    match s.handlers i with
    | .routed command workerId => some (s.sendArbitrage i command workerId)
    | _ => none
  | .crossAssets groups => some (s.crossAssets groups)
  | .crossNext => s.crossNext cpus

/-- What one step of the server does. -/
inductive Advances (cpus : NumCpus) (s : Server C α) : ServerAction C α → Server C α → Prop
  | startArbitrage {i : ℕ} {path : String} {command : C} (hidle : s.handlers i = .idle) :
      Advances cpus s (.startArbitrage i path command) (s.startArbitrage i path command)
  | sendArbitrage {i : ℕ} {command : C} {workerId : ℕ}
      (hrouted : s.handlers i = .routed command workerId) :
      Advances cpus s (.sendArbitrage i) (s.sendArbitrage i command workerId)
  | ignore {groups : List (String × List α)} (hstarted : s.started = true) :
      Advances cpus s (.crossAssets groups) s
  | begin {groups : List (String × List α)} (hstarted : s.started = false) :
      Advances cpus s (.crossAssets groups) { s with started := true, cross := .routing groups }
  | finish (hcross : s.cross = .routing []) : Advances cpus s .crossNext { s with cross := .idle }
  | route {key : String} {items : List α} {groups : List (String × List α)}
      (hcross : s.cross = .routing ((key, items) :: groups)) :
      Advances cpus s .crossNext { s with
        toGlobalState := (s.route key fun n => n % cpus.count).1
        cross := .publishing (s.route key fun n => n % cpus.count).2 items groups }
  | publish {workerId : ℕ} {items : List α} {groups : List (String × List α)}
      (hcross : s.cross = .publishing workerId items groups) :
      Advances cpus s .crossNext { s with
        arbitrages := s.arbitrages ++ items
        cross := .sending workerId items groups }
  | send {workerId : ℕ} {items : List α} {groups : List (String × List α)}
      (hcross : s.cross = .sending workerId items groups) :
      Advances cpus s .crossNext { s with
        toGlobalState := (s.send workerId (.startMonitor items)).1
        cross := .routing groups }

/-- Every step is one of these. -/
theorem advances_of_step {cpus : NumCpus} {s t : Server C α} {action : ServerAction C α}
    (hstep : s.step cpus action = some t) : s.Advances cpus action t := by
  unfold step at hstep
  cases action with
  | startArbitrage i path command =>
    simp only at hstep
    split at hstep
    · rename_i hidle
      cases hstep
      exact .startArbitrage hidle
    · cases hstep
  | sendArbitrage i =>
    simp only at hstep
    split at hstep
    · rename_i hrouted
      cases hstep
      exact .sendArbitrage hrouted
    · cases hstep
  | crossAssets groups =>
    cases hstep
    unfold crossAssets
    split
    · rename_i hstarted
      exact .ignore hstarted
    · rename_i hstarted
      exact .begin (by simpa using hstarted)
  | crossNext =>
    simp only [crossNext] at hstep
    split at hstep
    · cases hstep
    · rename_i hcross
      cases hstep
      exact .finish hcross
    · rename_i hcross
      cases hstep
      exact .route hcross
    · rename_i hcross
      cases hstep
      exact .publish hcross
    · rename_i hcross
      cases hstep
      exact .send hcross

end Server

end Arbexpert.Worker
