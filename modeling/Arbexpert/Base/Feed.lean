import Arbexpert.Base.OrderBook

/-!
# The shared state of the message handlers of one connection

Books live on a heap and are shared by reference: the subscription map, suspended
handlers and watchers may hold the same book, and a new book is made each time that
a symbol is subscribed again. A handler that fetches a snapshot is suspended as a
task. The list of deliveries records what a book held when it was handed out.
-/

namespace Arbexpert.Base

/-- The two kinds of markets. -/
inductive MarketType
  | spot
  | future
  deriving DecidableEq

/-- The market of a symbol such as `BTC/USDT` or `BTC/USDT:USDT`. -/
def marketOf (symbol : String) : MarketType :=
  if ':' ∈ symbol.toList then .future else .spot

/-- A shared book: the symbol it was made for, and how many were made before it. -/
abbrev BookRef := String × ℕ

/-- The sending end of a watch call, and whether the call still waits for it. -/
structure Sender where
  waiter : ℕ
  listening : Bool
  deriving DecidableEq

/-- Where a suspended initialisation stands: in the fetch of a snapshot, after a
number of requests, or asleep before another attempt to replay the buffer. -/
inductive Stage (D : Type*)
  | fetching (initialEventU retries : ℕ)
  | replaying (snapshot : OrderBook D) (retries : ℕ)

/-- A suspended initialisation with the book that it captured. -/
structure InitTask (D : Type*) where
  symbol : String
  book : BookRef
  stage : Stage D

/-- What a book held when it was sent to the watchers of a symbol. -/
structure Delivery (D : Type*) where
  symbol : String
  book : OrderBook D

/-- A parsed REST snapshot. -/
structure DepthSnapshot (D : Type*) where
  id : ℕ
  bids : List (D × D)
  asks : List (D × D)
  id_lt : id < 2 ^ 64

/-- The maps of a sub-client, its heap of books, and its suspended handlers. -/
structure FeedState (D : Type*) where
  books : BookRef → OrderBook D
  opened : String → ℕ
  subscribed : String → Option BookRef
  pending : String → Option (List Sender)
  init : String → Option (List (OrderBookUpdate D))
  tasks : List (InitTask D)
  handed : List (ℕ × BookRef)
  sent : List (Delivery D)
  aborted : Bool

/-- The first buffered update that overlaps the write after a snapshot. -/
def replayIndex {D : Type*} (snapshotId : ℕ) (updates : List (OrderBookUpdate D)) : Option ℕ :=
  updates.findIdx? fun item =>
    decide (item.firstUpdateId ≤ succU64 snapshotId ∧ snapshotId < item.lastUpdateId)

/-- What an attempt to replay a buffer leads to: the task ends, or sleeps before the
next attempt, or the updates from the first overlapping one on are replayed. -/
inductive ReplayOutcome (D : Type*)
  | ended
  | sleeping (task : InitTask D)
  | replay (processed : List (OrderBookUpdate D))

/-- What can happen next: a message, a response to a suspended task, the end of its
sleep, a watch or unwatch call, a connection failure, or a watcher resuming. -/
inductive FeedAction (D : Type*)
  | message (text : Option Value)
  | depth (i : ℕ) (response : Option (DepthSnapshot D))
  | wake (i : ℕ)
  | watch (symbol : String) (waiter : ℕ) (subscribes sends : Bool)
  | unwatch (symbol : String) (unsubscribes : Bool)
  | fail
  | resume (k : ℕ)

namespace FeedState

variable {D : Type*}

/-- The state of a new sub-client. -/
def start : FeedState D where
  books := fun _ => OrderBook.empty
  opened := fun _ => 0
  subscribed := fun _ => none
  pending := fun _ => none
  init := fun _ => none
  tasks := []
  handed := []
  sent := []
  aborted := false

/-- Write a book of the heap. -/
def setBook (s : FeedState D) (ref : BookRef) (book : OrderBook D) : FeedState D :=
  { s with books := Function.update s.books ref book }

/-- Write the update id of a book. -/
def setUpdateId (s : FeedState D) (ref : BookRef) (n : ℕ) : FeedState D :=
  s.setBook ref { s.books ref with updateId := n }

/-- Write the buffer of a symbol. -/
def setInit (s : FeedState D) (symbol : String) (updates : List (OrderBookUpdate D)) :
    FeedState D :=
  { s with init := Function.update s.init symbol (some updates) }

/-- Make an empty buffer for a symbol that has none. -/
def openInit (s : FeedState D) (symbol : String) : FeedState D :=
  s.setInit symbol ((s.init symbol).getD [])

/-- Append an update to the buffer of a symbol; nothing happens when there is no
buffer or the update is malformed. -/
def pushInit (s : FeedState D) (symbol : String) (update : Option (OrderBookUpdate D)) :
    FeedState D :=
  match s.init symbol, update with
  | some updates, some update => s.setInit symbol (updates ++ [update])
  | _, _ => s

/-- One attempt to replay the buffer of a task after a snapshot. The buffer is taken
even when the attempt fails; then the task sleeps, and after five attempts it gives
up. -/
def replayAttempt (s : FeedState D) (task : InitTask D) (snapshot : OrderBook D)
    (retries : ℕ) : FeedState D × ReplayOutcome D :=
  if retries = 5 then (s.setUpdateId task.book 0, .ended)
  else
    match s.init task.symbol with
    | none => (s, .ended)
    | some pending =>
      match replayIndex snapshot.updateId pending with
      | none =>
        (s.setInit task.symbol [],
          .sleeping { task with stage := .replaying snapshot (retries + 1) })
      | some k => (s.setInit task.symbol [], .replay (pending.drop k))

/-- The buffered updates of a symbol that are replayed after a snapshot. -/
def replayed (s : FeedState D) (symbol : String) (snapshotId : ℕ) : List (OrderBookUpdate D) :=
  (s.init symbol).elim [] fun pending =>
    (replayIndex snapshotId pending).elim [] fun k => pending.drop k

/-- A replay, which is not made after five retries, takes the buffered updates from the
first overlapping one on, and there is at least that one. -/
theorem replayAttempt_eq_replay {s : FeedState D} {task : InitTask D} {snapshot : OrderBook D}
    {retries : ℕ} {processed : List (OrderBookUpdate D)}
    (h : (s.replayAttempt task snapshot retries).2 = .replay processed) :
    retries ≠ 5 ∧ processed = s.replayed task.symbol snapshot.updateId ∧ processed ≠ [] := by
  unfold replayAttempt at h
  split at h
  · cases h
  · rename_i hretries
    split at h
    · cases h
    · rename_i pending hpending
      split at h
      · cases h
      · rename_i k hk
        cases h
        refine ⟨hretries, by simp [replayed, hpending, hk], ?_⟩
        have hlt := (List.findIdx?_eq_some_iff_getElem.mp hk).choose
        simpa using hlt

/-- Send a book to the pending watchers of a symbol; nothing is sent when the symbol
has no pending list. -/
def deliver (s : FeedState D) (symbol : String) (ref : BookRef) : FeedState D :=
  match s.pending symbol with
  | none => s
  | some senders =>
    { s with
      pending := Function.update s.pending symbol (some [])
      handed := s.handed ++
        (senders.filter Sender.listening).map fun sender => (sender.waiter, ref)
      sent := s.sent ++ senders.map fun _ => ⟨symbol, s.books ref⟩ }

/-- Replace a suspended task by what it became, or remove it when it ended. -/
def setTask (s : FeedState D) (i : ℕ) (next : Option (InitTask D)) : FeedState D :=
  match next with
  | none => { s with tasks := s.tasks.eraseIdx i }
  | some task => { s with tasks := s.tasks.set i task }

/-- Suspend a new task. -/
def addTask (s : FeedState D) (task : InitTask D) : FeedState D :=
  { s with tasks := s.tasks ++ [task] }

/-- The part of `watch` after the connection is open. The subscribe closures of these
exchanges do not suspend, so it runs without interruption up to the wait;
`subscribes` and `sends` say whether the closure and the send succeed. -/
def watch (s : FeedState D) (symbol : String) (waiter : ℕ) (subscribes sends : Bool) :
    FeedState D :=
  match s.subscribed symbol with
  | some _ =>
    match s.pending symbol with
    | none => { s with aborted := true }
    | some senders =>
      { s with pending := Function.update s.pending symbol (some (senders ++ [⟨waiter, true⟩])) }
  | none =>
    let ref : BookRef := (symbol, s.opened symbol)
    let opened := Function.update s.opened symbol (s.opened symbol + 1)
    if subscribes then
      { s with
        books := Function.update s.books ref OrderBook.empty
        opened
        subscribed := Function.update s.subscribed symbol (some ref)
        pending := Function.update s.pending symbol
          (some ((s.pending symbol).getD [] ++ [⟨waiter, sends⟩])) }
    else { s with opened, pending := Function.update s.pending symbol none }

/-- `unwatch`, whose unsubscribe closure does not suspend either; a failed closure
puts the symbol back. -/
def unwatch (s : FeedState D) (symbol : String) (unsubscribes : Bool) : FeedState D :=
  match s.subscribed symbol with
  | none => s
  | some _ =>
    if unsubscribes then
      { s with
        subscribed := Function.update s.subscribed symbol none
        pending := Function.update s.pending symbol none }
    else s

/-- The connection fails: the maps and the buffers are cleared, and the suspended
handlers are dropped with the connection's task. -/
def onFail (s : FeedState D) : FeedState D :=
  { s with
    subscribed := fun _ => none
    pending := fun _ => none
    init := fun _ => none
    tasks := [] }

/-- The watcher at a position of the handed list resumes and reads the best prices
of the book; it aborts the process when a side has none. -/
def resume [LinearOrder D] (s : FeedState D) (k : ℕ) : Option (FeedState D) :=
  (s.handed[k]?).map fun entry =>
    let book := s.books entry.2
    { s with
      handed := s.handed.eraseIdx k
      aborted := (getPrice book.asks).isNone || (getPrice book.bids).isNone }

end FeedState

section Snapshot

variable {D : Type*} [LinearOrder D]

/-- The book collected from a snapshot; zero quantities are not filtered. -/
def DepthSnapshot.book (snapshot : DepthSnapshot D) : OrderBook D where
  bids := snapshot.bids.foldl (fun side level => side.insert (OrderDual.toDual level.1) level.2) ∅
  asks := snapshot.asks.foldl (fun side level => side.insert level.1 level.2) ∅
  updateId := snapshot.id

end Snapshot

end Arbexpert.Base
