import Arbexpert.Base.Feed

/-!
# The Gate message handler

An update event starts an initialisation when its book is not synchronised, is
buffered while the initialisation is suspended, and is applied when it continues a
synchronised book. A full event synchronises the book at once. The handler keeps,
for each symbol, the bid prices that it has seen, and stops the process when the
book holds a bid price that is not among them.
-/

namespace Arbexpert.Gate

open Arbexpert.Base

variable {D : Type*}

/-- The shared state of the handler, with the bid prices seen for each symbol. -/
structure GateState (D : Type*) extends FeedState D where
  history : String → Finset D

/-- The fields of an event that are read before its levels. -/
structure GateEvent where
  symbol : String
  lastUpdateId : ℕ
  firstUpdateId : ℕ
  full : Bool
  result : Value

/-- The state of a new sub-client. -/
def gateStart : GateState D where
  toFeedState := FeedState.start
  history := fun _ => ∅

/-- Read the fields of a message; `none` when one is missing or has another type. -/
def readEvent (parsed : Value) : Option GateEvent := do
  let result := parsed.field "result"
  let full := (result.field "full").asBool.getD false
  let symbol ← (result.field "s").asStr
  let lastUpdateId ← (result.field "u").asU64
  let firstUpdateId ← (result.field "U").asU64
  pure { symbol, lastUpdateId, firstUpdateId, full, result }

section Levels

variable [DecimalText D]

/-- Deserialise an item with a price `p` and a size `s`: an object with both fields,
or an array of the two. -/
def futureDepthSnapshotItem : Value → Option (D × D)
  | .object fields => do
    let price ← (fields.lookup "p").bind DecimalText.deserialize
    let size ← (fields.lookup "s").bind DecimalText.deserialize
    pure (price, size)
  | .array [price, size] => do
    let price ← DecimalText.deserialize price
    let size ← DecimalText.deserialize size
    pure (price, size)
  | _ => none

/-- Read one level of an event: two strings on the spot market, an item on the
futures market. -/
def parseEntry (market : MarketType) (entry : Value) : Option (D × D) :=
  match market with
  | .spot => do
    let price ← (entry.item 0).asStr.bind DecimalText.parse
    let quantity ← (entry.item 1).asStr.bind DecimalText.parse
    pure (price, quantity)
  | .future => futureDepthSnapshotItem entry

/-- Read the levels of one side of an event. -/
def parseSide (market : MarketType) (side : Value) : Option (List (D × D)) :=
  side.asArray.bind fun entries => entries.mapM (parseEntry market)

/-- Read the update of an event; `none` when a level is malformed. -/
def buildUpdate (market : MarketType) (event : GateEvent) : Option (OrderBookUpdate D) := do
  let asks ← parseSide market (event.result.field "a")
  let bids ← parseSide market (event.result.field "b")
  pure
    { asks
      bids
      lastUpdateId := event.lastUpdateId
      firstUpdateId := event.firstUpdateId
      full := event.full }

/-- The last id of an event fits its type. -/
theorem readEvent_last_lt {parsed : Value} {event : GateEvent}
    (h : readEvent parsed = some event) : event.lastUpdateId < 2 ^ 64 := by
  simp only [readEvent, Option.pure_def, Option.bind_eq_bind, Option.bind_eq_some_iff,
    Option.some.injEq] at h
  obtain ⟨_, _, last, hlast, _, _, rfl⟩ := h
  exact Value.asU64_lt hlast

/-- The update of an event carries its ids and its kind. -/
theorem buildUpdate_fields {market : MarketType} {event : GateEvent}
    {update : OrderBookUpdate D} (h : buildUpdate market event = some update) :
    update.firstUpdateId = event.firstUpdateId ∧ update.lastUpdateId = event.lastUpdateId ∧
      update.full = event.full := by
  simp only [buildUpdate, Option.pure_def, Option.bind_eq_bind, Option.bind_eq_some_iff,
    Option.some.injEq] at h
  obtain ⟨_, _, _, _, rfl⟩ := h
  exact ⟨rfl, rfl, rfl⟩

end Levels

variable [LinearOrder D] [Zero D]

/-- The bid prices seen after the bids of an update: a quantity of zero removes its
price. -/
def recordBids (seen : Finset D) (bids : List (D × D)) : Finset D :=
  bids.foldl (fun seen level => if level.2 = 0 then seen.erase level.1 else insert level.1 seen)
    seen

/-- Apply an update to a book, record its bids, and send the book to the pending
watchers; the process stops when a bid price of the book was not seen. -/
def broadcastUpdate (s : GateState D) (symbol : String) (ref : BookRef)
    (update : OrderBookUpdate D) : GateState D :=
  let book := (s.books ref).applyUpdate update
  let seen := recordBids (s.history symbol) update.bids
  let s := { s with
    toFeedState := s.toFeedState.setBook ref book
    history := Function.update s.history symbol seen }
  if ∀ price ∈ book.bids.keys, OrderDual.ofDual price ∈ seen then
    { s with toFeedState := s.toFeedState.deliver symbol ref }
  else { s with aborted := true }

/-- The shared state after a broadcast. -/
theorem broadcastUpdate_toFeedState (s : GateState D) (symbol : String) (ref : BookRef)
    (update : OrderBookUpdate D) : (broadcastUpdate s symbol ref update).toFeedState =
      if ∀ price ∈ ((s.books ref).applyUpdate update).bids.keys,
          OrderDual.ofDual price ∈ recordBids (s.history symbol) update.bids then
        (s.toFeedState.setBook ref ((s.books ref).applyUpdate update)).deliver symbol ref
      else { s.toFeedState.setBook ref ((s.books ref).applyUpdate update) with
        aborted := true } := by
  unfold broadcastUpdate
  exact apply_ite _ _ _ _

/-- Replay buffered updates on a book; a gap resets its id and ends the replay. -/
def replayUpdates : List (OrderBookUpdate D) → OrderBook D → Finset D → OrderBook D × Finset D
  | [], book, seen => (book, seen)
  | update :: rest, book, seen =>
    if succU64 book.updateId < update.firstUpdateId ∨
        update.lastUpdateId < succU64 book.updateId then
      ({ book with updateId := 0 }, seen)
    else replayUpdates rest (book.applyUpdate update) (recordBids seen update.bids)

/-- Install a snapshot in the book of a task and replay the updates after it. -/
def finishInit (s : GateState D) (task : InitTask D) (snapshot : OrderBook D)
    (processed : List (OrderBookUpdate D)) : GateState D :=
  let seen := s.history task.symbol ∪ snapshot.bids.keys.image OrderDual.ofDual
  let replayed := replayUpdates processed snapshot seen
  { s with
    toFeedState := s.toFeedState.setBook task.book replayed.1
    history := Function.update s.history task.symbol replayed.2 }

/-- One attempt to replay the buffer after a snapshot, and the task that is left. -/
def replayAttempt (s : GateState D) (task : InitTask D) (snapshot : OrderBook D)
    (retries : ℕ) : GateState D × Option (InitTask D) :=
  let (feed, outcome) := s.toFeedState.replayAttempt task snapshot retries
  let s := { s with toFeedState := feed }
  match outcome with
  | .ended => (s, none)
  | .sleeping task => (s, some task)
  | .replay processed => (finishInit s task snapshot processed, none)

/-- Start an initialisation: buffer from now on, and fetch a snapshot that is not
older than the event. No request is made for an event whose first id is zero. -/
def startInit (s : GateState D) (event : GateEvent) (ref : BookRef) : GateState D :=
  let s := { s with
    toFeedState := (s.toFeedState.setUpdateId ref 1).openInit event.symbol }
  let task : InitTask D := ⟨event.symbol, ref, .fetching event.firstUpdateId 0⟩
  if 0 < event.firstUpdateId then
    { s with toFeedState := s.toFeedState.addTask task }
  else
    let (s, next) := replayAttempt s task OrderBook.empty 0
    match next with
    | none => s
    | some task => { s with toFeedState := s.toFeedState.addTask task }

/-- A response of the snapshot request of a task; `none` is a failed request or a
malformed body. A snapshot that is too old is requested again, five times at most. -/
def depthResponse (s : GateState D) (task : InitTask D) (initialEventU retries : ℕ)
    (response : Option (DepthSnapshot D)) : GateState D × Option (InitTask D) :=
  match response with
  | none => ({ s with toFeedState := s.toFeedState.setUpdateId task.book 0 }, none)
  | some snapshot =>
    if snapshot.id < initialEventU then
      if retries + 1 = 5 then
        ({ s with toFeedState := s.toFeedState.setUpdateId task.book 0 }, none)
      else (s, some { task with stage := .fetching initialEventU (retries + 1) })
    else replayAttempt s task snapshot.book 0

/-- Continue a suspended task: in the fetch with a response, in its sleep without. -/
def resumeTask (s : GateState D) (i : ℕ) (response : Option (Option (DepthSnapshot D))) :
    Option (GateState D) :=
  match s.tasks[i]? with
  | none => none
  | some task =>
    match task.stage, response with
    | .fetching initialEventU retries, some response =>
      let (s, next) := depthResponse s task initialEventU retries response
      some { s with toFeedState := s.toFeedState.setTask i next }
    | .replaying snapshot retries, none =>
      let (s, next) := replayAttempt s task snapshot retries
      some { s with toFeedState := s.toFeedState.setTask i next }
    | _, _ => none

/-- How a suspended task is continued: in the fetch by a response, in its sleep by the end of it. -/
inductive Resumes (s : GateState D) (i : ℕ) :
    Option (Option (DepthSnapshot D)) → GateState D → Prop
  | fetched {task : InitTask D} {initialEventU retries : ℕ} (response : Option (DepthSnapshot D))
      (htask : s.tasks[i]? = some task) (hstage : task.stage = .fetching initialEventU retries) :
      Resumes s i (some response)
        { (depthResponse s task initialEventU retries response).1 with
          toFeedState := (depthResponse s task initialEventU retries response).1.toFeedState.setTask
            i (depthResponse s task initialEventU retries response).2 }
  | woke {task : InitTask D} {snapshot : OrderBook D} {retries : ℕ}
      (htask : s.tasks[i]? = some task) (hstage : task.stage = .replaying snapshot retries) :
      Resumes s i none
        { (replayAttempt s task snapshot retries).1 with
          toFeedState := (replayAttempt s task snapshot retries).1.toFeedState.setTask
            i (replayAttempt s task snapshot retries).2 }

/-- A task is continued in one of these ways. -/
theorem resumes_of_resumeTask {s t : GateState D} {i : ℕ}
    {response : Option (Option (DepthSnapshot D))} (h : resumeTask s i response = some t) :
    Resumes s i response t := by
  unfold resumeTask at h
  split at h
  · cases h
  · rename_i task htask
    split at h
    · rename_i hstage
      cases h
      exact .fetched _ htask hstage
    · rename_i hstage
      cases h
      exact .woke htask hstage
    · cases h

variable [DecimalText D]

/-- Handle an event for a subscribed book. -/
def handleEvent (market : MarketType) (s : GateState D) (event : GateEvent) (ref : BookRef) :
    GateState D :=
  let book := s.books ref
  if book.updateId = 0 then
    if event.full then
      match buildUpdate market event with
      | none => s
      | some update => broadcastUpdate s event.symbol ref update
    else startInit s event ref
  else if book.updateId = 1 then
    { s with toFeedState := s.toFeedState.pushInit event.symbol (buildUpdate market event) }
  else if succU64 book.updateId < event.firstUpdateId ∨
      event.lastUpdateId < succU64 book.updateId then
    { s with toFeedState := s.toFeedState.setBook ref OrderBook.empty }
  else
    match buildUpdate market event with
    | none => s
    | some update => broadcastUpdate s event.symbol ref update

/-- Handle a message; `none` stands for a text that is not JSON. -/
def handleMessage (market : MarketType) (s : GateState D) (text : Option Value) : GateState D :=
  match text.bind readEvent with
  | none => s
  | some event =>
    match s.subscribed event.symbol with
    | none => s
    | some ref => handleEvent market s event ref

/-- One step of the sub-client; nothing happens after the process was aborted. -/
def gateStep (market : MarketType) (s : GateState D) (action : FeedAction D) :
    Option (GateState D) :=
  if s.aborted then none
  else
    match action with
    | .message text => some (handleMessage market s text)
    | .depth i response => resumeTask s i (some response)
    | .wake i => resumeTask s i none
    | .watch symbol waiter subscribes sends =>
      some { s with toFeedState := s.toFeedState.watch symbol waiter subscribes sends }
    | .unwatch symbol unsubscribes =>
      some { s with toFeedState := s.toFeedState.unwatch symbol unsubscribes }
    | .fail => some { s with toFeedState := s.toFeedState.onFail }
    | .resume k => (s.toFeedState.resume k).map fun feed => { s with toFeedState := feed }

end Arbexpert.Gate
