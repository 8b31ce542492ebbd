import Arbexpert.Base.Feed

/-!
# The Binance message handler

The handler has the phases of the Gate one, without full events and without a
history of bids. A live event must continue the book: on the spot market by its
first id, on the futures market by the id of the event before it. The replay of the
buffer after a snapshot applies every update without such a test.
-/

namespace Arbexpert.Binance

open Arbexpert.Base

variable {D : Type*}

/-- The fields of an event that are read before its levels. -/
structure BinanceEvent where
  symbol : String
  lastUpdateId : ℕ
  firstUpdateId : ℕ
  parsed : Value

/-- The id of the event before this one, on the futures market. -/
def BinanceEvent.previousId (event : BinanceEvent) : Option ℕ := (event.parsed.field "pu").asU64

/-- Read the fields of a message; `none` when one is missing or has another type. -/
def readEvent (parsed : Value) : Option BinanceEvent := do
  let symbol ← (parsed.field "s").asStr
  let lastUpdateId ← (parsed.field "u").asU64
  let firstUpdateId ← (parsed.field "U").asU64
  pure { symbol, lastUpdateId, firstUpdateId, parsed }

section Levels

variable [DecimalText D]

/-- Read one level of an event: two strings. -/
def parseEntry (entry : Value) : Option (D × D) := do
  let price ← (entry.item 0).asStr.bind DecimalText.parse
  let quantity ← (entry.item 1).asStr.bind DecimalText.parse
  pure (price, quantity)

/-- Read the levels of one side of an event. -/
def parseSide (side : Value) : Option (List (D × D)) :=
  side.asArray.bind fun entries => entries.mapM parseEntry

/-- Read the update of an event; `none` when a level is malformed. -/
def buildUpdate (event : BinanceEvent) : Option (OrderBookUpdate D) := do
  let asks ← parseSide (event.parsed.field "a")
  let bids ← parseSide (event.parsed.field "b")
  pure
    { asks
      bids
      lastUpdateId := event.lastUpdateId
      firstUpdateId := event.firstUpdateId
      full := false }

/-- The last id of an event fits its type. -/
theorem readEvent_last_lt {parsed : Value} {event : BinanceEvent}
    (h : readEvent parsed = some event) : event.lastUpdateId < 2 ^ 64 := by
  simp only [readEvent, Option.pure_def, Option.bind_eq_bind, Option.bind_eq_some_iff,
    Option.some.injEq] at h
  obtain ⟨_, _, last, hlast, _, _, rfl⟩ := h
  exact Value.asU64_lt hlast

/-- The update of an event carries its ids, and is never full. -/
theorem buildUpdate_fields {event : BinanceEvent} {update : OrderBookUpdate D}
    (h : buildUpdate event = some update) : update.firstUpdateId = event.firstUpdateId ∧
      update.lastUpdateId = event.lastUpdateId ∧ update.full = false := by
  simp only [buildUpdate, Option.pure_def, Option.bind_eq_bind, Option.bind_eq_some_iff,
    Option.some.injEq] at h
  obtain ⟨_, _, _, _, rfl⟩ := h
  exact ⟨rfl, rfl, rfl⟩

end Levels

variable [LinearOrder D] [Zero D]

/-- Apply an update to a book and send the book to the pending watchers. -/
def broadcastUpdate (s : FeedState D) (symbol : String) (ref : BookRef)
    (update : OrderBookUpdate D) : FeedState D :=
  (s.setBook ref ((s.books ref).applyUpdate update)).deliver symbol ref

/-- Apply updates one after the other. -/
def applyUpdates (book : OrderBook D) (updates : List (OrderBookUpdate D)) : OrderBook D :=
  updates.foldl OrderBook.applyUpdate book

/-- Install the levels of a snapshot in the book of a task, whose id is kept, and
apply the updates after it. -/
def finishInit (s : FeedState D) (task : InitTask D) (snapshot : OrderBook D)
    (processed : List (OrderBookUpdate D)) : FeedState D :=
  let book := { s.books task.book with asks := snapshot.asks, bids := snapshot.bids }
  s.setBook task.book (applyUpdates book processed)

/-- One attempt to replay the buffer after a snapshot, and the task that is left. -/
def replayAttempt (s : FeedState D) (task : InitTask D) (snapshot : OrderBook D)
    (retries : ℕ) : FeedState D × Option (InitTask D) :=
  let (s, outcome) := s.replayAttempt task snapshot retries
  match outcome with
  | .ended => (s, none)
  | .sleeping task => (s, some task)
  | .replay processed => (finishInit s task snapshot processed, none)

/-- Start an initialisation: buffer from now on, and fetch a snapshot that is not
older than the event. No request is made for an event whose first id is zero. -/
def startInit (s : FeedState D) (event : BinanceEvent) (ref : BookRef) : FeedState D :=
  let s := (s.setUpdateId ref 1).openInit event.symbol
  let task : InitTask D := ⟨event.symbol, ref, .fetching event.firstUpdateId 0⟩
  if 0 < event.firstUpdateId then s.addTask task
  else
    let (s, next) := replayAttempt s task OrderBook.empty 0
    match next with
    | none => s
    | some task => s.addTask task

/-- A response of the snapshot request of a task; `none` is a failed request or a
malformed body. A snapshot that is too old is requested again, without a bound. -/
def depthResponse (s : FeedState D) (task : InitTask D) (initialEventU retries : ℕ)
    (response : Option (DepthSnapshot D)) : FeedState D × Option (InitTask D) :=
  match response with
  | none => (s.setUpdateId task.book 0, none)
  | some snapshot =>
    if snapshot.id < initialEventU then
      (s, some { task with stage := .fetching initialEventU (retries + 1) })
    else replayAttempt s task snapshot.book 0

/-- Continue a suspended task: in the fetch with a response, in its sleep without. -/
def resumeTask (s : FeedState D) (i : ℕ) (response : Option (Option (DepthSnapshot D))) :
    Option (FeedState D) :=
  match s.tasks[i]? with
  | none => none
  | some task =>
    match task.stage, response with
    | .fetching initialEventU retries, some response =>
      let (s, next) := depthResponse s task initialEventU retries response
      some (s.setTask i next)
    | .replaying snapshot retries, none =>
      let (s, next) := replayAttempt s task snapshot retries
      some (s.setTask i next)
    | _, _ => none

/-- How a suspended task is continued: in the fetch by a response, in its sleep by the end of it. -/
inductive Resumes (s : FeedState D) (i : ℕ) :
    Option (Option (DepthSnapshot D)) → FeedState D → Prop
  | fetched {task : InitTask D} {initialEventU retries : ℕ} (response : Option (DepthSnapshot D))
      (htask : s.tasks[i]? = some task) (hstage : task.stage = .fetching initialEventU retries) :
      Resumes s i (some response)
        ((depthResponse s task initialEventU retries response).1.setTask i
          (depthResponse s task initialEventU retries response).2)
  | woke {task : InitTask D} {snapshot : OrderBook D} {retries : ℕ}
      (htask : s.tasks[i]? = some task) (hstage : task.stage = .replaying snapshot retries) :
      Resumes s i none
        ((replayAttempt s task snapshot retries).1.setTask i
          (replayAttempt s task snapshot retries).2)

/-- A task is continued in one of these ways. -/
theorem resumes_of_resumeTask {s t : FeedState D} {i : ℕ}
    {response : Option (Option (DepthSnapshot D))} (h : resumeTask s i response = some t) :
    Resumes s i response t := by
  unfold resumeTask at h
  split at h
  · cases h
  · rename_i task htask
    split at h
    · rename_i hstage
      cases h
      exact .fetched _ htask hstage
    · rename_i hstage
      cases h
      exact .woke htask hstage
    · cases h

variable [DecimalText D]

/-- The event continues a synchronised book. `none` when the id of the event before
it is needed and missing. -/
def continues (market : MarketType) (book : OrderBook D) (event : BinanceEvent) : Option Bool :=
  match market with
  | .spot => some (decide (event.firstUpdateId ≤ succU64 book.updateId ∧
      succU64 book.updateId ≤ event.lastUpdateId))
  | .future => event.previousId.map fun previousId => decide (previousId = book.updateId)

/-- Handle an event for a subscribed book. -/
def handleEvent (market : MarketType) (s : FeedState D) (event : BinanceEvent) (ref : BookRef) :
    FeedState D :=
  let book := s.books ref
  if book.updateId = 0 then startInit s event ref
  else if book.updateId = 1 then s.pushInit event.symbol (buildUpdate event)
  else
    match continues market book event with
    | none => s
    | some false => s.setBook ref OrderBook.empty
    | some true =>
      match buildUpdate event with
      | none => s
      | some update => broadcastUpdate s event.symbol ref update

/-- Handle a message; `none` stands for a text that is not JSON. -/
def handleMessage (market : MarketType) (s : FeedState D) (text : Option Value) : FeedState D :=
  match text.bind readEvent with
  | none => s
  | some event =>
    match s.subscribed event.symbol with
    | none => s
    | some ref => handleEvent market s event ref

/-- One step of the sub-client; nothing happens after the process was aborted. -/
def binanceStep (market : MarketType) (s : FeedState D) (action : FeedAction D) :
    Option (FeedState D) :=
  if s.aborted then none
  else
    match action with
    | .message text => some (handleMessage market s text)
    | .depth i response => resumeTask s i (some response)
    | .wake i => resumeTask s i none
    | .watch symbol waiter subscribes sends => some (s.watch symbol waiter subscribes sends)
    | .unwatch symbol unsubscribes => some (s.unwatch symbol unsubscribes)
    | .fail => some s.onFail
    | .resume k => s.resume k

end Arbexpert.Binance
