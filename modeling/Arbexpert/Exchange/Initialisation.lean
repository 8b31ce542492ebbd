import Arbexpert.Base.Initialisation
import Arbexpert.Base.Tasks
import Arbexpert.Binance.Handler
import Arbexpert.Gate.Handler

/-!
# Initialisations on Gate and Binance

Both clients request a snapshot that is not older than the first id of the event that starts an
initialisation. The event itself is not buffered, so a snapshot inside its range is accepted, and
then no buffered event continues it.
-/

namespace Arbexpert.Gate

open Arbexpert.Base RangeLog

variable {D : Type*} [LinearOrder D] [Zero D]

/-- A replay without a gap leaves the id of the last update. -/
theorem replayUpdates_continues {updates : List (OrderBookUpdate D)} {book : OrderBook D}
    {seen : Finset D} (h : Continues OrderBookUpdate.firstUpdateId OrderBookUpdate.lastUpdateId
      book.updateId updates) (hlt : ∀ update ∈ updates, update.lastUpdateId < 2 ^ 64) :
    (replayUpdates updates book seen).1.updateId =
      lastAfter OrderBookUpdate.lastUpdateId book.updateId updates := by
  induction updates generalizing book seen with
  | nil => rfl
  | cons update rest ih =>
    obtain ⟨hfirst, hlast, hrest⟩ := h
    have hword := hlt update List.mem_cons_self
    have hsucc : succU64 book.updateId = book.updateId + 1 := succU64_of_lt (by omega)
    have hid : (book.applyUpdate update).updateId = update.lastUpdateId :=
      updateId_applyUpdate book (by omega)
    rw [replayUpdates, hsucc, if_neg (by omega), lastAfter_cons, ← hid]
    rw [← hid] at hrest
    exact ih hrest fun other hother => hlt other (List.mem_cons_of_mem _ hother)

/-- An attempt to replay the buffer, with the handler that it leaves put back. -/
theorem attempted_replayAttempt (s : GateState D) (task : InitTask D)
    (others : List (InitTask D)) {buffer : List (OrderBookUpdate D)}
    (hrunning : s.aborted = false) (hsubscribed : s.subscribed task.symbol = some task.book)
    (hid : (s.books task.book).updateId = 1) (hinit : s.init task.symbol = some buffer)
    (snapshot : OrderBook D) (retries : ℕ) : FeedState.Attempted
      { (replayAttempt s task snapshot retries).1.toFeedState with
        tasks := others ++ (replayAttempt s task snapshot retries).2.toList }
      task.symbol task.book others buffer snapshot retries := by
  have hattempt := FeedState.attempted_replayAttempt others hrunning hsubscribed hid
    hinit snapshot retries
  unfold replayAttempt
  split
  rename_i feed outcome heq
  rw [heq] at hattempt
  cases outcome with
  | ended => simpa using hattempt
  | sleeping next => simpa using hattempt
  | replay processed =>
    refine hattempt.2 _ (by simp) fun hcontinues hlt => ?_
    simp [finishInit, FeedState.setBook, replayUpdates_continues hcontinues hlt]

/-- An attempt to replay the buffer leaves the suspended handlers alone. -/
theorem tasks_replayAttempt (s : GateState D) (task : InitTask D) (snapshot : OrderBook D)
    (retries : ℕ) : (replayAttempt s task snapshot retries).1.tasks = s.tasks := by
  have htasks := (s.toFeedState.taskStep_replayAttempt task snapshot retries).2.tasks
  unfold replayAttempt
  split
  rename_i feed outcome heq
  rw [heq] at htasks
  cases outcome <;> exact htasks

/-- A suspended handler makes an attempt. -/
theorem Initialising.attempted {s : GateState D} {symbol : String} {ref : BookRef}
    {others : List (InitTask D)} {stage : Stage D} {buffer : List (OrderBookUpdate D)}
    (h : s.Initialising symbol ref others stage buffer) (snapshot : OrderBook D) (retries : ℕ) :
    FeedState.Attempted ((replayAttempt s ⟨symbol, ref, stage⟩ snapshot retries).1.setTask
        others.length (replayAttempt s ⟨symbol, ref, stage⟩ snapshot retries).2)
      symbol ref others buffer snapshot retries := by
  rw [FeedState.setTask_last ((tasks_replayAttempt ..).trans h.tasks)]
  exact attempted_replayAttempt s ⟨symbol, ref, stage⟩ others h.running h.subscribed h.updateId
    h.init snapshot retries

/-- The start of an initialisation suspends a handler that requests a snapshot. When the first id
is zero, it makes an attempt with an empty book instead. -/
theorem opens_startInit {s : GateState D} {event : GateEvent} {ref : BookRef}
    (hrunning : s.aborted = false) (hsubscribed : s.subscribed event.symbol = some ref) :
    if 0 < event.firstUpdateId then
      (startInit s event ref).toFeedState.Initialising event.symbol ref s.tasks
        (.fetching event.firstUpdateId 0) ((s.init event.symbol).getD [])
    else (startInit s event ref).toFeedState.Attempted event.symbol ref s.tasks
      ((s.init event.symbol).getD []) OrderBook.empty 0 := by
  have hopened := FeedState.Initialising.opened hrunning hsubscribed
    (.fetching event.firstUpdateId 0)
  unfold startInit
  split
  · exact hopened
  · have hattempt := attempted_replayAttempt
      ⟨(s.toFeedState.setUpdateId ref 1).openInit event.symbol, s.history⟩
      ⟨event.symbol, ref, .fetching event.firstUpdateId 0⟩ s.tasks hopened.running
      hopened.subscribed hopened.updateId hopened.init OrderBook.empty 0
    have htasks := tasks_replayAttempt
      ⟨(s.toFeedState.setUpdateId ref 1).openInit event.symbol, s.history⟩
      ⟨event.symbol, ref, .fetching event.firstUpdateId 0⟩ OrderBook.empty 0
    have hadded := hattempt.addTask htasks
    dsimp only
    split
    · rename_i hnext
      rw [hnext] at hadded
      exact hadded
    · rename_i next hnext
      rw [hnext] at hadded
      exact hadded

variable [DecimalText D]

/-- The message is an incremental event of the symbol with this update. -/
def GateReads (market : MarketType) (symbol : String) (text : Option Value)
    (update : OrderBookUpdate D) : Prop :=
  ∃ event, text.bind readEvent = some event ∧ event.symbol = symbol ∧ event.full = false ∧
    buildUpdate market event = some update

/-- The initialisations of a Gate client; five requests are made at most. -/
def gateClient (D : Type*) [LinearOrder D] [Zero D] [DecimalText D] (market : MarketType) :
    DepthClient (GateState D) D where
  step := gateStep market
  feed := GateState.toFeedState
  reads := GateReads market
  again retries := retries + 1 < 5

/-- Messages with an event for a subscribed book. -/
theorem gateStep_event {market : MarketType} {s : GateState D} {ref : BookRef}
    {text : Option Value} {event : GateEvent} (hrunning : s.aborted = false)
    (hsubscribed : s.subscribed event.symbol = some ref)
    (hevent : text.bind readEvent = some event) :
    gateStep market s (.message text) = some (handleEvent market s event ref) := by
  simp [gateStep, hrunning, handleMessage, hevent, hsubscribed]

/-- Gate clients initialise books as described. -/
theorem gateClient_lawful (market : MarketType) (symbol : String) :
    (gateClient D market).Lawful symbol where
  reads_lt := by
    rintro text update ⟨event, hevent, -, -, hupdate⟩
    obtain ⟨parsed, -, hread⟩ := Option.bind_eq_some_iff.mp hevent
    rw [(buildUpdate_fields hupdate).2.1]
    exact readEvent_last_lt hread
  trigger := by
    rintro s ref text update hrunning hsubscribed hid ⟨event, hevent, rfl, hfull, hupdate⟩
    refine ⟨_, gateStep_event hrunning hsubscribed hevent, ?_⟩
    have hstart : handleEvent market s event ref = startInit s event ref := by
      simp only [handleEvent, show (s.books ref).updateId = 0 from hid, hfull, if_true,
        Bool.false_eq_true, if_false]
    rw [hstart, (buildUpdate_fields hupdate).1]
    exact opens_startInit hrunning hsubscribed
  message := by
    rintro s ref others stage buffer text update hs ⟨event, hevent, rfl, hfull, hupdate⟩
    refine ⟨_, gateStep_event hs.running hs.subscribed hevent, ?_⟩
    have hone : (s.books ref).updateId = 1 := hs.updateId
    have hpush : handleEvent market s event ref =
        { s with toFeedState := s.toFeedState.pushInit event.symbol (some update) } := by
      simp [handleEvent, hone, hupdate]
    rw [hpush]
    exact hs.pushInit update
  old := by
    intro s ref others first retries buffer snapshot hs hold hagain
    have hagain : ¬retries + 1 = 5 := Nat.ne_of_lt hagain
    have hrunning : s.aborted = false := hs.running
    have htask : s.tasks[others.length]? = _ := hs.getElem?_tasks
    refine ⟨⟨s.toFeedState.setTask others.length
      (some ⟨symbol, ref, .fetching first (retries + 1)⟩), s.history⟩, ?_, hs.setTask _⟩
    simp [gateClient, gateStep, hrunning, resumeTask, htask, depthResponse, hold, hagain]
  accepted := by
    intro s ref others first retries buffer snapshot hs hle
    have hrunning : s.aborted = false := hs.running
    have htask : s.tasks[others.length]? = _ := hs.getElem?_tasks
    let attempt := replayAttempt s ⟨symbol, ref, .fetching first retries⟩ snapshot.book 0
    refine ⟨⟨attempt.1.toFeedState.setTask others.length attempt.2, attempt.1.history⟩, ?_,
      Initialising.attempted hs snapshot.book 0⟩
    simp [gateClient, gateStep, hrunning, resumeTask, htask, depthResponse, Nat.not_lt.mpr hle,
      attempt]
  wake := by
    intro s ref others snapshot retries buffer hs
    have hrunning : s.aborted = false := hs.running
    have htask : s.tasks[others.length]? = _ := hs.getElem?_tasks
    let attempt := replayAttempt s ⟨symbol, ref, .replaying snapshot retries⟩ snapshot retries
    refine ⟨⟨attempt.1.toFeedState.setTask others.length attempt.2, attempt.1.history⟩, ?_,
      Initialising.attempted hs snapshot retries⟩
    simp [gateClient, gateStep, hrunning, resumeTask, htask, attempt]

end Arbexpert.Gate

namespace Arbexpert.Binance

open Arbexpert.Base RangeLog

variable {D : Type*} [LinearOrder D] [Zero D]

/-- Updates with ids leave the id of the last one. -/
theorem applyUpdates_continues {updates : List (OrderBookUpdate D)} {book : OrderBook D} {n : ℕ}
    (h : Continues OrderBookUpdate.firstUpdateId OrderBookUpdate.lastUpdateId n updates) :
    (applyUpdates book updates).updateId =
      lastAfter OrderBookUpdate.lastUpdateId book.updateId updates := by
  induction updates generalizing book n with
  | nil => rfl
  | cons update rest ih =>
    obtain ⟨-, hlast, hrest⟩ := h
    have hid : (book.applyUpdate update).updateId = update.lastUpdateId :=
      updateId_applyUpdate book (by omega)
    rw [lastAfter_cons, ← hid]
    exact ih hrest

/-- An attempt to replay the buffer, with the handler that it leaves put back. -/
theorem attempted_replayAttempt (s : FeedState D) (task : InitTask D)
    (others : List (InitTask D)) {buffer : List (OrderBookUpdate D)}
    (hrunning : s.aborted = false) (hsubscribed : s.subscribed task.symbol = some task.book)
    (hid : (s.books task.book).updateId = 1) (hinit : s.init task.symbol = some buffer)
    (snapshot : OrderBook D) (retries : ℕ) : FeedState.Attempted
      { (replayAttempt s task snapshot retries).1 with
        tasks := others ++ (replayAttempt s task snapshot retries).2.toList }
      task.symbol task.book others buffer snapshot retries := by
  have hattempt := FeedState.attempted_replayAttempt others hrunning hsubscribed hid hinit
    snapshot retries
  unfold replayAttempt
  split
  rename_i feed outcome heq
  rw [heq] at hattempt
  cases outcome with
  | ended => simpa using hattempt
  | sleeping next => simpa using hattempt
  | replay processed =>
    obtain ⟨hne, hresult⟩ := hattempt
    refine hresult _ (by simp) fun hcontinues _ => ?_
    obtain ⟨update, rest, rfl⟩ := List.exists_cons_of_ne_nil hne
    simp [finishInit, FeedState.setBook, applyUpdates_continues hcontinues]

/-- An attempt to replay the buffer leaves the suspended handlers alone. -/
theorem tasks_replayAttempt (s : FeedState D) (task : InitTask D) (snapshot : OrderBook D)
    (retries : ℕ) : (replayAttempt s task snapshot retries).1.tasks = s.tasks := by
  have htasks := (s.taskStep_replayAttempt task snapshot retries).2.tasks
  unfold replayAttempt
  split
  rename_i feed outcome heq
  rw [heq] at htasks
  cases outcome <;> exact htasks

/-- A suspended handler makes an attempt. -/
theorem Initialising.attempted {s : FeedState D} {symbol : String} {ref : BookRef}
    {others : List (InitTask D)} {stage : Stage D} {buffer : List (OrderBookUpdate D)}
    (h : s.Initialising symbol ref others stage buffer) (snapshot : OrderBook D) (retries : ℕ) :
    FeedState.Attempted ((replayAttempt s ⟨symbol, ref, stage⟩ snapshot retries).1.setTask
        others.length (replayAttempt s ⟨symbol, ref, stage⟩ snapshot retries).2)
      symbol ref others buffer snapshot retries := by
  rw [FeedState.setTask_last ((tasks_replayAttempt ..).trans h.tasks)]
  exact attempted_replayAttempt s ⟨symbol, ref, stage⟩ others h.running h.subscribed h.updateId
    h.init snapshot retries

/-- The start of an initialisation suspends a handler that requests a snapshot. When the first id
is zero, it makes an attempt with an empty book instead. -/
theorem opens_startInit {s : FeedState D} {event : BinanceEvent} {ref : BookRef}
    (hrunning : s.aborted = false) (hsubscribed : s.subscribed event.symbol = some ref) :
    if 0 < event.firstUpdateId then
      (startInit s event ref).Initialising event.symbol ref s.tasks
        (.fetching event.firstUpdateId 0) ((s.init event.symbol).getD [])
    else (startInit s event ref).Attempted event.symbol ref s.tasks
      ((s.init event.symbol).getD []) OrderBook.empty 0 := by
  have hopened := FeedState.Initialising.opened hrunning hsubscribed
    (.fetching event.firstUpdateId 0)
  unfold startInit
  split
  · exact hopened
  · have hattempt := attempted_replayAttempt ((s.setUpdateId ref 1).openInit event.symbol)
      ⟨event.symbol, ref, .fetching event.firstUpdateId 0⟩ s.tasks hopened.running
      hopened.subscribed hopened.updateId hopened.init OrderBook.empty 0
    have hadded := hattempt.addTask (tasks_replayAttempt ..)
    dsimp only
    split
    · rename_i hnext
      rw [hnext] at hadded
      exact hadded
    · rename_i next hnext
      rw [hnext] at hadded
      exact hadded

variable [DecimalText D]

/-- The message is an event of the symbol with this update. -/
def BinanceReads (symbol : String) (text : Option Value) (update : OrderBookUpdate D) : Prop :=
  ∃ event, text.bind readEvent = some event ∧ event.symbol = symbol ∧
    buildUpdate event = some update

/-- The initialisations of a Binance client, which requests a snapshot until it is new enough. -/
def binanceClient (D : Type*) [LinearOrder D] [Zero D] [DecimalText D] (market : MarketType) :
    DepthClient (FeedState D) D where
  step := binanceStep market
  feed := id
  reads := BinanceReads
  again _ := True

/-- Messages with an event for a subscribed book. -/
theorem binanceStep_event {market : MarketType} {s : FeedState D} {ref : BookRef}
    {text : Option Value} {event : BinanceEvent} (hrunning : s.aborted = false)
    (hsubscribed : s.subscribed event.symbol = some ref)
    (hevent : text.bind readEvent = some event) :
    binanceStep market s (.message text) = some (handleEvent market s event ref) := by
  simp [binanceStep, hrunning, handleMessage, hevent, hsubscribed]

/-- Binance clients initialise books as described. -/
theorem binanceClient_lawful (market : MarketType) (symbol : String) :
    (binanceClient D market).Lawful symbol where
  reads_lt := by
    rintro text update ⟨event, hevent, -, hupdate⟩
    obtain ⟨parsed, -, hread⟩ := Option.bind_eq_some_iff.mp hevent
    rw [(buildUpdate_fields hupdate).2.1]
    exact readEvent_last_lt hread
  trigger := by
    rintro s ref text update hrunning hsubscribed hid ⟨event, hevent, rfl, hupdate⟩
    refine ⟨_, binanceStep_event hrunning hsubscribed hevent, ?_⟩
    have hstart : handleEvent market s event ref = startInit s event ref := by
      simp only [handleEvent, show (s.books ref).updateId = 0 from hid, if_true]
    rw [hstart, (buildUpdate_fields hupdate).1]
    exact opens_startInit hrunning hsubscribed
  message := by
    rintro s ref others stage buffer text update hs ⟨event, hevent, rfl, hupdate⟩
    refine ⟨_, binanceStep_event hs.running hs.subscribed hevent, ?_⟩
    have hone : (s.books ref).updateId = 1 := hs.updateId
    have hpush : handleEvent market s event ref = s.pushInit event.symbol (some update) := by
      simp [handleEvent, hone, hupdate]
    rw [hpush]
    exact hs.pushInit update
  old := by
    intro s ref others first retries buffer snapshot hs hold _
    have hrunning : s.aborted = false := hs.running
    have htask : s.tasks[others.length]? = _ := hs.getElem?_tasks
    refine ⟨s.setTask others.length (some ⟨symbol, ref, .fetching first (retries + 1)⟩), ?_,
      hs.setTask _⟩
    simp [binanceClient, binanceStep, hrunning, resumeTask, htask, depthResponse, hold]
  accepted := by
    intro s ref others first retries buffer snapshot hs hle
    have hrunning : s.aborted = false := hs.running
    have htask : s.tasks[others.length]? = _ := hs.getElem?_tasks
    let attempt := replayAttempt s ⟨symbol, ref, .fetching first retries⟩ snapshot.book 0
    refine ⟨attempt.1.setTask others.length attempt.2, ?_,
      Initialising.attempted hs snapshot.book 0⟩
    simp [binanceClient, binanceStep, hrunning, resumeTask, htask, depthResponse,
      Nat.not_lt.mpr hle, attempt]
  wake := by
    intro s ref others snapshot retries buffer hs
    have hrunning : s.aborted = false := hs.running
    have htask : s.tasks[others.length]? = _ := hs.getElem?_tasks
    let attempt := replayAttempt s ⟨symbol, ref, .replaying snapshot retries⟩ snapshot retries
    refine ⟨attempt.1.setTask others.length attempt.2, ?_,
      Initialising.attempted hs snapshot retries⟩
    simp [binanceClient, binanceStep, hrunning, resumeTask, htask, attempt]

end Arbexpert.Binance

namespace Arbexpert.Exchange

open Arbexpert.Base Arbexpert.Gate Arbexpert.Binance

/-- Among the initialisations of a gap-free stream in which an event that is received continues
the snapshot, on Gate and on the spot market of Binance, exactly those end with the last id
received whose first event ends at the snapshot or before it; the others reset the book. -/
theorem initialisation_endsAtLast_iff {D : Type*} [LinearOrder D] [Zero D] [DecimalText D]
    (market : MarketType) (symbol : String) :
    (∀ init : Initialisation (gateClient D market) symbol, init.Continued →
      (init.EndsAtLast ↔ init.trigger.lastUpdateId ≤ init.snapshotId) ∧
        (init.snapshotId < init.trigger.lastUpdateId → init.EndsAt fun _ => 0)) ∧
    ∀ init : Initialisation (binanceClient D .spot) symbol, init.Continued →
      (init.EndsAtLast ↔ init.trigger.lastUpdateId ≤ init.snapshotId) ∧
        (init.snapshotId < init.trigger.lastUpdateId → init.EndsAt fun _ => 0) :=
  ⟨fun init => init.endsAtLast_iff (gateClient_lawful market symbol),
    fun init => init.endsAtLast_iff (binanceClient_lawful .spot symbol)⟩

/-- The message of an incremental event without levels. -/
def levellessMessage (first last : Fin (2 ^ 64)) : Option Value :=
  some (.object [("result", .object [("s", .string "BTC_USDT"), ("U", .number (.posInt first)),
    ("u", .number (.posInt last)), ("a", .array []), ("b", .array [])])])

/-- An event with the ids 1 to 3 starts an initialisation, and event 4 is buffered before the
snapshot arrives. -/
def threeThenFour (snapshot : DepthSnapshot ℕ) (hle : 1 ≤ snapshot.id) :
    Initialisation (gateClient ℕ .spot) "BTC_USDT" where
  start := ⟨FeedState.start.watch "BTC_USDT" 0 true true, fun _ => ∅⟩
  ref := ("BTC_USDT", 0)
  running := rfl
  subscribed := rfl
  updateId := rfl
  text := levellessMessage 1 3
  trigger := ⟨[], [], 1, 3, false⟩
  reads := ⟨_, rfl, rfl, rfl, rfl⟩
  ordered := by decide
  older := nofun
  requests := [.message (levellessMessage 4 4), .depth 0 (some snapshot)]
  fetched := [⟨[], [], 4, 4, false⟩]
  snapshotId := snapshot.id
  opening := .message (by decide) ⟨_, rfl, rfl, rfl, rfl⟩ (.accepted (by decide) hle)
  rounds := [[], [], [], [], []]
  length_rounds := rfl
  reads_rounds := by simp
  gapFree := ⟨rfl, Nat.le_refl 4, trivial⟩

/-- With the snapshot after write 3, the book ends with id 4. -/
theorem threeThenFour_endsAtLast :
    (threeThenFour ⟨3, [], [], by decide⟩ (by decide)).EndsAtLast := by
  have hcontinued : (threeThenFour ⟨3, [], [], by decide⟩ (by decide)).Continued :=
    ⟨⟨[], [], 4, 4, false⟩, by simp [Initialisation.received, threeThenFour], Nat.le_refl 4,
      Nat.le_refl 4⟩
  exact ((initialisation_endsAtLast_iff .spot "BTC_USDT").1 _ hcontinued).1.mpr (Nat.le_refl 3)

/-- With the snapshot after write 2, the event with write 3 was received, but it is not in the
buffer. -/
theorem first_event_wasted : ¬∀ init : Initialisation (gateClient ℕ .spot) "BTC_USDT",
    init.Continued → init.EndsAtLast := by
  intro hclaim
  let init := threeThenFour ⟨2, [], [], by decide⟩ (by decide)
  have hcontinued : init.Continued :=
    ⟨⟨[], [], 1, 3, false⟩, List.mem_cons_self, by decide, Nat.le_refl 3⟩
  have hle := (init.endsAtLast_iff (gateClient_lawful .spot _) hcontinued).1.mp
    (hclaim init hcontinued)
  exact absurd hle (by decide)

end Arbexpert.Exchange
