import Arbexpert.Base.Recovery
import Arbexpert.Binance.Symbols
import Arbexpert.Exchange.Phases
import Arbexpert.Exchange.Requests
import Arbexpert.Gate.Symbols

/-!
# Which calls can still be served on Gate and Binance

On both exchanges an event that does not continue a synchronised book resets it, a failed snapshot
request resets the book of its handler, and a sleeping handler gives up in the end. From there a
full event of Gate, or an initialisation of Binance and one more event, serves the calls that wait.
-/

namespace Arbexpert.Gate

open Arbexpert.Base

variable {D : Type*} [LinearOrder D] [Zero D] {s t : GateState D} {symbol : String} {ref : BookRef}
  {senders : List Sender}

/-- An attempt to replay the buffer hands out nothing. -/
theorem quiet_replayAttempt (s : GateState D) (task : InitTask D) (snapshot : OrderBook D)
    (retries : ℕ) : s.Quiet (replayAttempt s task snapshot retries).1.toFeedState := by
  have hquiet := s.toFeedState.quiet_replayAttempt task snapshot retries
  unfold replayAttempt
  split
  rename_i feed outcome heq
  rw [heq] at hquiet
  cases outcome with
  | ended => exact hquiet
  | sleeping next => exact hquiet
  | replay processed => exact hquiet.setBook _ _

/-- A response hands out nothing. -/
theorem quiet_depthResponse (s : GateState D) (task : InitTask D) (initialEventU retries : ℕ)
    (response : Option (DepthSnapshot D)) :
    s.Quiet (depthResponse s task initialEventU retries response).1.toFeedState := by
  unfold depthResponse
  split
  · exact (FeedState.Quiet.refl _).setBook _ _
  · split
    · split
      · exact (FeedState.Quiet.refl _).setBook _ _
      · exact .refl _
    · exact quiet_replayAttempt s task _ 0

/-- A handler that continues hands out nothing. -/
theorem quiet_resumeTask {i : ℕ} {response : Option (Option (DepthSnapshot D))}
    (hresume : resumeTask s i response = some t) : s.Quiet t.toFeedState := by
  cases resumes_of_resumeTask hresume with
  | fetched response htask hstage => exact (quiet_depthResponse s _ _ _ response).setTask i _
  | woke htask hstage => exact (quiet_replayAttempt s _ _ _).setTask i _

/-- A handler that sleeps makes an attempt when it wakes up. -/
theorem wakesUp_replayAttempt {task : InitTask D} (h : (s.init task.symbol).isSome)
    (snapshot : OrderBook D) (retries : ℕ) : ∃ label, s.WakesUp task snapshot retries
      (replayAttempt s task snapshot retries).1.toFeedState
      (replayAttempt s task snapshot retries).2 label := by
  refine ⟨_, runsOn_replayAttempt task h snapshot retries, stage_replayAttempt, ?_⟩
  intro n hlabel
  obtain ⟨application, happlied, hpair⟩ := Option.map_eq_some_iff.mp hlabel
  obtain ⟨-, hreplay⟩ := Option.ite_none_left_eq_some.mp happlied
  obtain ⟨hreplayed, rfl⟩ :=
    FeedState.replayApplication_eq_some (Option.filter_eq_some_iff.mp hreplay).1
  cases hpair
  exact ⟨hreplayed, _, rfl⟩

variable [DecimalText D]

/-- The calls for a stuck book wait on, whatever message arrives. -/
theorem waits_handleMessage {market : MarketType} {text : Option Value} (hs : s.Named)
    (hstuck : s.Stuck ref) (hwaits : s.Waits symbol ref senders) :
    (handleMessage market s text).Waits symbol ref senders := by
  cases hevent : text.bind readEvent with
  | none =>
    simp only [handleMessage, hevent]
    exact hwaits
  | some event =>
    by_cases hname : event.symbol = symbol
    · subst hname
      have hzero : (s.books ref).updateId ≠ 0 := hstuck.1.trans_ne Nat.one_ne_zero
      simp only [handleMessage, hevent, hwaits.subscribed, handleEvent, if_neg hzero,
        if_pos hstuck.1]
      exact hwaits.quiet (FeedState.quiet_pushInit _ _ _)
    · exact hwaits.confined (confined_handleMessage hs hevent).feed hname

/-- The calls for a stuck book wait on, while the connection stays up and the symbol stays
watched. -/
theorem waits_gateStep {market : MarketType} {action : FeedAction D} (hs : s.Named)
    (hstuck : s.Stuck ref) (hwaits : s.Waits symbol ref senders) (hstays : action.Stays symbol)
    (hstep : gateStep market s action = some t) : t.Waits symbol ref senders := by
  unfold gateStep at hstep
  split at hstep
  · cases hstep
  cases action with
  | message text =>
    cases hstep
    exact waits_handleMessage hs hstuck hwaits
  | depth i response => exact hwaits.quiet (quiet_resumeTask hstep)
  | wake i => exact hwaits.quiet (quiet_resumeTask hstep)
  | watch name waiter subscribes sends =>
    cases hstep
    exact hwaits.watch name waiter subscribes sends
  | unwatch name unsubscribes =>
    cases hstep
    exact hwaits.confined (.unwatch unsubscribes) hstays
  | fail => exact hstays.elim
  | resume k =>
    obtain ⟨feed, hfeed, rfl⟩ := Option.map_eq_some_iff.mp hstep
    exact hwaits.resume hfeed

/-- The body of an event with the same levels on both sides. -/
def eventResult (symbol : String) (first last : Fin (2 ^ 64)) (full : Bool)
    (levels : List Value) : Value :=
  .object [("full", .bool full), ("s", .string symbol), ("U", .number (.posInt first)),
    ("u", .number (.posInt last)), ("a", .array levels), ("b", .array levels)]

/-- The text of the event. -/
def eventText (symbol : String) (first last : Fin (2 ^ 64)) (full : Bool) (levels : List Value) :
    Option Value :=
  some (.object [("result", eventResult symbol first last full levels)])

omit [LinearOrder D] [Zero D] in
/-- The update of the event. -/
theorem buildUpdate_eventResult {market : MarketType} {levels : List Value}
    {parsed : List (D × D)} (hlevels : levels.mapM (parseEntry market) = some parsed)
    (symbol : String) (first last : Fin (2 ^ 64)) (full : Bool) :
    buildUpdate market
        ⟨symbol, last, first, full, eventResult symbol first last full levels⟩ =
      some ⟨parsed, parsed, first, last, full⟩ := by
  have hasks : parseSide market ((eventResult symbol first last full levels).field "a") =
    some parsed := hlevels
  have hbids : parseSide market ((eventResult symbol first last full levels).field "b") =
    some parsed := hlevels
  simp [buildUpdate, hasks, hbids]

/-- The event of a subscribed book is handled. -/
theorem gateStep_eventText {market : MarketType} (hrunning : s.aborted = false)
    (hsubscribed : s.subscribed symbol = some ref) (first last : Fin (2 ^ 64)) (full : Bool)
    (levels : List Value) :
    gateStep market s (.message (eventText symbol first last full levels)) = some
      (handleEvent market s ⟨symbol, last, first, full, eventResult symbol first last full levels⟩
        ref) :=
  gateStep_event hrunning hsubscribed rfl

/-- An event that continues no book resets a synchronised one. -/
theorem exists_lost (market : MarketType) (hrunning : s.aborted = false)
    (hsubscribed : s.subscribed symbol = some ref) (hid : 2 ≤ (s.books ref).updateId) :
    ∃ text t, gateStep market s (.message text) = some t ∧ s.Quiet t.toFeedState ∧
      (t.books ref).updateId = 0 := by
  have hgap : succU64 (s.books ref).updateId < 2 ^ 64 - 1 ∨
      0 < succU64 (s.books ref).updateId := by omega
  have hreset : handleEvent market s
      ⟨symbol, 0, 2 ^ 64 - 1, false, eventResult symbol ⟨2 ^ 64 - 1, by decide⟩ 0 false []⟩ ref =
        { s with toFeedState := s.toFeedState.setBook ref OrderBook.empty } :=
    (if_neg (by omega)).trans ((if_neg (by omega)).trans (if_pos hgap))
  refine ⟨_, _, gateStep_eventText hrunning hsubscribed ⟨2 ^ 64 - 1, by decide⟩ 0 false [], ?_⟩
  rw [Fin.val_zero, hreset]
  exact ⟨(FeedState.Quiet.refl _).setBook _ _, by simp [FeedState.setBook, OrderBook.empty]⟩

omit [DecimalText D] in
/-- The bid price of a full update with one level is seen. -/
theorem recorded_of_level {update : OrderBookUpdate D} {level : D × D} (hfull : update.full = true)
    (hbids : update.bids = [level]) (hlevel : level.2 ≠ 0) (book : OrderBook D) (seen : Finset D) :
    ∀ price ∈ (book.applyUpdate update).bids.keys,
      OrderDual.ofDual price ∈ recordBids seen update.bids := by
  intro price hprice
  have hkeys : price ∈ (∅ : BTreeMap Dᵒᵈ D).insert (OrderDual.toDual level.1) level.2 := by
    simpa [OrderBook.applyUpdate, setLevels, setLevel, hfull, hbids, hlevel] using
      Finmap.mem_keys.mp hprice
  rcases Finmap.mem_insert.mp hkeys with rfl | hempty
  · simp [recordBids, hbids, hlevel]
  · exact absurd hempty Finmap.notMem_empty

/-- A full event serves the calls that wait for a book that is not synchronised. -/
theorem exists_served {market : MarketType} {entry : Value} {level : D × D}
    (hentry : parseEntry market entry = some level) (hlevel : level.2 ≠ 0)
    (hrunning : s.aborted = false) (hsubscribed : s.subscribed symbol = some ref)
    (hpending : s.pending symbol = some senders) (hid : (s.books ref).updateId = 0) :
    ∃ text t, gateStep market s (.message text) = some t ∧
      s.Served symbol ref senders t.toFeedState := by
  have hlevels : [entry].mapM (parseEntry market) = some [level] := by simp [hentry]
  refine ⟨_, _, gateStep_eventText hrunning hsubscribed 1 2 true [entry], ?_⟩
  simp only [handleEvent, hid, if_true, buildUpdate_eventResult hlevels]
  rw [broadcastUpdate_toFeedState, if_pos (recorded_of_level rfl rfl hlevel _ _)]
  exact .deliver (.refl _) hrunning hpending
    (ready_applyUpdate (Nat.le_refl 2) (keeps_of_level rfl rfl hlevel _))

/-- A failed snapshot request resets the book of its handler. -/
theorem exists_refused (market : MarketType) {i first retries : ℕ} {task : InitTask D}
    (hrunning : s.aborted = false) (htask : s.tasks[i]? = some task)
    (hstage : task.stage = .fetching first retries) :
    ∃ t, gateStep market s (.depth i none) = some t ∧ s.Quiet t.toFeedState ∧
      (t.books task.book).updateId = 0 := by
  refine ⟨⟨(s.toFeedState.setUpdateId task.book 0).setTask i none, s.history⟩, ?_,
    ((FeedState.Quiet.refl _).setBook _ _).setTask i none, ?_⟩
  · simp [gateStep, hrunning, resumeTask, htask, hstage, depthResponse]
  · simp [FeedState.setTask, FeedState.setUpdateId, FeedState.setBook]

/-- An event for a book whose snapshot is being fetched is buffered. -/
theorem exists_buffered (market : MarketType) (hrunning : s.aborted = false)
    (hsubscribed : s.subscribed symbol = some ref) (hid : (s.books ref).updateId = 1) :
    ∃ text update t, gateStep market s (.message text) = some t ∧ 2 ≤ update.lastUpdateId ∧
      t.toFeedState = s.toFeedState.pushInit symbol (some update) := by
  have hlevels : ([] : List Value).mapM (parseEntry (D := D) market) = some [] := rfl
  refine ⟨_, ⟨[], [], (1 : Fin (2 ^ 64)), (2 : Fin (2 ^ 64)), false⟩, _,
    gateStep_eventText hrunning hsubscribed 1 2 false [], Nat.le_refl 2, ?_⟩
  have hzero : (s.books ref).updateId ≠ 0 := hid.trans_ne Nat.one_ne_zero
  simp only [handleEvent, if_neg hzero, if_pos hid, buildUpdate_eventResult hlevels]

/-- A sleeping handler can wake up. -/
theorem exists_woken (market : MarketType) {i retries : ℕ} {task : InitTask D}
    {snapshot : OrderBook D} (hs : s.Buffered) (hrunning : s.aborted = false)
    (htask : s.tasks[i]? = some task) (hstage : task.stage = .replaying snapshot retries) :
    ∃ t feed next label, gateStep market s (.wake i) = some t ∧
      t.toFeedState = feed.setTask i next ∧ s.Quiet feed ∧
        s.WakesUp task snapshot retries feed next label := by
  obtain ⟨label, hwakes⟩ := wakesUp_replayAttempt (hs task (List.mem_of_getElem? htask)) snapshot
    retries
  let attempt := replayAttempt s task snapshot retries
  refine ⟨⟨attempt.1.toFeedState.setTask i attempt.2, attempt.1.history⟩, _, _, label, ?_, rfl,
    quiet_replayAttempt s task snapshot retries, hwakes⟩
  simp [gateStep, hrunning, resumeTask, htask, hstage, attempt]

/-- Every step leaves a sub-client intact. -/
theorem intact_gateStep {market : MarketType} {action : FeedAction D} (hs : s.Intact)
    (hstep : gateStep market s action = some t) : t.Intact :=
  hs.step (gateStep_moves hs.buffered hs.sound hstep) (gateStep_confined hs.named hstep).1
    (gateStep_handlerStep hstep)

/-- A sub-client is intact after every run. -/
theorem intact_of_gateRun {market : MarketType} {actions : List (FeedAction D)}
    (hrun : GuardedRun.exec (gateStep market) gateStart actions = some s) : s.Intact :=
  GuardedRun.invariant_of_exec (I := fun s : GateState D => s.toFeedState.Intact)
    (fun _ _ _ hs hstep => intact_gateStep hs hstep) hrun FeedState.intact_start

/-- What can happen to the calls that wait for a Gate symbol, when the quantity of some level can be
read. -/
theorem gateClient_restorable (market : MarketType) (symbol : String) {entry : Value}
    {level : D × D} (hentry : parseEntry market entry = some level) (hlevel : level.2 ≠ 0) :
    (gateClient D market).Restorable symbol where
  intact hs hstep := intact_gateStep hs hstep
  moves hs hstep := ⟨_, gateStep_moves hs.buffered hs.sound hstep⟩
  waits hs hstuck hwaits hstays hstep := waits_gateStep hs.named hstuck hwaits hstays hstep
  lose hrunning hsubscribed hid := exists_lost market hrunning hsubscribed hid
  refuse hrunning htask hstage := exists_refused market hrunning htask hstage
  buffer hrunning hsubscribed hid := exists_buffered market hrunning hsubscribed hid
  wake hs hrunning htask hstage := exists_woken market hs.buffered hrunning htask hstage
  serve _ hrunning hsubscribed hpending hid := by
    obtain ⟨text, t, ht, hserved⟩ := exists_served hentry hlevel hrunning hsubscribed hpending hid
    exact ⟨t, .single ⟨.message text, trivial, ht⟩, hserved⟩

end Arbexpert.Gate

namespace Arbexpert.Binance

open Arbexpert.Base

variable {D : Type*} [LinearOrder D] [Zero D] {s t : FeedState D} {symbol : String} {ref : BookRef}
  {senders : List Sender}

/-- An attempt to replay the buffer hands out nothing. -/
theorem quiet_replayAttempt (s : FeedState D) (task : InitTask D) (snapshot : OrderBook D)
    (retries : ℕ) : s.Quiet (replayAttempt s task snapshot retries).1 := by
  have hquiet := s.quiet_replayAttempt task snapshot retries
  unfold replayAttempt
  split
  rename_i feed outcome heq
  rw [heq] at hquiet
  cases outcome with
  | ended => exact hquiet
  | sleeping next => exact hquiet
  | replay processed => exact hquiet.setBook _ _

/-- A handler that continues hands out nothing. -/
theorem quiet_resumeTask {i : ℕ} {response : Option (Option (DepthSnapshot D))}
    (hresume : resumeTask s i response = some t) : s.Quiet t := by
  cases resumes_of_resumeTask hresume with
  | @fetched task initialEventU retries response htask hstage =>
    have hquiet : s.Quiet (depthResponse s task initialEventU retries response).1 := by
      unfold depthResponse
      split
      · exact (FeedState.Quiet.refl s).setBook _ _
      · split
        · exact .refl s
        · exact quiet_replayAttempt s task _ 0
    exact hquiet.setTask i _
  | woke htask hstage => exact (quiet_replayAttempt s _ _ _).setTask i _

/-- A handler that sleeps makes an attempt when it wakes up. -/
theorem wakesUp_replayAttempt {task : InitTask D} (h : (s.init task.symbol).isSome)
    (snapshot : OrderBook D) (retries : ℕ) : ∃ label, s.WakesUp task snapshot retries
      (replayAttempt s task snapshot retries).1 (replayAttempt s task snapshot retries).2
      label := by
  refine ⟨_, runsOn_replayAttempt task h snapshot retries, stage_replayAttempt, ?_⟩
  intro n hlabel
  obtain ⟨application, happlied, hpair⟩ := Option.map_eq_some_iff.mp hlabel
  obtain ⟨-, hreplay⟩ := Option.ite_none_left_eq_some.mp happlied
  obtain ⟨hreplayed, rfl⟩ := FeedState.replayApplication_eq_some hreplay
  cases hpair
  exact ⟨hreplayed, _, rfl⟩

variable [DecimalText D]

/-- The calls for a stuck book wait on, whatever message arrives. -/
theorem waits_handleMessage {market : MarketType} {text : Option Value} (hs : s.Named)
    (hstuck : s.Stuck ref) (hwaits : s.Waits symbol ref senders) :
    (handleMessage market s text).Waits symbol ref senders := by
  cases hevent : text.bind readEvent with
  | none =>
    simp only [handleMessage, hevent]
    exact hwaits
  | some event =>
    by_cases hname : event.symbol = symbol
    · subst hname
      have hzero : (s.books ref).updateId ≠ 0 := hstuck.1.trans_ne Nat.one_ne_zero
      simp only [handleMessage, hevent, hwaits.subscribed, handleEvent, if_neg hzero,
        if_pos hstuck.1]
      exact hwaits.quiet (FeedState.quiet_pushInit _ _ _)
    · exact hwaits.confined (confined_handleMessage hs hevent) hname

/-- The calls for a stuck book wait on, while the connection stays up and the symbol stays
watched. -/
theorem waits_binanceStep {market : MarketType} {action : FeedAction D} (hs : s.Named)
    (hstuck : s.Stuck ref) (hwaits : s.Waits symbol ref senders) (hstays : action.Stays symbol)
    (hstep : binanceStep market s action = some t) : t.Waits symbol ref senders := by
  unfold binanceStep at hstep
  split at hstep
  · cases hstep
  cases action with
  | message text =>
    cases hstep
    exact waits_handleMessage hs hstuck hwaits
  | depth i response => exact hwaits.quiet (quiet_resumeTask hstep)
  | wake i => exact hwaits.quiet (quiet_resumeTask hstep)
  | watch name waiter subscribes sends =>
    cases hstep
    exact hwaits.watch name waiter subscribes sends
  | unwatch name unsubscribes =>
    cases hstep
    exact hwaits.confined (.unwatch unsubscribes) hstays
  | fail => exact hstays.elim
  | resume k => exact hwaits.resume hstep

/-- An event with the same levels on both sides, and the id of the event before it. -/
def eventValue (symbol : String) (previous first last : Fin (2 ^ 64)) (levels : List Value) :
    Value :=
  .object [("s", .string symbol), ("U", .number (.posInt first)), ("u", .number (.posInt last)),
    ("pu", .number (.posInt previous)), ("a", .array levels), ("b", .array levels)]

omit [LinearOrder D] [Zero D] in
/-- The update of the event. -/
theorem buildUpdate_eventValue {levels : List Value} {parsed : List (D × D)}
    (hlevels : levels.mapM parseEntry = some parsed) (symbol : String)
    (previous first last : Fin (2 ^ 64)) :
    buildUpdate ⟨symbol, last, first, eventValue symbol previous first last levels⟩ =
      some ⟨parsed, parsed, first, last, false⟩ := by
  have hasks : parseSide ((eventValue symbol previous first last levels).field "a") =
    some parsed := hlevels
  have hbids : parseSide ((eventValue symbol previous first last levels).field "b") =
    some parsed := hlevels
  simp [buildUpdate, hasks, hbids]

/-- The event of a subscribed book is handled. -/
theorem binanceStep_eventValue {market : MarketType} (hrunning : s.aborted = false)
    (hsubscribed : s.subscribed symbol = some ref) (previous first last : Fin (2 ^ 64))
    (levels : List Value) :
    binanceStep market s (.message (some (eventValue symbol previous first last levels))) = some
      (handleEvent market s ⟨symbol, last, first, eventValue symbol previous first last levels⟩
        ref) :=
  binanceStep_event hrunning hsubscribed rfl

/-- An event that continues no book resets a synchronised one. -/
theorem exists_lost (market : MarketType) (hrunning : s.aborted = false)
    (hsubscribed : s.subscribed symbol = some ref) (hid : 2 ≤ (s.books ref).updateId) :
    ∃ text t, binanceStep market s (.message text) = some t ∧ s.Quiet t ∧
      (t.books ref).updateId = 0 := by
  let previous : Fin (2 ^ 64) := if (s.books ref).updateId = 2 then 3 else 2
  let value := eventValue symbol previous ⟨2 ^ 64 - 1, by decide⟩ 0 []
  have hbreaks : continues market (s.books ref) ⟨symbol, 0, 2 ^ 64 - 1, value⟩ = some false := by
    cases market with
    | spot =>
      have hgap : ¬(2 ^ 64 - 1 ≤ succU64 (s.books ref).updateId ∧
          succU64 (s.books ref).updateId ≤ 0) := by omega
      simp only [continues, hgap, decide_false]
    | future =>
      have hprevious : (previous : ℕ) ≠ (s.books ref).updateId := by
        simp only [previous]
        split
        · rename_i htwo
          rw [htwo]
          decide
        · rename_i htwo
          exact fun heq => htwo heq.symm
      exact congrArg some (decide_eq_false hprevious)
  have hreset : handleEvent market s ⟨symbol, 0, 2 ^ 64 - 1, value⟩ ref =
      s.setBook ref OrderBook.empty := by
    simp only [handleEvent, hbreaks]
    rw [if_neg (by omega), if_neg (by omega)]
  refine ⟨_, _, binanceStep_eventValue hrunning hsubscribed previous ⟨2 ^ 64 - 1, by decide⟩ 0 [],
    ?_⟩
  rw [Fin.val_zero, hreset]
  exact ⟨(FeedState.Quiet.refl _).setBook _ _, by simp [FeedState.setBook, OrderBook.empty]⟩

/-- A failed snapshot request resets the book of its handler. -/
theorem exists_refused (market : MarketType) {i first retries : ℕ} {task : InitTask D}
    (hrunning : s.aborted = false) (htask : s.tasks[i]? = some task)
    (hstage : task.stage = .fetching first retries) :
    ∃ t, binanceStep market s (.depth i none) = some t ∧ s.Quiet t ∧
      (t.books task.book).updateId = 0 := by
  refine ⟨(s.setUpdateId task.book 0).setTask i none, ?_,
    ((FeedState.Quiet.refl s).setBook _ _).setTask i none, ?_⟩
  · simp [binanceStep, hrunning, resumeTask, htask, hstage, depthResponse]
  · simp [FeedState.setTask, FeedState.setUpdateId, FeedState.setBook]

/-- An event for a book whose snapshot is being fetched is buffered. -/
theorem binanceStep_buffers (market : MarketType) (hrunning : s.aborted = false)
    (hsubscribed : s.subscribed symbol = some ref) (hid : (s.books ref).updateId = 1)
    (previous first last : Fin (2 ^ 64)) :
    binanceStep market s (.message (some (eventValue symbol previous first last []))) =
      some (s.pushInit symbol (some ⟨[], [], first, last, false⟩)) := by
  have hlevels : ([] : List Value).mapM (parseEntry (D := D)) = some [] := rfl
  have hzero : (s.books ref).updateId ≠ 0 := hid.trans_ne Nat.one_ne_zero
  rw [binanceStep_eventValue hrunning hsubscribed]
  simp only [handleEvent, if_neg hzero, if_pos hid, buildUpdate_eventValue hlevels]

/-- A sleeping handler can wake up. -/
theorem exists_woken (market : MarketType) {i retries : ℕ} {task : InitTask D}
    {snapshot : OrderBook D} (hs : s.Buffered) (hrunning : s.aborted = false)
    (htask : s.tasks[i]? = some task) (hstage : task.stage = .replaying snapshot retries) :
    ∃ t feed next label, binanceStep market s (.wake i) = some t ∧
      t = feed.setTask i next ∧ s.Quiet feed ∧
        s.WakesUp task snapshot retries feed next label := by
  obtain ⟨label, hwakes⟩ := wakesUp_replayAttempt (hs task (List.mem_of_getElem? htask)) snapshot
    retries
  let attempt := replayAttempt s task snapshot retries
  refine ⟨attempt.1.setTask i attempt.2, _, _, label, ?_, rfl,
    quiet_replayAttempt s task snapshot retries, hwakes⟩
  simp [binanceStep, hrunning, resumeTask, htask, hstage, attempt]

/-- Every step leaves a sub-client intact. -/
theorem intact_binanceStep {market : MarketType} {action : FeedAction D} (hs : s.Intact)
    (hstep : binanceStep market s action = some t) : t.Intact :=
  hs.step (binanceStep_moves hs.buffered hs.sound hstep) (binanceStep_confined hs.named hstep).1
    (binanceStep_handlerStep hstep)

/-- A sub-client is intact after every run. -/
theorem intact_of_binanceRun {market : MarketType} {actions : List (FeedAction D)}
    (hrun : GuardedRun.exec (binanceStep market) FeedState.start actions = some s) : s.Intact :=
  GuardedRun.invariant_of_exec (fun _ _ _ hs hstep => intact_binanceStep hs hstep) hrun
    FeedState.intact_start

/-- An event starts an initialisation that requests a snapshot. -/
theorem exists_opened (market : MarketType) (hrunning : s.aborted = false)
    (hsubscribed : s.subscribed symbol = some ref) (hid : (s.books ref).updateId = 0) :
    ∃ t, binanceStep market s (.message (some (eventValue symbol 0 1 1 []))) = some t ∧
      s.Quiet t ∧ t.Initialising symbol ref s.tasks (.fetching 1 0) ((s.init symbol).getD []) := by
  refine ⟨((s.setUpdateId ref 1).openInit symbol).addTask ⟨symbol, ref, .fetching 1 0⟩, ?_,
    ⟨rfl, rfl, rfl, rfl⟩, .opened hrunning hsubscribed _⟩
  rw [binanceStep_eventValue hrunning hsubscribed]
  simp only [handleEvent, hid, if_true, startInit]
  rfl

/-- An initialisation can synchronise a book. -/
theorem exists_synchronised (market : MarketType) (hs : s.Intact) (hrunning : s.aborted = false)
    (hsubscribed : s.subscribed symbol = some ref) (hid : (s.books ref).updateId = 0) :
    ∃ t, (binanceClient D market).Leads symbol s t ∧ s.Quiet t ∧ (t.books ref).updateId = 7 := by
  obtain ⟨opened, hopen, hopenQuiet, hopened⟩ := exists_opened market hrunning hsubscribed hid
  let update : OrderBookUpdate D := ⟨[], [], (1 : Fin (2 ^ 64)), (7 : Fin (2 ^ 64)), false⟩
  obtain ⟨pushed, hpush, hpushQuiet, hpushed⟩ : ∃ pushed,
      binanceStep market opened (.message (some (eventValue symbol 0 1 7 []))) = some pushed ∧
        opened.Quiet pushed ∧ pushed.Initialising symbol ref s.tasks (.fetching 1 0)
          ((s.init symbol).getD [] ++ [update]) :=
    ⟨_, binanceStep_buffers market hopened.running hopened.subscribed hopened.updateId 0 1 7,
      FeedState.quiet_pushInit _ _ _, hopened.pushInit update⟩
  have hintact := intact_binanceStep (intact_binanceStep hs hopen) hpush
  let snapshot : DepthSnapshot D := ⟨3, [], [], by decide⟩
  obtain ⟨t, ht, -⟩ : ∃ t, binanceStep market pushed (.depth s.tasks.length (some snapshot)) =
      some t ∧ _ :=
    (binanceClient_lawful market symbol).accepted hpushed (Nat.le_of_ble_eq_true rfl)
  have hresume : resumeTask pushed s.tasks.length (some (some snapshot)) = some t := by
    simpa [binanceStep, hpushed.running] using ht
  -- The buffer may hold older updates, but the last one decides about the id.
  obtain ⟨front, hreplay⟩ := FeedState.exists_replayApplication (n := 3) hpushed.init
    (Nat.le_of_ble_eq_true rfl) (Nat.le_of_ble_eq_true rfl) ref 1
  have happlied : binanceApplied market pushed (.depth s.tasks.length (some snapshot)) =
      some ⟨ref, 1, front ++ [update]⟩ := by
    rw [binanceApplied, resumeApplied, FeedState.replaying_fetching hpushed.getElem?_tasks rfl]
    simp [snapshot, hpushed.updateId, hreplay, update]
  have hmoves := binanceStep_moves hintact.buffered hintact.sound ht
  rw [happlied] at hmoves
  refine ⟨t, .head ⟨.message _, trivial, hopen⟩ (.head ⟨.message _, trivial, hpush⟩
    (.single ⟨.depth _ _, trivial, ht⟩)), (hopenQuiet.trans hpushQuiet).trans
      (quiet_resumeTask hresume), ?_⟩
  exact hmoves.move.settled.trans (numberAfter_concat 1 front (Nat.le_of_ble_eq_true rfl))

/-- An event that continues a synchronised book serves the calls that wait for it. -/
theorem exists_served {market : MarketType} {entry : Value} {level : D × D}
    (hentry : parseEntry entry = some level) (hlevel : level.2 ≠ 0) (hquiet : s.Quiet t)
    (hrunning : s.aborted = false) (hsubscribed : s.subscribed symbol = some ref)
    (hpending : s.pending symbol = some senders) (hid : (t.books ref).updateId = 7) :
    ∃ text u, binanceStep market t (.message text) = some u ∧ s.Served symbol ref senders u := by
  have hlevels : [entry].mapM parseEntry = some [level] := by simp [hentry]
  have hcontinues : continues market (t.books ref)
      ⟨symbol, (8 : Fin (2 ^ 64)), (8 : Fin (2 ^ 64)), eventValue symbol 7 8 8 [entry]⟩ =
        some true := by
    cases market with
    | spot =>
      simp only [continues, hid]
      rfl
    | future =>
      simp only [continues, hid]
      rfl
  refine ⟨_, _, binanceStep_eventValue (hquiet.aborted.trans hrunning)
    (hquiet.subscribed ▸ hsubscribed) 7 8 8 [entry], ?_⟩
  have hzero : (t.books ref).updateId ≠ 0 := by omega
  have hone : (t.books ref).updateId ≠ 1 := by omega
  simp only [handleEvent, if_neg hzero, if_neg hone, hcontinues, buildUpdate_eventValue hlevels]
  exact .deliver hquiet hrunning hpending
    (ready_applyUpdate (Nat.le_of_ble_eq_true rfl) (keeps_of_level rfl rfl hlevel _))

/-- What can happen to the calls that wait for a Binance symbol, when the quantity of some level can
be read. -/
theorem binanceClient_restorable (market : MarketType) (symbol : String) {entry : Value}
    {level : D × D} (hentry : parseEntry entry = some level) (hlevel : level.2 ≠ 0) :
    (binanceClient D market).Restorable symbol where
  intact hs hstep := intact_binanceStep hs hstep
  moves hs hstep := ⟨_, binanceStep_moves hs.buffered hs.sound hstep⟩
  waits hs hstuck hwaits hstays hstep := waits_binanceStep hs.named hstuck hwaits hstays hstep
  lose hrunning hsubscribed hid := exists_lost market hrunning hsubscribed hid
  refuse hrunning htask hstage := exists_refused market hrunning htask hstage
  buffer hrunning hsubscribed hid := ⟨_, _, _,
    binanceStep_buffers market hrunning hsubscribed hid 0 1 2, Nat.le_of_ble_eq_true rfl, rfl⟩
  wake hs hrunning htask hstage := exists_woken market hs.buffered hrunning htask hstage
  serve hs hrunning hsubscribed hpending hid := by
    obtain ⟨t, hrun, hquiet, hseven⟩ := exists_synchronised market hs hrunning hsubscribed hid
    obtain ⟨text, u, hu, hserved⟩ :=
      exists_served hentry hlevel hquiet hrunning hsubscribed hpending hseven
    exact ⟨u, hrun.tail ⟨.message text, trivial, hu⟩, hserved⟩

end Arbexpert.Binance

namespace Arbexpert.Exchange

open Arbexpert.Base Arbexpert.Gate Arbexpert.Binance

variable {D : Type*} [LinearOrder D] [Zero D] [DecimalText D]

/-- After every run of a Gate sub-client, the calls that wait for a symbol can still be served,
while the connection stays up and the symbol stays watched, exactly if its book is not stuck. -/
theorem gate_calls_servable_iff (market : MarketType) {entry : Value} {level : D × D}
    (hentry : Gate.parseEntry market entry = some level) (hlevel : level.2 ≠ 0)
    {actions : List (FeedAction D)} {s : GateState D}
    (hrun : GuardedRun.exec (gateStep market) gateStart actions = some s)
    (hrunning : s.aborted = false) {symbol : String} {ref : BookRef} {senders : List Sender}
    (hsubscribed : s.subscribed symbol = some ref) (hpending : s.pending symbol = some senders)
    (hsenders : senders ≠ []) :
    (∃ t, GuardedRun.Reaches (gateStep market) (fun _ action => action.Stays symbol) s t ∧
      s.toFeedState.Served symbol ref senders t.toFeedState) ↔ ¬s.toFeedState.Stuck ref :=
  (gateClient_restorable market symbol hentry hlevel).servable_iff (intact_of_gateRun hrun)
    hrunning hsubscribed hpending hsenders

/-- A watch call, and an event that starts an initialisation of its book. -/
def fetchingRun : List (FeedAction ℕ) :=
  [.watch "BTC_USDT" 0 true true, .message (Gate.eventText "BTC_USDT" 3 4 false [])]

/-- A full event of write 1 between two watch calls. -/
def firstWriteRun : List (FeedAction ℕ) :=
  [.watch "BTC_USDT" 0 true true, .message firstWriteMessage, .watch "BTC_USDT" 1 true true]

/-- A call can be served while a snapshot is fetched, but not after write 1 has come as an event. -/
theorem fetchingRun_servable :
    (∃ s, GuardedRun.exec (gateStep .spot) gateStart fetchingRun = some s ∧
      ∃ t, GuardedRun.Reaches (gateStep .spot) (fun _ action => action.Stays "BTC_USDT") s t ∧
        s.toFeedState.Served "BTC_USDT" ("BTC_USDT", 0) [⟨0, true⟩] t.toFeedState) ∧
    ∃ s, GuardedRun.exec (gateStep .spot) gateStart firstWriteRun = some s ∧
      ¬∃ t, GuardedRun.Reaches (gateStep .spot) (fun _ action => action.Stays "BTC_USDT") s t ∧
        s.toFeedState.Served "BTC_USDT" ("BTC_USDT", 0) [⟨1, true⟩] t.toFeedState := by
  have hentry : Gate.parseEntry .spot (.array [.string "10", .string "5"]) =
    some ((10, 5) : ℕ × ℕ) := rfl
  constructor
  · obtain ⟨s, hrun, hrunning, hsubscribed, hpending, hbusy⟩ : ∃ s : GateState ℕ,
        GuardedRun.exec (gateStep .spot) gateStart fetchingRun = some s ∧ s.aborted = false ∧
          s.subscribed "BTC_USDT" = some ("BTC_USDT", 0) ∧
          s.pending "BTC_USDT" = some [⟨0, true⟩] ∧
          s.tasks = [⟨"BTC_USDT", ("BTC_USDT", 0), .fetching 3 0⟩] :=
      ⟨_, rfl, rfl, rfl, rfl, rfl⟩
    refine ⟨s, hrun, (gate_calls_servable_iff .spot hentry (by decide) hrun hrunning hsubscribed
      hpending (by decide)).mpr fun hstuck => ?_⟩
    exact hstuck.2 _ (hbusy ▸ List.mem_singleton.mpr rfl) rfl
  · obtain ⟨s, hrun, hrunning, hsubscribed, hpending, hstuck⟩ : ∃ s : GateState ℕ,
        GuardedRun.exec (gateStep .spot) gateStart firstWriteRun = some s ∧ s.aborted = false ∧
          s.subscribed "BTC_USDT" = some ("BTC_USDT", 0) ∧
          s.pending "BTC_USDT" = some [⟨1, true⟩] ∧ s.toFeedState.Stuck ("BTC_USDT", 0) :=
      ⟨_, rfl, rfl, rfl, rfl, rfl, nofun⟩
    refine ⟨s, hrun, ?_⟩
    rwa [gate_calls_servable_iff .spot hentry (by decide) hrun hrunning hsubscribed hpending
      (by decide), not_not]

/-- After every run of a Binance sub-client, the calls that wait for a symbol can still be served,
while the connection stays up and the symbol stays watched, exactly if its book is not stuck. -/
theorem binance_calls_servable_iff (market : MarketType) {entry : Value} {level : D × D}
    (hentry : Binance.parseEntry entry = some level) (hlevel : level.2 ≠ 0)
    {actions : List (FeedAction D)} {s : FeedState D}
    (hrun : GuardedRun.exec (binanceStep market) FeedState.start actions = some s)
    (hrunning : s.aborted = false) {symbol : String} {ref : BookRef} {senders : List Sender}
    (hsubscribed : s.subscribed symbol = some ref) (hpending : s.pending symbol = some senders)
    (hsenders : senders ≠ []) :
    (∃ t, GuardedRun.Reaches (binanceStep market) (fun _ action => action.Stays symbol) s t ∧
      s.Served symbol ref senders t) ↔ ¬s.Stuck ref :=
  (binanceClient_restorable market symbol hentry hlevel).servable_iff (intact_of_binanceRun hrun)
    hrunning hsubscribed hpending hsenders

/-- A watch call, and an initialisation that synchronises its book with write 7. -/
def synchronisedRun : List (FeedAction ℕ) :=
  [.watch "BTCUSDT" 0 true true, .message (futuresMessage 1 2), .message (futuresMessage 2 7),
    .depth 0 (some ⟨6, [], [], by decide⟩)]

/-- A call can be served once the book is synchronised, but a later one not after write 1 has come
as an event. -/
theorem synchronisedRun_servable :
    (∃ s, GuardedRun.exec (binanceStep .future) FeedState.start synchronisedRun = some s ∧
      ∃ t, GuardedRun.Reaches (binanceStep .future) (fun _ action => action.Stays "BTCUSDT") s t ∧
        s.Served "BTCUSDT" ("BTCUSDT", 0) [⟨0, true⟩] t) ∧
    ∃ s, GuardedRun.exec (binanceStep .future) FeedState.start
        (synchronisedRun ++ [.message (futuresMessage 7 1), .watch "BTCUSDT" 1 true true]) =
          some s ∧
      ¬∃ t, GuardedRun.Reaches (binanceStep .future) (fun _ action => action.Stays "BTCUSDT") s t ∧
        s.Served "BTCUSDT" ("BTCUSDT", 0) [⟨1, true⟩] t := by
  have hentry : Binance.parseEntry (.array [.string "10", .string "5"]) =
    some ((10, 5) : ℕ × ℕ) := rfl
  constructor
  · obtain ⟨s, hrun, hrunning, hsubscribed, hpending, hid⟩ : ∃ s : FeedState ℕ,
        GuardedRun.exec (binanceStep .future) FeedState.start synchronisedRun = some s ∧
          s.aborted = false ∧ s.subscribed "BTCUSDT" = some ("BTCUSDT", 0) ∧
          s.pending "BTCUSDT" = some [⟨0, true⟩] ∧ (s.books ("BTCUSDT", 0)).updateId = 7 :=
      ⟨_, rfl, rfl, rfl, rfl, rfl⟩
    refine ⟨s, hrun, (binance_calls_servable_iff .future hentry (by decide) hrun hrunning
      hsubscribed hpending (by decide)).mpr fun hstuck => ?_⟩
    exact absurd (hid.symm.trans hstuck.1) (by decide)
  · obtain ⟨s, hrun, hrunning, hsubscribed, hpending, hstuck⟩ : ∃ s : FeedState ℕ,
        GuardedRun.exec (binanceStep .future) FeedState.start
            (synchronisedRun ++ [.message (futuresMessage 7 1), .watch "BTCUSDT" 1 true true]) =
          some s ∧ s.aborted = false ∧ s.subscribed "BTCUSDT" = some ("BTCUSDT", 0) ∧
          s.pending "BTCUSDT" = some [⟨1, true⟩] ∧ s.Stuck ("BTCUSDT", 0) :=
      ⟨_, rfl, rfl, rfl, rfl, rfl, nofun⟩
    refine ⟨s, hrun, ?_⟩
    rwa [binance_calls_servable_iff .future hentry (by decide) hrun hrunning hsubscribed hpending
      (by decide), not_not]

/-- On both exchanges no call waits in vain as long as the updates of the exchange lead the live
books to the ids of writes: after every such run the calls that wait for a symbol can be served,
while the connection stays up and the symbol stays watched. -/
theorem no_call_waits_in_vain (market : MarketType) {gateEntry binanceEntry : Value}
    {gateLevel binanceLevel : D × D} (hgate : Gate.parseEntry market gateEntry = some gateLevel)
    (hgateLevel : gateLevel.2 ≠ 0) (hbinance : Binance.parseEntry binanceEntry = some binanceLevel)
    (hbinanceLevel : binanceLevel.2 ≠ 0) (actions : List (FeedAction D)) (symbol : String)
    (ref : BookRef) (senders : List Sender) (hsenders : senders ≠ []) :
    (∀ s : GateState D, GuardedRun.exec (gateStep market) gateStart actions = some s →
      GuardedRun.StepsSatisfy (gateStep market) (fun s action => s.toFeedState.Synchronises
        (gateApplied market s.toFeedState action)) gateStart actions →
      s.aborted = false → s.subscribed symbol = some ref → s.pending symbol = some senders →
        ∃ t, GuardedRun.Reaches (gateStep market) (fun _ action => action.Stays symbol) s t ∧
          s.toFeedState.Served symbol ref senders t.toFeedState) ∧
    ∀ s : FeedState D, GuardedRun.exec (binanceStep market) FeedState.start actions = some s →
      GuardedRun.StepsSatisfy (binanceStep market) (fun s action => s.Synchronises
        (binanceApplied market s action)) FeedState.start actions →
      s.aborted = false → s.subscribed symbol = some ref → s.pending symbol = some senders →
        ∃ t, GuardedRun.Reaches (binanceStep market) (fun _ action => action.Stays symbol) s t ∧
          s.Served symbol ref senders t := by
  constructor
  · intro s hrun hsynchronises hrunning hsubscribed hpending
    have hstuck : ¬s.toFeedState.Stuck ref := FeedState.not_stuck_of_synchronises
      GateState.toFeedState (fun _ _ _ h hsound hstep => gateStep_moves h hsound hstep) rfl
      hsynchronises hrun hsubscribed
    exact ((gateClient_restorable market symbol hgate hgateLevel).servable_iff
      (intact_of_gateRun hrun) hrunning hsubscribed hpending hsenders).mpr hstuck
  · intro s hrun hsynchronises hrunning hsubscribed hpending
    have hstuck : ¬s.Stuck ref := FeedState.not_stuck_of_synchronises id
      (fun _ _ _ h hsound hstep => binanceStep_moves h hsound hstep) rfl hsynchronises hrun
      hsubscribed
    exact ((binanceClient_restorable market symbol hbinance hbinanceLevel).servable_iff
      (intact_of_binanceRun hrun) hrunning hsubscribed hpending hsenders).mpr hstuck

/-- The events of the two runs bring no other ids than those of writes, so that both calls can be
served. -/
theorem fetchingRun_not_in_vain :
    (∃ s, GuardedRun.exec (gateStep .spot) gateStart fetchingRun = some s ∧
      ∃ t, GuardedRun.Reaches (gateStep .spot) (fun _ action => action.Stays "BTC_USDT") s t ∧
        s.toFeedState.Served "BTC_USDT" ("BTC_USDT", 0) [⟨0, true⟩] t.toFeedState) ∧
    ∃ s, GuardedRun.exec (binanceStep .future) FeedState.start synchronisedRun = some s ∧
      ∃ t, GuardedRun.Reaches (binanceStep .future) (fun _ action => action.Stays "BTCUSDT") s t ∧
        s.Served "BTCUSDT" ("BTCUSDT", 0) [⟨0, true⟩] t := by
  have hspot : Gate.parseEntry .spot (.array [.string "10", .string "5"]) =
    some ((10, 5) : ℕ × ℕ) := rfl
  have hfuture : Gate.parseEntry .future (.array [.number (.posInt 10), .number (.posInt 5)]) =
    some ((10, 5) : ℕ × ℕ) := rfl
  have hbinance : Binance.parseEntry (.array [.string "10", .string "5"]) =
    some ((10, 5) : ℕ × ℕ) := rfl
  constructor
  · obtain ⟨s, hrun, hrunning, hsubscribed, hpending⟩ : ∃ s : GateState ℕ,
        GuardedRun.exec (gateStep .spot) gateStart fetchingRun = some s ∧ s.aborted = false ∧
          s.subscribed "BTC_USDT" = some ("BTC_USDT", 0) ∧
          s.pending "BTC_USDT" = some [⟨0, true⟩] := ⟨_, rfl, rfl, rfl, rfl⟩
    refine ⟨s, hrun, (no_call_waits_in_vain .spot hspot (by decide) hbinance (by decide)
      fetchingRun "BTC_USDT" ("BTC_USDT", 0) [⟨0, true⟩] (by decide)).1 s hrun ?_ hrunning
        hsubscribed hpending⟩
    rintro t ⟨⟩
    refine ⟨nofun, ?_⟩
    rintro t ⟨⟩
    exact ⟨nofun, trivial⟩
  · obtain ⟨s, hrun, hrunning, hsubscribed, hpending⟩ : ∃ s : FeedState ℕ,
        GuardedRun.exec (binanceStep .future) FeedState.start synchronisedRun = some s ∧
          s.aborted = false ∧ s.subscribed "BTCUSDT" = some ("BTCUSDT", 0) ∧
          s.pending "BTCUSDT" = some [⟨0, true⟩] := ⟨_, rfl, rfl, rfl, rfl⟩
    refine ⟨s, hrun, (no_call_waits_in_vain .future hfuture (by decide) hbinance (by decide)
      synchronisedRun "BTCUSDT" ("BTCUSDT", 0) [⟨0, true⟩] (by decide)).2 s hrun ?_ hrunning
        hsubscribed hpending⟩
    rintro t ⟨⟩
    refine ⟨nofun, ?_⟩
    rintro t ⟨⟩
    refine ⟨nofun, ?_⟩
    rintro t ⟨⟩
    refine ⟨nofun, ?_⟩
    rintro t ⟨⟩
    refine ⟨?_, trivial⟩
    rintro application ⟨⟩ -
    decide

end Arbexpert.Exchange
