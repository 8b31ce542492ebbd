import Arbexpert.Base.Truth
import Arbexpert.Foundation.GuardedRun
import Arbexpert.Gate.Handler

/-!
# Gate books agree with the exchange

The exchange numbers its writes from one. An honest event lists quantities that hold
after its last write, and no price written in its range is missing from it; an
honest snapshot is the book after the write of its id. Both the replay of buffered
updates and the live updates accept only an event that starts at most one write
after the book, so the levels and the id of a book stay in step.
-/

namespace Arbexpert.Gate

open Arbexpert.Base

variable {D : Type*} [LinearOrder D] [Zero D]

/-- An event of the exchange, whose ids are numbers of writes: a full event lists the
whole book after its last write, any other one brings a book from its first write to its
last. -/
structure HonestUpdate (truth : ℕ → (Side × D) × Option D) (update : OrderBookUpdate D) :
    Prop where
  first : 1 ≤ update.firstUpdateId
  last : 2 ≤ update.lastUpdateId
  full : update.full = true →
    WriteLog.Complete truth update.lastUpdateId update.writes
  delta : update.full = false →
    WriteLog.Delta truth update.firstUpdateId update.lastUpdateId update.writes

/-- What the exchange promises for the events and the snapshots of one symbol: the
events that can be read are honest, and so is a snapshot that is not too old. -/
def HonestAction [DecimalText D] (truth : ℕ → (Side × D) × Option D) (symbol : String)
    (market : MarketType) (s : GateState D) : FeedAction D → Prop
  | .message text => ∀ parsed event update, text = some parsed → readEvent parsed = some event →
      event.symbol = symbol → buildUpdate market event = some update → HonestUpdate truth update
  | .depth i response => ∀ task initialEventU retries snapshot, s.tasks[i]? = some task →
      task.symbol = symbol → task.stage = .fetching initialEventU retries →
        response = some snapshot → initialEventU ≤ snapshot.id →
          snapshot.book.level = WriteLog.after truth snapshot.id
  | _ => True

/-- An honest event whose last id fits its type may be replayed. -/
def Replayable (truth : ℕ → (Side × D) × Option D) (update : OrderBookUpdate D) : Prop :=
  HonestUpdate truth update ∧ update.lastUpdateId < 2 ^ 64

variable {truth : ℕ → (Side × D) × Option D} {symbol : String}

/-- An honest full event turns any book into the book after its last write. -/
theorem HonestUpdate.applyUpdate_full {update : OrderBookUpdate D} (h : Replayable truth update)
    (hfull : update.full = true) (book : OrderBook D) :
    (book.applyUpdate update).IsAfter truth := by
  have hlast := h.1.last
  have hid : (book.applyUpdate update).updateId = update.lastUpdateId :=
    updateId_applyUpdate book (by omega)
  refine ⟨by rw [hid]; exact h.2, ?_⟩
  rw [hid, level_applyUpdate, if_pos hfull]
  exact (h.1.full hfull).applyWrites_eq

/-- An honest event that starts at the next write at the latest, and ends there at
the earliest, turns a faithful book into the book after its last write. -/
theorem HonestUpdate.applyUpdate {update : OrderBookUpdate D} (h : Replayable truth update)
    {book : OrderBook D} (hbook : book.IsAfter truth)
    (hfirst : update.firstUpdateId ≤ succU64 book.updateId)
    (hlast : succU64 book.updateId ≤ update.lastUpdateId) :
    (book.applyUpdate update).IsAfter truth := by
  cases hfull : update.full with
  | true => exact HonestUpdate.applyUpdate_full h hfull book
  | false =>
    have hpos := h.1.first
    -- after the largest id the counter wraps to zero, below every first id
    have hlt : book.updateId + 1 < 2 ^ 64 := by
      by_contra hmax
      have hwrap : book.updateId = 2 ^ 64 - 1 := by
        have := hbook.1
        omega
      rw [hwrap, succU64_max] at hfirst
      omega
    rw [succU64_of_lt hlt] at hfirst hlast
    have hid : (book.applyUpdate update).updateId = update.lastUpdateId :=
      updateId_applyUpdate book (by omega)
    refine ⟨by rw [hid]; exact h.2, ?_⟩
    rw [hid, level_applyUpdate, hbook.2]
    simp only [hfull, Bool.false_eq_true, if_false]
    exact (h.1.delta hfull).applyWrites_eq hfirst (by omega)

/-- A replay of honest updates either is reset or ends with a faithful book. -/
theorem replayUpdates_isAfter {updates : List (OrderBookUpdate D)} {book : OrderBook D}
    (seen : Finset D) (hupdates : ∀ update ∈ updates, Replayable truth update)
    (hbook : book.IsAfter truth) : (replayUpdates updates book seen).1.updateId = 0 ∨
      (replayUpdates updates book seen).1.IsAfter truth := by
  induction updates generalizing book seen with
  | nil => exact Or.inr hbook
  | cons update rest ih =>
    unfold replayUpdates
    split
    · exact Or.inl rfl
    · rename_i hgap
      rw [not_or, not_lt, not_lt] at hgap
      exact ih _ (fun other hother => hupdates other (List.mem_cons_of_mem _ hother))
        (HonestUpdate.applyUpdate (hupdates update List.mem_cons_self) hbook hgap.1 hgap.2)

/-- The book left by a replay of honest updates is faithful. -/
theorem replayUpdates_faithful {updates : List (OrderBookUpdate D)} {book : OrderBook D}
    (seen : Finset D) (hupdates : ∀ update ∈ updates, Replayable truth update)
    (hbook : book.IsAfter truth) : (replayUpdates updates book seen).1.Faithful truth := by
  intro hid
  rcases replayUpdates_isAfter seen hupdates hbook with hzero | hafter
  · omega
  · exact hafter

variable {s : GateState D}

/-- A broadcast of a faithful book with the id of a write keeps the state faithful. -/
theorem broadcastUpdate_faithful (h : s.Faithful truth symbol (Replayable truth))
    {name : String} {ref : BookRef} {update : OrderBookUpdate D}
    (hbook : name = symbol ∨ ref.1 = symbol →
      2 ≤ update.lastUpdateId ∧ ((s.books ref).applyUpdate update).IsAfter truth) :
    (broadcastUpdate s name ref update).Faithful truth symbol (Replayable truth) := by
  have hset : (s.toFeedState.setBook ref ((s.books ref).applyUpdate update)).Faithful truth symbol
      (Replayable truth) := h.setBook fun hsymbol _ => (hbook (Or.inr hsymbol)).2
  rw [broadcastUpdate_toFeedState]
  split
  · refine hset.deliver fun hname => ?_
    obtain ⟨hlast, hafter⟩ := hbook (Or.inl hname)
    simp only [FeedState.setBook, Function.update_self]
    exact ⟨by rw [updateId_applyUpdate _ (by omega)]; exact hlast, hafter⟩
  · exact ⟨hset.books, hset.refs, hset.buffered, hset.tasks, hset.sent⟩

/-- Installing a faithful snapshot and replaying honest updates keeps the state
faithful. -/
theorem finishInit_faithful (h : s.Faithful truth symbol (Replayable truth)) {task : InitTask D}
    {snapshot : OrderBook D} {processed : List (OrderBookUpdate D)}
    (hbook : task.book.1 = task.symbol)
    (hsnapshot : task.symbol = symbol → snapshot.IsAfter truth)
    (hprocessed : task.symbol = symbol → ∀ update ∈ processed, Replayable truth update) :
    (finishInit s task snapshot processed).Faithful truth symbol (Replayable truth) := by
  refine h.setBook fun href => ?_
  have hsymbol : task.symbol = symbol := hbook.symm.trans href
  exact replayUpdates_faithful _ (hprocessed hsymbol) (hsnapshot hsymbol)

/-- An attempt to replay the buffer keeps the state, and the task, faithful. -/
theorem replayAttempt_faithful (h : s.Faithful truth symbol (Replayable truth))
    (task : InitTask D) {snapshot : OrderBook D} (hbook : task.book.1 = task.symbol)
    (hsnapshot : task.symbol = symbol → snapshot.IsAfter truth) (retries : ℕ) :
    (replayAttempt s task snapshot retries).1.Faithful truth symbol (Replayable truth) ∧
      ∀ next, (replayAttempt s task snapshot retries).2 = some next →
        next.Faithful truth symbol := by
  obtain ⟨hstate, hsleeping, hreplay⟩ := h.replayAttempt hbook hsnapshot retries
  simp only [replayAttempt]
  split
  · exact ⟨hstate, nofun⟩
  · rename_i next houtcome
    refine ⟨hstate, fun other hnext => ?_⟩
    cases hnext
    exact hsleeping next houtcome
  · rename_i processed houtcome
    exact ⟨finishInit_faithful hstate hbook hsnapshot (hreplay processed houtcome),
      nofun⟩

/-- Starting an initialisation keeps the state faithful. -/
theorem startInit_faithful (h : s.Faithful truth symbol (Replayable truth)) {event : GateEvent}
    {ref : BookRef} (href : ref.1 = event.symbol) :
    (startInit s event ref).Faithful truth symbol (Replayable truth) := by
  have hopen : ((s.toFeedState.setUpdateId ref 1).openInit event.symbol).Faithful truth symbol
      (Replayable truth) := (h.setUpdateId ref Nat.one_lt_two).openInit event.symbol
  simp only [startInit]
  split
  · exact hopen.addTask (InitTask.faithful_fetching href)
  · obtain ⟨hstate, hnext⟩ := replayAttempt_faithful (s := { s with
      toFeedState := (s.toFeedState.setUpdateId ref 1).openInit event.symbol }) hopen
      ⟨event.symbol, ref, .fetching event.firstUpdateId 0⟩ href
      (fun _ => OrderBook.isAfter_empty) 0
    split
    · exact hstate
    · rename_i task htask
      exact hstate.addTask (hnext task htask)

/-- A response keeps the state, and the task, faithful. -/
theorem depthResponse_faithful (h : s.Faithful truth symbol (Replayable truth))
    {task : InitTask D} (hbook : task.book.1 = task.symbol) (initialEventU retries : ℕ)
    (response : Option (DepthSnapshot D))
    (hresponse : task.symbol = symbol → ∀ snapshot, response = some snapshot →
      initialEventU ≤ snapshot.id → snapshot.book.level = WriteLog.after truth snapshot.id) :
    (depthResponse s task initialEventU retries response).1.Faithful truth symbol
        (Replayable truth) ∧
      ∀ next, (depthResponse s task initialEventU retries response).2 = some next →
        next.Faithful truth symbol := by
  unfold depthResponse
  split
  · exact ⟨h.setUpdateId _ Nat.zero_lt_two, nofun⟩
  · rename_i snapshot
    split
    · split
      · exact ⟨h.setUpdateId _ Nat.zero_lt_two, nofun⟩
      · refine ⟨h, fun next hnext => ?_⟩
        cases hnext
        exact InitTask.faithful_fetching hbook
    · rename_i hold
      exact replayAttempt_faithful h task hbook
        (fun hsymbol => ⟨snapshot.id_lt, hresponse hsymbol snapshot rfl (not_lt.mp hold)⟩) 0

/-- Continuing a task keeps the state faithful. -/
theorem resumeTask_faithful (h : s.Faithful truth symbol (Replayable truth)) {i : ℕ}
    {response : Option (Option (DepthSnapshot D))} {t : GateState D}
    (hresponse : ∀ task initialEventU retries snapshot, s.tasks[i]? = some task →
      task.symbol = symbol → task.stage = .fetching initialEventU retries →
        response = some (some snapshot) → initialEventU ≤ snapshot.id →
          snapshot.book.level = WriteLog.after truth snapshot.id)
    (hstep : resumeTask s i response = some t) :
    t.Faithful truth symbol (Replayable truth) := by
  cases resumes_of_resumeTask hstep with
  | @fetched task initialEventU retries response htask hstage =>
    have htaskOk := h.tasks task (List.mem_of_getElem? htask)
    obtain ⟨hstate, hnext⟩ := depthResponse_faithful h htaskOk.book initialEventU retries
      response fun hsymbol snapshot hsome hle =>
        hresponse task initialEventU retries snapshot htask hsymbol hstage (by rw [hsome]) hle
    exact hstate.setTask hnext
  | @woke task snapshot retries htask hstage =>
    have htaskOk := h.tasks task (List.mem_of_getElem? htask)
    obtain ⟨hstate, hnext⟩ := replayAttempt_faithful h task htaskOk.book
      (fun hsymbol => htaskOk.snapshot hsymbol snapshot retries hstage) retries
    exact hstate.setTask hnext

variable [DecimalText D]

/-- Handling an honest event keeps the state faithful. -/
theorem handleEvent_faithful (h : s.Faithful truth symbol (Replayable truth))
    {market : MarketType} {event : GateEvent} {ref : BookRef} (href : ref.1 = event.symbol)
    (hlast : event.lastUpdateId < 2 ^ 64)
    (hhonest : event.symbol = symbol → ∀ update, buildUpdate market event = some update →
      HonestUpdate truth update) :
    (handleEvent market s event ref).Faithful truth symbol (Replayable truth) := by
  have hreplayable (update : OrderBookUpdate D) (hupdate : buildUpdate market event = some update)
      (hsymbol : event.symbol = symbol) : Replayable truth update := by
    refine ⟨hhonest hsymbol update hupdate, ?_⟩
    rw [(buildUpdate_fields hupdate).2.1]
    exact hlast
  have hname (hor : event.symbol = symbol ∨ ref.1 = symbol) : event.symbol = symbol := by
    rcases hor with hsymbol | hsymbol
    · exact hsymbol
    · exact href.symm.trans hsymbol
  simp only [handleEvent]
  split
  · split
    · rename_i hfull
      split
      · exact h
      · rename_i update hupdate
        refine broadcastUpdate_faithful h fun hor => ?_
        have hok := hreplayable update hupdate (hname hor)
        refine ⟨hok.1.last, HonestUpdate.applyUpdate_full hok ?_ _⟩
        rw [(buildUpdate_fields hupdate).2.2]
        exact hfull
    · exact startInit_faithful h href
  · rename_i hzero
    split
    · exact h.pushInit fun hsymbol update hupdate => hreplayable update hupdate hsymbol
    · rename_i hone
      split
      · exact h.setBook fun _ => OrderBook.faithful_empty
      · rename_i hgap
        rw [not_or, not_lt, not_lt] at hgap
        split
        · exact h
        · rename_i update hupdate
          refine broadcastUpdate_faithful h fun hor => ?_
          have hsymbol := hname hor
          have hok := hreplayable update hupdate hsymbol
          obtain ⟨hfirst, hend, _⟩ := buildUpdate_fields hupdate
          have hbook := h.books ref (href.trans hsymbol) (by omega)
          exact ⟨hok.1.last, HonestUpdate.applyUpdate hok hbook (hfirst.trans_le hgap.1)
            (hgap.2.trans hend.symm.le)⟩

/-- Every honest step keeps the state faithful. -/
theorem gateStep_faithful (h : s.Faithful truth symbol (Replayable truth)) {market : MarketType}
    {action : FeedAction D} {t : GateState D} (hhonest : HonestAction truth symbol market s action)
    (hstep : gateStep market s action = some t) : t.Faithful truth symbol (Replayable truth) := by
  unfold gateStep at hstep
  split at hstep
  · cases hstep
  cases action with
  | message text =>
    cases hstep
    unfold handleMessage
    split
    · exact h
    · rename_i event hevent
      obtain ⟨parsed, rfl, hread⟩ := Option.bind_eq_some_iff.mp hevent
      split
      · exact h
      · rename_i ref href
        exact handleEvent_faithful h (h.refs _ ref href) (readEvent_last_lt hread)
          fun hsymbol update hupdate => hhonest parsed event update rfl hread hsymbol hupdate
  | depth i response =>
    refine resumeTask_faithful h (fun task initialEventU retries snapshot htask hsymbol hstage
      hresponse hle => ?_) hstep
    exact hhonest task initialEventU retries snapshot htask hsymbol hstage
      (Option.some.inj hresponse) hle
  | wake i => exact resumeTask_faithful h (fun _ _ _ _ _ _ _ hresponse => by cases hresponse) hstep
  | watch name waiter subscribes sends =>
    cases hstep
    exact h.watch name waiter subscribes sends
  | unwatch name unsubscribes =>
    cases hstep
    exact h.unwatch name unsubscribes
  | fail =>
    cases hstep
    exact h.onFail
  | resume k =>
    obtain ⟨feed, hfeed, rfl⟩ := Option.map_eq_some_iff.mp hstep
    exact h.resume hfeed

/-- In every run with honest events and snapshots of a symbol, in any order, with
losses, failures and new subscriptions, a book that carries the id of a write is the
book after that write, and only such a book is handed to watchers. -/
theorem gate_book_synchronised (market : MarketType) (truth : ℕ → (Side × D) × Option D)
    (symbol : String) (s : GateState D)
    (hrun : GuardedRun.Reaches (gateStep market) (HonestAction truth symbol market) gateStart s) :
    (∀ ref, s.subscribed symbol = some ref → 2 ≤ (s.books ref).updateId →
        (s.books ref).level = WriteLog.after truth (s.books ref).updateId) ∧
      ∀ delivery ∈ s.sent, delivery.symbol = symbol → 2 ≤ delivery.book.updateId ∧
        delivery.book.level = WriteLog.after truth delivery.book.updateId := by
  have hfaithful : s.Faithful truth symbol (Replayable truth) := by
    refine hrun.invariant (I := fun u => u.Faithful truth symbol (Replayable truth))
      FeedState.faithful_start ?_
    exact fun u action v hu hhonest hstep => gateStep_faithful hu hhonest hstep
  exact hfaithful.synchronised

/-- The message of an incremental event that lists one bid. -/
def oneBidMessage (first last : Fin (2 ^ 64)) : Value :=
  .object [("result", .object [("s", .string "BTC_USDT"), ("U", .number (.posInt first)),
    ("u", .number (.posInt last)), ("a", .array []),
    ("b", .array [.array [.string "10", .string "5"]])])]

/-- An initialisation with one buffered event, and a live event after it. -/
def oneBidRun : List (FeedAction ℕ) :=
  [.watch "BTC_USDT" 0 true true, .message (some (oneBidMessage 1 2)),
    .message (some (oneBidMessage 3 4)), .depth 0 (some ⟨3, [(10, 5)], [], by decide⟩),
    .message (some (oneBidMessage 5 5))]

/-- The exchange writes the same bid again and again. -/
def oneBidTruth (_ : ℕ) : (Side × ℕ) × Option ℕ := ((.bid, 10), some 5)

/-- Every event of this run is honest. -/
theorem oneBidMessage_honest {first last : Fin (2 ^ 64)} (hfirst : 1 ≤ first.val)
    (hlast : 2 ≤ last.val) (s : GateState ℕ) :
    HonestAction oneBidTruth "BTC_USDT" .spot s (.message (some (oneBidMessage first last))) := by
  have hupdate : (readEvent (oneBidMessage first last)).bind (buildUpdate (D := ℕ) .spot) = some
      ⟨[(10, 5)], [], first, last, false⟩ := rfl
  intro parsed event update hparsed hread _ hbuild
  cases hparsed
  rw [hread, Option.bind_some, hbuild] at hupdate
  cases hupdate
  refine ⟨hfirst, hlast, fun hfull => absurd hfull Bool.false_ne_true, fun _ => ⟨?_, ?_⟩⟩
  · intro write hwrite
    cases List.mem_singleton.mp hwrite
    have hafter := WriteLog.after_const ((Side.bid, 10), some 5) (n := last.val) (by omega)
    exact (congrFun hafter (Side.bid, 10)).symm
  · intro n _ _
    exact ⟨_, List.mem_singleton.mpr rfl, rfl⟩

/-- The run ends with one delivery, of the book after write 5. -/
theorem oneBidRun_synchronised : ∃ s : GateState ℕ,
    GuardedRun.exec (gateStep .spot) gateStart oneBidRun = some s ∧ s.sent.length = 1 ∧
      ∀ delivery ∈ s.sent, delivery.symbol = "BTC_USDT" → 2 ≤ delivery.book.updateId ∧
        delivery.book.level = WriteLog.after oneBidTruth delivery.book.updateId := by
  have hlength : (GuardedRun.exec (gateStep .spot) gateStart oneBidRun).map
      (fun s => s.sent.length) = some 1 := rfl
  obtain ⟨s, hexec, hsent⟩ := Option.map_eq_some_iff.mp hlength
  refine ⟨s, hexec, hsent, (gate_book_synchronised .spot oneBidTruth "BTC_USDT" s ?_).2⟩
  refine GuardedRun.reaches_of_exec (GuardedRun.stepsSatisfy_of_forall fun action haction u => ?_)
    hexec
  simp only [oneBidRun, List.mem_cons, List.not_mem_nil, or_false] at haction
  rcases haction with rfl | rfl | rfl | rfl | rfl
  · trivial
  · exact oneBidMessage_honest (by decide) (by decide) u
  · exact oneBidMessage_honest (by decide) (by decide) u
  · intro task initialEventU retries snapshot _ _ _ hresponse _
    cases hresponse
    funext ⟨side, price⟩
    rw [show WriteLog.after oneBidTruth 3 = _ from
      WriteLog.after_const ((Side.bid, 10), some 5) (by omega)]
    cases side with
    | bid =>
      by_cases hprice : price = 10
      · subst hprice
        rfl
      · rw [Function.update_of_ne (by simp [hprice])]
        exact Finmap.lookup_insert_of_ne ∅ hprice
    | ask => rfl
  · exact oneBidMessage_honest (by decide) (by decide) u

end Arbexpert.Gate
