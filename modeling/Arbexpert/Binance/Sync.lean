import Arbexpert.Base.Truth
import Arbexpert.Binance.Handler
import Arbexpert.Foundation.GuardedRun

/-!
# Binance books agree with the exchange while replays have no gap

The live tests of both markets accept only an event that continues the book. The
replay of the buffer has no such test: an event lost while the snapshot was fetched
leaves its writes out of the book, whose id still becomes that of the last buffered
event. Without such a gap, books and ids stay in step.
-/

namespace Arbexpert.Binance

open Arbexpert.Base

variable {D : Type*} [LinearOrder D] [Zero D]

/-- An event of the exchange. A spot event lists every price written from its first
id on; a futures event lists every price written after the event before it. -/
structure HonestEvent (truth : ℕ → (Side × D) × Option D) (market : MarketType)
    (event : BinanceEvent) (update : OrderBookUpdate D) : Prop where
  last : 2 ≤ event.lastUpdateId
  listed : ∀ write ∈ update.writes, write.2 = WriteLog.after truth event.lastUpdateId write.1
  spot : market = .spot → ∀ n, event.firstUpdateId ≤ n → n ≤ event.lastUpdateId →
    ∃ write ∈ update.writes, write.1 = (truth n).1
  future : market = .future → ∀ previousId, event.previousId = some previousId →
    previousId ≤ event.lastUpdateId ∧ ∀ n, previousId < n → n ≤ event.lastUpdateId →
      ∃ write ∈ update.writes, write.1 = (truth n).1

/-- What the exchange promises for the events and the snapshots of one symbol: ids
count from one, events that can be read are honest, and so is a snapshot that is not
too old. -/
def HonestAction [DecimalText D] (truth : ℕ → (Side × D) × Option D) (symbol : String)
    (market : MarketType) (s : FeedState D) : FeedAction D → Prop
  | .message text => ∀ parsed event, text = some parsed → readEvent parsed = some event →
      event.symbol = symbol → 1 ≤ event.firstUpdateId ∧
        ∀ update, buildUpdate event = some update → HonestEvent truth market event update
  | .depth i response => ∀ task initialEventU retries snapshot, s.tasks[i]? = some task →
      task.symbol = symbol → task.stage = .fetching initialEventU retries →
        response = some snapshot → initialEventU ≤ snapshot.id →
          snapshot.book.level = WriteLog.after truth snapshot.id
  | _ => True

/-- Updates that follow write `n` without a gap: none is older than what was reached
before it, and none leaves out a price that was written since. -/
def Gapless (truth : ℕ → (Side × D) × Option D) : ℕ → List (OrderBookUpdate D) → Prop
  | _, [] => True
  | n, update :: rest =>
    (n ≤ update.lastUpdateId ∧ ∀ m, n < m → m ≤ update.lastUpdateId →
      ∃ write ∈ update.writes, write.1 = (truth m).1) ∧
    Gapless truth update.lastUpdateId rest

/-- When a snapshot of the symbol has arrived, the buffered updates that are about to
be replayed follow it without a gap. After five retries nothing is replayed. -/
def GaplessReplay (truth : ℕ → (Side × D) × Option D) (symbol : String) (s : FeedState D) :
    FeedAction D → Prop
  | .depth i response => ∀ task initialEventU retries snapshot, s.tasks[i]? = some task →
      task.symbol = symbol → task.stage = .fetching initialEventU retries →
        response = some snapshot → initialEventU ≤ snapshot.id →
          Gapless truth snapshot.id (s.replayed symbol snapshot.id)
  | .wake i => ∀ task snapshot retries, s.tasks[i]? = some task → task.symbol = symbol →
      task.stage = .replaying snapshot retries → retries ≠ 5 →
        Gapless truth snapshot.updateId (s.replayed symbol snapshot.updateId)
  | _ => True

/-- A buffered update lists quantities that hold after its last write. -/
structure Buffered (truth : ℕ → (Side × D) × Option D) (update : OrderBookUpdate D) : Prop where
  last : 2 ≤ update.lastUpdateId
  last_lt : update.lastUpdateId < 2 ^ 64
  full : update.full = false
  listed : ∀ write ∈ update.writes, write.2 = WriteLog.after truth update.lastUpdateId write.1

variable {truth : ℕ → (Side × D) × Option D} {symbol : String}

/-- An update without a gap turns the levels after write `n` into those after its
last write. -/
theorem Buffered.applyUpdate {update : OrderBookUpdate D} (h : Buffered truth update)
    {book : OrderBook D} {n : ℕ} (hbook : book.level = WriteLog.after truth n)
    (hn : n ≤ update.lastUpdateId)
    (hcovers : ∀ m, n < m → m ≤ update.lastUpdateId →
      ∃ write ∈ update.writes, write.1 = (truth m).1) :
    (book.applyUpdate update).updateId = update.lastUpdateId ∧
      (book.applyUpdate update).IsAfter truth := by
  have hlast := h.last
  have hid : (book.applyUpdate update).updateId = update.lastUpdateId :=
    updateId_applyUpdate book (by omega)
  refine ⟨hid, by rw [hid]; exact h.last_lt, ?_⟩
  have hdelta : WriteLog.Delta truth (n + 1) update.lastUpdateId update.writes :=
    ⟨h.listed, fun m hm => hcovers m hm⟩
  rw [hid, level_applyUpdate, hbook]
  simp only [h.full, Bool.false_eq_true, if_false]
  exact hdelta.applyWrites_eq le_rfl hn

/-- A replay without a gap ends with the book after the last write replayed. -/
theorem applyUpdates_isAfter {updates : List (OrderBookUpdate D)} {book : OrderBook D} {n : ℕ}
    (hupdates : ∀ update ∈ updates, Buffered truth update) (hgapless : Gapless truth n updates)
    (hbook : book.level = WriteLog.after truth n) (hne : updates ≠ []) :
    (applyUpdates book updates).IsAfter truth := by
  induction updates generalizing book n with
  | nil => exact absurd rfl hne
  | cons update rest ih =>
    obtain ⟨⟨hn, hcovers⟩, hrest⟩ := hgapless
    obtain ⟨hid, hafter⟩ :=
      (hupdates update List.mem_cons_self).applyUpdate hbook hn hcovers
    cases rest with
    | nil => exact hafter
    | cons next more =>
      have hlevel : (book.applyUpdate update).level =
          WriteLog.after truth update.lastUpdateId := by rw [hafter.2, hid]
      exact ih (fun other hother => hupdates other (List.mem_cons_of_mem _ hother)) hrest hlevel
        (List.cons_ne_nil _ _)

variable {s : FeedState D}

/-- A broadcast of a faithful book with the id of a write keeps the state faithful. -/
theorem broadcastUpdate_faithful (h : s.Faithful truth symbol (Buffered truth)) {name : String}
    {ref : BookRef} {update : OrderBookUpdate D}
    (hbook : name = symbol ∨ ref.1 = symbol →
      2 ≤ ((s.books ref).applyUpdate update).updateId ∧
        ((s.books ref).applyUpdate update).IsAfter truth) :
    (broadcastUpdate s name ref update).Faithful truth symbol (Buffered truth) := by
  refine (h.setBook fun hsymbol _ => (hbook (Or.inr hsymbol)).2).deliver fun hname => ?_
  simpa only [FeedState.setBook, Function.update_self] using hbook (Or.inl hname)

/-- Installing a faithful snapshot and replaying updates that follow it without a gap
keeps the state faithful. -/
theorem finishInit_faithful (h : s.Faithful truth symbol (Buffered truth)) {task : InitTask D}
    {snapshot : OrderBook D} {processed : List (OrderBookUpdate D)}
    (hbook : task.book.1 = task.symbol)
    (hsnapshot : task.symbol = symbol → snapshot.IsAfter truth)
    (hprocessed : task.symbol = symbol → ∀ update ∈ processed, Buffered truth update)
    (hgapless : task.symbol = symbol → Gapless truth snapshot.updateId processed)
    (hne : processed ≠ []) :
    (finishInit s task snapshot processed).Faithful truth symbol (Buffered truth) := by
  refine h.setBook fun href _ => ?_
  have hsymbol : task.symbol = symbol := hbook.symm.trans href
  apply applyUpdates_isAfter (hprocessed hsymbol) (hgapless hsymbol) _ hne
  exact (level_updateId snapshot _).trans (hsnapshot hsymbol).2

/-- An attempt to replay the buffer, without a gap, keeps the state and the task
faithful. -/
theorem replayAttempt_faithful (h : s.Faithful truth symbol (Buffered truth)) (task : InitTask D)
    {snapshot : OrderBook D} (hbook : task.book.1 = task.symbol)
    (hsnapshot : task.symbol = symbol → snapshot.IsAfter truth) (retries : ℕ)
    (hgapless : task.symbol = symbol → retries ≠ 5 →
      Gapless truth snapshot.updateId (s.replayed symbol snapshot.updateId)) :
    (replayAttempt s task snapshot retries).1.Faithful truth symbol (Buffered truth) ∧
      ∀ next, (replayAttempt s task snapshot retries).2 = some next →
        next.Faithful truth symbol := by
  obtain ⟨hstate, hsleeping, hreplay⟩ := h.replayAttempt hbook hsnapshot retries
  simp only [replayAttempt]
  split
  · exact ⟨hstate, nofun⟩
  · rename_i next houtcome
    refine ⟨hstate, fun other hnext => ?_⟩
    cases hnext
    exact hsleeping next houtcome
  · rename_i processed houtcome
    obtain ⟨hretries, heq, hne⟩ := FeedState.replayAttempt_eq_replay houtcome
    refine ⟨finishInit_faithful hstate hbook hsnapshot (hreplay processed houtcome)
      (fun hsymbol => ?_) hne, nofun⟩
    rw [heq, hsymbol]
    exact hgapless hsymbol hretries

/-- A response keeps the state, and the task, faithful. -/
theorem depthResponse_faithful (h : s.Faithful truth symbol (Buffered truth)) {task : InitTask D}
    (hbook : task.book.1 = task.symbol) (initialEventU retries : ℕ)
    (response : Option (DepthSnapshot D))
    (hresponse : task.symbol = symbol → ∀ snapshot, response = some snapshot →
      initialEventU ≤ snapshot.id → snapshot.book.level = WriteLog.after truth snapshot.id ∧
        Gapless truth snapshot.id (s.replayed symbol snapshot.id)) :
    (depthResponse s task initialEventU retries response).1.Faithful truth symbol
        (Buffered truth) ∧
      ∀ next, (depthResponse s task initialEventU retries response).2 = some next →
        next.Faithful truth symbol := by
  unfold depthResponse
  split
  · exact ⟨h.setUpdateId _ Nat.zero_lt_two, nofun⟩
  · rename_i snapshot
    split
    · refine ⟨h, fun next hnext => ?_⟩
      cases hnext
      exact InitTask.faithful_fetching hbook
    · rename_i hold
      have hle := not_lt.mp hold
      exact replayAttempt_faithful h task hbook
        (fun hsymbol => ⟨snapshot.id_lt, (hresponse hsymbol snapshot rfl hle).1⟩) 0
        fun hsymbol _ => (hresponse hsymbol snapshot rfl hle).2

/-- Continuing a task, without a gap in what it replays, keeps the state faithful. -/
theorem resumeTask_faithful (h : s.Faithful truth symbol (Buffered truth)) {i : ℕ}
    {response : Option (Option (DepthSnapshot D))} {t : FeedState D}
    (hresponse : ∀ task initialEventU retries snapshot, s.tasks[i]? = some task →
      task.symbol = symbol → task.stage = .fetching initialEventU retries →
        response = some (some snapshot) → initialEventU ≤ snapshot.id →
          snapshot.book.level = WriteLog.after truth snapshot.id ∧
            Gapless truth snapshot.id (s.replayed symbol snapshot.id))
    (hwake : ∀ task snapshot retries, s.tasks[i]? = some task → task.symbol = symbol →
      task.stage = .replaying snapshot retries → retries ≠ 5 → response = none →
        Gapless truth snapshot.updateId (s.replayed symbol snapshot.updateId))
    (hstep : resumeTask s i response = some t) : t.Faithful truth symbol (Buffered truth) := by
  cases resumes_of_resumeTask hstep with
  | @fetched task initialEventU retries response htask hstage =>
    have htaskOk := h.tasks task (List.mem_of_getElem? htask)
    obtain ⟨hstate, hnext⟩ := depthResponse_faithful h htaskOk.book initialEventU retries
      response fun hsymbol snapshot hsome hle =>
        hresponse task initialEventU retries snapshot htask hsymbol hstage (by rw [hsome]) hle
    exact hstate.setTask hnext
  | @woke task snapshot retries htask hstage =>
    have htaskOk := h.tasks task (List.mem_of_getElem? htask)
    obtain ⟨hstate, hnext⟩ := replayAttempt_faithful h task htaskOk.book
      (fun hsymbol => htaskOk.snapshot hsymbol snapshot retries hstage) retries
      fun hsymbol hretries => hwake task snapshot retries htask hsymbol hstage hretries rfl
    exact hstate.setTask hnext

/-- An honest event, applied to a book that it continues, gives the book after its
last write. -/
theorem HonestEvent.applyUpdate {market : MarketType} {event : BinanceEvent}
    {update : OrderBookUpdate D} (h : HonestEvent truth market event update)
    (hbuffered : Buffered truth update) (hlast : update.lastUpdateId = event.lastUpdateId)
    (hfirst : 1 ≤ event.firstUpdateId) {book : OrderBook D} (hbook : book.IsAfter truth)
    (hcontinues : continues market book event = some true) :
    (book.applyUpdate update).updateId = update.lastUpdateId ∧
      (book.applyUpdate update).IsAfter truth := by
  cases market with
  | spot =>
    simp only [continues, Option.some.injEq, decide_eq_true_eq] at hcontinues
    obtain ⟨hle, hge⟩ := hcontinues
    -- after the largest id the counter wraps to zero, below every first id
    have hlt : book.updateId + 1 < 2 ^ 64 := by
      by_contra hmax
      have hwrap : book.updateId = 2 ^ 64 - 1 := by
        have := hbook.1
        omega
      rw [hwrap, succU64_max] at hle
      omega
    rw [succU64_of_lt hlt] at hle hge
    refine hbuffered.applyUpdate hbook.2 (by omega) fun m hm hmlast => ?_
    exact h.spot rfl m (by omega) (by omega)
  | future =>
    obtain ⟨previousId, hprevious, heq⟩ := Option.map_eq_some_iff.mp hcontinues
    have hid : previousId = book.updateId := of_decide_eq_true heq
    obtain ⟨hle, hcovers⟩ := h.future rfl previousId hprevious
    refine hbuffered.applyUpdate hbook.2 (by omega) fun m hm hmlast => ?_
    exact hcovers m (by omega) (by omega)

variable [DecimalText D]

/-- Handling an honest event keeps the state faithful. -/
theorem handleEvent_faithful (h : s.Faithful truth symbol (Buffered truth))
    {market : MarketType} {event : BinanceEvent} {ref : BookRef} (href : ref.1 = event.symbol)
    (hlast : event.lastUpdateId < 2 ^ 64)
    (hhonest : event.symbol = symbol → 1 ≤ event.firstUpdateId ∧
      ∀ update, buildUpdate event = some update → HonestEvent truth market event update) :
    (handleEvent market s event ref).Faithful truth symbol (Buffered truth) := by
  have hbuffered (update : OrderBookUpdate D) (hupdate : buildUpdate event = some update)
      (hsymbol : event.symbol = symbol) : Buffered truth update := by
    have hevent := (hhonest hsymbol).2 update hupdate
    obtain ⟨_, hend, hfull⟩ := buildUpdate_fields hupdate
    exact ⟨hend ▸ hevent.last, hend ▸ hlast, hfull, hend ▸ hevent.listed⟩
  simp only [handleEvent]
  split
  · have hopen := (h.setUpdateId ref Nat.one_lt_two).openInit event.symbol
    simp only [startInit]
    split
    · exact hopen.addTask (InitTask.faithful_fetching href)
    · rename_i hzero
      obtain ⟨hstate, hnext⟩ := replayAttempt_faithful hopen
        ⟨event.symbol, ref, .fetching event.firstUpdateId 0⟩ href
        (fun _ => OrderBook.isAfter_empty) 0
        fun hsymbol _ => absurd (hhonest hsymbol).1 (by omega)
      split
      · exact hstate
      · rename_i task htask
        exact hstate.addTask (hnext task htask)
  · rename_i hzero
    split
    · exact h.pushInit fun hsymbol update hupdate => hbuffered update hupdate hsymbol
    · rename_i hone
      split
      · exact h
      · exact h.setBook fun _ => OrderBook.faithful_empty
      · rename_i hcontinues
        split
        · exact h
        · rename_i update hupdate
          refine broadcastUpdate_faithful h fun hor => ?_
          have hsymbol : event.symbol = symbol := by
            rcases hor with hsymbol | hsymbol
            · exact hsymbol
            · exact href.symm.trans hsymbol
          have hok := hbuffered update hupdate hsymbol
          have hbook := h.books ref (href.trans hsymbol) (by omega)
          obtain ⟨hid, hafter⟩ := HonestEvent.applyUpdate
            ((hhonest hsymbol).2 update hupdate) hok (buildUpdate_fields hupdate).2.1
            (hhonest hsymbol).1 hbook hcontinues
          exact ⟨by rw [hid]; exact hok.last, hafter⟩

/-- Every honest step without a gap in what it replays keeps the state faithful. -/
theorem binanceStep_faithful (h : s.Faithful truth symbol (Buffered truth)) {market : MarketType}
    {action : FeedAction D} {t : FeedState D} (hhonest : HonestAction truth symbol market s action)
    (hgapless : GaplessReplay truth symbol s action)
    (hstep : binanceStep market s action = some t) :
    t.Faithful truth symbol (Buffered truth) := by
  unfold binanceStep at hstep
  split at hstep
  · cases hstep
  cases action with
  | message text =>
    cases hstep
    unfold handleMessage
    split
    · exact h
    · rename_i event hevent
      obtain ⟨parsed, rfl, hread⟩ := Option.bind_eq_some_iff.mp hevent
      split
      · exact h
      · rename_i ref href
        exact handleEvent_faithful h (h.refs _ ref href) (readEvent_last_lt hread)
          (hhonest parsed event rfl hread)
  | depth i response =>
    refine resumeTask_faithful h (fun task initialEventU retries snapshot htask hsymbol hstage
      hresponse hle => ?_) (fun _ _ _ _ _ _ _ hnone => absurd hnone (Option.some_ne_none _)) hstep
    have hsome := Option.some.inj hresponse
    exact ⟨hhonest task initialEventU retries snapshot htask hsymbol hstage hsome hle,
      hgapless task initialEventU retries snapshot htask hsymbol hstage hsome hle⟩
  | wake i =>
    exact resumeTask_faithful h
      (fun _ _ _ _ _ _ _ hsome => absurd hsome.symm (Option.some_ne_none _))
      (fun task snapshot retries htask hsymbol hstage hretries _ =>
        hgapless task snapshot retries htask hsymbol hstage hretries) hstep
  | watch name waiter subscribes sends =>
    cases hstep
    exact h.watch name waiter subscribes sends
  | unwatch name unsubscribes =>
    cases hstep
    exact h.unwatch name unsubscribes
  | fail =>
    cases hstep
    exact h.onFail
  | resume k => exact h.resume hstep

/-- In every run with honest events and snapshots of a symbol in which every replay
of its buffer follows the snapshot without a gap, a book that carries the id of a
write is the book after that write, and only such a book is handed to watchers. -/
theorem binance_book_synchronised (market : MarketType) (truth : ℕ → (Side × D) × Option D)
    (symbol : String) (s : FeedState D)
    (hrun : GuardedRun.Reaches (binanceStep market)
      (fun u action => HonestAction truth symbol market u action ∧
        GaplessReplay truth symbol u action) FeedState.start s) :
    (∀ ref, s.subscribed symbol = some ref → 2 ≤ (s.books ref).updateId →
        (s.books ref).level = WriteLog.after truth (s.books ref).updateId) ∧
      ∀ delivery ∈ s.sent, delivery.symbol = symbol → 2 ≤ delivery.book.updateId ∧
        delivery.book.level = WriteLog.after truth delivery.book.updateId := by
  have hfaithful : s.Faithful truth symbol (Buffered truth) := by
    apply hrun.invariant FeedState.faithful_start
    exact fun u action v hu hguard hstep => binanceStep_faithful hu hguard.1 hguard.2 hstep
  exact hfaithful.synchronised

/-- The message of an event that lists one bid. -/
def depthUpdate (first last : Fin (2 ^ 64)) : Value :=
  .object [("s", .string "BTCUSDT"), ("U", .number (.posInt first)),
    ("u", .number (.posInt last)), ("a", .array []),
    ("b", .array [.array [.string "20", .string "5"]])]

/-- The exchange writes one bid again and again, and another bid once. -/
def twoBidTruth (n : ℕ) : (Side × ℕ) × Option ℕ :=
  if n = 4 then ((.bid, 10), some 8) else ((.bid, 20), some 5)

/-- A subscription, an event that starts the initialisation, and a buffered event. -/
def bufferingRun : List (FeedAction ℕ) :=
  [.watch "BTCUSDT" 0 true true, .message (some (depthUpdate 1 2)),
    .message (some (depthUpdate 3 3))]

/-- The snapshot after write 2. -/
def snapshotAtTwo : FeedAction ℕ := .depth 0 (some ⟨2, [(20, 5)], [], by decide⟩)

/-- The first bid is in the book after every write. -/
theorem after_twoBidTruth {n : ℕ} (hn : 1 ≤ n) :
    WriteLog.after twoBidTruth n (.bid, 20) = some 5 := by
  induction n, hn using Nat.le_induction with
  | base => rfl
  | succ n _ ih =>
    rw [WriteLog.after, twoBidTruth]
    split
    · rwa [Function.update_of_ne (by decide)]
    · exact Function.update_self _ _ _

/-- Events without the other bid's write in their range are honest. -/
theorem depthUpdate_honest {first last : Fin (2 ^ 64)} (hfirst : 1 ≤ first.val)
    (hlast : 2 ≤ last.val) (hfour : ∀ n, first.val ≤ n → n ≤ last.val → n ≠ 4)
    (s : FeedState ℕ) :
    HonestAction twoBidTruth "BTCUSDT" .spot s (.message (some (depthUpdate first last))) := by
  have hread' : readEvent (depthUpdate first last) =
      some ⟨"BTCUSDT", last, first, depthUpdate first last⟩ := rfl
  have hbuild' : buildUpdate (D := ℕ) ⟨"BTCUSDT", last, first, depthUpdate first last⟩ =
      some ⟨[(20, 5)], [], first, last, false⟩ := rfl
  intro parsed event hparsed hread _
  cases hparsed
  rw [hread'] at hread
  cases hread
  refine ⟨hfirst, fun update hbuild => ?_⟩
  rw [hbuild'] at hbuild
  cases hbuild
  refine ⟨hlast, fun write hwrite => ?_, fun _ n hn hnlast => ?_, nofun⟩
  · cases List.mem_singleton.mp hwrite
    exact (after_twoBidTruth (n := last.val) (by omega)).symm
  · refine ⟨_, List.mem_singleton.mpr rfl, ?_⟩
    rw [twoBidTruth, if_neg (hfour n hn hnlast)]

/-- The snapshot is honest. -/
theorem snapshotAtTwo_honest (s : FeedState ℕ) :
    HonestAction twoBidTruth "BTCUSDT" .spot s snapshotAtTwo := by
  intro task initialEventU retries snapshot _ _ _ hresponse _
  cases hresponse
  funext ⟨side, price⟩
  have hafter : WriteLog.after twoBidTruth 2 =
      Function.update (fun _ => none) (.bid, 20) (some 5) := Function.update_idem _ _ _
  rw [hafter]
  cases side with
  | bid =>
    by_cases hprice : price = 20
    · subst hprice
      rfl
    · rw [Function.update_of_ne (by simp [hprice])]
      exact Finmap.lookup_insert_of_ne ∅ hprice
  | ask => rfl

/-- Without a loss the initialisation ends with the book after write 3. -/
theorem bufferingRun_synchronised : ∃ s : FeedState ℕ,
    GuardedRun.exec (binanceStep .spot) FeedState.start (bufferingRun ++ [snapshotAtTwo]) = some s ∧
      (s.books ("BTCUSDT", 0)).updateId = 3 ∧
        (s.books ("BTCUSDT", 0)).level = WriteLog.after twoBidTruth 3 := by
  have hexec : (GuardedRun.exec (binanceStep .spot) FeedState.start
      (bufferingRun ++ [snapshotAtTwo])).map (fun s : FeedState ℕ =>
        (s.subscribed "BTCUSDT", (s.books ("BTCUSDT", 0)).updateId)) =
          some (some ("BTCUSDT", 0), 3) := rfl
  obtain ⟨s, hexec, hstate⟩ := Option.map_eq_some_iff.mp hexec
  obtain ⟨href, hid⟩ := Prod.mk.inj hstate
  have hsteps : GuardedRun.StepsSatisfy (binanceStep .spot)
      (fun u action => HonestAction twoBidTruth "BTCUSDT" .spot u action ∧
        GaplessReplay twoBidTruth "BTCUSDT" u action) FeedState.start
      (bufferingRun ++ [snapshotAtTwo]) := by
    rintro s₁ ⟨⟩
    refine ⟨⟨trivial, trivial⟩, ?_⟩
    rintro s₂ ⟨⟩
    refine ⟨⟨depthUpdate_honest (by decide) (by decide) (fun n _ hn => by simp at hn; omega) _,
      trivial⟩, ?_⟩
    rintro s₃ ⟨⟩
    refine ⟨⟨depthUpdate_honest (by decide) (by decide) (fun n _ hn => by simp at hn; omega) _,
      trivial⟩, ?_⟩
    rintro s₄ ⟨⟩
    refine ⟨⟨snapshotAtTwo_honest _, ?_⟩, trivial⟩
    intro task initialEventU retries snapshot _ _ _ hresponse _
    cases hresponse
    change Gapless twoBidTruth 2 [⟨[(20, 5)], [], 3, 3, false⟩]
    refine ⟨⟨by decide, fun m hm hmlast => ⟨_, List.mem_singleton.mpr rfl, ?_⟩⟩, trivial⟩
    have hthree : m = 3 := le_antisymm hmlast hm
    rw [hthree]
    rfl
  have hsync := (binance_book_synchronised .spot twoBidTruth "BTCUSDT" s
    (GuardedRun.reaches_of_exec hsteps hexec)).1 _ href (by omega)
  rw [hid] at hsync
  exact ⟨s, hexec, hid, hsync⟩

/-- When event 4 is lost while the snapshot is fetched, the replay of event 5 gives
the book the id 5 without the write of event 4. -/
theorem binance_replay_gap : ¬ ∀ s : FeedState ℕ,
    GuardedRun.Reaches (binanceStep .spot) (HonestAction twoBidTruth "BTCUSDT" .spot)
      FeedState.start s → ∀ ref, s.subscribed "BTCUSDT" = some ref →
        2 ≤ (s.books ref).updateId →
          (s.books ref).level = WriteLog.after twoBidTruth (s.books ref).updateId := by
  intro hclaim
  have hexec : (GuardedRun.exec (binanceStep .spot) FeedState.start
      (bufferingRun ++ [.message (some (depthUpdate 5 5)), snapshotAtTwo])).map
        (fun s : FeedState ℕ => (s.subscribed "BTCUSDT", (s.books ("BTCUSDT", 0)).updateId,
          (s.books ("BTCUSDT", 0)).level (.bid, 10))) =
            some (some ("BTCUSDT", 0), 5, none) := rfl
  obtain ⟨s, hexec, hstate⟩ := Option.map_eq_some_iff.mp hexec
  obtain ⟨href, hstate⟩ := Prod.mk.inj hstate
  obtain ⟨hid, hlevel⟩ := Prod.mk.inj hstate
  have hsteps : GuardedRun.StepsSatisfy (binanceStep .spot)
      (HonestAction twoBidTruth "BTCUSDT" .spot) FeedState.start
      (bufferingRun ++ [.message (some (depthUpdate 5 5)), snapshotAtTwo]) := by
    refine GuardedRun.stepsSatisfy_of_forall fun action haction u => ?_
    simp only [bufferingRun, List.cons_append, List.nil_append, List.mem_cons,
      List.not_mem_nil, or_false] at haction
    rcases haction with rfl | rfl | rfl | rfl | rfl
    · trivial
    · exact depthUpdate_honest (by decide) (by decide) (fun n _ hn => by simp at hn; omega) u
    · exact depthUpdate_honest (by decide) (by decide) (fun n _ hn => by simp at hn; omega) u
    · exact depthUpdate_honest (by decide) (by decide) (fun n hn _ => by simp at hn; omega) u
    · exact snapshotAtTwo_honest u
  have hsync := hclaim s (GuardedRun.reaches_of_exec hsteps hexec) _ href (by omega)
  rw [hid] at hsync
  have hmissing := congrFun hsync (.bid, 10)
  rw [hlevel] at hmissing
  exact absurd hmissing (by decide)

end Arbexpert.Binance
