import Arbexpert.Exchange.Routing
import Arbexpert.Gate.Hold
import Arbexpert.Gate.Sync
import Arbexpert.Worker.Legs

/-!
# From the writes of the exchange to the stored prices

Each leg of a monitored arbitrage is fed by a sub-client of its market. The task of a leg reads
the shared book when it resumes, not when the book was sent. When the messages keep the books
that watchers hold, and the exchange is honest, what the task stores are the best prices of the
exchange after one of its writes, and so are the prices in every notification.
-/

namespace Arbexpert.Worker

open Arbexpert.Base Arbexpert.Exchange Arbexpert.Gate

/-- A monitored arbitrage with the sub-clients that feed its legs. -/
structure FedMonitor (D : Type*) where
  feed : MarketType → GateState D
  monitor : Monitor D

/-- What can happen next: something at a sub-client, where tasks of other arbitrages may resume,
or the task of a leg resumes with a book that it was handed, or its watch fails. -/
inductive FedAction (D : Type*)
  | feed (market : MarketType) (action : FeedAction D)
  | resume (market : MarketType) (k : ℕ)
  | fail (market : MarketType)

section Levels

variable {D : Type*} [LinearOrder D]

/-- The price is the lowest ask of some levels. -/
def IsBestAsk (levels : Side × D → Option D) (price : D) : Prop :=
  IsLeast {other | levels (.ask, other) ≠ none} price

/-- The price is the highest bid of some levels. -/
def IsBestBid (levels : Side × D → Option D) (price : D) : Prop :=
  IsGreatest {other | levels (.bid, other) ≠ none} price

/-- An ask and a bid are the best prices of the exchange after one of its writes, and the
quantity, if there is one, is that of the bid. -/
def IsQuote (truth : ℕ → (Side × D) × Option D) (ask bid : D) (quantity : Option D) : Prop :=
  ∃ n, 2 ≤ n ∧ IsBestAsk (WriteLog.after truth n) ask ∧ IsBestBid (WriteLog.after truth n) bid ∧
    ∀ size ∈ quantity, WriteLog.after truth n (.bid, bid) = some size

/-- The first entries of a book are its best prices. -/
theorem isBest_of_getPrice {book : OrderBook D} {ask : D × D} {bid : Dᵒᵈ × D}
    (hask : getPrice book.asks = some ask) (hbid : getPrice book.bids = some bid) :
    IsBestAsk book.level ask.1 ∧ IsBestBid book.level (OrderDual.ofDual bid.1) ∧
      book.level (.bid, OrderDual.ofDual bid.1) = some bid.2 := by
  obtain ⟨hleast, _⟩ := getPrice_eq_some hask
  obtain ⟨⟨hmem, hlower⟩, hvalue⟩ := getPrice_eq_some hbid
  exact ⟨hleast, ⟨hmem, fun other hother => hlower (a := OrderDual.toDual other) hother⟩, hvalue⟩

/-- The best prices of a synchronised book are a quote. -/
theorem OrderBook.Faithful.isQuote {truth : ℕ → (Side × D) × Option D} {book : OrderBook D}
    (hbook : book.Faithful truth) (hid : 2 ≤ book.updateId) {ask : D × D} {bid : Dᵒᵈ × D}
    (hask : getPrice book.asks = some ask) (hbid : getPrice book.bids = some bid) :
    IsQuote truth ask.1 (OrderDual.ofDual bid.1) (some bid.2) := by
  have hlevel := (hbook hid).2
  obtain ⟨hbestAsk, hbestBid, hvalue⟩ := isBest_of_getPrice hask hbid
  rw [hlevel] at hbestAsk hbestBid hvalue
  refine ⟨book.updateId, hid, hbestAsk, hbestBid, fun size hsize => ?_⟩
  rw [hvalue]
  exact hsize

end Levels

variable {D : Type*}

/-- The ask of a leg. -/
def ArbitrageSnaphot.ask (snapshot : ArbitrageSnaphot D) : MarketType → D
  | .spot => snapshot.spotAsk
  | .future => snapshot.futureAsk

/-- The bid of a leg. -/
def ArbitrageSnaphot.bid (snapshot : ArbitrageSnaphot D) : MarketType → D
  | .spot => snapshot.spotBid
  | .future => snapshot.futureBid

/-- The quantity at the bid of a leg, which is stored for the futures leg. -/
def ArbitrageSnaphot.quantity (snapshot : ArbitrageSnaphot D) : MarketType → Option D
  | .spot => none
  | .future => some snapshot.futureBidQty

/-- The key under which the task of a leg watches its symbol. -/
def Arbitrage.key (item : Arbitrage D) (market : MarketType) : String :=
  normalizeSymbol gateSeparator (item.symbol market)

variable [DecimalArith D] [LinearOrder D]

/-- The prices of each leg are a quote of its exchange, or zero, and the percentages are those of
these prices. -/
structure ArbitrageSnaphot.IsTrue (truth : MarketType → ℕ → (Side × D) × Option D)
    (snapshot : ArbitrageSnaphot D) : Prop where
  legs : ∀ market, snapshot.ask market = 0 ∧ snapshot.bid market = 0 ∨
    IsQuote (truth market) (snapshot.ask market) (snapshot.bid market) (snapshot.quantity market)
  entry : snapshot.entryPercent = Worker.entryPercent snapshot.spotAsk snapshot.futureBid
  exit : snapshot.exitPercent = Worker.exitPercent snapshot.futureAsk snapshot.spotBid

namespace FedMonitor

/-- A new monitor and new sub-clients. -/
def start (spot future : Asset) : FedMonitor D := ⟨fun _ => gateStart, Monitor.start spot future⟩

/-- The process was aborted. -/
def aborted (s : FedMonitor D) : Bool := (s.feed .spot).aborted || (s.feed .future).aborted

/-- The task of a leg makes a step; where it finds no price, the sub-client records the abort. -/
def detect (s : FedMonitor D) (market : MarketType) (result : Option (OrderBook D)) :
    FedMonitor D :=
  { s with monitor := (s.monitor.step ⟨s.monitor.arbitrage.symbol market, result⟩).getD s.monitor }

variable [DecimalText D]

/-- One step; nothing happens after the process was aborted. -/
def step (s : FedMonitor D) (action : FedAction D) : Option (FedMonitor D) :=
  if s.aborted then none
  else
    match action with
    | .feed market action =>
      (gateStep market (s.feed market) action).map fun feed =>
        { s with feed := Function.update s.feed market feed }
    | .resume market k =>
      ((s.feed market).handed[k]?).bind fun entry =>
        if entry.2.1 = s.monitor.arbitrage.key market then
          (gateStep market (s.feed market) (.resume k)).map fun feed =>
            { s.detect market (some ((s.feed market).books entry.2)) with
              feed := Function.update s.feed market feed }
        else none
    | .fail market => some (s.detect market none)

/-- What the exchange promises, and what the messages leave to the watchers, at the sub-clients of
both legs. -/
def HonestFeeds (truth : MarketType → ℕ → (Side × D) × Option D) (s : FedMonitor D) :
    FedAction D → Prop
  | .feed market action =>
    HonestAction (truth market) (s.monitor.arbitrage.key market) market (s.feed market) action ∧
      KeepsHeldBooks market (s.feed market) action
  | _ => True

/-- The books of both legs are those of the exchange, the books that watchers hold are ready,
and what the monitor has stored and sent is true. -/
structure Grounded (truth : MarketType → ℕ → (Side × D) × Option D) (s : FedMonitor D) :
    Prop where
  symbol : marketOf (s.monitor.arbitrage.symbol .spot) = .spot
  faithful : ∀ market, (s.feed market).Faithful (truth market)
    (s.monitor.arbitrage.key market) (Replayable (truth market))
  handing : ∀ market, (s.feed market).Handing
  stored : s.monitor.arbitrage.snapshot.IsTrue truth
  notified : ∀ notification ∈ s.monitor.notifications, notification.snapshot.IsTrue truth

end FedMonitor

variable {truth : MarketType → ℕ → (Side × D) × Option D}

omit [DecimalArith D] [LinearOrder D] in
/-- The symbol of the futures leg is always told by its colon. -/
theorem marketOf_symbol_future (item : Arbitrage D) : marketOf (item.symbol .future) = .future :=
  if_pos (by simp [Arbitrage.symbol])

/-- The default snapshot is true. -/
theorem ArbitrageSnaphot.isTrue_default :
    (ArbitrageSnaphot.default : ArbitrageSnaphot D).IsTrue truth where
  legs market := by
    cases market <;> exact Or.inl ⟨rfl, rfl⟩
  entry := percents_zero.1.symm
  exit := percents_zero.2.symm

/-- A step that reads a synchronised book of its leg stores a true snapshot. -/
theorem ArbitrageSnaphot.IsTrue.newSnapshot {old new : ArbitrageSnaphot D} (h : old.IsTrue truth)
    {market : MarketType} {symbol : String} (hsymbol : marketOf symbol = market)
    {book : OrderBook D} (hbook : book.Faithful (truth market)) (hid : 2 ≤ book.updateId)
    (hnew : Worker.newSnapshot old symbol book = some new) : new.IsTrue truth := by
  obtain ⟨ask, hask, hrest⟩ := Option.bind_eq_some_iff.mp hnew
  obtain ⟨bid, hbid, rfl⟩ := Option.map_eq_some_iff.mp hrest
  obtain ⟨n, hn, hbestAsk, hbestBid, hsize⟩ := OrderBook.Faithful.isQuote hbook hid hask hbid
  refine ⟨fun other => ?_, rfl, rfl⟩
  cases market with
  | spot =>
    cases other with
    | spot =>
      refine Or.inr ⟨n, hn, ?_, ?_, nofun⟩
      · simpa [ArbitrageSnaphot.ask, newPrices, hsymbol] using hbestAsk
      · simpa [ArbitrageSnaphot.bid, newPrices, hsymbol] using hbestBid
    | future =>
      simpa [ArbitrageSnaphot.ask, ArbitrageSnaphot.bid, ArbitrageSnaphot.quantity, newPrices,
        hsymbol] using h.legs .future
  | future =>
    cases other with
    | spot =>
      simpa [ArbitrageSnaphot.ask, ArbitrageSnaphot.bid, ArbitrageSnaphot.quantity, newPrices,
        hsymbol] using h.legs .spot
    | future =>
      refine Or.inr ⟨n, hn, ?_, ?_, ?_⟩
      · simpa [ArbitrageSnaphot.ask, newPrices, hsymbol] using hbestAsk
      · simpa [ArbitrageSnaphot.bid, newPrices, hsymbol] using hbestBid
      · simpa [ArbitrageSnaphot.bid, ArbitrageSnaphot.quantity, newPrices, hsymbol] using hsize

/-- A book with a best level on both sides gives a snapshot. -/
theorem newSnapshot_isSome {book : OrderBook D} (hready : book.Ready) (old : ArbitrageSnaphot D)
    (symbol : String) : (newSnapshot old symbol book).isSome := by
  obtain ⟨ask, hask⟩ := Option.isSome_iff_exists.mp hready.asks
  obtain ⟨bid, hbid⟩ := Option.isSome_iff_exists.mp hready.bids
  simp [newSnapshot, hask, hbid]

namespace FedMonitor

variable {s t : FedMonitor D} {action : FedAction D}

/-- The spot leg has a symbol of the spot market, and so each leg has one of its own market. -/
theorem Grounded.marketOf_symbol (h : s.Grounded truth) (market : MarketType) :
    marketOf (s.monitor.arbitrage.symbol market) = market := by
  cases market with
  | spot => exact h.symbol
  | future => exact marketOf_symbol_future _

/-- A step of a sub-client keeps its books. -/
theorem Grounded.setFeed (h : s.Grounded truth) {market : MarketType} {feed : GateState D}
    (hfaithful : feed.Faithful (truth market) (s.monitor.arbitrage.key market)
      (Replayable (truth market))) (hhanding : feed.Handing) :
    ({ s with feed := Function.update s.feed market feed } : FedMonitor D).Grounded truth := by
  refine ⟨h.symbol, fun other => ?_, fun other => ?_, h.stored, h.notified⟩
  · by_cases heq : other = market
    · subst heq
      simpa using hfaithful
    · simpa [Function.update_of_ne heq] using h.faithful other
  · by_cases heq : other = market
    · subst heq
      simpa using hhanding
    · simpa [Function.update_of_ne heq] using h.handing other

/-- What a step of a task stores and sends is true. -/
theorem Grounded.detect (h : s.Grounded truth) {market : MarketType}
    {result : Option (OrderBook D)} (hresult : ∀ book ∈ result, book.Faithful (truth market) ∧
      book.Ready) : (s.detect market result).Grounded truth := by
  cases result with
  | none =>
    exact ⟨h.symbol, h.faithful, h.handing, ArbitrageSnaphot.isTrue_default, h.notified⟩
  | some book =>
    obtain ⟨hbook, hready⟩ := hresult book rfl
    obtain ⟨new, hnew⟩ := Option.isSome_iff_exists.mp (newSnapshot_isSome hready
      s.monitor.arbitrage.snapshot (s.monitor.arbitrage.symbol market))
    have htrue := h.stored.newSnapshot (h.marketOf_symbol market) hbook hready.updateId hnew
    simp only [FedMonitor.detect, Monitor.step, hnew, Option.map_some, Option.getD_some]
    refine ⟨h.symbol, h.faithful, h.handing, htrue, fun notification hmem => ?_⟩
    split at hmem
    · rcases List.mem_append.mp hmem with hold | hlast
      · exact h.notified notification hold
      · cases List.mem_singleton.mp hlast
        exact h.stored
    · exact h.notified notification hmem

variable [DecimalText D]

/-- The task of a leg resumes with a book of its key that it was handed. -/
theorem step_resume {market : MarketType} {k : ℕ} (hstep : s.step (.resume market k) = some t) :
    s.aborted = false ∧ ∃ entry feed, (s.feed market).handed[k]? = some entry ∧
      entry.2.1 = s.monitor.arbitrage.key market ∧
        gateStep market (s.feed market) (.resume k) = some feed ∧
          t = { s.detect market (some ((s.feed market).books entry.2)) with
            feed := Function.update s.feed market feed } := by
  unfold FedMonitor.step at hstep
  split at hstep
  · cases hstep
  · rename_i hrunning
    obtain ⟨entry, hentry, hrest⟩ := Option.bind_eq_some_iff.mp hstep
    obtain ⟨hkey, hmap⟩ := Option.ite_none_right_eq_some.mp hrest
    obtain ⟨feed, hfeed, rfl⟩ := Option.map_eq_some_iff.mp hmap
    exact ⟨eq_false_of_ne_true hrunning, entry, feed, hentry, hkey, hfeed, rfl⟩

/-- Every honest step keeps the books and what the monitor stores and sends. -/
theorem Grounded.step (h : s.Grounded truth) (hhonest : HonestFeeds truth s action)
    (hstep : s.step action = some t) : t.Grounded truth := by
  cases action with
  | feed market action =>
    unfold FedMonitor.step at hstep
    split at hstep
    · cases hstep
    · obtain ⟨feed, hfeed, rfl⟩ := Option.map_eq_some_iff.mp hstep
      exact h.setFeed (gateStep_faithful (h.faithful market) hhonest.1 hfeed)
        (gateStep_handing (h.handing market) hhonest.2 hfeed)
  | resume market k =>
    obtain ⟨_, entry, feed, hentry, hkey, hfeed, rfl⟩ := step_resume hstep
    have hready := (h.handing market).ready entry (List.mem_of_getElem? hentry)
    have hbook := (h.faithful market).books entry.2 hkey
    have hdetect : (s.detect market (some ((s.feed market).books entry.2))).Grounded truth := by
      refine h.detect fun book hmem => ?_
      cases hmem
      exact ⟨hbook, hready⟩
    exact hdetect.setFeed (gateStep_faithful (hdetect.faithful market) (by trivial) hfeed)
      (gateStep_handing (h.handing market) (by trivial) hfeed)
  | fail market =>
    unfold FedMonitor.step at hstep
    split at hstep
    · cases hstep
    · cases hstep
      exact h.detect nofun

/-- The task of a leg that resumes with a ready book does not abort the process. -/
theorem Grounded.aborted_resume (h : s.Grounded truth) {market : MarketType} {k : ℕ}
    (hstep : s.step (.resume market k) = some t) : t.aborted = false := by
  obtain ⟨hrunning, entry, feed, hentry, hkey, hfeed, rfl⟩ := step_resume hstep
  have hfeed' : feed.aborted = false := by
    unfold gateStep at hfeed
    split at hfeed
    · cases hfeed
    · obtain ⟨resumed, hresumed, rfl⟩ := Option.map_eq_some_iff.mp hfeed
      exact ((h.handing market).resume hresumed).2
  obtain ⟨hspot, hfuture⟩ := Bool.or_eq_false_iff.mp hrunning
  cases market with
  | spot => exact Bool.or_eq_false_iff.mpr ⟨hfeed', hfuture⟩
  | future => exact Bool.or_eq_false_iff.mpr ⟨hspot, hfeed'⟩

/-- In every run with honest feeds of both legs whose messages keep the books that watchers hold,
whatever the order in which the sub-clients and the two tasks make their steps and whichever
watches fail, the stored snapshot and those in all notifications are true, and no task of a leg
aborts the process. -/
theorem stored_prices_true (truth : MarketType → ℕ → (Side × D) × Option D) (spot future : Asset)
    (hspot : ':' ∉ spot.base.toList ∧ ':' ∉ spot.quote.toList)
    (hrun : GuardedRun.Reaches step (HonestFeeds truth) (start spot future) s) :
    s.monitor.arbitrage.snapshot.IsTrue truth ∧
      (∀ notification ∈ s.monitor.notifications, notification.snapshot.IsTrue truth) ∧
        ∀ market k t, s.step (.resume market k) = some t → t.aborted = false := by
  have hstart : (start spot future : FedMonitor D).Grounded truth := by
    refine ⟨if_neg ?_, fun _ => FeedState.faithful_start, fun _ => FeedState.handing_start,
      ArbitrageSnaphot.isTrue_default, nofun⟩
    simp [start, Monitor.start, Arbitrage.symbol, hspot.1, hspot.2]
  have h := hrun.invariant (I := fun u => u.Grounded truth) hstart
    fun u action v hu hhonest hstep => hu.step hhonest hstep
  exact ⟨h.stored, h.notified, fun market k t hstep => h.aborted_resume hstep⟩

/-- Decimals without sign and fraction, read as rationals. -/
instance : DecimalText ℚ where
  parse text := (DecimalText.parse text : Option ℕ).map Nat.cast
  deserialize value := (DecimalText.deserialize value : Option ℕ).map Nat.cast

/-- The exchange writes a bid first and then the same ask again and again. -/
def twoSidedTruth (_ : MarketType) (n : ℕ) : (Side × ℚ) × Option ℚ :=
  if n = 1 then ((.bid, 10), some 5) else ((.ask, 11), some 5)

/-- The spot leg is handed the whole book, and its task resumes. -/
def spotLegRun : List (FedAction ℚ) :=
  [.feed .spot (.watch "BTC_USDT" 0 true true), .feed .spot (.message (some twoSidedMessage)),
    .resume .spot 0]

/-- The exchange after its second write. -/
theorem after_twoSidedTruth : WriteLog.after (twoSidedTruth .spot) 2 =
    Function.update (Function.update (fun _ => none) (Side.bid, 10) (some 5)) (Side.ask, 11)
      (some 5) := rfl

/-- The message of the run is honest, and it may be sent to watchers while no book is held. -/
theorem twoSidedMessage_honest {s : FedMonitor ℚ} (hhanded : (s.feed .spot).handed = []) :
    HonestFeeds twoSidedTruth s (.feed .spot (.message (some twoSidedMessage))) := by
  have hupdate : (readEvent twoSidedMessage).bind (buildUpdate (D := ℚ) .spot) = some
      ⟨[(10, 5)], [(11, 5)], 1, 2, true⟩ := rfl
  have hwrites : (⟨[(10, 5)], [(11, 5)], 1, 2, true⟩ : OrderBookUpdate ℚ).writes =
      [((.bid, 10), some 5), ((.ask, 11), some 5)] := rfl
  constructor
  · intro parsed event update hparsed hread _ hbuild
    cases hparsed
    rw [hread, Option.bind_some, hbuild] at hupdate
    cases hupdate
    refine ⟨le_rfl, le_rfl, fun _ => ⟨?_, ?_⟩, fun hfull => absurd hfull (by decide)⟩
    · intro write hwrite
      simp only [hwrites, List.mem_cons, List.not_mem_nil, or_false] at hwrite
      rcases hwrite with rfl | rfl
      · simp [after_twoSidedTruth]
      · simp [after_twoSidedTruth]
    · intro key hkey
      simp only [hwrites, List.mem_cons, List.not_mem_nil, or_false, exists_eq_or_imp,
        exists_eq_left]
      by_contra hother
      obtain ⟨hbid, hask⟩ := not_or.mp hother
      rw [after_twoSidedTruth, Function.update_of_ne (Ne.symm hask),
        Function.update_of_ne (Ne.symm hbid)] at hkey
      exact hkey rfl
  · intro event ref hevent href
    have hheld : ¬(s.feed .spot).Held ref := by
      rintro ⟨entry, hentry, _⟩
      simp [hhanded] at hentry
    refine ⟨fun hcontra => absurd hcontra hheld, fun _ _ update hbuild => ?_⟩
    rw [Option.bind_some] at hevent
    rw [hevent, Option.bind_some, hbuild] at hupdate
    cases hupdate
    refine ⟨le_rfl, fun side => Or.inl ?_⟩
    rw [hwrites]
    cases side with
    | bid => exact ⟨[], ((.bid, 10), some 5), [((.ask, 11), some 5)], rfl, rfl, by simp, by simp⟩
    | ask => exact ⟨[((.bid, 10), some 5)], ((.ask, 11), some 5), [], rfl, rfl, by simp, by simp⟩

/-- The task of the spot leg stores the best prices after write 2. -/
theorem spotLegRun_true : ∃ s : FedMonitor ℚ,
    GuardedRun.exec step (start ⟨"BTC/USDT", "BTC", "USDT", .spot, "Gate"⟩
        ⟨"BTC/USDT:USDT", "BTC", "USDT", .future, "Gate"⟩) spotLegRun = some s ∧
      s.monitor.arbitrage.snapshot.spotAsk = 11 ∧ s.monitor.arbitrage.snapshot.spotBid = 10 ∧
        s.monitor.arbitrage.snapshot.IsTrue twoSidedTruth := by
  have hprices : (GuardedRun.exec step (start ⟨"BTC/USDT", "BTC", "USDT", .spot, "Gate"⟩
      ⟨"BTC/USDT:USDT", "BTC", "USDT", .future, "Gate"⟩) spotLegRun).map
        (fun s : FedMonitor ℚ => (s.monitor.arbitrage.snapshot.spotAsk,
          s.monitor.arbitrage.snapshot.spotBid)) = some (11, 10) := by
    decide +kernel
  obtain ⟨s, hexec, hstored⟩ := Option.map_eq_some_iff.mp hprices
  obtain ⟨hask, hbid⟩ := Prod.mk.inj hstored
  have hguard : GuardedRun.StepsSatisfy step (HonestFeeds twoSidedTruth)
      (start ⟨"BTC/USDT", "BTC", "USDT", .spot, "Gate"⟩
        ⟨"BTC/USDT:USDT", "BTC", "USDT", .future, "Gate"⟩) spotLegRun := by
    intro u hu
    have hhanded : (u.feed .spot).handed = [] := by
      cases hu
      rfl
    exact ⟨⟨trivial, trivial⟩, fun v _ => ⟨twoSidedMessage_honest hhanded,
      fun _ _ => ⟨trivial, trivial⟩⟩⟩
  exact ⟨s, hexec, hask, hbid, (stored_prices_true twoSidedTruth _ _ (by decide)
    (GuardedRun.reaches_of_exec hguard hexec)).1⟩

end FedMonitor

end Arbexpert.Worker
