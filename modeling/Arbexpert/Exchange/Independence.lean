import Arbexpert.Binance.Symbols
import Arbexpert.Gate.Symbols

/-!
# Symbols that share a connection

Whatever happens to the other symbols of a connection, the entries of a symbol are those after
its own events, responses, calls and failures, in their order.
-/

namespace Arbexpert.Exchange

open Arbexpert.Base Arbexpert.Gate Arbexpert.Binance Projection

/-- The second sub-client has the book, the pending watchers and the buffer that the first one
has for a symbol. -/
structure SameEntries {D : Type*} (symbol : String) (s u : FeedState D) : Prop where
  subscribed : u.subscribed symbol = s.subscribed symbol
  books : ∀ n, u.books (symbol, n) = s.books (symbol, n)
  pending : u.pending symbol = s.pending symbol
  init : u.init symbol = s.init symbol

/-- The state of the run of a symbol has the entries of the symbol. -/
theorem sameEntries_of_tracks {D : Type*} {symbol : String} {s u : FeedState D}
    (h : FeedState.Tracks symbol s u) : SameEntries symbol s u := by
  rw [← h.same]
  exact ⟨FeedState.subscribed_restrict, fun _ => FeedState.books_restrict rfl,
    FeedState.pending_restrict, FeedState.init_restrict⟩

variable {D : Type*} [LinearOrder D] [Zero D] [DecimalText D]

/-- After every run of a Gate or Binance sub-client, the entries of a symbol, and on Gate the
bid prices seen for it, are those after the run of the steps of the symbol alone. -/
theorem symbols_independent (market : MarketType) (symbol : String)
    (actions : List (FeedAction D)) :
    (∀ s, GuardedRun.exec (gateStep market) gateStart actions = some s →
      ∃ u, GuardedRun.exec (gateStep market) gateStart
          (project (gateStep market) (gateOwn symbol) gateStart actions) = some u ∧
        SameEntries symbol s.toFeedState u.toFeedState ∧ u.history symbol = s.history symbol) ∧
    ∀ s, GuardedRun.exec (binanceStep market) FeedState.start actions = some s →
      ∃ u, GuardedRun.exec (binanceStep market) FeedState.start
          (project (binanceStep market) (binanceOwn symbol) FeedState.start actions) = some u ∧
        SameEntries symbol s u := by
  refine ⟨fun s hrun => ?_, fun s hrun => ?_⟩
  · obtain ⟨u, hu, htracks⟩ := exists_gateRun_of_symbol market symbol hrun
    exact ⟨u, hu, sameEntries_of_tracks htracks.feed, htracks.history_eq⟩
  · obtain ⟨u, hu, htracks⟩ := exists_binanceRun_of_symbol market symbol hrun
    exact ⟨u, hu, sameEntries_of_tracks htracks⟩

/-- The message of an incremental event of a symbol that lists one bid. -/
def bidMessage (symbol : String) (first last : Fin (2 ^ 64)) : Option Value :=
  some (.object [("result", .object [("s", .string symbol), ("U", .number (.posInt first)),
    ("u", .number (.posInt last)), ("a", .array []),
    ("b", .array [.array [.string "10", .string "5"]])])])

/-- A snapshot with one bid. -/
def bidSnapshot : Option (DepthSnapshot ℕ) := some ⟨4, [(10, 5)], [], by decide⟩

/-- Two symbols are initialised side by side, and the second snapshot arrives first. -/
def sharedRun : List (FeedAction ℕ) :=
  [.watch "ETH_USDT" 0 true true, .watch "BTC_USDT" 1 true true,
    .message (bidMessage "ETH_USDT" 1 2), .message (bidMessage "BTC_USDT" 1 2),
    .message (bidMessage "ETH_USDT" 3 5), .message (bidMessage "BTC_USDT" 3 5),
    .depth 1 bidSnapshot, .message (bidMessage "BTC_USDT" 6 6), .depth 0 none]

/-- The steps of the second symbol. -/
def ownRun : List (FeedAction ℕ) :=
  [.watch "BTC_USDT" 1 true true, .message (bidMessage "BTC_USDT" 1 2),
    .message (bidMessage "BTC_USDT" 3 5), .depth 0 bidSnapshot,
    .message (bidMessage "BTC_USDT" 6 6)]

/-- The book of the second symbol carries the id of its last event in both runs. -/
theorem sharedRun_independent : ∃ s u : GateState ℕ,
    GuardedRun.exec (gateStep .spot) gateStart sharedRun = some s ∧
      GuardedRun.exec (gateStep .spot) gateStart ownRun = some u ∧
      (s.books ("BTC_USDT", 0)).updateId = 6 ∧
      SameEntries "BTC_USDT" s.toFeedState u.toFeedState ∧
      u.history "BTC_USDT" = s.history "BTC_USDT" := by
  have hid : (GuardedRun.exec (gateStep .spot) gateStart sharedRun).map
      (fun s => (s.books ("BTC_USDT", 0)).updateId) = some 6 := rfl
  have hown : project (gateStep .spot) (gateOwn "BTC_USDT") gateStart sharedRun = ownRun := rfl
  obtain ⟨s, hs, hid⟩ := Option.map_eq_some_iff.mp hid
  obtain ⟨u, hu, hsame, hhistory⟩ :=
    (symbols_independent .spot "BTC_USDT" sharedRun).1 s hs
  exact ⟨s, u, hs, hown ▸ hu, hid, hsame, hhistory⟩

end Arbexpert.Exchange
