import Arbexpert.Binance.Phases
import Arbexpert.Gate.Phases

/-!
# Phases and ids in one field

Both handlers store the ids of the exchange in the field that tells the phases apart. The phases of
the live books can be told apart as long as no book is synchronised with one of the numbers 0 and 1.
-/

namespace Arbexpert.Exchange

open Arbexpert.Base Arbexpert.Gate Arbexpert.Binance

variable {D : Type*} [LinearOrder D] [Zero D] [DecimalText D]

/-- In every run of a Gate or Binance sub-client, after each step a live book has id one exactly
while one handler is suspended for it, and a live book that the step synchronises has the id of a
write, exactly if the updates that the steps apply to live books lead to such an id. -/
theorem phases_distinguished_iff (market : MarketType) (actions : List (FeedAction D)) :
    (GuardedRun.StepsSatisfy (gateStep market) (fun s action => ∀ t : GateState D,
        gateStep market s action = some t → s.toFeedState.Distinguishes
          (gateApplied market s.toFeedState action) t.toFeedState) gateStart actions ↔
      GuardedRun.StepsSatisfy (gateStep market) (fun s action => s.toFeedState.Synchronises
        (gateApplied market s.toFeedState action)) gateStart actions) ∧
    (GuardedRun.StepsSatisfy (binanceStep market) (fun s action => ∀ t : FeedState D,
        binanceStep market s action = some t →
          s.Distinguishes (binanceApplied market s action) t) FeedState.start actions ↔
      GuardedRun.StepsSatisfy (binanceStep market) (fun s action => s.Synchronises
        (binanceApplied market s action)) FeedState.start actions) := by
  constructor
  · exact FeedState.stepsDistinguish_iff GateState.toFeedState
      (fun _ _ _ h hsound hstep => gateStep_moves h hsound hstep) rfl actions
  · exact FeedState.stepsDistinguish_iff id
      (fun _ _ _ h hsound hstep => binanceStep_moves h hsound hstep) rfl actions

/-- The message of a full event of write 1. -/
def firstWriteMessage : Option Value :=
  some (.object [("result", .object [("full", .bool true), ("s", .string "BTC_USDT"),
    ("U", .number (.posInt 1)), ("u", .number (.posInt 1)), ("a", .array []),
    ("b", .array [.array [.string "10", .string "5"]])])])

/-- A full event of write 1 gives the live book id one, though no handler is suspended; the book
then stays as it is, whatever event follows. -/
theorem first_write_stuck : ∃ s : GateState ℕ,
    GuardedRun.exec (gateStep .spot) gateStart
        [.watch "BTC_USDT" 0 true true, .message firstWriteMessage] = some s ∧
      s.subscribed "BTC_USDT" = some ("BTC_USDT", 0) ∧
      (s.books ("BTC_USDT", 0)).updateId = 1 ∧ s.tasks = [] ∧ ¬ s.PhasesAgree ∧
      ∀ event : GateEvent, Gate.handleEvent .spot s event ("BTC_USDT", 0) = s := by
  refine ⟨_, rfl, rfl, rfl, rfl, fun h => ?_, fun event => rfl⟩
  exact absurd ((h "BTC_USDT" ("BTC_USDT", 0) rfl).mp rfl) Nat.zero_ne_one

/-- The message of a futures event without levels. -/
def futuresMessage (previous last : Fin (2 ^ 64)) : Option Value :=
  some (.object [("s", .string "BTCUSDT"), ("U", .number (.posInt last)),
    ("u", .number (.posInt last)), ("pu", .number (.posInt previous)), ("a", .array []),
    ("b", .array [])])

/-- On Binance an event that names the id of the book before it may bring the number 1 as well. -/
example : (GuardedRun.exec (binanceStep .future) (FeedState.start : FeedState ℕ)
    [.watch "BTCUSDT" 0 true true, .message (futuresMessage 1 2), .message (futuresMessage 2 4),
      .depth 0 (some ⟨3, [], [], by decide⟩), .message (futuresMessage 4 1)]).map
    (fun s => ((s.books ("BTCUSDT", 0)).updateId, s.tasks.length)) = some (1, 0) := rfl

end Arbexpert.Exchange
