import Arbexpert.Base.Tasks
import Arbexpert.Foundation.GuardedRun
import Arbexpert.Gate.Handler

/-!
# Gate books that a watcher reads after the hand-off

A watcher is handed a reference and reads the book when it is resumed, after any
number of further messages. The handler resets a book at a gap and applies updates
that empty a side without regard to such watchers, so the read is safe on the runs
where no message does this to a book that is held or about to be handed out.
-/

namespace Arbexpert.Gate

open Arbexpert.Base

variable {D : Type*} [LinearOrder D] [Zero D]

/-- An event does not continue the book: it starts after the next write, or ends
before it. -/
def Gap (book : OrderBook D) (event : GateEvent) : Prop :=
  succU64 book.updateId < event.firstUpdateId ∨ event.lastUpdateId < succU64 book.updateId

/-- The handler applies an event to the book at once. -/
def Applies (book : OrderBook D) (event : GateEvent) : Prop :=
  book.updateId = 0 ∧ event.full = true ∨ 2 ≤ book.updateId ∧ ¬Gap book event

/-- No message resets a synchronised book that a watcher holds, and an update that is
applied to a held book, or to one that will be handed out, carries the id of a write
and keeps both sides. -/
def KeepsHeldBooks [DecimalText D] (market : MarketType) (s : GateState D) : FeedAction D → Prop
  | .message text => ∀ event ref, text.bind readEvent = some event →
      s.subscribed event.symbol = some ref →
        (s.Held ref → 2 ≤ (s.books ref).updateId → ¬Gap (s.books ref) event) ∧
          (s.Held ref ∨ s.Awaited event.symbol → Applies (s.books ref) event →
            ∀ update, buildUpdate market event = some update →
              2 ≤ update.lastUpdateId ∧ ∀ side, update.Keeps (s.books ref) side)
  | _ => True

variable {s : GateState D}

/-- An attempt to replay the buffer writes at most the book of its task. -/
theorem taskStep_replayAttempt (s : GateState D) (task : InitTask D) (snapshot : OrderBook D)
    (retries : ℕ) : s.TaskStep (replayAttempt s task snapshot retries).1.toFeedState task.book
      (replayAttempt s task snapshot retries).2 := by
  obtain ⟨hsleeping, hended⟩ := s.taskStep_replayAttempt task snapshot retries
  simp only [replayAttempt]
  split
  · exact hended
  · rename_i next houtcome
    exact hsleeping next houtcome
  · exact hended.setBook _

/-- A response writes at most the book of its task. -/
theorem taskStep_depthResponse (s : GateState D) (task : InitTask D) (initialEventU retries : ℕ)
    (response : Option (DepthSnapshot D)) :
    s.TaskStep (depthResponse s task initialEventU retries response).1.toFeedState task.book
      (depthResponse s task initialEventU retries response).2 := by
  unfold depthResponse
  split
  · exact s.taskStep_setBook _ _
  · split
    · split
      · exact s.taskStep_setBook _ _
      · refine ⟨fun _ _ => rfl, rfl, rfl, rfl, rfl, fun next hnext => ?_⟩
        cases hnext
        exact ⟨rfl, rfl⟩
    · exact taskStep_replayAttempt s task _ 0

/-- Continuing a task keeps the held books ready. -/
theorem resumeTask_handing (h : s.Handing) {i : ℕ} {response : Option (Option (DepthSnapshot D))}
    {t : GateState D} (hstep : resumeTask s i response = some t) : t.Handing := by
  cases resumes_of_resumeTask hstep with
  | fetched response htask => exact h.setTask htask (taskStep_depthResponse s _ _ _ _)
  | woke htask => exact h.setTask htask (taskStep_replayAttempt s _ _ _)

/-- Starting an initialisation for a book that is not synchronised. -/
theorem startInit_handing (h : s.Handing) {event : GateEvent} {ref : BookRef}
    (hid : (s.books ref).updateId = 0) (href : ref.2 < s.opened ref.1) :
    (startInit s event ref).Handing := by
  have hne : ∀ task ∈ s.tasks, task.book ≠ ref := h.ne_of_updateId (by omega)
  have hheld : ¬s.Held ref := h.not_held (by omega)
  have hopen : ((s.toFeedState.setUpdateId ref 1).openInit event.symbol).Handing := by
    have hset : (s.toFeedState.setUpdateId ref 1).Handing :=
      h.setBook hne fun hcontra => absurd hcontra hheld
    exact ⟨hset.toExclusive.setInit _ _, hset.ready⟩
  have hone :
      (((s.toFeedState.setUpdateId ref 1).openInit event.symbol).books ref).updateId = 1 := by
    simp [FeedState.openInit, FeedState.setInit, FeedState.setUpdateId, FeedState.setBook]
  simp only [startInit]
  split
  · exact ⟨hopen.toExclusive.addTask hone hne href, hopen.ready⟩
  · have hattempt := taskStep_replayAttempt { s with
      toFeedState := (s.toFeedState.setUpdateId ref 1).openInit event.symbol }
      ⟨event.symbol, ref, .fetching event.firstUpdateId 0⟩ OrderBook.empty 0
    split
    · rename_i hnext
      rw [hnext] at hattempt
      exact hopen.taskStep hattempt hne hheld
    · rename_i next hnext
      rw [hnext] at hattempt
      have hended := hopen.taskStep (hattempt.suspended) hne hheld
      obtain ⟨hbook, hsame⟩ := hattempt.next next rfl
      refine ⟨hended.toExclusive.addTask ?_ ?_ ?_, hended.ready⟩
      · rw [hbook, hsame]
        exact hone
      · rw [hbook, hattempt.tasks]
        exact hne
      · rw [hbook, hattempt.opened]
        exact href

/-- A broadcast of a book that is ready if anybody holds it or waits for it. -/
theorem broadcastUpdate_handing (h : s.Handing) {name : String} {ref : BookRef}
    {update : OrderBookUpdate D} (hid : (s.books ref).updateId ≠ 1)
    (href : ref.2 < s.opened ref.1)
    (hready : s.Held ref ∨ s.Awaited name → ((s.books ref).applyUpdate update).Ready) :
    (broadcastUpdate s name ref update).Handing := by
  have hset : (s.toFeedState.setBook ref ((s.books ref).applyUpdate update)).Handing :=
    h.setBook (h.ne_of_updateId hid) fun hheld => hready (Or.inl hheld)
  rw [broadcastUpdate_toFeedState]
  split
  · refine hset.deliver href fun hawaited => ?_
    simp only [FeedState.setBook, Function.update_self]
    exact hready (Or.inr hawaited)
  · exact ⟨⟨hset.taskId, hset.nodup, hset.taskOpened, hset.subscribedOpened, hset.handedOpened⟩,
      hset.ready⟩

variable [DecimalText D]

/-- A message that keeps the held books keeps them ready. -/
theorem handleMessage_handing (h : s.Handing) {market : MarketType} {text : Option Value}
    (hkeeps : KeepsHeldBooks market s (.message text)) :
    (handleMessage market s text).Handing := by
  unfold handleMessage
  split
  · exact h
  · rename_i event hevent
    split
    · exact h
    · rename_i ref href
      obtain ⟨hgap, happly⟩ := hkeeps event ref hevent href
      have hopened := h.subscribedOpened _ ref href
      have hready (update : OrderBookUpdate D) (hupdate : buildUpdate market event = some update)
          (happlies : Applies (s.books ref) event) (hor : s.Held ref ∨ s.Awaited event.symbol) :
          ((s.books ref).applyUpdate update).Ready := by
        obtain ⟨hlast, hsides⟩ := happly hor happlies update hupdate
        exact ready_applyUpdate hlast hsides
      simp only [handleEvent]
      split
      · rename_i hzero
        split
        · rename_i hfull
          split
          · exact h
          · rename_i update hupdate
            exact broadcastUpdate_handing h (by omega) hopened
              (hready update hupdate (Or.inl ⟨hzero, hfull⟩))
        · exact startInit_handing h hzero hopened
      · split
        · exact h.pushInit _ _
        · rename_i hzero hone
          have htwo : 2 ≤ (s.books ref).updateId := by omega
          split
          · rename_i hreset
            exact h.setBook (h.ne_of_updateId hone) fun hheld => absurd hreset (hgap hheld htwo)
          · rename_i hcontinues
            split
            · exact h
            · rename_i update hupdate
              exact broadcastUpdate_handing h hone hopened
                (hready update hupdate (Or.inr ⟨htwo, hcontinues⟩))

/-- Every step that keeps the held books keeps them ready. -/
theorem gateStep_handing (h : s.Handing) {market : MarketType} {action : FeedAction D}
    {t : GateState D} (hkeeps : KeepsHeldBooks market s action)
    (hstep : gateStep market s action = some t) : t.Handing := by
  unfold gateStep at hstep
  split at hstep
  · cases hstep
  cases action with
  | message text =>
    cases hstep
    exact handleMessage_handing h hkeeps
  | depth i response => exact resumeTask_handing h hstep
  | wake i => exact resumeTask_handing h hstep
  | watch name waiter subscribes sends =>
    cases hstep
    exact h.watch name waiter subscribes sends
  | unwatch name unsubscribes =>
    cases hstep
    exact h.unwatch name unsubscribes
  | fail =>
    cases hstep
    exact ⟨h.toExclusive.onFail, h.ready⟩
  | resume k =>
    obtain ⟨feed, hfeed, rfl⟩ := Option.map_eq_some_iff.mp hstep
    exact (h.resume hfeed).1

/-- In every run whose messages keep the held books, each watcher that was handed a
book finds it synchronised and with a price on both sides, and does not stop the
process. -/
theorem gate_resumes_with_prices (market : MarketType) (s : GateState D)
    (hrun : GuardedRun.Reaches (gateStep market) (KeepsHeldBooks market) gateStart s) :
    (∀ entry ∈ s.handed, (s.books entry.2).Ready) ∧
      ∀ k t, gateStep market s (.resume k) = some t → t.aborted = false := by
  have hhanding : s.Handing := by
    refine hrun.invariant (I := fun u => u.Handing) FeedState.handing_start ?_
    exact fun u action v hu hkeeps hstep => gateStep_handing hu hkeeps hstep
  refine ⟨hhanding.ready, fun k t hstep => ?_⟩
  unfold gateStep at hstep
  split at hstep
  · cases hstep
  · obtain ⟨feed, hfeed, rfl⟩ := Option.map_eq_some_iff.mp hstep
    exact (hhanding.resume hfeed).2

/-- A message that lists the whole book, with one level on both sides. -/
def twoSidedMessage : Value :=
  .object [("result", .object [("full", .bool true), ("s", .string "BTC_USDT"),
    ("U", .number (.posInt 1)), ("u", .number (.posInt 2)),
    ("a", .array [.array [.string "11", .string "5"]]),
    ("b", .array [.array [.string "10", .string "5"]])])]

/-- An event that continues the book after write 2, with a second bid. -/
def secondBid : Value :=
  .object [("s", .string "BTC_USDT"), ("U", .number (.posInt 3)), ("u", .number (.posInt 3)),
    ("a", .array []), ("b", .array [.array [.string "9", .string "4"]])]

/-- The message of this event. -/
def nextMessage : Value := .object [("result", secondBid)]

/-- A message that does not continue the book after write 2. -/
def lateMessage : Value :=
  .object [("result", .object [("s", .string "BTC_USDT"), ("U", .number (.posInt 9)),
    ("u", .number (.posInt 9)), ("a", .array []), ("b", .array [])])]

/-- The whole book may be sent to watchers while no book is held. -/
theorem twoSidedMessage_keeps {s : GateState ℕ} (hhanded : s.handed = []) :
    KeepsHeldBooks .spot s (.message (some twoSidedMessage)) := by
  have hupdate : (readEvent twoSidedMessage).bind (buildUpdate (D := ℕ) .spot) = some
      ⟨[(10, 5)], [(11, 5)], 1, 2, true⟩ := rfl
  intro event ref hevent href
  have hheld : ¬s.Held ref := by
    rintro ⟨entry, hentry, _⟩
    simp [hhanded] at hentry
  refine ⟨fun hcontra => absurd hcontra hheld, fun _ _ update hbuild => ?_⟩
  rw [Option.bind_some] at hevent
  rw [hevent, Option.bind_some, hbuild] at hupdate
  cases hupdate
  refine ⟨le_rfl, fun side => Or.inl ?_⟩
  cases side with
  | bid => exact ⟨[], ((.bid, 10), some 5), [((.ask, 11), some 5)], rfl, rfl, nofun, by simp⟩
  | ask => exact ⟨[((.bid, 10), some 5)], ((.ask, 11), some 5), [], rfl, rfl, nofun, nofun⟩

/-- The second bid may be applied to a held book after write 2 that has the ask. -/
theorem nextMessage_keeps {s : GateState ℕ} (hid : (s.books ("BTC_USDT", 0)).updateId = 2)
    (hask : (s.books ("BTC_USDT", 0)).level (.ask, 11) = some 5)
    (hsubscribed : s.subscribed "BTC_USDT" = some ("BTC_USDT", 0)) :
    KeepsHeldBooks .spot s (.message (some nextMessage)) := by
  have hread : readEvent nextMessage = some ⟨"BTC_USDT", 3, 3, false, secondBid⟩ := rfl
  have hupdate : buildUpdate (D := ℕ) .spot ⟨"BTC_USDT", 3, 3, false, secondBid⟩ = some
      ⟨[(9, 4)], [], 3, 3, false⟩ := rfl
  intro event ref hevent href
  rw [Option.bind_some, hread] at hevent
  cases hevent
  cases Option.some.inj (href.symm.trans hsubscribed)
  refine ⟨fun _ _ => ?_, fun _ _ update hbuild => ?_⟩
  · simp [Gap, hid, succU64]
  · cases Option.some.inj (hbuild.symm.trans hupdate)
    refine ⟨by decide, fun side => ?_⟩
    cases side with
    | bid => exact Or.inl ⟨[], ((.bid, 9), some 4), [], rfl, rfl, by simp, by simp⟩
    | ask => exact Or.inr ⟨rfl, 11, by simp [hask], by simp [OrderBookUpdate.writes]⟩

/-- A watcher that is handed the whole book, to which an update is applied before the watcher
resumes, finds a price on both sides. -/
theorem twoSidedRun_resumes : ∃ s : GateState ℕ,
    GuardedRun.exec (gateStep .spot) gateStart
        [.watch "BTC_USDT" 0 true true, .message (some twoSidedMessage),
          .message (some nextMessage)] = some s ∧
      s.handed.length = 1 ∧ (s.books ("BTC_USDT", 0)).updateId = 3 ∧
        (∀ entry ∈ s.handed, (s.books entry.2).Ready) ∧
          ∀ k t, gateStep .spot s (.resume k) = some t → t.aborted = false := by
  have hrun : (GuardedRun.exec (gateStep .spot) (gateStart (D := ℕ))
      [.watch "BTC_USDT" 0 true true, .message (some twoSidedMessage),
        .message (some nextMessage)]).map
          (fun s => (s.handed.length, (s.books ("BTC_USDT", 0)).updateId)) = some (1, 3) := rfl
  obtain ⟨s, hexec, hresult⟩ := Option.map_eq_some_iff.mp hrun
  obtain ⟨hhanded, hid⟩ := Prod.mk.inj hresult
  have hsteps : GuardedRun.StepsSatisfy (gateStep .spot) (KeepsHeldBooks .spot)
      (gateStart (D := ℕ)) [.watch "BTC_USDT" 0 true true, .message (some twoSidedMessage),
        .message (some nextMessage)] := by
    rintro u ⟨⟩
    refine ⟨trivial, ?_⟩
    rintro v ⟨⟩
    refine ⟨twoSidedMessage_keeps rfl, ?_⟩
    rintro w ⟨⟩
    exact ⟨nextMessage_keeps rfl rfl rfl, trivial⟩
  exact ⟨s, hexec, hhanded, hid,
    gate_resumes_with_prices .spot s (GuardedRun.reaches_of_exec hsteps hexec)⟩

/-- A gap after the hand-off resets the book, and the watcher that reads it stops the
process. -/
theorem gate_reset_stops_watcher : ∃ s t : GateState ℕ,
    GuardedRun.exec (gateStep .spot) gateStart
        [.watch "BTC_USDT" 0 true true, .message (some twoSidedMessage),
          .message (some lateMessage)] = some s ∧
      s.handed = [(0, ("BTC_USDT", 0))] ∧ (s.books ("BTC_USDT", 0)).updateId = 0 ∧
        gateStep .spot s (.resume 0) = some t ∧ t.aborted = true := by
  have hrun : (GuardedRun.exec (gateStep .spot) (gateStart (D := ℕ))
      [.watch "BTC_USDT" 0 true true, .message (some twoSidedMessage),
        .message (some lateMessage)]).bind (fun s => (gateStep .spot s (.resume 0)).map fun t =>
          (s.handed, (s.books ("BTC_USDT", 0)).updateId, t.aborted)) =
      some ([(0, ("BTC_USDT", 0))], 0, true) := rfl
  obtain ⟨s, hexec, hresume⟩ := Option.bind_eq_some_iff.mp hrun
  obtain ⟨t, hstep, hresult⟩ := Option.map_eq_some_iff.mp hresume
  simp only [Prod.mk.injEq] at hresult
  obtain ⟨hhanded, hid, haborted⟩ := hresult
  exact ⟨s, t, hexec, hhanded, hid, hstep, haborted⟩

end Arbexpert.Gate
