import Arbexpert.Base.Phases
import Arbexpert.Gate.Handler

/-!
# The phases of Gate books

A full event and an event that continues a synchronised book are applied at once; after a snapshot
the buffered updates are applied as long as they follow without a gap. Every other write of the
handler brings an id of a phase together with the handler that the phase stands for.
-/

namespace Arbexpert.Gate

open Arbexpert.Base Sentinel

variable {D : Type*}

/-- The buffered updates that are replayed after a snapshot, if there is no gap among them. -/
def gateReplay (s : FeedState D) (symbol : String) (ref : BookRef) (snapshotId : ℕ) :
    Option (Application D) :=
  (s.replayApplication symbol ref snapshotId snapshotId).filter fun application =>
    Contiguous application.base application.updates

/-- The updates that are applied when an event for a subscribed book is handled. -/
def eventApplied [DecimalText D] (market : MarketType) (s : FeedState D)
    (event : GateEvent) (ref : BookRef) : Option (Application D) :=
  let id := (s.books ref).updateId
  if id = 0 then
    if event.full then (buildUpdate market event).map fun update => ⟨ref, 0, [update]⟩
    else if 0 < event.firstUpdateId then none
    else gateReplay s event.symbol ref 0
  else if id = 1 then none
  else if succU64 id < event.firstUpdateId ∨ event.lastUpdateId < succU64 id then none
  else (buildUpdate market event).map fun update => ⟨ref, id, [update]⟩

/-- The updates that are applied when a task is continued. -/
def resumeApplied (s : FeedState D) (i : ℕ) (response : Option (Option (DepthSnapshot D))) :
    Option (Application D) :=
  (s.replaying i response).bind fun resumed =>
    gateReplay s resumed.1.symbol resumed.1.book resumed.2

/-- The updates that a step applies to a book to the end. -/
def gateApplied [DecimalText D] (market : MarketType) (s : FeedState D) :
    FeedAction D → Option (Application D)
  | .message text =>
    (text.bind readEvent).bind fun event =>
      (s.subscribed event.symbol).bind fun ref => eventApplied market s event ref
  | .depth i response => resumeApplied s i (some response)
  | .wake i => resumeApplied s i none
  | _ => none

variable [LinearOrder D] [Zero D]

/-- A replay without a gap writes the number that its updates lead to; at a gap it writes zero. -/
theorem updateId_replayUpdates (updates : List (OrderBookUpdate D)) (book : OrderBook D)
    (seen : Finset D) : (replayUpdates updates book seen).1.updateId =
      if Contiguous book.updateId updates then numberAfter book.updateId updates else 0 := by
  induction updates generalizing book seen with
  | nil => rfl
  | cons update rest ih =>
    unfold replayUpdates
    split
    · rename_i hgap
      have hnot : ¬ Contiguous book.updateId (update :: rest) := by
        rintro ⟨⟨hfirst, hlast⟩, _⟩
        omega
      rw [if_neg hnot]
    · rename_i hgap
      rw [not_or, not_lt, not_lt] at hgap
      have hiff : Contiguous book.updateId (update :: rest) ↔
          Contiguous (numberAfter book.updateId [update]) rest := and_iff_right hgap
      rw [ih, updateId_applyUpdate_eq, ← numberAfter_append, List.singleton_append]
      simp only [hiff]

variable {s : GateState D}

/-- An attempt to replay the buffer writes the number that the replayed updates lead to. -/
theorem runsOn_replayAttempt (task : InitTask D) (h : (s.init task.symbol).isSome)
    (snapshot : OrderBook D) (retries : ℕ) :
    s.RunsOn task (replayAttempt s task snapshot retries).1.toFeedState
      (replayAttempt s task snapshot retries).2
      ((if retries = 5 then none
        else gateReplay s.toFeedState task.symbol task.book snapshot.updateId).map
          Application.label) := by
  have hset := (FeedState.Keeps.refl s.toFeedState).setInit task.symbol []
  rcases FeedState.replayAttempt_cases h snapshot retries with ⟨hretries, hattempt⟩ |
    ⟨hretries, hreplayed, hattempt⟩ | ⟨hretries, hreplayed, hattempt⟩
  · simp only [replayAttempt, hattempt, if_pos hretries, Option.map_none]
    exact .gaveUp ((FeedState.Keeps.refl _).setBook _ _) (FeedState.cells_setUpdateId _ _ _)
  · have hnone : gateReplay s.toFeedState task.symbol task.book snapshot.updateId = none := by
      simp [gateReplay, FeedState.replayApplication, hreplayed]
    simp only [replayAttempt, hattempt, if_neg hretries, hnone, Option.map_none]
    exact .suspended _ hset rfl
  · have hsome : (s.replayed task.symbol snapshot.updateId).isEmpty = false := by
      simpa using hreplayed
    simp only [replayAttempt, hattempt, if_neg hretries, gateReplay, FeedState.replayApplication,
      hsome, Bool.false_eq_true, if_false, Option.filter_some, decide_eq_true_eq, finishInit]
    have hcells := FeedState.cells_setBook (s.setInit task.symbol []) task.book
      (replayUpdates (s.replayed task.symbol snapshot.updateId) snapshot
        (s.history task.symbol ∪ snapshot.bids.keys.image OrderDual.ofDual)).1
    rw [updateId_replayUpdates] at hcells
    by_cases hcontiguous : Contiguous snapshot.updateId
        (s.replayed task.symbol snapshot.updateId)
    · rw [if_pos hcontiguous] at hcells ⊢
      exact .finished _ (hset.setBook _ _) hcells
    · rw [if_neg hcontiguous] at hcells ⊢
      exact .gaveUp (hset.setBook _ _) hcells

/-- A response writes the number that the replayed updates lead to, unless it is too old. -/
theorem runsOn_depthResponse (task : InitTask D) (h : (s.init task.symbol).isSome)
    (initialEventU retries : ℕ) (response : Option (DepthSnapshot D)) :
    s.RunsOn task (depthResponse s task initialEventU retries response).1.toFeedState
      (depthResponse s task initialEventU retries response).2
      ((response.bind fun snapshot => if snapshot.id < initialEventU then none
        else gateReplay s.toFeedState task.symbol task.book snapshot.id).map
          Application.label) := by
  have hgaveUp : s.RunsOn task (s.toFeedState.setUpdateId task.book 0) none none :=
    .gaveUp ((FeedState.Keeps.refl _).setBook _ _) (FeedState.cells_setUpdateId _ _ _)
  cases response with
  | none => exact hgaveUp
  | some snapshot =>
    simp only [depthResponse, Option.bind_some]
    by_cases hold : snapshot.id < initialEventU
    · simp only [if_pos hold, Option.map_none]
      split
      · exact hgaveUp
      · exact .suspended _ (FeedState.Keeps.refl _) rfl
    · simp only [if_neg hold]
      exact runsOn_replayAttempt task h snapshot.book 0

/-- Continuing a task. -/
theorem moves_resumeTask (h : s.Buffered) {i : ℕ} {response : Option (Option (DepthSnapshot D))}
    {t : GateState D} (hstep : resumeTask s i response = some t) :
    s.Moves ((resumeApplied s.toFeedState i response).map Application.label) t.toFeedState := by
  cases resumes_of_resumeTask hstep with
  | @fetched task initialEventU retries response htask hstage =>
    have hinit := h task (List.mem_of_getElem? htask)
    rw [resumeApplied, FeedState.replaying_fetching htask hstage]
    exact (runsOn_depthResponse task hinit initialEventU retries response).setTask h htask
  | @woke task snapshot retries htask hstage =>
    have hinit := h task (List.mem_of_getElem? htask)
    rw [resumeApplied, FeedState.replaying_sleeping htask hstage]
    exact (runsOn_replayAttempt task hinit snapshot retries).setTask h htask

/-- Starting an initialisation; without a request it may run to its end at once. -/
theorem moves_startInit (h : s.Buffered) (event : GateEvent) {ref : BookRef}
    (hzero : (s.books ref).updateId = 0) (hopened : ref.2 < s.opened ref.1) :
    s.Moves ((if 0 < event.firstUpdateId then none
      else gateReplay s.toFeedState event.symbol ref 0).map Application.label)
      (startInit s event ref).toFeedState := by
  simp only [startInit]
  by_cases hfirst : 0 < event.firstUpdateId
  · have hruns : ((s.setUpdateId ref 1).openInit event.symbol).RunsOn
        ⟨event.symbol, ref, .fetching event.firstUpdateId 0⟩ _
        (some ⟨event.symbol, ref, .fetching event.firstUpdateId 0⟩) none :=
      .suspended _ (FeedState.Keeps.refl _) rfl
    simp only [if_pos hfirst, Option.map_none]
    exact FeedState.RunsOn.start ⟨event.symbol, ref, .fetching event.firstUpdateId 0⟩ hruns h
      hzero hopened
  · have hinit : (((s.setUpdateId ref 1).openInit event.symbol).init event.symbol).isSome := by
      simp [FeedState.openInit, FeedState.setInit]
    have hruns := runsOn_replayAttempt (s := { s with
      toFeedState := (s.toFeedState.setUpdateId ref 1).openInit event.symbol })
      ⟨event.symbol, ref, .fetching event.firstUpdateId 0⟩ hinit OrderBook.empty 0
    have hmoves := FeedState.RunsOn.start ⟨event.symbol, ref, .fetching event.firstUpdateId 0⟩
      hruns h hzero hopened
    rw [if_neg (by decide), gateReplay, FeedState.replayApplication_openInit] at hmoves
    simp only [if_neg hfirst]
    split
    · rename_i hnext
      rw [hnext] at hmoves
      exact hmoves
    · rename_i task hnext
      rw [hnext] at hmoves
      exact hmoves

/-- A broadcast writes the number that its update leads to. -/
theorem moves_broadcastUpdate (h : s.Buffered) (name : String) {ref : BookRef}
    (hid : (s.books ref).updateId ≠ 1) (update : OrderBookUpdate D) :
    s.Moves (some (ref, numberAfter (s.books ref).updateId [update]))
      (broadcastUpdate s name ref update).toFeedState := by
  have hset : s.Moves (some (ref, numberAfter (s.books ref).updateId [update]))
      (s.toFeedState.setBook ref ((s.books ref).applyUpdate update)) := by
    apply ((FeedState.Keeps.refl _).setBook _ _).moves h
    rw [FeedState.cells_setBook, updateId_applyUpdate_eq]
    exact .settle ref _ hid
  rw [broadcastUpdate_toFeedState]
  split
  · exact hset.deliver name ref
  · exact ⟨hset.move, hset.buffered⟩

variable [DecimalText D]

/-- Handling an event for a subscribed book. -/
theorem moves_handleEvent (h : s.Buffered) (market : MarketType) (event : GateEvent)
    {ref : BookRef} (hopened : ref.2 < s.opened ref.1) :
    s.Moves ((eventApplied market s.toFeedState event ref).map Application.label)
      (handleEvent market s event ref).toFeedState := by
  have hrest : s.Moves none s.toFeedState := (FeedState.Keeps.refl _).rests h rfl
  simp only [handleEvent, eventApplied]
  by_cases hzero : (s.books ref).updateId = 0
  · simp only [if_pos hzero]
    by_cases hfull : event.full = true
    · simp only [if_pos hfull]
      cases (buildUpdate market event : Option (OrderBookUpdate D)) with
      | none => exact hrest
      | some update =>
        have hid : (s.books ref).updateId ≠ 1 := by omega
        have hmoves := moves_broadcastUpdate h event.symbol hid update
        rwa [hzero] at hmoves
    · simp only [if_neg hfull]
      exact moves_startInit h event hzero hopened
  · by_cases hone : (s.books ref).updateId = 1
    · simp only [if_neg hzero, if_pos hone]
      exact FeedState.moves_pushInit h _ _
    · simp only [if_neg hzero, if_neg hone]
      by_cases hgap : succU64 (s.books ref).updateId < event.firstUpdateId ∨
          event.lastUpdateId < succU64 (s.books ref).updateId
      · simp only [if_pos hgap]
        apply ((FeedState.Keeps.refl _).setBook _ _).moves h
        rw [FeedState.cells_setBook]
        exact .reset ref hone
      · simp only [if_neg hgap]
        cases (buildUpdate market event : Option (OrderBookUpdate D)) with
        | none => exact hrest
        | some update => exact moves_broadcastUpdate h event.symbol hone update

/-- Every step writes an id of a phase together with the handler of the phase, or the number that
the applied updates lead to. -/
theorem gateStep_moves (h : s.Buffered) (hsound : s.cells.Sound) {market : MarketType}
    {action : FeedAction D} {t : GateState D} (hstep : gateStep market s action = some t) :
    s.Moves ((gateApplied market s.toFeedState action).map Application.label) t.toFeedState := by
  have hrest : s.Moves none s.toFeedState := (FeedState.Keeps.refl _).rests h rfl
  unfold gateStep at hstep
  split at hstep
  · cases hstep
  cases action with
  | message text =>
    cases hstep
    simp only [gateApplied, handleMessage]
    cases text.bind readEvent with
    | none => exact hrest
    | some event =>
      simp only [Option.bind_some]
      cases href : s.subscribed event.symbol with
      | none => exact hrest
      | some ref => exact moves_handleEvent h market event (hsound.liveOpened _ ref href)
  | depth i response => exact moves_resumeTask h hstep
  | wake i => exact moves_resumeTask h hstep
  | watch name waiter subscribes sends =>
    cases hstep
    exact (s.toFeedState.keeps_watch name waiter subscribes sends).moves h
      (FeedState.move_watch _ _ _ _ _)
  | unwatch name unsubscribes =>
    cases hstep
    exact (s.toFeedState.keeps_unwatch name unsubscribes).moves h (FeedState.move_unwatch _ _ _)
  | fail =>
    cases hstep
    exact s.toFeedState.moves_onFail
  | resume k =>
    obtain ⟨feed, hfeed, rfl⟩ := Option.map_eq_some_iff.mp hstep
    exact FeedState.moves_resume h hfeed

end Arbexpert.Gate
