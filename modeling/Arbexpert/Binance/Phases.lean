import Arbexpert.Base.Phases
import Arbexpert.Binance.Handler

/-!
# The phases of Binance books

An event that continues a synchronised book is applied at once; after a snapshot all buffered
updates are applied, on from the id one that the book has had since its initialisation started.
-/

namespace Arbexpert.Binance

open Arbexpert.Base Sentinel

variable {D : Type*}

/-- The updates that are applied when an event for a subscribed book is handled. -/
def eventApplied [DecimalText D] (market : MarketType) (s : FeedState D) (event : BinanceEvent)
    (ref : BookRef) : Option (Application D) :=
  let id := (s.books ref).updateId
  if id = 0 then
    if 0 < event.firstUpdateId then none
    else s.replayApplication event.symbol ref 1 0
  else if id = 1 then none
  else if continues market (s.books ref) event = some true then
    (buildUpdate event).map fun update => ⟨ref, id, [update]⟩
  else none

/-- The updates that are applied when a task is continued. -/
def resumeApplied (s : FeedState D) (i : ℕ) (response : Option (Option (DepthSnapshot D))) :
    Option (Application D) :=
  (s.replaying i response).bind fun resumed => s.replayApplication resumed.1.symbol resumed.1.book
    (s.books resumed.1.book).updateId resumed.2

/-- The updates that a step applies to a book to the end. -/
def binanceApplied [DecimalText D] (market : MarketType) (s : FeedState D) :
    FeedAction D → Option (Application D)
  | .message text =>
    (text.bind readEvent).bind fun event =>
      (s.subscribed event.symbol).bind fun ref => eventApplied market s event ref
  | .depth i response => resumeApplied s i (some response)
  | .wake i => resumeApplied s i none
  | _ => none

variable [LinearOrder D] [Zero D] {s : FeedState D}

/-- An attempt to replay the buffer writes the number that the replayed updates lead to. -/
theorem runsOn_replayAttempt (task : InitTask D) (h : (s.init task.symbol).isSome)
    (snapshot : OrderBook D) (retries : ℕ) :
    s.RunsOn task (replayAttempt s task snapshot retries).1
      (replayAttempt s task snapshot retries).2
      ((if retries = 5 then none
        else s.replayApplication task.symbol task.book (s.books task.book).updateId
          snapshot.updateId).map Application.label) := by
  have hset := (FeedState.Keeps.refl s).setInit task.symbol []
  rcases FeedState.replayAttempt_cases h snapshot retries with ⟨hretries, hattempt⟩ |
    ⟨hretries, hreplayed, hattempt⟩ | ⟨hretries, hreplayed, hattempt⟩
  · simp only [replayAttempt, hattempt, if_pos hretries, Option.map_none]
    exact .gaveUp ((FeedState.Keeps.refl _).setBook _ _) (FeedState.cells_setUpdateId _ _ _)
  · simp only [replayAttempt, hattempt, if_neg hretries, FeedState.replayApplication, hreplayed,
      List.isEmpty_nil, if_true, Option.map_none]
    exact .suspended _ hset rfl
  · have hsome : (s.replayed task.symbol snapshot.updateId).isEmpty = false := by
      simpa using hreplayed
    simp only [replayAttempt, hattempt, if_neg hretries, FeedState.replayApplication, hsome,
      Bool.false_eq_true, if_false, Option.map_some, finishInit]
    refine .finished _ (hset.setBook _ _) ?_
    rw [FeedState.cells_setBook, applyUpdates, updateId_foldl_applyUpdate]
    rfl

/-- A response writes the number that the replayed updates lead to, unless it is too old. -/
theorem runsOn_depthResponse (task : InitTask D) (h : (s.init task.symbol).isSome)
    (initialEventU retries : ℕ) (response : Option (DepthSnapshot D)) :
    s.RunsOn task (depthResponse s task initialEventU retries response).1
      (depthResponse s task initialEventU retries response).2
      ((response.bind fun snapshot => if snapshot.id < initialEventU then none
        else s.replayApplication task.symbol task.book (s.books task.book).updateId
          snapshot.id).map Application.label) := by
  cases response with
  | none =>
    exact .gaveUp ((FeedState.Keeps.refl _).setBook _ _) (FeedState.cells_setUpdateId _ _ _)
  | some snapshot =>
    simp only [depthResponse, Option.bind_some]
    by_cases hold : snapshot.id < initialEventU
    · simp only [if_pos hold, Option.map_none]
      exact .suspended _ (FeedState.Keeps.refl _) rfl
    · simp only [if_neg hold]
      exact runsOn_replayAttempt task h snapshot.book 0

/-- Continuing a task. -/
theorem moves_resumeTask (h : s.Buffered) {i : ℕ} {response : Option (Option (DepthSnapshot D))}
    {t : FeedState D} (hstep : resumeTask s i response = some t) :
    s.Moves ((resumeApplied s i response).map Application.label) t := by
  cases resumes_of_resumeTask hstep with
  | @fetched task initialEventU retries response htask hstage =>
    have hinit := h task (List.mem_of_getElem? htask)
    rw [resumeApplied, FeedState.replaying_fetching htask hstage]
    exact (runsOn_depthResponse task hinit initialEventU retries response).setTask h htask
  | @woke task snapshot retries htask hstage =>
    have hinit := h task (List.mem_of_getElem? htask)
    rw [resumeApplied, FeedState.replaying_sleeping htask hstage]
    exact (runsOn_replayAttempt task hinit snapshot retries).setTask h htask

/-- Starting an initialisation; without a request it may run to its end at once. -/
theorem moves_startInit (h : s.Buffered) (event : BinanceEvent) {ref : BookRef}
    (hzero : (s.books ref).updateId = 0) (hopened : ref.2 < s.opened ref.1) :
    s.Moves ((if 0 < event.firstUpdateId then none
      else s.replayApplication event.symbol ref 1 0).map Application.label)
      (startInit s event ref) := by
  simp only [startInit]
  by_cases hfirst : 0 < event.firstUpdateId
  · have hruns : ((s.setUpdateId ref 1).openInit event.symbol).RunsOn
        ⟨event.symbol, ref, .fetching event.firstUpdateId 0⟩ _
        (some ⟨event.symbol, ref, .fetching event.firstUpdateId 0⟩) none :=
      .suspended _ (FeedState.Keeps.refl _) rfl
    simp only [if_pos hfirst, Option.map_none]
    exact FeedState.RunsOn.start ⟨event.symbol, ref, .fetching event.firstUpdateId 0⟩ hruns h
      hzero hopened
  · have hinit : (((s.setUpdateId ref 1).openInit event.symbol).init event.symbol).isSome := by
      simp [FeedState.openInit, FeedState.setInit]
    have hone : (((s.setUpdateId ref 1).openInit event.symbol).books ref).updateId = 1 := by
      simp [FeedState.openInit, FeedState.setInit, FeedState.setUpdateId, FeedState.setBook]
    have hruns := runsOn_replayAttempt (s := (s.setUpdateId ref 1).openInit event.symbol)
      ⟨event.symbol, ref, .fetching event.firstUpdateId 0⟩ hinit OrderBook.empty 0
    have hmoves := FeedState.RunsOn.start ⟨event.symbol, ref, .fetching event.firstUpdateId 0⟩
      hruns h hzero hopened
    rw [if_neg (by decide), FeedState.replayApplication_openInit, hone] at hmoves
    simp only [if_neg hfirst]
    split
    · rename_i hnext
      rw [hnext] at hmoves
      exact hmoves
    · rename_i task hnext
      rw [hnext] at hmoves
      exact hmoves

/-- A broadcast writes the number that its update leads to. -/
theorem moves_broadcastUpdate (h : s.Buffered) (name : String) {ref : BookRef}
    (hid : (s.books ref).updateId ≠ 1) (update : OrderBookUpdate D) :
    s.Moves (some (ref, numberAfter (s.books ref).updateId [update]))
      (broadcastUpdate s name ref update) := by
  refine FeedState.Moves.deliver (((FeedState.Keeps.refl _).setBook _ _).moves h ?_) name ref
  rw [FeedState.cells_setBook, updateId_applyUpdate_eq]
  exact .settle ref _ hid

variable [DecimalText D]

/-- Handling an event for a subscribed book. -/
theorem moves_handleEvent (h : s.Buffered) (market : MarketType) (event : BinanceEvent)
    {ref : BookRef} (hopened : ref.2 < s.opened ref.1) :
    s.Moves ((eventApplied market s event ref).map Application.label)
      (handleEvent market s event ref) := by
  have hrest : s.Moves none s := (FeedState.Keeps.refl _).rests h rfl
  simp only [handleEvent, eventApplied]
  by_cases hzero : (s.books ref).updateId = 0
  · simp only [if_pos hzero]
    exact moves_startInit h event hzero hopened
  · by_cases hone : (s.books ref).updateId = 1
    · simp only [if_neg hzero, if_pos hone]
      exact FeedState.moves_pushInit h _ _
    · simp only [if_neg hzero, if_neg hone]
      cases hcontinues : continues market (s.books ref) event with
      | none => exact hrest
      | some continued =>
        cases continued with
        | false =>
          apply ((FeedState.Keeps.refl _).setBook _ _).moves h
          rw [FeedState.cells_setBook]
          exact .reset ref hone
        | true =>
          simp only [if_true]
          cases (buildUpdate event : Option (OrderBookUpdate D)) with
          | none => exact hrest
          | some update => exact moves_broadcastUpdate h event.symbol hone update

/-- Every step writes an id of a phase together with the handler of the phase, or the number that
the applied updates lead to. -/
theorem binanceStep_moves (h : s.Buffered) (hsound : s.cells.Sound) {market : MarketType}
    {action : FeedAction D} {t : FeedState D} (hstep : binanceStep market s action = some t) :
    s.Moves ((binanceApplied market s action).map Application.label) t := by
  have hrest : s.Moves none s := (FeedState.Keeps.refl _).rests h rfl
  unfold binanceStep at hstep
  split at hstep
  · cases hstep
  cases action with
  | message text =>
    cases hstep
    simp only [binanceApplied, handleMessage]
    cases text.bind readEvent with
    | none => exact hrest
    | some event =>
      simp only [Option.bind_some]
      cases href : s.subscribed event.symbol with
      | none => exact hrest
      | some ref => exact moves_handleEvent h market event (hsound.liveOpened _ ref href)
  | depth i response => exact moves_resumeTask h hstep
  | wake i => exact moves_resumeTask h hstep
  | watch name waiter subscribes sends =>
    cases hstep
    exact (s.keeps_watch name waiter subscribes sends).moves h (FeedState.move_watch _ _ _ _ _)
  | unwatch name unsubscribes =>
    cases hstep
    exact (s.keeps_unwatch name unsubscribes).moves h (FeedState.move_unwatch _ _ _)
  | fail =>
    cases hstep
    exact s.moves_onFail
  | resume k => exact FeedState.moves_resume h hstep

end Arbexpert.Binance
