import Arbexpert.Binance.Handler
import Arbexpert.Gate.Symbols

/-!
# Symbols on one Binance connection

The Binance handler, like the Gate one, reads and writes for an event of a symbol the entries
of that symbol only. On both exchanges a run is therefore, for each symbol, the run of the
steps of that symbol.
-/

namespace Arbexpert.Binance

open Arbexpert.Base Arbexpert.Base.FeedState Projection

variable {D : Type*} [LinearOrder D] [Zero D] {s t u : FeedState D} {name symbol : String}
  {ref : BookRef} {task : InitTask D} {event : BinanceEvent}

/-- A broadcast of a symbol is confined to it. -/
theorem confined_broadcastUpdate (href : ref.1 = name) (update : OrderBookUpdate D) :
    Confined name s (broadcastUpdate s name ref update) :=
  .trans (.setBook href _) (.deliver href)

/-- A broadcast of the symbol, in its part. -/
theorem restrict_broadcastUpdate (href : ref.1 = symbol) (update : OrderBookUpdate D) :
    (broadcastUpdate s symbol ref update).restrict symbol =
      broadcastUpdate (s.restrict symbol) symbol ref update := by
  rw [broadcastUpdate, restrict_deliver href, restrict_setBook href, broadcastUpdate,
    books_restrict href]

/-- The end of an initialisation, in the part of its symbol. -/
theorem restrict_finishInit (hbook : task.book.1 = symbol) (snapshot : OrderBook D)
    (processed : List (OrderBookUpdate D)) :
    (finishInit s task snapshot processed).restrict symbol =
      finishInit (s.restrict symbol) task snapshot processed := by
  rw [finishInit, restrict_setBook hbook, finishInit, books_restrict hbook]

/-- An attempt to replay the buffer is confined to its symbol, and so is the handler that is
left. -/
theorem confined_replayAttempt (s : FeedState D) (task : InitTask D) (hsymbol : task.symbol = name)
    (hbook : task.book.1 = name) (snapshot : OrderBook D) (retries : ℕ) :
    Confined name s (replayAttempt s task snapshot retries).1 ∧
      (replayAttempt s task snapshot retries).1.tasks = s.tasks ∧
      ∀ next ∈ (replayAttempt s task snapshot retries).2,
        next.symbol = name ∧ next.book.1 = name := by
  obtain ⟨hfeed, htasks, hnext⟩ := Confined.replayAttempt (s := s) hsymbol hbook snapshot retries
  unfold replayAttempt
  split
  rename_i feed outcome hattempt
  simp only [hattempt] at hfeed htasks hnext
  cases outcome with
  | ended => exact ⟨hfeed, htasks, nofun⟩
  | sleeping next =>
    refine ⟨hfeed, htasks, fun other hother => ?_⟩
    cases hother
    exact hnext next rfl
  | replay processed => exact ⟨hfeed.trans (.setBook hbook _), htasks, nofun⟩

/-- An attempt to replay the buffer, in the part of the symbol. -/
theorem restrict_replayAttempt (s : FeedState D) (task : InitTask D)
    (hsymbol : task.symbol = symbol) (hbook : task.book.1 = symbol) (snapshot : OrderBook D)
    (retries : ℕ) :
    replayAttempt (s.restrict symbol) task snapshot retries =
      ((replayAttempt s task snapshot retries).1.restrict symbol,
        (replayAttempt s task snapshot retries).2) := by
  have hfeed := FeedState.restrict_replayAttempt (s := s) hsymbol hbook snapshot retries
  rcases hattempt : s.replayAttempt task snapshot retries with ⟨feed, outcome⟩
  simp only [hattempt] at hfeed
  unfold replayAttempt
  rw [hfeed, hattempt]
  cases outcome with
  | ended => rfl
  | sleeping next => rfl
  | replay processed => exact congrArg (·, none) (restrict_finishInit hbook snapshot processed).symm

/-- The start of an initialisation is confined to the symbol of its event. -/
theorem confined_startInit (href : ref.1 = event.symbol) :
    Confined event.symbol s (startInit s event ref) := by
  have hopen : Confined event.symbol s ((s.setUpdateId ref 1).openInit event.symbol) :=
    .trans (.setBook href _) (.setInit _)
  unfold startInit
  dsimp only
  split
  · exact hopen.trans (.addTask rfl href)
  · obtain ⟨hattempt, -, hnext⟩ := confined_replayAttempt
      ((s.setUpdateId ref 1).openInit event.symbol)
      ⟨event.symbol, ref, .fetching event.firstUpdateId 0⟩ rfl href OrderBook.empty 0
    split
    · exact hopen.trans hattempt
    · rename_i next heq
      obtain ⟨hsymbol, hbook⟩ := hnext next heq
      exact (hopen.trans hattempt).trans (.addTask hsymbol hbook)

/-- The start of an initialisation, in the part of its symbol. -/
theorem restrict_startInit (href : ref.1 = event.symbol) :
    (startInit s event ref).restrict event.symbol =
      startInit (s.restrict event.symbol) event ref := by
  have hopen : ((s.setUpdateId ref 1).openInit event.symbol).restrict event.symbol =
      ((s.restrict event.symbol).setUpdateId ref 1).openInit event.symbol := by
    rw [restrict_openInit, restrict_setUpdateId href]
  unfold startInit
  dsimp only
  rw [← hopen, restrict_replayAttempt _ _ (rfl : _ = event.symbol) href]
  split
  · exact restrict_addTask rfl
  · obtain ⟨-, -, hnext⟩ := confined_replayAttempt
      ((s.setUpdateId ref 1).openInit event.symbol)
      ⟨event.symbol, ref, .fetching event.firstUpdateId 0⟩ rfl href OrderBook.empty 0
    dsimp only
    split
    · rfl
    · rename_i next heq
      exact restrict_addTask (hnext next heq).1

/-- A response to a snapshot request is confined to the symbol of its handler. -/
theorem confined_depthResponse (hsymbol : task.symbol = name) (hbook : task.book.1 = name)
    (initialEventU retries : ℕ) (response : Option (DepthSnapshot D)) :
    Confined name s (depthResponse s task initialEventU retries response).1 ∧
      (depthResponse s task initialEventU retries response).1.tasks = s.tasks ∧
      ∀ next ∈ (depthResponse s task initialEventU retries response).2,
        next.symbol = name ∧ next.book.1 = name := by
  unfold depthResponse
  split
  · exact ⟨.setBook hbook _, rfl, nofun⟩
  · split
    · refine ⟨.refl name s, rfl, fun next hnext => ?_⟩
      cases hnext
      exact ⟨hsymbol, hbook⟩
    · exact confined_replayAttempt s task hsymbol hbook _ _

/-- A response to a snapshot request, in the part of the symbol. -/
theorem restrict_depthResponse (hsymbol : task.symbol = symbol) (hbook : task.book.1 = symbol)
    (initialEventU retries : ℕ) (response : Option (DepthSnapshot D)) :
    depthResponse (s.restrict symbol) task initialEventU retries response =
      ((depthResponse s task initialEventU retries response).1.restrict symbol,
        (depthResponse s task initialEventU retries response).2) := by
  unfold depthResponse
  cases response with
  | none => exact congrArg (·, none) (restrict_setUpdateId hbook 0).symm
  | some snapshot =>
    dsimp only
    split
    · rfl
    · exact restrict_replayAttempt s task hsymbol hbook _ _

/-- Only a suspended handler continues. -/
theorem exists_task_of_resumeTask {i : ℕ} {response : Option (Option (DepthSnapshot D))}
    (hresume : resumeTask s i response = some t) : ∃ task, s.tasks[i]? = some task := by
  cases htask : s.tasks[i]? with
  | none => simp [resumeTask, htask] at hresume
  | some task => exact ⟨task, rfl⟩

/-- A suspended handler continues, confined to its symbol, and also in the part of its symbol. -/
theorem resumeTask_cases {i : ℕ} {response : Option (Option (DepthSnapshot D))}
    (hs : s.Named) (hresume : resumeTask s i response = some t) :
    ∃ task, s.tasks[i]? = some task ∧ Confined task.symbol s t ∧
      resumeTask (s.restrict task.symbol)
        (position (fun other => other.symbol = task.symbol) s.tasks i) response =
          some (t.restrict task.symbol) := by
  obtain ⟨task, htask⟩ := exists_task_of_resumeTask hresume
  have hbook := hs.tasks task (List.mem_of_getElem? htask)
  refine ⟨task, htask, ?_⟩
  unfold resumeTask at hresume ⊢
  rw [htask] at hresume
  rw [getElem?_restrict htask]
  dsimp only at hresume ⊢
  split at hresume
  · rename_i initialEventU retries response hstage
    cases hresume
    obtain ⟨hconfined, htasks, hnext⟩ :=
      confined_depthResponse (s := s) rfl hbook initialEventU retries response
    obtain ⟨hset, hmatch⟩ := setTask_cases htask hconfined htasks hnext
    refine ⟨hset, ?_⟩
    rw [restrict_depthResponse rfl hbook, hmatch]
  · rename_i snapshot retries hstage
    cases hresume
    obtain ⟨hconfined, htasks, hnext⟩ :=
      confined_replayAttempt s task rfl hbook snapshot retries
    obtain ⟨hset, hmatch⟩ := setTask_cases htask hconfined htasks hnext
    refine ⟨hset, ?_⟩
    rw [restrict_replayAttempt s task rfl hbook, hmatch]
  · cases hresume

variable [DecimalText D] {market : MarketType}

/-- What happens to an event is confined to its symbol. -/
theorem confined_handleEvent (href : ref.1 = event.symbol) :
    Confined event.symbol s (handleEvent market s event ref) := by
  unfold handleEvent
  dsimp only
  split
  · exact confined_startInit href
  · split
    · exact .pushInit _
    · split
      · exact .refl _ _
      · exact .setBook href _
      · split
        · exact .refl _ _
        · exact confined_broadcastUpdate href _

/-- What happens to an event of the symbol, in its part. -/
theorem restrict_handleEvent (href : ref.1 = event.symbol) :
    (handleEvent market s event ref).restrict event.symbol =
      handleEvent market (s.restrict event.symbol) event ref := by
  unfold handleEvent
  rw [books_restrict href]
  dsimp only
  split
  · exact restrict_startInit href
  · split
    · exact restrict_pushInit _
    · split
      · rfl
      · exact restrict_setBook href _
      · split
        · rfl
        · exact restrict_broadcastUpdate href _

/-- What happens to a message is confined to the symbol of its event. -/
theorem confined_handleMessage {text : Option Value} (hs : s.Named)
    (hevent : text.bind readEvent = some event) :
    Confined event.symbol s (handleMessage market s text) := by
  unfold handleMessage
  rw [hevent]
  dsimp only
  split
  · exact .refl _ _
  · rename_i ref href
    exact confined_handleEvent (hs.refs _ ref href)

/-- What happens to a message of the symbol, in its part. -/
theorem restrict_handleMessage {text : Option Value} (hs : s.Named)
    (hevent : text.bind readEvent = some event) :
    (handleMessage market s text).restrict event.symbol =
      handleMessage market (s.restrict event.symbol) text := by
  unfold handleMessage
  rw [hevent]
  dsimp only
  rw [subscribed_restrict]
  split
  · rfl
  · rename_i ref href
    exact restrict_handleEvent (hs.refs _ ref href)

/-- The action as it reads in the part of a symbol, if it belongs to it. -/
def binanceOwn (symbol : String) (s : FeedState D) (action : FeedAction D) :
    Option (FeedAction D) :=
  s.own symbol (fun parsed => (readEvent parsed).map BinanceEvent.symbol) action

/-- The symbol of a message is that of its event. -/
theorem symbol_bind (text : Option Value) :
    text.bind (fun parsed => (readEvent parsed).map BinanceEvent.symbol) =
      (text.bind readEvent).map BinanceEvent.symbol :=
  Option.map_bind.symm

/-- Every step keeps the books under their symbols, and is seen in the part of no symbol but
the one that it belongs to. -/
theorem binanceStep_confined {action : FeedAction D} (hs : s.Named)
    (hstep : binanceStep market s action = some t) :
    t.Named ∧ ∀ symbol, binanceOwn symbol s action = none →
      { t.restrict symbol with aborted := s.aborted } = s.restrict symbol := by
  unfold binanceStep at hstep
  split at hstep
  · cases hstep
  have hconfined {name : String} (h : Confined name s t)
      (hown : ∀ symbol, binanceOwn symbol s action = none → name ≠ symbol) :
      t.Named ∧ ∀ symbol, binanceOwn symbol s action = none →
        { t.restrict symbol with aborted := s.aborted } = s.restrict symbol :=
    ⟨h.named hs, fun symbol hnone => h.unseen symbol (hown symbol hnone)⟩
  cases action with
  | message text =>
    cases hstep
    cases hevent : text.bind readEvent with
    | none =>
      simp only [handleMessage, hevent, hs, true_and]
      exact fun _ _ => rfl
    | some event =>
      refine hconfined (confined_handleMessage hs hevent) fun symbol hown => ?_
      rintro rfl
      simp [binanceOwn, FeedState.own, symbol_bind, hevent] at hown
  | depth i response =>
    obtain ⟨task, htask, hresumed, -⟩ := resumeTask_cases hs hstep
    refine hconfined hresumed fun symbol hown => ?_
    rintro rfl
    simp [binanceOwn, FeedState.own, htask] at hown
  | wake i =>
    obtain ⟨task, htask, hresumed, -⟩ := resumeTask_cases hs hstep
    refine hconfined hresumed fun symbol hown => ?_
    rintro rfl
    simp [binanceOwn, FeedState.own, htask] at hown
  | watch name waiter subscribes sends =>
    cases hstep
    refine hconfined (.watch waiter subscribes sends) fun symbol hown => ?_
    rintro rfl
    simp [binanceOwn, FeedState.own] at hown
  | unwatch name unsubscribes =>
    cases hstep
    refine hconfined (.unwatch unsubscribes) fun symbol hown => ?_
    rintro rfl
    simp [binanceOwn, FeedState.own] at hown
  | fail =>
    cases hstep
    exact ⟨hs.onFail, fun symbol hown => by simp [binanceOwn, FeedState.own] at hown⟩
  | resume k =>
    obtain ⟨entry, hentry, -⟩ := Option.map_eq_some_iff.mp hstep
    refine hconfined (.resume hentry rfl hstep) fun symbol hown => ?_
    rintro rfl
    simp [binanceOwn, FeedState.own, hentry] at hown

/-- Every step that belongs to the symbol does the same in its part. -/
theorem restrict_binanceStep {action own : FeedAction D} (hs : s.Named)
    (hown : binanceOwn symbol s action = some own) (hstep : binanceStep market s action = some t) :
    binanceStep market (s.restrict symbol) own = some (t.restrict symbol) := by
  unfold binanceStep at hstep ⊢
  split at hstep
  · cases hstep
  rename_i hrunning
  rw [show (s.restrict symbol).aborted = s.aborted from rfl, if_neg hrunning]
  cases action with
  | message text =>
    cases hstep
    obtain ⟨hsymbol, rfl⟩ := own_message.mp hown
    rw [symbol_bind] at hsymbol
    obtain ⟨event, hevent, rfl⟩ := Option.map_eq_some_iff.mp hsymbol
    exact congrArg some (restrict_handleMessage hs hevent).symm
  | depth i response =>
    obtain ⟨task, htask, -, hresumed⟩ := resumeTask_cases hs hstep
    obtain ⟨rfl, rfl⟩ := (own_depth htask).mp hown
    exact hresumed
  | wake i =>
    obtain ⟨task, htask, -, hresumed⟩ := resumeTask_cases hs hstep
    obtain ⟨rfl, rfl⟩ := (own_wake htask).mp hown
    exact hresumed
  | watch name waiter subscribes sends =>
    cases hstep
    obtain ⟨rfl, rfl⟩ := own_watch.mp hown
    exact congrArg some (restrict_watch waiter subscribes sends).symm
  | unwatch name unsubscribes =>
    cases hstep
    obtain ⟨rfl, rfl⟩ := own_unwatch.mp hown
    exact congrArg some (restrict_unwatch unsubscribes).symm
  | fail =>
    cases hstep
    cases hown
    exact congrArg some restrict_onFail.symm
  | resume k =>
    obtain ⟨entry, hentry, -⟩ := Option.map_eq_some_iff.mp hstep
    obtain ⟨rfl, rfl⟩ := (own_resume hentry).mp hown
    exact (restrict_resume hentry rfl).trans (congrArg _ hstep)

/-- Nothing happens after the process was aborted. -/
theorem running_of_binanceStep {action : FeedAction D}
    (hstep : binanceStep market s action = some t) : ¬s.aborted := by
  intro haborted
  simp [binanceStep, haborted] at hstep

/-- Every run is, for each symbol, the run of the steps of that symbol. -/
theorem exists_binanceRun_of_symbol (market : MarketType) (symbol : String)
    {actions : List (FeedAction D)} {s : FeedState D}
    (hrun : GuardedRun.exec (binanceStep market) start actions = some s) :
    ∃ u, GuardedRun.exec (binanceStep market) start
      (project (binanceStep market) (binanceOwn symbol) start actions) = some u ∧
        Tracks symbol s u := by
  apply exec_project _ _ _ hrun
  · intro s u action own t hs hown hstep
    rw [hs.eq_restrict (running_of_binanceStep hstep)]
    exact ⟨t.restrict symbol, restrict_binanceStep hs.named hown hstep,
      (binanceStep_confined hs.named hstep).1, id, rfl⟩
  · intro s u action t hs hown hstep
    have hrunning := running_of_binanceStep hstep
    obtain ⟨hnamed, hunseen⟩ := binanceStep_confined hs.named hstep
    rw [hs.eq_restrict hrunning]
    exact ⟨hnamed, fun haborted => absurd haborted hrunning, hunseen symbol hown⟩
  · exact ⟨named_start, id, restrict_start symbol⟩

end Arbexpert.Binance
