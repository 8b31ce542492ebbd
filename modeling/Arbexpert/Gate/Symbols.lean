import Arbexpert.Base.Symbols
import Arbexpert.Gate.Handler

/-!
# Symbols on one Gate connection

The Gate handler reads and writes, for an event of a symbol, the entries of that symbol only,
in the maps of the sub-client and in the history of its bid prices. A run is therefore, for
each symbol, the run of the steps of that symbol.
-/

namespace Arbexpert.Gate

open Arbexpert.Base Projection

variable {D : Type*}

/-- The part of a sub-client that belongs to a symbol, with the bid prices seen for it. -/
def GateState.restrict (symbol : String) (s : GateState D) : GateState D where
  toFeedState := s.toFeedState.restrict symbol
  history := only (· = symbol) ∅ s.history

/-- What happens is confined to a symbol, and so is what is written to the history. -/
structure GateState.Confined (name : String) (s t : GateState D) : Prop where
  feed : FeedState.Confined name s.toFeedState t.toFeedState
  history : ∀ symbol, name ≠ symbol →
    only (· = symbol) ∅ t.history = only (· = symbol) ∅ s.history

/-- The part of a symbol is unchanged, but for the flag that stops the process. -/
def GateState.Unseen (symbol : String) (s t : GateState D) : Prop :=
  { t.restrict symbol with aborted := s.aborted } = s.restrict symbol

section Confined

variable {s t u : GateState D} {name symbol : String} {ref : BookRef} {task : InitTask D}

/-- The bid prices seen for the symbol are in its part. -/
@[simp] theorem history_restrict : (s.restrict symbol).history symbol = s.history symbol :=
  only_of_pos rfl

/-- A change of the sub-client that leaves the history alone is confined to the same symbol. -/
theorem GateState.Confined.of_feed {feed : FeedState D}
    (h : FeedState.Confined name s.toFeedState feed) :
    GateState.Confined name s { s with toFeedState := feed } := ⟨h, fun _ _ => rfl⟩

/-- Two confined changes make one. -/
theorem GateState.Confined.trans (h : GateState.Confined name s t)
    (h' : GateState.Confined name t u) : GateState.Confined name s u where
  feed := h.feed.trans h'.feed
  history symbol hne := (h'.history symbol hne).trans (h.history symbol hne)

/-- What is confined to another symbol leaves the part of the symbol unchanged. -/
theorem GateState.Confined.unseen (h : GateState.Confined name s t) (hne : name ≠ symbol) :
    GateState.Unseen symbol s t := by
  have hfeed := h.feed.unseen symbol hne
  have hhistory := h.history symbol hne
  simp only [GateState.Unseen, GateState.restrict]
  rw [hhistory, ← hfeed]

/-- Writing a book of the symbol with its bid prices is confined to it. -/
theorem GateState.Confined.record (s : GateState D) (href : ref.1 = name) (book : OrderBook D)
    (seen : Finset D) : GateState.Confined name s { s with
      toFeedState := s.toFeedState.setBook ref book
      history := Function.update s.history name seen } where
  feed := .setBook href book
  history symbol hne := only_update_of_neg (p := (· = symbol)) hne seen

/-- A handler of a symbol leaves another one or none, also in the part of its symbol. -/
theorem setTask_cases {s' : GateState D} {i : ℕ} {next : Option (InitTask D)}
    (htask : s.tasks[i]? = some task) (h : GateState.Confined task.symbol s s')
    (htasks : s'.tasks = s.tasks)
    (hnext : ∀ other ∈ next, other.symbol = task.symbol ∧ other.book.1 = task.symbol) :
    GateState.Confined task.symbol s { s' with toFeedState := s'.toFeedState.setTask i next } ∧
      (s'.restrict task.symbol).toFeedState.setTask
        (position (fun other => other.symbol = task.symbol) s.tasks i) next =
        (s'.toFeedState.setTask i next).restrict task.symbol := by
  obtain ⟨-, hmatch⟩ := FeedState.setTask_cases htask h.feed htasks hnext
  exact ⟨h.trans (.of_feed (.setTask (htasks ▸ htask) rfl hnext)), hmatch⟩

/-- The state of the run of a symbol: its part of the whole state, but that the process may have
been stopped in the whole run only. -/
structure Tracks (symbol : String) (s u : GateState D) : Prop where
  feed : FeedState.Tracks symbol s.toFeedState u.toFeedState
  history : only (· = symbol) ∅ s.history = u.history

/-- While the process runs, the state of the run of a symbol is its part of the whole state. -/
theorem Tracks.eq_restrict (h : Tracks symbol s u) (hrunning : ¬s.aborted) :
    u = s.restrict symbol := by
  rw [GateState.restrict, ← h.feed.eq_restrict hrunning, h.history]

/-- The bid prices seen for the symbol, in the state of its run. -/
theorem Tracks.history_eq (h : Tracks symbol s u) : u.history symbol = s.history symbol := by
  rw [← h.history]
  exact only_of_pos rfl

end Confined

variable [LinearOrder D] [Zero D]

section Handler

variable {s : GateState D} {name symbol : String} {ref : BookRef} {task : InitTask D}
  {update : OrderBookUpdate D} {event : GateEvent}

/-- A broadcast of a symbol is confined to it. -/
theorem confined_broadcastUpdate (href : ref.1 = name) :
    GateState.Confined name s (broadcastUpdate s name ref update) := by
  have hrecord := GateState.Confined.record s href ((s.books ref).applyUpdate update)
    (recordBids (s.history name) update.bids)
  unfold broadcastUpdate
  dsimp only
  split
  · exact hrecord.trans (.of_feed (.deliver href))
  · exact hrecord.trans (.of_feed (.abort name _))

/-- A broadcast of the symbol, in its part. -/
theorem restrict_broadcastUpdate (href : ref.1 = symbol) :
    (broadcastUpdate s symbol ref update).restrict symbol =
      broadcastUpdate (s.restrict symbol) symbol ref update := by
  have hbook : (s.restrict symbol).books ref = s.books ref := FeedState.books_restrict href
  unfold broadcastUpdate
  rw [hbook, history_restrict]
  dsimp only
  split
  · simp only [GateState.restrict, FeedState.restrict_deliver href, FeedState.restrict_setBook href,
      only_update_of_pos]
  · simp only [GateState.restrict, only_update_of_pos]
    rw [← FeedState.restrict_setBook href]
    rfl

/-- The end of an initialisation is confined to its symbol. -/
theorem confined_finishInit (hsymbol : task.symbol = name) (hbook : task.book.1 = name)
    (snapshot : OrderBook D) (processed : List (OrderBookUpdate D)) :
    GateState.Confined name s (finishInit s task snapshot processed) := by
  subst hsymbol
  exact .record s hbook _ _

/-- The end of an initialisation, in the part of its symbol. -/
theorem restrict_finishInit (hsymbol : task.symbol = symbol) (hbook : task.book.1 = symbol)
    (snapshot : OrderBook D) (processed : List (OrderBookUpdate D)) :
    (finishInit s task snapshot processed).restrict symbol =
      finishInit (s.restrict symbol) task snapshot processed := by
  subst hsymbol
  unfold finishInit
  rw [history_restrict]
  simp only [GateState.restrict, FeedState.restrict_setBook hbook, only_update_of_pos]

/-- An attempt to replay the buffer is confined to its symbol, and so is the handler that is
left. -/
theorem confined_replayAttempt (s : GateState D) (task : InitTask D) (hsymbol : task.symbol = name)
    (hbook : task.book.1 = name) (snapshot : OrderBook D) (retries : ℕ) :
    GateState.Confined name s (replayAttempt s task snapshot retries).1 ∧
      (replayAttempt s task snapshot retries).1.tasks = s.tasks ∧
      ∀ next ∈ (replayAttempt s task snapshot retries).2,
        next.symbol = name ∧ next.book.1 = name := by
  obtain ⟨hfeed, htasks, hnext⟩ := FeedState.Confined.replayAttempt (s := s.toFeedState) hsymbol
    hbook snapshot retries
  unfold replayAttempt
  split
  rename_i feed outcome hattempt
  simp only [hattempt] at hfeed htasks hnext
  cases outcome with
  | ended => exact ⟨.of_feed hfeed, htasks, nofun⟩
  | sleeping next =>
    refine ⟨.of_feed hfeed, htasks, fun other hother => ?_⟩
    cases hother
    exact hnext next rfl
  | replay processed =>
    exact ⟨(GateState.Confined.of_feed hfeed).trans
      (confined_finishInit hsymbol hbook snapshot processed), htasks, nofun⟩

/-- An attempt to replay the buffer, in the part of the symbol. -/
theorem restrict_replayAttempt (s : GateState D) (task : InitTask D)
    (hsymbol : task.symbol = symbol) (hbook : task.book.1 = symbol) (snapshot : OrderBook D)
    (retries : ℕ) :
    replayAttempt (s.restrict symbol) task snapshot retries =
      ((replayAttempt s task snapshot retries).1.restrict symbol,
        (replayAttempt s task snapshot retries).2) := by
  have hfeed := FeedState.restrict_replayAttempt (s := s.toFeedState) hsymbol hbook snapshot retries
  rcases hattempt : s.toFeedState.replayAttempt task snapshot retries with ⟨feed, outcome⟩
  simp only [hattempt] at hfeed
  unfold replayAttempt
  rw [show (s.restrict symbol).toFeedState = s.toFeedState.restrict symbol from rfl, hfeed,
    hattempt]
  cases outcome with
  | ended => rfl
  | sleeping next => rfl
  | replay processed =>
    dsimp only
    rw [restrict_finishInit hsymbol hbook]
    rfl

/-- The start of an initialisation is confined to the symbol of its event. -/
theorem confined_startInit (href : ref.1 = event.symbol) :
    GateState.Confined event.symbol s (startInit s event ref) := by
  have hopen : GateState.Confined event.symbol s { s with
      toFeedState := (s.toFeedState.setUpdateId ref 1).openInit event.symbol } :=
    .of_feed (.trans (.setBook href _) (.setInit _))
  unfold startInit
  dsimp only
  split
  · exact hopen.trans (.of_feed (.addTask rfl href))
  · obtain ⟨hattempt, -, hnext⟩ := confined_replayAttempt
      ⟨(s.toFeedState.setUpdateId ref 1).openInit event.symbol, s.history⟩
      ⟨event.symbol, ref, .fetching event.firstUpdateId 0⟩ rfl href OrderBook.empty 0
    split
    · exact hopen.trans hattempt
    · rename_i next heq
      obtain ⟨hsymbol, hbook⟩ := hnext next heq
      exact (hopen.trans hattempt).trans (.of_feed (.addTask hsymbol hbook))

/-- The start of an initialisation, in the part of the symbol. -/
theorem restrict_startInit (href : ref.1 = event.symbol) :
    (startInit s event ref).restrict event.symbol =
      startInit (s.restrict event.symbol) event ref := by
  have hopen : GateState.restrict event.symbol
      ⟨(s.toFeedState.setUpdateId ref 1).openInit event.symbol, s.history⟩ =
      ⟨((s.restrict event.symbol).toFeedState.setUpdateId ref 1).openInit event.symbol,
        (s.restrict event.symbol).history⟩ := by
    simp only [GateState.restrict, FeedState.restrict_openInit, FeedState.restrict_setUpdateId href]
  unfold startInit
  dsimp only
  rw [← hopen, restrict_replayAttempt _ _ (rfl : _ = event.symbol) href]
  split
  · simp only [GateState.restrict, FeedState.restrict_addTask, FeedState.restrict_openInit,
      FeedState.restrict_setUpdateId href]
  · obtain ⟨-, -, hnext⟩ := confined_replayAttempt
      ⟨(s.toFeedState.setUpdateId ref 1).openInit event.symbol, s.history⟩
      ⟨event.symbol, ref, .fetching event.firstUpdateId 0⟩ rfl href OrderBook.empty 0
    dsimp only
    split
    · rfl
    · rename_i next heq
      exact congrArg (fun feed => GateState.mk feed _)
        (FeedState.restrict_addTask (hnext next heq).1)

/-- A response to a snapshot request is confined to the symbol of its handler. -/
theorem confined_depthResponse (hsymbol : task.symbol = name) (hbook : task.book.1 = name)
    (initialEventU retries : ℕ) (response : Option (DepthSnapshot D)) :
    GateState.Confined name s (depthResponse s task initialEventU retries response).1 ∧
      (depthResponse s task initialEventU retries response).1.tasks = s.tasks ∧
      ∀ next ∈ (depthResponse s task initialEventU retries response).2,
        next.symbol = name ∧ next.book.1 = name := by
  have hreset : GateState.Confined name s
      { s with toFeedState := s.toFeedState.setUpdateId task.book 0 } :=
    .of_feed (.setBook hbook _)
  unfold depthResponse
  split
  · exact ⟨hreset, rfl, nofun⟩
  · split
    · split
      · exact ⟨hreset, rfl, nofun⟩
      · refine ⟨.of_feed (.refl name _), rfl, fun next hnext => ?_⟩
        cases hnext
        exact ⟨hsymbol, hbook⟩
    · exact confined_replayAttempt s task hsymbol hbook _ _

/-- A response to a snapshot request, in the part of the symbol. -/
theorem restrict_depthResponse (hsymbol : task.symbol = symbol) (hbook : task.book.1 = symbol)
    (initialEventU retries : ℕ) (response : Option (DepthSnapshot D)) :
    depthResponse (s.restrict symbol) task initialEventU retries response =
      ((depthResponse s task initialEventU retries response).1.restrict symbol,
        (depthResponse s task initialEventU retries response).2) := by
  have hreset : ⟨(s.restrict symbol).toFeedState.setUpdateId task.book 0,
      (s.restrict symbol).history⟩ =
      GateState.restrict symbol ⟨s.toFeedState.setUpdateId task.book 0, s.history⟩ := by
    simp only [GateState.restrict, FeedState.restrict_setUpdateId hbook]
  unfold depthResponse
  cases response with
  | none => exact Prod.ext hreset rfl
  | some snapshot =>
    dsimp only
    split
    · split
      · exact Prod.ext hreset rfl
      · rfl
    · exact restrict_replayAttempt s task hsymbol hbook _ _

/-- Only a suspended handler continues. -/
theorem exists_task_of_resumeTask {i : ℕ} {response : Option (Option (DepthSnapshot D))}
    {t : GateState D} (hresume : resumeTask s i response = some t) :
    ∃ task, s.tasks[i]? = some task := by
  cases htask : s.tasks[i]? with
  | none => simp [resumeTask, htask] at hresume
  | some task => exact ⟨task, rfl⟩

/-- A suspended handler continues, confined to its symbol, and also in the part of its symbol. -/
theorem resumeTask_cases {i : ℕ} {response : Option (Option (DepthSnapshot D))}
    {t : GateState D} (hs : s.Named) (hresume : resumeTask s i response = some t) :
    ∃ task, s.tasks[i]? = some task ∧ GateState.Confined task.symbol s t ∧
      resumeTask (s.restrict task.symbol)
        (position (fun other => other.symbol = task.symbol) s.tasks i) response =
          some (t.restrict task.symbol) := by
  obtain ⟨task, htask⟩ := exists_task_of_resumeTask hresume
  have hbook := hs.tasks task (List.mem_of_getElem? htask)
  refine ⟨task, htask, ?_⟩
  have hfound : (s.restrict task.symbol).tasks[
      position (fun other => other.symbol = task.symbol) s.tasks i]? = some task :=
    FeedState.getElem?_restrict htask
  unfold resumeTask at hresume ⊢
  rw [htask] at hresume
  rw [hfound]
  dsimp only at hresume ⊢
  split at hresume
  · rename_i initialEventU retries response hstage
    cases hresume
    obtain ⟨hconfined, htasks, hnext⟩ :=
      confined_depthResponse (s := s) rfl hbook initialEventU retries response
    obtain ⟨hset, hmatch⟩ := setTask_cases htask hconfined htasks hnext
    refine ⟨hset, ?_⟩
    rw [restrict_depthResponse rfl hbook]
    dsimp only
    rw [hmatch]
    rfl
  · rename_i snapshot retries hstage
    cases hresume
    obtain ⟨hconfined, htasks, hnext⟩ :=
      confined_replayAttempt s task rfl hbook snapshot retries
    obtain ⟨hset, hmatch⟩ := setTask_cases htask hconfined htasks hnext
    refine ⟨hset, ?_⟩
    rw [restrict_replayAttempt s task rfl hbook]
    dsimp only
    rw [hmatch]
    rfl
  · cases hresume

variable [DecimalText D] {market : MarketType}

/-- What happens to an event is confined to its symbol. -/
theorem confined_handleEvent (href : ref.1 = event.symbol) :
    GateState.Confined event.symbol s (handleEvent market s event ref) := by
  have hsame : GateState.Confined event.symbol s s := .of_feed (.refl _ _)
  unfold handleEvent
  dsimp only
  split
  · split
    · split
      · exact hsame
      · exact confined_broadcastUpdate href
    · exact confined_startInit href
  · split
    · exact .of_feed (.pushInit _)
    · split
      · exact .of_feed (.setBook href _)
      · split
        · exact hsame
        · exact confined_broadcastUpdate href

/-- What happens to an event of the symbol, in its part. -/
theorem restrict_handleEvent (href : ref.1 = event.symbol) :
    (handleEvent market s event ref).restrict event.symbol =
      handleEvent market (s.restrict event.symbol) event ref := by
  have hbook : (s.restrict event.symbol).books ref = s.books ref := FeedState.books_restrict href
  unfold handleEvent
  rw [hbook]
  dsimp only
  split
  · split
    · split
      · rfl
      · exact restrict_broadcastUpdate href
    · exact restrict_startInit href
  · split
    · exact congrArg (fun feed => GateState.mk feed _) (FeedState.restrict_pushInit _)
    · split
      · exact congrArg (fun feed => GateState.mk feed _) (FeedState.restrict_setBook href _)
      · split
        · rfl
        · exact restrict_broadcastUpdate href

/-- What happens to a message is confined to the symbol of its event. -/
theorem confined_handleMessage {text : Option Value} (hs : s.Named)
    (hevent : text.bind readEvent = some event) :
    GateState.Confined event.symbol s (handleMessage market s text) := by
  unfold handleMessage
  rw [hevent]
  dsimp only
  split
  · exact .of_feed (.refl _ _)
  · rename_i ref href
    exact confined_handleEvent (hs.refs _ ref href)

/-- What happens to a message of the symbol, in its part. -/
theorem restrict_handleMessage {text : Option Value} (hs : s.Named)
    (hevent : text.bind readEvent = some event) :
    (handleMessage market s text).restrict event.symbol =
      handleMessage market (s.restrict event.symbol) text := by
  have hsubscribed : (s.restrict event.symbol).subscribed event.symbol =
    s.subscribed event.symbol := FeedState.subscribed_restrict
  unfold handleMessage
  rw [hevent]
  dsimp only
  rw [hsubscribed]
  split
  · rfl
  · rename_i ref href
    exact restrict_handleEvent (hs.refs _ ref href)

/-- The action as it reads in the part of a symbol, if it belongs to it. -/
def gateOwn (symbol : String) (s : GateState D) (action : FeedAction D) : Option (FeedAction D) :=
  s.toFeedState.own symbol (fun parsed => (readEvent parsed).map GateEvent.symbol) action

/-- The symbol of a message is that of its event. -/
theorem symbol_bind (text : Option Value) :
    text.bind (fun parsed => (readEvent parsed).map GateEvent.symbol) =
      (text.bind readEvent).map GateEvent.symbol :=
  Option.map_bind.symm

/-- Every step keeps the books under their symbols, and is seen in the part of no symbol but
the one that it belongs to. -/
theorem gateStep_confined {action : FeedAction D} {t : GateState D} (hs : s.Named)
    (hstep : gateStep market s action = some t) :
    t.Named ∧ ∀ symbol, gateOwn symbol s action = none → GateState.Unseen symbol s t := by
  unfold gateStep at hstep
  split at hstep
  · cases hstep
  have hconfined {name : String} (h : GateState.Confined name s t)
      (hown : ∀ symbol, gateOwn symbol s action = none → name ≠ symbol) :
      t.Named ∧ ∀ symbol, gateOwn symbol s action = none → GateState.Unseen symbol s t :=
    ⟨h.feed.named hs, fun symbol hnone => h.unseen (hown symbol hnone)⟩
  cases action with
  | message text =>
    cases hstep
    cases hevent : text.bind readEvent with
    | none => simp only [handleMessage, hevent, hs, GateState.Unseen, true_and]; intros; rfl
    | some event =>
      refine hconfined (confined_handleMessage hs hevent) fun symbol hown => ?_
      rintro rfl
      simp [gateOwn, FeedState.own, symbol_bind, hevent] at hown
  | depth i response =>
    obtain ⟨task, htask, hresumed, -⟩ := resumeTask_cases hs hstep
    refine hconfined hresumed fun symbol hown => ?_
    rintro rfl
    simp [gateOwn, FeedState.own, htask] at hown
  | wake i =>
    obtain ⟨task, htask, hresumed, -⟩ := resumeTask_cases hs hstep
    refine hconfined hresumed fun symbol hown => ?_
    rintro rfl
    simp [gateOwn, FeedState.own, htask] at hown
  | watch name waiter subscribes sends =>
    cases hstep
    refine hconfined (.of_feed (.watch waiter subscribes sends)) fun symbol hown => ?_
    rintro rfl
    simp [gateOwn, FeedState.own] at hown
  | unwatch name unsubscribes =>
    cases hstep
    refine hconfined (.of_feed (.unwatch unsubscribes)) fun symbol hown => ?_
    rintro rfl
    simp [gateOwn, FeedState.own] at hown
  | fail =>
    cases hstep
    exact ⟨hs.onFail, fun symbol hown => by simp [gateOwn, FeedState.own] at hown⟩
  | resume k =>
    obtain ⟨feed, hfeed, rfl⟩ := Option.map_eq_some_iff.mp hstep
    obtain ⟨entry, hentry, -⟩ := Option.map_eq_some_iff.mp hfeed
    refine hconfined (.of_feed (.resume hentry rfl hfeed)) fun symbol hown => ?_
    rintro rfl
    simp [gateOwn, FeedState.own, hentry] at hown

/-- Every step that belongs to the symbol does the same in its part. -/
theorem restrict_gateStep {action own : FeedAction D} {t : GateState D} (hs : s.Named)
    (hown : gateOwn symbol s action = some own) (hstep : gateStep market s action = some t) :
    gateStep market (s.restrict symbol) own = some (t.restrict symbol) := by
  unfold gateStep at hstep ⊢
  split at hstep
  · cases hstep
  rename_i hrunning
  rw [show (s.restrict symbol).aborted = s.aborted from rfl, if_neg hrunning]
  cases action with
  | message text =>
    cases hstep
    obtain ⟨hsymbol, rfl⟩ := FeedState.own_message.mp hown
    rw [symbol_bind] at hsymbol
    obtain ⟨event, hevent, rfl⟩ := Option.map_eq_some_iff.mp hsymbol
    exact congrArg some (restrict_handleMessage hs hevent).symm
  | depth i response =>
    obtain ⟨task, htask, -, hresumed⟩ := resumeTask_cases hs hstep
    obtain ⟨rfl, rfl⟩ := (FeedState.own_depth htask).mp hown
    exact hresumed
  | wake i =>
    obtain ⟨task, htask, -, hresumed⟩ := resumeTask_cases hs hstep
    obtain ⟨rfl, rfl⟩ := (FeedState.own_wake htask).mp hown
    exact hresumed
  | watch name waiter subscribes sends =>
    cases hstep
    obtain ⟨rfl, rfl⟩ := FeedState.own_watch.mp hown
    exact congrArg (fun feed => some (GateState.mk feed _))
      (FeedState.restrict_watch waiter subscribes sends).symm
  | unwatch name unsubscribes =>
    cases hstep
    obtain ⟨rfl, rfl⟩ := FeedState.own_unwatch.mp hown
    exact congrArg (fun feed => some (GateState.mk feed _))
      (FeedState.restrict_unwatch unsubscribes).symm
  | fail =>
    cases hstep
    cases hown
    exact congrArg (fun feed => some (GateState.mk feed _)) FeedState.restrict_onFail.symm
  | resume k =>
    obtain ⟨feed, hfeed, rfl⟩ := Option.map_eq_some_iff.mp hstep
    obtain ⟨entry, hentry, -⟩ := Option.map_eq_some_iff.mp hfeed
    obtain ⟨rfl, rfl⟩ := (FeedState.own_resume hentry).mp hown
    have hresume := FeedState.restrict_resume hentry rfl
    rw [hfeed] at hresume
    dsimp only
    rw [show (s.restrict entry.2.1).toFeedState = s.toFeedState.restrict entry.2.1 from rfl,
      hresume]
    rfl

/-- Nothing happens after the process was aborted. -/
theorem running_of_gateStep {action : FeedAction D} {t : GateState D}
    (hstep : gateStep market s action = some t) : ¬s.aborted := by
  intro haborted
  simp [gateStep, haborted] at hstep

/-- Every run is, for each symbol, the run of the steps of that symbol. -/
theorem exists_gateRun_of_symbol (market : MarketType) (symbol : String)
    {actions : List (FeedAction D)} {s : GateState D}
    (hrun : GuardedRun.exec (gateStep market) gateStart actions = some s) :
    ∃ u, GuardedRun.exec (gateStep market) gateStart
      (project (gateStep market) (gateOwn symbol) gateStart actions) = some u ∧
        Tracks symbol s u := by
  apply exec_project _ _ _ hrun
  · intro s u action own t hs hown hstep
    have hrunning := running_of_gateStep hstep
    rw [hs.eq_restrict hrunning]
    exact ⟨t.restrict symbol, restrict_gateStep hs.feed.named hown hstep,
      ⟨(gateStep_confined hs.feed.named hstep).1, id, rfl⟩, rfl⟩
  · intro s u action t hs hown hstep
    have hrunning := running_of_gateStep hstep
    obtain ⟨hnamed, hunseen⟩ := gateStep_confined hs.feed.named hstep
    rw [hs.eq_restrict hrunning]
    have hfeed := congrArg GateState.toFeedState (hunseen symbol hown)
    have hhistory := congrArg GateState.history (hunseen symbol hown)
    exact ⟨⟨hnamed, fun haborted => absurd haborted hrunning, hfeed⟩, hhistory⟩
  · refine ⟨⟨FeedState.named_start, id, FeedState.restrict_start symbol⟩, ?_⟩
    exact only_const

end Handler

end Arbexpert.Gate
