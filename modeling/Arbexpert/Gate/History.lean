import Arbexpert.Gate.Symbols

/-!
# The history of bid prices

The handler stops the process when the book holds a bid price that is not in the history of
its symbol. The history and the book of a symbol are written together, but a handler that was
suspended for an earlier book of the symbol writes the history too: it can remove a price that
the present book still holds.
-/

namespace Arbexpert.Gate

open Arbexpert.Base Projection

variable {D : Type*}

/-- Every bid price of a book is among the prices seen. -/
def Seen (book : OrderBook D) (seen : Finset D) : Prop :=
  ∀ price ∈ book.bids.keys, OrderDual.ofDual price ∈ seen

/-- Every bid price of a subscribed book is in the history of its symbol. -/
def GateState.Recorded (s : GateState D) : Prop :=
  ∀ name ref, s.subscribed name = some ref → Seen (s.books ref) (s.history name)

section Recorded

variable {s t : GateState D} {name : String} {ref : BookRef}

/-- A change that leaves the books, the subscriptions and the history alone. -/
theorem GateState.Recorded.congr (h : s.Recorded) (hbooks : t.books = s.books)
    (hsubscribed : t.subscribed = s.subscribed) (hhistory : t.history = s.history) :
    t.Recorded := by
  unfold GateState.Recorded at h ⊢
  rw [hbooks, hsubscribed, hhistory]
  exact h

/-- A book is replaced by one with no other bid prices. -/
theorem GateState.Recorded.setBook (h : s.Recorded) {book : OrderBook D}
    (hbook : ∀ seen, Seen (s.books ref) seen → Seen book seen) :
    GateState.Recorded { s with toFeedState := s.toFeedState.setBook ref book } := by
  intro other found hfound
  have hseen := h other found hfound
  rcases eq_or_ne found ref with rfl | hne
  · simpa only [FeedState.setBook, Function.update_self] using hbook _ hseen
  · simpa only [FeedState.setBook, Function.update_of_ne hne] using hseen

/-- A book with seen bid prices is written with the history of its symbol: the history covers
the subscribed book exactly if it does so when that is another book of the symbol. -/
theorem GateState.Recorded.record_iff (h : s.Recorded) (hs : s.Named) (href : ref.1 = name)
    {book : OrderBook D} {seen : Finset D} (hseen : Seen book seen) :
    GateState.Recorded { s with
        toFeedState := s.toFeedState.setBook ref book
        history := Function.update s.history name seen } ↔
      ∀ other, s.subscribed name = some other → other ≠ ref → Seen (s.books other) seen := by
  constructor
  · intro hall other hother hne
    have hkept := hall name other hother
    simpa only [FeedState.setBook, Function.update_self, Function.update_of_ne hne] using hkept
  · intro hothers symbol found hfound
    rcases eq_or_ne symbol name with rfl | hsymbol
    · rcases eq_or_ne found ref with rfl | hne
      · simpa only [FeedState.setBook, Function.update_self] using hseen
      · simpa only [FeedState.setBook, Function.update_self, Function.update_of_ne hne]
          using hothers found hfound hne
    · have hne : found ≠ ref := by
        rintro rfl
        exact hsymbol ((hs.refs symbol found hfound).symm.trans href)
      simpa only [FeedState.setBook, Function.update_of_ne hne, Function.update_of_ne hsymbol]
        using h symbol found hfound

/-- The handler of a subscribed book writes it with the history. -/
theorem GateState.Recorded.record (h : s.Recorded) (hs : s.Named)
    (hsubscribed : s.subscribed name = some ref) {book : OrderBook D} {seen : Finset D}
    (hseen : Seen book seen) : GateState.Recorded { s with
        toFeedState := s.toFeedState.setBook ref book
        history := Function.update s.history name seen } := by
  refine (h.record_iff hs (hs.refs name ref hsubscribed) hseen).mpr fun other hother hne => ?_
  exact absurd (Option.some.inj (hother.symm.trans hsubscribed)) hne

/-- A watch call makes an empty book, if it makes one. -/
theorem watch_recorded (h : s.Recorded) (hs : s.Named) (name : String) (waiter : ℕ)
    (subscribes sends : Bool) : GateState.Recorded
      { s with toFeedState := s.toFeedState.watch name waiter subscribes sends } := by
  unfold FeedState.watch
  split
  · split
    · exact h.congr rfl rfl rfl
    · exact h.congr rfl rfl rfl
  · cases subscribes with
    | false => exact h.congr rfl rfl rfl
    | true =>
      intro other ref href
      rcases eq_or_ne other name with rfl | hother
      · simp only [if_true, Function.update_self, Option.some.injEq] at href
        subst href
        simp [Seen, OrderBook.empty]
      · simp only [if_true, Function.update_of_ne hother] at href
        have hne : ref ≠ (name, s.opened name) := by
          rintro rfl
          exact hother (hs.refs other _ href).symm
        simpa only [if_true, Function.update_of_ne hne] using h other ref href

/-- An unwatch call leaves fewer symbols. -/
theorem unwatch_recorded (h : s.Recorded) (name : String) (unsubscribes : Bool) :
    GateState.Recorded { s with toFeedState := s.toFeedState.unwatch name unsubscribes } := by
  unfold FeedState.unwatch
  split
  · exact h
  · cases unsubscribes with
    | false => exact h
    | true =>
      intro other ref href
      rcases eq_or_ne other name with rfl | hother
      · simp at href
      · simp only [if_true, Function.update_of_ne hother] at href
        exact h other ref href

end Recorded

variable [LinearOrder D] [Zero D]

/-- The last level listed for a price has quantity zero, so the levels remove the price. -/
def Removes (levels : List (D × D)) (price : D) : Prop := levels.reverse.lookup price = some 0

/-- The buffered updates that a replay applies, up to the first gap. -/
def appliedUpdates : List (OrderBookUpdate D) → OrderBook D → List (OrderBookUpdate D)
  | [], _ => []
  | update :: rest, book =>
    if succU64 book.updateId < update.firstUpdateId ∨
        update.lastUpdateId < succU64 book.updateId then []
    else update :: appliedUpdates rest (book.applyUpdate update)

/-- A handler of a book that is no longer subscribed replays no update that removes a bid price
of the book that is subscribed in its place. -/
def ReplayKeeps (s : GateState D) (task : InitTask D) (snapshot : OrderBook D) : Prop :=
  ∀ ref, s.subscribed task.symbol = some ref → ref ≠ task.book →
    ∀ price ∈ (s.books ref).bids.keys, ¬Removes
      ((appliedUpdates (s.replayed task.symbol snapshot.updateId) snapshot).flatMap fun update =>
        update.bids) (OrderDual.ofDual price)

/-- A suspended handler that continues with a snapshot keeps the bid prices of the subscribed
book in the history. -/
def KeepsRecorded (s : GateState D) : FeedAction D → Prop
  | .depth i response => ∀ task initialEventU retries snapshot, s.tasks[i]? = some task →
      task.stage = .fetching initialEventU retries → response = some snapshot →
        initialEventU ≤ snapshot.id → ReplayKeeps s task snapshot.book
  | .wake i => ∀ task snapshot retries, s.tasks[i]? = some task →
      task.stage = .replaying snapshot retries → retries ≠ 5 → ReplayKeeps s task snapshot
  | _ => True

section Levels

variable {book : OrderBook D} {seen : Finset D} {price : D}

/-- Recording a bid more at the end. -/
theorem recordBids_concat (seen : Finset D) (levels : List (D × D)) (level : D × D) :
    recordBids seen (levels ++ [level]) = if level.2 = 0 then
      (recordBids seen levels).erase level.1 else insert level.1 (recordBids seen levels) :=
  List.foldl_append

/-- A price that was seen is removed by the levels whose last one for it has quantity zero. -/
theorem mem_recordBids_iff (hprice : price ∈ seen) (levels : List (D × D)) :
    price ∈ recordBids seen levels ↔ ¬Removes levels price := by
  induction levels using List.reverseRecOn with
  | nil => exact iff_of_true hprice nofun
  | append_singleton levels level ih =>
    have hlookup : (levels ++ [level]).reverse.lookup price =
        if price = level.1 then some level.2 else levels.reverse.lookup price := by
      rw [List.reverse_concat]
      obtain ⟨other, quantity⟩ := level
      by_cases hother : price = other
      · simp [hother]
      · rw [List.lookup_cons, beq_false_of_ne hother, if_neg hother]
    rw [recordBids_concat, Removes, hlookup]
    by_cases hother : price = level.1
    · subst hother
      by_cases hzero : level.2 = 0 <;> simp [hzero]
    · rw [if_neg hother, ← Removes, ← ih]
      split <;> simp [hother]

/-- The bid prices of a side after levels were set are among the recorded ones. -/
theorem seen_setLevels {side : BTreeMap Dᵒᵈ D} (levels : List (D × D))
    (hseen : ∀ price ∈ side.keys, OrderDual.ofDual price ∈ seen) :
    ∀ price ∈ (setLevels OrderDual.toDual side levels).keys,
      OrderDual.ofDual price ∈ recordBids seen levels := by
  induction levels generalizing side seen with
  | nil => exact hseen
  | cons level rest ih =>
    refine ih fun price hprice => ?_
    rw [Finmap.mem_keys] at hprice
    dsimp only [setLevel] at hprice ⊢
    split at hprice
    · rename_i hzero
      obtain ⟨hne, hold⟩ := Finmap.mem_erase.mp hprice
      rw [if_pos hzero]
      exact Finset.mem_erase.mpr ⟨hne, hseen price (Finmap.mem_keys.mpr hold)⟩
    · rename_i hzero
      rw [if_neg hzero]
      rcases Finmap.mem_insert.mp hprice with rfl | hold
      · exact Finset.mem_insert_self _ _
      · exact Finset.mem_insert_of_mem (hseen price (Finmap.mem_keys.mpr hold))

/-- An update that is applied to a book and recorded leaves no unseen bid price. -/
theorem Seen.applyUpdate (hseen : Seen book seen) (update : OrderBookUpdate D) :
    Seen (book.applyUpdate update) (recordBids seen update.bids) := by
  refine seen_setLevels update.bids fun price hprice => ?_
  split at hprice
  · simp at hprice
  · exact hseen price hprice

/-- A replay records the bids of the updates that it applies. -/
theorem replayUpdates_snd (updates : List (OrderBookUpdate D)) (book : OrderBook D)
    (seen : Finset D) : (replayUpdates updates book seen).2 =
      recordBids seen ((appliedUpdates updates book).flatMap fun update => update.bids) := by
  induction updates generalizing book seen with
  | nil => rfl
  | cons update rest ih =>
    unfold replayUpdates appliedUpdates
    split
    · rfl
    · rw [ih, List.flatMap_cons]
      exact List.foldl_append.symm

/-- A replay leaves no unseen bid price. -/
theorem Seen.replayUpdates (hseen : Seen book seen) (updates : List (OrderBookUpdate D)) :
    Seen (replayUpdates updates book seen).1 (replayUpdates updates book seen).2 := by
  induction updates generalizing book seen with
  | nil => exact hseen
  | cons update rest ih =>
    unfold Gate.replayUpdates
    split
    · exact hseen
    · exact ih (hseen.applyUpdate update)

end Levels

section Steps

variable {s t : GateState D} {name : String} {ref : BookRef} {task : InitTask D}

/-- The end of an initialisation covers the subscribed book exactly if the replay removes none of
its bid prices, should it be another book. -/
theorem finishInit_recorded_iff (h : s.Recorded) (hs : s.Named)
    (hbook : task.book.1 = task.symbol) (snapshot : OrderBook D)
    (processed : List (OrderBookUpdate D)) :
    (finishInit s task snapshot processed).Recorded ↔
      ∀ ref, s.subscribed task.symbol = some ref → ref ≠ task.book →
        ∀ price ∈ (s.books ref).bids.keys, ¬Removes
          ((appliedUpdates processed snapshot).flatMap fun update => update.bids)
          (OrderDual.ofDual price) := by
  have hsnapshot : Seen snapshot
      (s.history task.symbol ∪ snapshot.bids.keys.image OrderDual.ofDual) := fun price hprice =>
    Finset.mem_union_right _ (Finset.mem_image_of_mem _ hprice)
  refine (h.record_iff hs hbook (hsnapshot.replayUpdates processed)).trans
    (forall_congr' fun ref => forall_congr' fun href => forall_congr' fun _ =>
      forall₂_congr fun price hprice => ?_)
  rw [replayUpdates_snd]
  exact mem_recordBids_iff (Finset.mem_union_left _ (h _ ref href price hprice)) _

/-- A broadcast of the subscribed book finds every bid price in the history. -/
theorem broadcastUpdate_recorded (h : s.Recorded) (hs : s.Named)
    (hsubscribed : s.subscribed name = some ref) (update : OrderBookUpdate D) :
    (broadcastUpdate s name ref update).Recorded ∧
      (broadcastUpdate s name ref update).aborted = s.aborted := by
  have hseen : Seen ((s.books ref).applyUpdate update)
      (recordBids (s.history name) update.bids) := (h name ref hsubscribed).applyUpdate update
  have hrecord := h.record hs hsubscribed hseen
  unfold broadcastUpdate
  dsimp only
  rw [if_pos (show ∀ price ∈ _, _ from hseen)]
  unfold FeedState.deliver
  split
  · exact ⟨hrecord, rfl⟩
  · exact ⟨hrecord.congr rfl rfl rfl, rfl⟩

/-- No price is removed when there is nothing to replay. -/
theorem replayKeeps_of_nil {snapshot : OrderBook D}
    (hnil : s.replayed task.symbol snapshot.updateId = []) : ReplayKeeps s task snapshot := by
  intro ref _ _ price _
  rw [hnil]
  exact nofun

/-- An attempt to replay the buffer covers the subscribed book exactly if the replay removes
none of its bid prices, should it be another book. -/
theorem replayAttempt_recorded_iff (h : s.Recorded) (hs : s.Named) (task : InitTask D)
    (hbook : task.book.1 = task.symbol) (snapshot : OrderBook D) {retries : ℕ}
    (hretries : retries ≠ 5) : (replayAttempt s task snapshot retries).1.Recorded ↔
      ReplayKeeps s task snapshot := by
  unfold replayAttempt FeedState.replayAttempt
  rw [if_neg hretries]
  cases hinit : s.init task.symbol with
  | none => exact iff_of_true h (replayKeeps_of_nil (by simp [FeedState.replayed, hinit]))
  | some pending =>
    dsimp only
    cases hindex : replayIndex snapshot.updateId pending with
    | none =>
      exact iff_of_true (h.congr rfl rfl rfl)
        (replayKeeps_of_nil (by simp [FeedState.replayed, hinit, hindex]))
    | some k =>
      have hreplayed : s.replayed task.symbol snapshot.updateId = pending.drop k := by
        simp [FeedState.replayed, hinit, hindex]
      have hopened : GateState.Recorded
        { s with toFeedState := s.toFeedState.setInit task.symbol [] } := h.congr rfl rfl rfl
      unfold ReplayKeeps
      rw [hreplayed]
      exact finishInit_recorded_iff hopened ⟨hs.refs, hs.tasks⟩ hbook snapshot _

/-- After five attempts the book is reset, which keeps its bid prices. -/
theorem replayAttempt_recorded_of_last (h : s.Recorded) (snapshot : OrderBook D) :
    (replayAttempt s task snapshot 5).1.Recorded :=
  h.setBook fun _ => id

/-- An attempt to replay the buffer keeps the flag. -/
theorem replayAttempt_aborted (s : GateState D) (task : InitTask D) (snapshot : OrderBook D)
    (retries : ℕ) : (replayAttempt s task snapshot retries).1.aborted = s.aborted := by
  unfold replayAttempt FeedState.replayAttempt
  split_ifs
  · rfl
  · cases s.init task.symbol with
    | none => rfl
    | some pending =>
      dsimp only
      cases replayIndex snapshot.updateId pending <;> rfl

/-- The start of an initialisation covers the subscribed book. -/
theorem startInit_recorded (h : s.Recorded) (hs : s.Named) {event : GateEvent}
    (hsubscribed : s.subscribed event.symbol = some ref) :
    (startInit s event ref).Recorded ∧ (startInit s event ref).aborted = s.aborted := by
  have hreset : GateState.Recorded { s with toFeedState := s.toFeedState.setUpdateId ref 1 } :=
    h.setBook fun _ => id
  have hopen : GateState.Recorded { s with
      toFeedState := (s.toFeedState.setUpdateId ref 1).openInit event.symbol } :=
    hreset.congr rfl rfl rfl
  unfold startInit
  dsimp only
  split
  · exact ⟨hopen.congr rfl rfl rfl, rfl⟩
  · have hattempt := (replayAttempt_recorded_iff hopen ⟨hs.refs, hs.tasks⟩
      ⟨event.symbol, ref, .fetching event.firstUpdateId 0⟩ (hs.refs _ _ hsubscribed)
        OrderBook.empty (Nat.zero_ne_add_one 4)).mpr fun other hother hne =>
          absurd (Option.some.inj (hother.symm.trans hsubscribed)) hne
    have haborted := replayAttempt_aborted { s with
      toFeedState := (s.toFeedState.setUpdateId ref 1).openInit event.symbol }
      ⟨event.symbol, ref, .fetching event.firstUpdateId 0⟩ OrderBook.empty 0
    split
    · exact ⟨hattempt, haborted⟩
    · exact ⟨hattempt.congr rfl rfl rfl, haborted⟩

/-- A response to a snapshot request covers the subscribed book exactly if its replay keeps the
bid prices of that book. -/
theorem depthResponse_recorded_iff (h : s.Recorded) (hs : s.Named)
    (hbook : task.book.1 = task.symbol) (initialEventU retries : ℕ)
    (response : Option (DepthSnapshot D)) :
    (depthResponse s task initialEventU retries response).1.Recorded ↔
      ∀ snapshot, response = some snapshot → initialEventU ≤ snapshot.id →
        ReplayKeeps s task snapshot.book := by
  have hreset : GateState.Recorded
      { s with toFeedState := s.toFeedState.setUpdateId task.book 0 } := h.setBook fun _ => id
  unfold depthResponse
  cases response with
  | none => exact iff_of_true hreset nofun
  | some snapshot =>
    dsimp only
    split
    · rename_i hold
      have hnone : ∀ other, some snapshot = some other → initialEventU ≤ other.id →
          ReplayKeeps s task other.book := by
        rintro other ⟨⟩ hle
        exact absurd hle (Nat.not_le.mpr hold)
      split
      · exact iff_of_true hreset hnone
      · exact iff_of_true h hnone
    · rename_i hnew
      rw [replayAttempt_recorded_iff h hs task hbook snapshot.book (Nat.zero_ne_add_one 4)]
      constructor
      · rintro hkeeps other ⟨⟩ _
        exact hkeeps
      · exact fun hkeeps => hkeeps snapshot rfl (Nat.not_lt.mp hnew)

/-- A suspended handler that continues covers the subscribed book exactly if its replay keeps
the bid prices of that book. -/
theorem resumeTask_recorded_iff (h : s.Recorded) (hs : s.Named) {i : ℕ}
    (htask : s.tasks[i]? = some task) {response : Option (Option (DepthSnapshot D))}
    (hresume : resumeTask s i response = some t) : t.Recorded ↔
      (∀ initialEventU retries snapshot, task.stage = .fetching initialEventU retries →
        response = some (some snapshot) → initialEventU ≤ snapshot.id →
          ReplayKeeps s task snapshot.book) ∧
      (∀ snapshot retries, task.stage = .replaying snapshot retries → response = none →
        retries ≠ 5 → ReplayKeeps s task snapshot) := by
  have hbook := hs.tasks task (List.mem_of_getElem? htask)
  have hset (s' : GateState D) (next : Option (InitTask D)) :
      GateState.Recorded { s' with toFeedState := s'.toFeedState.setTask i next } ↔
        s'.Recorded := by
    cases next <;> exact Iff.rfl
  unfold resumeTask at hresume
  rw [htask] at hresume
  dsimp only at hresume
  split at hresume
  · rename_i initialEventU retries response hstage
    cases hresume
    rw [hset, hstage, depthResponse_recorded_iff h hs hbook]
    constructor
    · refine fun hkeeps => ⟨?_, nofun⟩
      rintro _ _ snapshot ⟨⟩ hresponse hle
      exact hkeeps snapshot (Option.some.inj hresponse) hle
    · rintro ⟨hkeeps, -⟩ snapshot rfl hle
      exact hkeeps initialEventU retries snapshot rfl rfl hle
  · rename_i snapshot retries hstage
    cases hresume
    rw [hset, hstage]
    rcases eq_or_ne retries 5 with rfl | hretries
    · refine iff_of_true (replayAttempt_recorded_of_last h snapshot) ⟨nofun, ?_⟩
      rintro _ _ ⟨⟩ _ hretries
      exact absurd rfl hretries
    · rw [replayAttempt_recorded_iff h hs task hbook snapshot hretries]
      constructor
      · refine fun hkeeps => ⟨nofun, ?_⟩
        rintro _ _ ⟨⟩ _ _
        exact hkeeps
      · exact fun hkeeps => hkeeps.2 snapshot retries rfl rfl hretries
  · cases hresume

variable [DecimalText D] {market : MarketType}

/-- A message leaves the bid prices of the subscribed books in the history, and does not stop
the process. -/
theorem handleMessage_recorded (h : s.Recorded) (hs : s.Named) (text : Option Value) :
    (handleMessage market s text).Recorded ∧
      (handleMessage market s text).aborted = s.aborted := by
  unfold handleMessage
  split
  · exact ⟨h, rfl⟩
  · rename_i event hevent
    split
    · exact ⟨h, rfl⟩
    · rename_i ref href
      unfold handleEvent
      dsimp only
      split
      · split
        · split
          · exact ⟨h, rfl⟩
          · exact broadcastUpdate_recorded h hs href _
        · exact startInit_recorded h hs href
      · split
        · unfold FeedState.pushInit
          split
          · exact ⟨h.congr rfl rfl rfl, rfl⟩
          · exact ⟨h, rfl⟩
        · split
          · exact ⟨h.setBook fun _ _ => by simp [Seen, OrderBook.empty], rfl⟩
          · split
            · exact ⟨h, rfl⟩
            · exact broadcastUpdate_recorded h hs href _

/-- A step leaves the bid prices of the subscribed books in the history exactly if it meets the
condition. -/
theorem gateStep_recorded_iff (h : s.Recorded) (hs : s.Named) {action : FeedAction D}
    (hstep : gateStep market s action = some t) : t.Recorded ↔ KeepsRecorded s action := by
  unfold gateStep at hstep
  split at hstep
  · cases hstep
  cases action with
  | message text =>
    cases hstep
    exact iff_of_true (handleMessage_recorded h hs text).1 trivial
  | depth i response =>
    obtain ⟨task, htask⟩ := exists_task_of_resumeTask hstep
    rw [resumeTask_recorded_iff h hs htask hstep]
    constructor
    · rintro ⟨hkeeps, -⟩ other initialEventU retries snapshot hother hstage rfl hle
      cases htask.symm.trans hother
      exact hkeeps initialEventU retries snapshot hstage rfl hle
    · intro hkeeps
      refine ⟨fun initialEventU retries snapshot hstage hresponse hle => ?_, nofun⟩
      exact hkeeps task initialEventU retries snapshot htask hstage (Option.some.inj hresponse) hle
  | wake i =>
    obtain ⟨task, htask⟩ := exists_task_of_resumeTask hstep
    rw [resumeTask_recorded_iff h hs htask hstep]
    constructor
    · rintro ⟨-, hkeeps⟩ other snapshot retries hother hstage hretries
      cases htask.symm.trans hother
      exact hkeeps snapshot retries hstage rfl hretries
    · intro hkeeps
      refine ⟨nofun, fun snapshot retries hstage _ hretries => ?_⟩
      exact hkeeps task snapshot retries htask hstage hretries
  | watch name waiter subscribes sends =>
    cases hstep
    exact iff_of_true (watch_recorded h hs name waiter subscribes sends) trivial
  | unwatch name unsubscribes =>
    cases hstep
    exact iff_of_true (unwatch_recorded h name unsubscribes) trivial
  | fail =>
    cases hstep
    exact iff_of_true nofun trivial
  | resume k =>
    obtain ⟨feed, hfeed, rfl⟩ := Option.map_eq_some_iff.mp hstep
    obtain ⟨entry, -, rfl⟩ := Option.map_eq_some_iff.mp hfeed
    exact iff_of_true (h.congr rfl rfl rfl) trivial

/-- The check of the bid prices does not stop the process. -/
def NoPanic (market : MarketType) (s : GateState D) (action : FeedAction D) : Prop :=
  ∀ text t, action = .message text → gateStep market s action = some t → t.aborted = false

/-- In every run, the bid prices of the subscribed books are always in the history exactly if
every suspended handler that continues keeps them there; the check then never stops the
process. -/
theorem bid_prices_recorded_iff (market : MarketType) (actions : List (FeedAction D)) :
    (GuardedRun.StatesSatisfy (gateStep market) GateState.Recorded gateStart actions ↔
      GuardedRun.StepsSatisfy (gateStep market) KeepsRecorded gateStart actions) ∧
    (GuardedRun.StepsSatisfy (gateStep market) KeepsRecorded gateStart actions →
      GuardedRun.StepsSatisfy (gateStep market) (NoPanic market) gateStart actions) := by
  have hnamed (s : GateState D) (action : FeedAction D) (t : GateState D) (hs : s.Named)
      (hstep : gateStep market s action = some t) : t.Named := (gateStep_confined hs hstep).1
  have hstart : GateState.Recorded (gateStart : GateState D) := nofun
  refine ⟨GuardedRun.statesSatisfy_iff_stepsSatisfy (I := fun s : GateState D => s.Named)
    (fun s action t hs _ => hnamed s action t hs)
    (fun s action t hs h hstep => gateStep_recorded_iff h hs hstep) FeedState.named_start hstart,
    fun hguard => ?_⟩
  refine hguard.of_invariant (I := fun s : GateState D => s.Named ∧ s.Recorded) ?_ ?_
    ⟨FeedState.named_start, hstart⟩
  · rintro s action t ⟨hs, h⟩ hkeeps hstep
    exact ⟨hnamed s action t hs hstep, (gateStep_recorded_iff h hs hstep).mpr hkeeps⟩
  · rintro s action t ⟨hs, h⟩ _ hstep text t' rfl hstep'
    have hrunning : s.aborted = false := eq_false_of_ne_true (running_of_gateStep hstep')
    simp only [gateStep, hrunning, Bool.false_eq_true, if_false, Option.some.injEq] at hstep'
    rw [← hstep', (handleMessage_recorded h hs text).2, hrunning]

end Steps

/-- The message of an event that lists some bids. -/
def bidsMessage (full : Bool) (first last : Fin (2 ^ 64)) (bids : List Value) : Option Value :=
  some (.object [("result", .object [("full", .bool full), ("s", .string "BTC_USDT"),
    ("U", .number (.posInt first)), ("u", .number (.posInt last)), ("a", .array []),
    ("b", .array bids)])])

/-- A handler is suspended for a book with one buffered event, the symbol is watched again, and
the new book is synchronised by a full event before the snapshot of the old one arrives. -/
def rewatchedRun (buffered : Value) : List (FeedAction ℕ) :=
  [.watch "BTC_USDT" 0 true true, .message (bidsMessage false 1 1 []),
    .message (bidsMessage false 2 2 [buffered]), .unwatch "BTC_USDT" true,
    .watch "BTC_USDT" 1 true true,
    .message (bidsMessage true 5 5 [.array [.string "100", .string "5"]]),
    .depth 0 (some ⟨1, [], [], by decide⟩), .message (bidsMessage false 6 6 [])]

/-- When the buffered event lists a bid, no bid price of the new book is removed. -/
theorem rewatchedRun_recorded :
    GuardedRun.StepsSatisfy (gateStep .spot) (NoPanic .spot) gateStart
      (rewatchedRun (.array [.string "7", .string "5"])) := by
  refine (bid_prices_recorded_iff .spot _).2 ?_
  rintro s₁ ⟨⟩
  refine ⟨trivial, ?_⟩
  rintro s₂ ⟨⟩
  refine ⟨trivial, ?_⟩
  rintro s₃ ⟨⟩
  refine ⟨trivial, ?_⟩
  rintro s₄ ⟨⟩
  refine ⟨trivial, ?_⟩
  rintro s₅ ⟨⟩
  refine ⟨trivial, ?_⟩
  rintro s₆ ⟨⟩
  refine ⟨trivial, ?_⟩
  rintro s₇ ⟨⟩
  refine ⟨?_, fun s₈ _ => ⟨trivial, trivial⟩⟩
  rintro task initialEventU retries snapshot ⟨⟩ _ ⟨⟩ _ ref _ _ price _
  change ¬List.lookup (OrderDual.ofDual price) [((7 : ℕ), (5 : ℕ))] = some 0
  rw [List.lookup_cons]
  split <;> simp

/-- When the buffered event removes the bid price of the new book, the next event stops the
process. -/
theorem stale_replay_panics :
    ¬GuardedRun.StepsSatisfy (gateStep .spot) (NoPanic .spot) gateStart
      (rewatchedRun (.array [.string "100", .string "0"])) := by
  intro h
  have hlast := ((((((((h _ rfl).2 _ rfl).2 _ rfl).2 _ rfl).2 _ rfl).2 _ rfl).2 _ rfl).2 _ rfl).1
  exact absurd (hlast _ _ rfl rfl) (by decide)

end Arbexpert.Gate
