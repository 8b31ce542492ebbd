import Arbexpert.Base.Phases

/-!
# The books of suspended handlers and of watchers

A handler is suspended only while its book has id one, and no second handler starts
for such a book. The book of a suspended handler is therefore written by nobody
else, and a book that was handed to a watcher, while it carries the id of a write,
is written by live messages only.
-/

namespace Arbexpert.Base

open Sentinel

variable {D : Type*}

/-- Suspended handlers have different books, all with id one; the books that the
state refers to have been opened. -/
structure FeedState.Exclusive (s : FeedState D) : Prop where
  taskId : ∀ task ∈ s.tasks, (s.books task.book).updateId = 1
  nodup : (s.tasks.map InitTask.book).Nodup
  taskOpened : ∀ task ∈ s.tasks, task.book.2 < s.opened task.book.1
  subscribedOpened : ∀ name ref, s.subscribed name = some ref → ref.2 < s.opened ref.1
  handedOpened : ∀ entry ∈ s.handed, entry.2.2 < s.opened entry.2.1

/-- What a handler does while it runs on from a suspension: it writes its book only,
and it does not write it when it is suspended again. -/
structure FeedState.TaskStep (s s' : FeedState D) (ref : BookRef) (next : Option (InitTask D)) :
    Prop where
  books : ∀ other, other ≠ ref → s'.books other = s.books other
  opened : s'.opened = s.opened
  subscribed : s'.subscribed = s.subscribed
  handed : s'.handed = s.handed
  tasks : s'.tasks = s.tasks
  next : ∀ task, next = some task → task.book = ref ∧ s'.books ref = s.books ref

variable {s : FeedState D}

/-- Writing the book of a handler that then ends. -/
theorem FeedState.taskStep_setBook (s : FeedState D) (ref : BookRef) (book : OrderBook D) :
    s.TaskStep (s.setBook ref book) ref none where
  books _ hne := Function.update_of_ne hne _ _
  opened := rfl
  subscribed := rfl
  handed := rfl
  tasks := rfl
  next := nofun

/-- An attempt to replay the buffer writes at most the book of its task. -/
theorem FeedState.taskStep_replayAttempt (s : FeedState D) (task : InitTask D)
    (snapshot : OrderBook D) (retries : ℕ) :
    (∀ next, (s.replayAttempt task snapshot retries).2 = .sleeping next →
      s.TaskStep (s.replayAttempt task snapshot retries).1 task.book (some next)) ∧
    s.TaskStep (s.replayAttempt task snapshot retries).1 task.book none := by
  unfold FeedState.replayAttempt
  split
  · exact ⟨nofun, s.taskStep_setBook _ _⟩
  · split
    · exact ⟨nofun, fun _ _ => rfl, rfl, rfl, rfl, rfl, nofun⟩
    · split
      · refine ⟨fun next hnext => ?_, fun _ _ => rfl, rfl, rfl, rfl, rfl, nofun⟩
        cases hnext
        refine ⟨fun _ _ => rfl, rfl, rfl, rfl, rfl, fun other hother => ?_⟩
        cases hother
        exact ⟨rfl, rfl⟩
      · exact ⟨nofun, fun _ _ => rfl, rfl, rfl, rfl, rfl, nofun⟩

/-- A handler that ends may write its book once more. -/
theorem FeedState.TaskStep.setBook {s' : FeedState D} {ref : BookRef}
    (h : s.TaskStep s' ref none) (book : OrderBook D) :
    s.TaskStep (s'.setBook ref book) ref none where
  books other hne := (Function.update_of_ne hne _ _).trans (h.books other hne)
  opened := h.opened
  subscribed := h.subscribed
  handed := h.handed
  tasks := h.tasks
  next := nofun

/-- A handler that is suspended again has written nothing else. -/
theorem FeedState.TaskStep.suspended {s' : FeedState D} {ref : BookRef} {next : InitTask D}
    (h : s.TaskStep s' ref (some next)) : s.TaskStep s' ref none :=
  ⟨h.books, h.opened, h.subscribed, h.handed, h.tasks, nofun⟩

/-- A new sub-client has no suspended handler. -/
theorem FeedState.exclusive_start : (FeedState.start : FeedState D).Exclusive where
  taskId := nofun
  nodup := List.nodup_nil
  taskOpened := nofun
  subscribedOpened := nofun
  handedOpened := nofun

/-- The suspended handlers are those of different books with id one, and the books handed out were
opened. -/
theorem FeedState.exclusive_iff : s.Exclusive ↔
    s.cells.Sound ∧ ∀ entry ∈ s.handed, entry.2 ∈ s.cells.opened := by
  constructor
  · intro h
    exact ⟨⟨List.forall_mem_map.mpr h.taskId, h.nodup, List.forall_mem_map.mpr h.taskOpened,
      h.subscribedOpened⟩, h.handedOpened⟩
  · rintro ⟨h, hhanded⟩
    exact ⟨List.forall_mem_map.mp h.number, h.nodup, List.forall_mem_map.mp h.busyOpened,
      h.liveOpened, hhanded⟩

/-- A move of the phases keeps the suspended handlers apart, unless a book is handed out. -/
theorem FeedState.Exclusive.of_move {t : FeedState D} {label : Option (BookRef × ℕ)}
    (h : s.Exclusive) (hmove : Move s.cells label t.cells)
    (hhanded : ∀ entry ∈ t.handed, entry ∈ s.handed) : t.Exclusive := by
  obtain ⟨hsound, hopened⟩ := FeedState.exclusive_iff.mp h
  exact FeedState.exclusive_iff.mpr ⟨hmove.sound hsound, fun entry hentry =>
    hmove.opened_subset (hopened entry (hhanded entry hentry))⟩

/-- A book with another id is not the book of a suspended handler. -/
theorem FeedState.Exclusive.ne_of_updateId (h : s.Exclusive) {ref : BookRef}
    (hid : (s.books ref).updateId ≠ 1) : ∀ task ∈ s.tasks, task.book ≠ ref := by
  rintro task htask rfl
  exact hid (h.taskId task htask)

/-- Writing a book that belongs to no suspended handler. -/
theorem FeedState.Exclusive.setBook (h : s.Exclusive) {ref : BookRef} {book : OrderBook D}
    (hne : ∀ task ∈ s.tasks, task.book ≠ ref) : (s.setBook ref book).Exclusive := by
  obtain ⟨hsound, hopened⟩ := FeedState.exclusive_iff.mp h
  have href : ref ∉ s.cells.busy := by
    simpa [FeedState.cells] using hne
  refine FeedState.exclusive_iff.mpr ⟨?_, hopened⟩
  rw [FeedState.cells_setBook]
  exact hsound.write href _

/-- Writing a buffer. -/
theorem FeedState.Exclusive.setInit (h : s.Exclusive) (name : String)
    (updates : List (OrderBookUpdate D)) : (s.setInit name updates).Exclusive :=
  ⟨h.taskId, h.nodup, h.taskOpened, h.subscribedOpened, h.handedOpened⟩

/-- Buffering an update. -/
theorem FeedState.Exclusive.pushInit (h : s.Exclusive) (name : String)
    (update : Option (OrderBookUpdate D)) : (s.pushInit name update).Exclusive := by
  unfold FeedState.pushInit
  split
  · exact h.setInit _ _
  · exact h

/-- Sending an opened book. -/
theorem FeedState.Exclusive.deliver (h : s.Exclusive) {name : String} {ref : BookRef}
    (href : ref.2 < s.opened ref.1) : (s.deliver name ref).Exclusive := by
  unfold FeedState.deliver
  split
  · exact h
  · refine ⟨h.taskId, h.nodup, h.taskOpened, h.subscribedOpened, fun entry hentry => ?_⟩
    rcases List.mem_append.mp hentry with hold | hnew
    · exact h.handedOpened entry hold
    · obtain ⟨_, _, rfl⟩ := List.mem_map.mp hnew
      exact href

/-- Suspending a handler for a book of no other one, whose id is one. -/
theorem FeedState.Exclusive.addTask (h : s.Exclusive) {task : InitTask D}
    (hid : (s.books task.book).updateId = 1) (hne : ∀ other ∈ s.tasks, other.book ≠ task.book)
    (hopened : task.book.2 < s.opened task.book.1) : (s.addTask task).Exclusive := by
  obtain ⟨hsound, hhanded⟩ := FeedState.exclusive_iff.mp h
  have href : task.book ∉ s.cells.busy := by
    simpa [FeedState.cells] using hne
  refine FeedState.exclusive_iff.mpr ⟨?_, hhanded⟩
  rw [FeedState.cells_addTask]
  exact hsound.append hid href hopened

/-- A handler that runs on writes the id of its book only. -/
theorem FeedState.TaskStep.cells {s' : FeedState D} {ref : BookRef} {next : Option (InitTask D)}
    (h : s.TaskStep s' ref next) : s'.cells = s.cells.write ref (s'.books ref).updateId := by
  have hnumber : (fun other => (s'.books other).updateId) =
      Function.update s.cells.number ref (s'.books ref).updateId := by
    funext other
    by_cases heq : other = ref
    · rw [heq, Function.update_self]
    · rw [Function.update_of_ne heq, h.books other heq]
      rfl
  unfold FeedState.cells Cells.write
  simp only [hnumber, h.opened, h.subscribed, h.tasks]
  rfl

/-- A handler that runs on. -/
theorem FeedState.Exclusive.setTask (h : s.Exclusive) {s' : FeedState D} {i : ℕ}
    {task : InitTask D} {next : Option (InitTask D)} (htask : s.tasks[i]? = some task)
    (hstep : s.TaskStep s' task.book next) : (s'.setTask i next).Exclusive := by
  have hbusy : s.cells.busy[i]? = some task.book := by simp [FeedState.cells, htask]
  have hhanded : ∀ entry ∈ (s'.setTask i next).handed, entry ∈ s.handed := by
    intro entry hentry
    rw [← hstep.handed]
    cases next <;> exact hentry
  cases next with
  | none =>
    have hmove : Move s.cells (some (task.book, (s'.books task.book).updateId))
        (s'.setTask i none).cells := by
      rw [FeedState.cells_setTask_none, hstep.cells]
      exact .finish i task.book _ hbusy
    exact h.of_move hmove hhanded
  | some new =>
    obtain ⟨hbook, hsame⟩ := hstep.next new rfl
    have hcells : s'.cells = s.cells := by
      rw [hstep.cells, hsame]
      exact congrArg (fun number => { s.cells with number }) (Function.update_eq_self _ _)
    have hmove : Move s.cells none (s'.setTask i (some new)).cells := by
      rw [← hbook, ← hcells] at hbusy
      rw [FeedState.cells_setTask_some hbusy, hcells]
      exact .rest
    exact h.of_move hmove hhanded

/-- A watch call makes a book of its own at most. -/
theorem FeedState.Exclusive.watch (h : s.Exclusive) (name : String) (waiter : ℕ)
    (subscribes sends : Bool) : (s.watch name waiter subscribes sends).Exclusive := by
  refine h.of_move (s.move_watch name waiter subscribes sends) fun entry hentry => ?_
  unfold FeedState.watch at hentry
  split at hentry <;> split at hentry <;> exact hentry

/-- An unwatch call removes at most the symbol. -/
theorem FeedState.Exclusive.unwatch (h : s.Exclusive) (name : String) (unsubscribes : Bool) :
    (s.unwatch name unsubscribes).Exclusive := by
  refine h.of_move (s.move_unwatch name unsubscribes) fun entry hentry => ?_
  unfold FeedState.unwatch at hentry
  split at hentry
  · exact hentry
  · split at hentry <;> exact hentry

/-- A connection failure drops the suspended handlers. -/
theorem FeedState.Exclusive.onFail (h : s.Exclusive) : s.onFail.Exclusive :=
  h.of_move s.moves_onFail.move fun _ hentry => hentry

/-- A watcher that resumes writes nothing. -/
theorem FeedState.Exclusive.resume [LinearOrder D] (h : s.Exclusive) {k : ℕ} {t : FeedState D}
    (hresume : s.resume k = some t) : t.Exclusive := by
  obtain ⟨entry, _, rfl⟩ := Option.map_eq_some_iff.mp hresume
  exact h.of_move .rest fun other hother => List.mem_of_mem_eraseIdx hother

/-- A watcher that was handed a book has not resumed. -/
def FeedState.Held (s : FeedState D) (ref : BookRef) : Prop :=
  ∃ entry ∈ s.handed, entry.2 = ref

/-- A watch call waits for a book of the symbol. -/
def FeedState.Awaited (s : FeedState D) (symbol : String) : Prop :=
  ∃ senders, s.pending symbol = some senders ∧ ∃ sender ∈ senders, sender.listening = true

variable [LinearOrder D]

/-- Every book that a watcher will read when it resumes is ready. -/
structure FeedState.Handing (s : FeedState D) : Prop extends s.Exclusive where
  ready : ∀ entry ∈ s.handed, (s.books entry.2).Ready

/-- A new sub-client has handed out no book. -/
theorem FeedState.handing_start : (FeedState.start : FeedState D).Handing :=
  ⟨FeedState.exclusive_start, nofun⟩

/-- A book that carries no id of a write is not held. -/
theorem FeedState.Handing.not_held (h : s.Handing) {ref : BookRef}
    (hid : (s.books ref).updateId < 2) : ¬s.Held ref := by
  rintro ⟨entry, hentry, rfl⟩
  exact absurd (h.ready entry hentry).updateId (not_le.mpr hid)

/-- Writing a book of no suspended handler; when it is held it stays ready. -/
theorem FeedState.Handing.setBook (h : s.Handing) {ref : BookRef} {book : OrderBook D}
    (hne : ∀ task ∈ s.tasks, task.book ≠ ref) (hbook : s.Held ref → book.Ready) :
    (s.setBook ref book).Handing := by
  refine ⟨h.toExclusive.setBook hne, fun entry hentry => ?_⟩
  by_cases heq : entry.2 = ref
  · simp only [FeedState.setBook, heq, Function.update_self]
    exact hbook ⟨entry, hentry, heq⟩
  · simp only [FeedState.setBook, Function.update_of_ne heq]
    exact h.ready entry hentry

/-- Sending a book that is ready if anybody waits for it. -/
theorem FeedState.Handing.deliver (h : s.Handing) {name : String} {ref : BookRef}
    (href : ref.2 < s.opened ref.1) (hbook : s.Awaited name → (s.books ref).Ready) :
    (s.deliver name ref).Handing := by
  refine ⟨h.toExclusive.deliver href, ?_⟩
  unfold FeedState.deliver
  split
  · exact h.ready
  · rename_i senders hsenders
    intro entry hentry
    rcases List.mem_append.mp hentry with hold | hnew
    · exact h.ready entry hold
    · obtain ⟨sender, hsender, rfl⟩ := List.mem_map.mp hnew
      obtain ⟨hmem, hlistening⟩ := List.mem_filter.mp hsender
      exact hbook ⟨senders, hsenders, sender, hmem, hlistening⟩

/-- Buffering an update writes no book. -/
theorem FeedState.Handing.pushInit (h : s.Handing) (name : String)
    (update : Option (OrderBookUpdate D)) : (s.pushInit name update).Handing := by
  refine ⟨h.toExclusive.pushInit name update, ?_⟩
  unfold FeedState.pushInit
  split <;> exact h.ready

/-- A handler without a suspended task that runs to its end. -/
theorem FeedState.Handing.taskStep (h : s.Handing) {s' : FeedState D} {ref : BookRef}
    (hstep : s.TaskStep s' ref none) (hne : ∀ task ∈ s.tasks, task.book ≠ ref)
    (hheld : ¬s.Held ref) : s'.Handing where
  taskId task htask := by
    rw [hstep.tasks] at htask
    rw [hstep.books _ (hne task htask)]
    exact h.taskId task htask
  nodup := hstep.tasks ▸ h.nodup
  taskOpened := hstep.tasks ▸ hstep.opened ▸ h.taskOpened
  subscribedOpened := hstep.subscribed ▸ hstep.opened ▸ h.subscribedOpened
  handedOpened := hstep.handed ▸ hstep.opened ▸ h.handedOpened
  ready entry hentry := by
    rw [hstep.handed] at hentry
    rw [hstep.books _ fun heq => hheld ⟨entry, hentry, heq⟩]
    exact h.ready entry hentry

/-- A handler that runs on. -/
theorem FeedState.Handing.setTask (h : s.Handing) {s' : FeedState D} {i : ℕ}
    {task : InitTask D} {next : Option (InitTask D)} (htask : s.tasks[i]? = some task)
    (hstep : s.TaskStep s' task.book next) : (s'.setTask i next).Handing := by
  refine ⟨h.toExclusive.setTask htask hstep, fun entry hentry => ?_⟩
  have hhanded : (s'.setTask i next).handed = s.handed := by
    cases next <;> exact hstep.handed
  have hbooks : (s'.setTask i next).books = s'.books := by
    cases next <;> rfl
  rw [hhanded] at hentry
  have hid := h.taskId task (List.mem_of_getElem? htask)
  have hother : entry.2 ≠ task.book := fun heq =>
    h.not_held (hid.trans_lt Nat.one_lt_two) ⟨entry, hentry, heq⟩
  rw [hbooks, hstep.books _ hother]
  exact h.ready entry hentry

/-- A watch call hands out nothing. -/
theorem FeedState.Handing.watch (h : s.Handing) (name : String) (waiter : ℕ)
    (subscribes sends : Bool) : (s.watch name waiter subscribes sends).Handing := by
  refine ⟨h.toExclusive.watch name waiter subscribes sends, ?_⟩
  unfold FeedState.watch
  split
  · split <;> exact h.ready
  · split
    · intro entry hentry
      have hne : entry.2 ≠ (name, s.opened name) := by
        intro heq
        have hopened := h.handedOpened entry hentry
        rw [heq] at hopened
        exact lt_irrefl _ hopened
      simp only [Function.update_of_ne hne]
      exact h.ready entry hentry
    · exact h.ready

/-- An unwatch call hands out nothing. -/
theorem FeedState.Handing.unwatch (h : s.Handing) (name : String) (unsubscribes : Bool) :
    (s.unwatch name unsubscribes).Handing := by
  refine ⟨h.toExclusive.unwatch name unsubscribes, ?_⟩
  unfold FeedState.unwatch
  split
  · exact h.ready
  · split <;> exact h.ready

/-- A watcher that resumes finds a best level on both sides. -/
theorem FeedState.Handing.resume (h : s.Handing) {k : ℕ} {t : FeedState D}
    (hresume : s.resume k = some t) : t.Handing ∧ t.aborted = false := by
  refine ⟨⟨h.toExclusive.resume hresume, ?_⟩, ?_⟩
  · obtain ⟨entry, _, rfl⟩ := Option.map_eq_some_iff.mp hresume
    exact fun other hother => h.ready other (List.mem_of_mem_eraseIdx hother)
  · obtain ⟨entry, hentry, rfl⟩ := Option.map_eq_some_iff.mp hresume
    have hready := h.ready entry (List.mem_of_getElem? hentry)
    simp [Option.isNone_eq_false_iff.mpr hready.asks, Option.isNone_eq_false_iff.mpr hready.bids]

end Arbexpert.Base
