import Arbexpert.Base.Feed

/-!
# Books that agree with the writes of the exchange

For one symbol the exchange performs a log of absolute level writes. A book is
faithful when its levels are those after as many writes as its id says. The maps
and tasks of a sub-client are faithful when all books of the symbol that carry an
id, all snapshots held by its tasks and all deliveries are, and when the buffered
updates satisfy a property `P` under which a handler may replay them.
-/

namespace Arbexpert.Base

variable {D : Type*} [LinearOrder D]

/-- The levels of a book are those after as many writes as its id says. -/
def OrderBook.IsAfter (truth : ℕ → (Side × D) × Option D) (book : OrderBook D) : Prop :=
  book.updateId < 2 ^ 64 ∧ book.level = WriteLog.after truth book.updateId

/-- A book whose id is that of a write is the book after that write. -/
def OrderBook.Faithful (truth : ℕ → (Side × D) × Option D) (book : OrderBook D) : Prop :=
  2 ≤ book.updateId → book.IsAfter truth

/-- A task captured a book of its symbol, and a snapshot that it holds is faithful. -/
structure InitTask.Faithful (truth : ℕ → (Side × D) × Option D) (symbol : String)
    (task : InitTask D) : Prop where
  book : task.book.1 = task.symbol
  snapshot : task.symbol = symbol → ∀ snapshot retries,
    task.stage = .replaying snapshot retries → snapshot.IsAfter truth

/-- All that a sub-client holds for one symbol is faithful. -/
structure FeedState.Faithful (truth : ℕ → (Side × D) × Option D) (symbol : String)
    (P : OrderBookUpdate D → Prop) (s : FeedState D) : Prop where
  books : ∀ ref : BookRef, ref.1 = symbol → (s.books ref).Faithful truth
  refs : ∀ name ref, s.subscribed name = some ref → ref.1 = name
  buffered : ∀ updates, s.init symbol = some updates → ∀ update ∈ updates, P update
  tasks : ∀ task ∈ s.tasks, task.Faithful truth symbol
  sent : ∀ delivery ∈ s.sent, delivery.symbol = symbol →
    2 ≤ delivery.book.updateId ∧ delivery.book.IsAfter truth

variable {truth : ℕ → (Side × D) × Option D} {symbol : String} {P : OrderBookUpdate D → Prop}
  {s : FeedState D}

/-- A book without a write's id is faithful whatever it holds. -/
theorem OrderBook.faithful_of_lt {book : OrderBook D} (h : book.updateId < 2) :
    book.Faithful truth :=
  fun hge => absurd hge (not_le.mpr h)

/-- The empty book is faithful. -/
theorem OrderBook.faithful_empty : (OrderBook.empty : OrderBook D).Faithful truth :=
  OrderBook.faithful_of_lt Nat.zero_lt_two

/-- The default book, returned when no request is made, is the book before all
writes. -/
theorem OrderBook.isAfter_empty : (OrderBook.empty : OrderBook D).IsAfter truth :=
  ⟨Nat.two_pow_pos 64, level_empty 0⟩

/-- A task in the fetch holds no snapshot. -/
theorem InitTask.faithful_fetching {name : String} {ref : BookRef} {initialEventU retries : ℕ}
    (h : ref.1 = name) :
    InitTask.Faithful truth symbol ⟨name, ref, .fetching initialEventU retries⟩ :=
  ⟨h, fun _ _ _ hstage => by cases hstage⟩

/-- A new sub-client is faithful. -/
theorem FeedState.faithful_start : (FeedState.start : FeedState D).Faithful truth symbol P where
  books _ _ := OrderBook.faithful_empty
  refs _ _ h := by cases h
  buffered _ h := by cases h
  tasks _ h := by cases h
  sent _ h := by cases h

/-- Writing a faithful book. -/
theorem FeedState.Faithful.setBook (h : s.Faithful truth symbol P) {ref : BookRef}
    {book : OrderBook D} (hbook : ref.1 = symbol → book.Faithful truth) :
    (s.setBook ref book).Faithful truth symbol P where
  books other hother := by
    by_cases heq : other = ref
    · subst heq
      simpa [FeedState.setBook] using hbook hother
    · simpa [FeedState.setBook, Function.update_of_ne heq] using h.books other hother
  refs := h.refs
  buffered := h.buffered
  tasks := h.tasks
  sent := h.sent

/-- Writing an id that is not the id of a write. -/
theorem FeedState.Faithful.setUpdateId (h : s.Faithful truth symbol P) (ref : BookRef) {n : ℕ}
    (hn : n < 2) : (s.setUpdateId ref n).Faithful truth symbol P :=
  h.setBook fun _ => OrderBook.faithful_of_lt hn

/-- Writing a buffer whose updates may be replayed. -/
theorem FeedState.Faithful.setInit (h : s.Faithful truth symbol P) {name : String}
    {updates : List (OrderBookUpdate D)} (hupdates : name = symbol → ∀ update ∈ updates, P update) :
    (s.setInit name updates).Faithful truth symbol P where
  books := h.books
  refs := h.refs
  buffered stored hstored := by
    by_cases heq : symbol = name
    · subst heq
      simp only [FeedState.setInit, Function.update_self, Option.some.injEq] at hstored
      subst hstored
      exact hupdates rfl
    · simp only [FeedState.setInit, Function.update_of_ne heq] at hstored
      exact h.buffered stored hstored
  tasks := h.tasks
  sent := h.sent

/-- The updates already buffered for a symbol, if any. -/
theorem FeedState.Faithful.getD_init (h : s.Faithful truth symbol P) :
    ∀ update ∈ (s.init symbol).getD [], P update := by
  cases hinit : s.init symbol with
  | none => simp
  | some updates => exact h.buffered updates hinit

/-- Opening a buffer. -/
theorem FeedState.Faithful.openInit (h : s.Faithful truth symbol P) (name : String) :
    (s.openInit name).Faithful truth symbol P := by
  refine h.setInit fun heq => ?_
  subst heq
  exact h.getD_init

/-- Buffering an update that may be replayed. -/
theorem FeedState.Faithful.pushInit (h : s.Faithful truth symbol P) {name : String}
    {update : Option (OrderBookUpdate D)}
    (hupdate : name = symbol → ∀ new, update = some new → P new) :
    (s.pushInit name update).Faithful truth symbol P := by
  unfold FeedState.pushInit
  split
  · rename_i updates new hupdates
    refine h.setInit fun hname other hother => ?_
    rcases List.mem_append.mp hother with hold | hnew
    · exact h.buffered updates (hname ▸ hupdates) other hold
    · cases List.mem_singleton.mp hnew
      exact hupdate hname _ rfl
  · exact h

/-- An attempt to replay the buffer keeps the state faithful; a sleeping task is
faithful, and updates that are replayed may be. -/
theorem FeedState.Faithful.replayAttempt (h : s.Faithful truth symbol P) {task : InitTask D}
    {snapshot : OrderBook D} (hbook : task.book.1 = task.symbol)
    (hsnapshot : task.symbol = symbol → snapshot.IsAfter truth) (retries : ℕ) :
    (s.replayAttempt task snapshot retries).1.Faithful truth symbol P ∧
      (∀ next, (s.replayAttempt task snapshot retries).2 = .sleeping next →
        next.Faithful truth symbol) ∧
      ∀ processed, (s.replayAttempt task snapshot retries).2 = .replay processed →
        task.symbol = symbol → ∀ update ∈ processed, P update := by
  have htaken : (s.setInit task.symbol []).Faithful truth symbol P :=
    h.setInit fun _ _ hupdate => by cases hupdate
  unfold FeedState.replayAttempt
  split
  · exact ⟨h.setUpdateId _ Nat.zero_lt_two, nofun,
      nofun⟩
  · split
    · exact ⟨h, nofun, nofun⟩
    · rename_i pending hpending
      split
      · refine ⟨htaken, fun next hnext => ?_, nofun⟩
        cases hnext
        refine ⟨hbook, fun hsymbol _ _ hstage => ?_⟩
        cases hstage
        exact hsnapshot hsymbol
      · refine ⟨htaken, nofun, fun processed hnext hsymbol => ?_⟩
        cases hnext
        rw [hsymbol] at hpending
        exact fun update hupdate => h.buffered pending hpending update
          (List.mem_of_mem_drop hupdate)

/-- Sending a faithful book that carries the id of a write. -/
theorem FeedState.Faithful.deliver (h : s.Faithful truth symbol P) {name : String} {ref : BookRef}
    (hbook : name = symbol → 2 ≤ (s.books ref).updateId ∧ (s.books ref).IsAfter truth) :
    (s.deliver name ref).Faithful truth symbol P := by
  unfold FeedState.deliver
  split
  · exact h
  · refine ⟨h.books, h.refs, h.buffered, h.tasks, fun delivery hdelivery hsymbol => ?_⟩
    rcases List.mem_append.mp hdelivery with hold | hnew
    · exact h.sent delivery hold hsymbol
    · obtain ⟨_, _, rfl⟩ := List.mem_map.mp hnew
      exact hbook hsymbol

/-- Suspending a faithful task. -/
theorem FeedState.Faithful.addTask (h : s.Faithful truth symbol P) {task : InitTask D}
    (htask : task.Faithful truth symbol) : (s.addTask task).Faithful truth symbol P where
  books := h.books
  refs := h.refs
  buffered := h.buffered
  tasks other hother := by
    rcases List.mem_append.mp hother with hold | hnew
    · exact h.tasks other hold
    · cases List.mem_singleton.mp hnew
      exact htask
  sent := h.sent

/-- Replacing a task by a faithful one, or removing it. -/
theorem FeedState.Faithful.setTask (h : s.Faithful truth symbol P) {i : ℕ}
    {next : Option (InitTask D)} (hnext : ∀ task, next = some task → task.Faithful truth symbol) :
    (s.setTask i next).Faithful truth symbol P := by
  cases next with
  | none =>
    exact ⟨h.books, h.refs, h.buffered,
      fun task htask => h.tasks task (List.mem_of_mem_eraseIdx htask), h.sent⟩
  | some new =>
    refine ⟨h.books, h.refs, h.buffered, fun task htask => ?_, h.sent⟩
    rcases List.mem_or_eq_of_mem_set htask with hold | rfl
    · exact h.tasks task hold
    · exact hnext _ rfl

/-- A watch call makes an empty book at most. -/
theorem FeedState.Faithful.watch (h : s.Faithful truth symbol P) (name : String) (waiter : ℕ)
    (subscribes sends : Bool) : (s.watch name waiter subscribes sends).Faithful truth symbol P := by
  unfold FeedState.watch
  split
  · split
    · exact ⟨h.books, h.refs, h.buffered, h.tasks, h.sent⟩
    · exact ⟨h.books, h.refs, h.buffered, h.tasks, h.sent⟩
  · split
    · refine ⟨fun ref href => ?_, fun other ref href => ?_, h.buffered, h.tasks, h.sent⟩
      · by_cases heq : ref = (name, s.opened name)
        · subst heq
          simp only [Function.update_self]
          exact OrderBook.faithful_empty
        · simp only [Function.update_of_ne heq]
          exact h.books ref href
      · by_cases heq : other = name
        · subst heq
          simp only [Function.update_self, Option.some.injEq] at href
          rw [← href]
        · simp only [Function.update_of_ne heq] at href
          exact h.refs other ref href
    · exact ⟨h.books, h.refs, h.buffered, h.tasks, h.sent⟩

/-- An unwatch call removes at most the symbol. -/
theorem FeedState.Faithful.unwatch (h : s.Faithful truth symbol P) (name : String)
    (unsubscribes : Bool) : (s.unwatch name unsubscribes).Faithful truth symbol P := by
  unfold FeedState.unwatch
  split
  · exact h
  · split
    · refine ⟨h.books, fun other ref href => ?_, h.buffered, h.tasks, h.sent⟩
      by_cases heq : other = name
      · subst heq
        simp at href
      · simp only [Function.update_of_ne heq] at href
        exact h.refs other ref href
    · exact h

/-- A connection failure clears the maps. -/
theorem FeedState.Faithful.onFail (h : s.Faithful truth symbol P) :
    s.onFail.Faithful truth symbol P where
  books := h.books
  refs _ _ href := by cases href
  buffered _ hinit := by cases hinit
  tasks _ htask := by cases htask
  sent := h.sent

/-- A watcher that resumes changes no book. -/
theorem FeedState.Faithful.resume (h : s.Faithful truth symbol P) {k : ℕ} {t : FeedState D}
    (hresume : s.resume k = some t) : t.Faithful truth symbol P := by
  obtain ⟨entry, _, rfl⟩ := Option.map_eq_some_iff.mp hresume
  exact ⟨h.books, h.refs, h.buffered, h.tasks, h.sent⟩

/-- In a faithful state a subscribed book with the id of a write is the book after that write, and
only such books have been sent. -/
theorem FeedState.Faithful.synchronised (h : s.Faithful truth symbol P) :
    (∀ ref, s.subscribed symbol = some ref → 2 ≤ (s.books ref).updateId →
        (s.books ref).level = WriteLog.after truth (s.books ref).updateId) ∧
      ∀ delivery ∈ s.sent, delivery.symbol = symbol → 2 ≤ delivery.book.updateId ∧
        delivery.book.level = WriteLog.after truth delivery.book.updateId := by
  constructor
  · intro ref href hid
    exact (h.books ref (h.refs symbol ref href) hid).2
  · intro delivery hdelivery hsymbol
    obtain ⟨hid, hafter⟩ := h.sent delivery hdelivery hsymbol
    exact ⟨hid, hafter.2⟩

end Arbexpert.Base
