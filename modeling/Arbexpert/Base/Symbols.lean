import Arbexpert.Base.Feed
import Arbexpert.Foundation.Projection

/-!
# The part of a sub-client that belongs to one symbol

The maps of a sub-client are keyed by symbols, books and suspended handlers belong to the
symbol for which they were made. An operation for one symbol does the same to the part of
that symbol, and nothing to the part of another one.
-/

namespace Arbexpert.Base

open Projection

variable {D : Type*}

/-- Every book is found under the symbol for which it was made. -/
structure FeedState.Named (s : FeedState D) : Prop where
  refs : ∀ name ref, s.subscribed name = some ref → ref.1 = name
  tasks : ∀ task ∈ s.tasks, task.book.1 = task.symbol

/-- The part of a sub-client that belongs to a symbol. -/
def FeedState.restrict (symbol : String) (s : FeedState D) : FeedState D where
  books := only (fun ref : BookRef => ref.1 = symbol) OrderBook.empty s.books
  opened := only (· = symbol) 0 s.opened
  subscribed := only (· = symbol) none s.subscribed
  pending := only (· = symbol) none s.pending
  init := only (· = symbol) none s.init
  tasks := s.tasks.filter fun task => task.symbol = symbol
  handed := s.handed.filter fun entry => entry.2.1 = symbol
  sent := s.sent.filter fun delivery => delivery.symbol = symbol
  aborted := s.aborted

/-- The action as it reads in the part of a symbol, if it belongs to it: a message whose event
is of the symbol, the continuation of a handler of the symbol, a watch or unwatch call of the
symbol, the failure of the connection, or a watcher that holds a book of the symbol. -/
def FeedState.own (symbol : String) (eventSymbol : Value → Option String) (s : FeedState D) :
    FeedAction D → Option (FeedAction D)
  | .message text =>
    if text.bind eventSymbol = some symbol then some (.message text) else none
  | .depth i response => (s.tasks[i]?).bind fun task =>
    if task.symbol = symbol then
      some (.depth (position (fun task => task.symbol = symbol) s.tasks i) response)
    else none
  | .wake i => (s.tasks[i]?).bind fun task =>
    if task.symbol = symbol then
      some (.wake (position (fun task => task.symbol = symbol) s.tasks i))
    else none
  | .watch name waiter subscribes sends =>
    if name = symbol then some (.watch name waiter subscribes sends) else none
  | .unwatch name unsubscribes =>
    if name = symbol then some (.unwatch name unsubscribes) else none
  | .fail => some .fail
  | .resume k => (s.handed[k]?).bind fun entry =>
    if entry.2.1 = symbol then
      some (.resume (position (fun entry => entry.2.1 = symbol) s.handed k))
    else none

namespace FeedState

variable {s : FeedState D} {symbol name : String} {ref : BookRef}

section Own

variable {eventSymbol : Value → Option String} {own : FeedAction D}

/-- A message belongs to the symbol of its event. -/
theorem own_message {text : Option Value} :
    s.own symbol eventSymbol (.message text) = some own ↔
      text.bind eventSymbol = some symbol ∧ .message text = own := by
  simp only [FeedState.own, Option.ite_none_right_eq_some, Option.some.injEq]

/-- A response belongs to the symbol of its handler. -/
theorem own_depth {i : ℕ} {task : InitTask D} {response : Option (DepthSnapshot D)}
    (htask : s.tasks[i]? = some task) :
    s.own symbol eventSymbol (.depth i response) = some own ↔ task.symbol = symbol ∧
      .depth (position (fun other => other.symbol = symbol) s.tasks i) response = own := by
  simp only [FeedState.own, htask, Option.bind_some, Option.ite_none_right_eq_some,
    Option.some.injEq]

/-- The end of a sleep belongs to the symbol of its handler. -/
theorem own_wake {i : ℕ} {task : InitTask D} (htask : s.tasks[i]? = some task) :
    s.own symbol eventSymbol (.wake i) = some own ↔ task.symbol = symbol ∧
      .wake (position (fun other => other.symbol = symbol) s.tasks i) = own := by
  simp only [FeedState.own, htask, Option.bind_some, Option.ite_none_right_eq_some,
    Option.some.injEq]

/-- A watch call belongs to its symbol. -/
theorem own_watch {waiter : ℕ} {subscribes sends : Bool} :
    s.own symbol eventSymbol (.watch name waiter subscribes sends) = some own ↔
      name = symbol ∧ .watch name waiter subscribes sends = own := by
  simp only [FeedState.own, Option.ite_none_right_eq_some, Option.some.injEq]

/-- An unwatch call belongs to its symbol. -/
theorem own_unwatch {unsubscribes : Bool} :
    s.own symbol eventSymbol (.unwatch name unsubscribes) = some own ↔
      name = symbol ∧ .unwatch name unsubscribes = own := by
  simp only [FeedState.own, Option.ite_none_right_eq_some, Option.some.injEq]

/-- The end of a wait belongs to the symbol of the book that the watcher holds. -/
theorem own_resume {k : ℕ} {entry : ℕ × BookRef} (hentry : s.handed[k]? = some entry) :
    s.own symbol eventSymbol (.resume k) = some own ↔ entry.2.1 = symbol ∧
      .resume (position (fun entry => entry.2.1 = symbol) s.handed k) = own := by
  simp only [FeedState.own, hentry, Option.bind_some, Option.ite_none_right_eq_some,
    Option.some.injEq]

end Own

/-- The books of the symbol are in its part. -/
theorem books_restrict (href : ref.1 = symbol) : (s.restrict symbol).books ref = s.books ref :=
  only_of_pos (p := fun ref : BookRef => ref.1 = symbol) href

/-- The number of books made for the symbol is in its part. -/
@[simp] theorem opened_restrict : (s.restrict symbol).opened symbol = s.opened symbol :=
  only_of_pos rfl

/-- The subscribed book of the symbol is in its part. -/
@[simp] theorem subscribed_restrict :
    (s.restrict symbol).subscribed symbol = s.subscribed symbol :=
  only_of_pos rfl

/-- The pending watchers of the symbol are in its part. -/
@[simp] theorem pending_restrict : (s.restrict symbol).pending symbol = s.pending symbol :=
  only_of_pos rfl

/-- The buffer of the symbol is in its part. -/
@[simp] theorem init_restrict : (s.restrict symbol).init symbol = s.init symbol :=
  only_of_pos rfl

/-- Nothing belongs to any symbol at the start. -/
theorem restrict_start (symbol : String) : (start : FeedState D).restrict symbol = start := by
  simp only [restrict, start, only_const, List.filter_nil]

/-- Writing a book of the symbol, in its part. -/
theorem restrict_setBook (href : ref.1 = symbol) (book : OrderBook D) :
    (s.setBook ref book).restrict symbol = (s.restrict symbol).setBook ref book := by
  simp only [restrict, setBook, only_update_of_pos (p := fun ref : BookRef => ref.1 = symbol) href]

/-- Writing a book of another symbol leaves the part alone. -/
theorem restrict_setBook_of_ne (href : ref.1 ≠ symbol) (book : OrderBook D) :
    (s.setBook ref book).restrict symbol = s.restrict symbol := by
  simp only [restrict, setBook, only_update_of_neg (p := fun ref : BookRef => ref.1 = symbol) href]

/-- Writing the id of a book of the symbol, in its part. -/
theorem restrict_setUpdateId (href : ref.1 = symbol) (n : ℕ) :
    (s.setUpdateId ref n).restrict symbol = (s.restrict symbol).setUpdateId ref n := by
  rw [setUpdateId, restrict_setBook href, setUpdateId, books_restrict href]

/-- Writing the buffer of the symbol, in its part. -/
theorem restrict_setInit (updates : List (OrderBookUpdate D)) :
    (s.setInit symbol updates).restrict symbol = (s.restrict symbol).setInit symbol updates := by
  simp only [restrict, setInit, only_update_of_pos]

/-- Writing the buffer of another symbol leaves the part alone. -/
theorem restrict_setInit_of_ne (hname : name ≠ symbol) (updates : List (OrderBookUpdate D)) :
    (s.setInit name updates).restrict symbol = s.restrict symbol := by
  simp only [restrict, setInit, only_update_of_neg (p := (· = symbol)) hname]

/-- Opening the buffer of the symbol, in its part. -/
theorem restrict_openInit :
    (s.openInit symbol).restrict symbol = (s.restrict symbol).openInit symbol := by
  rw [openInit, restrict_setInit, openInit, init_restrict]

/-- Buffering an update of the symbol, in its part. -/
theorem restrict_pushInit (update : Option (OrderBookUpdate D)) :
    (s.pushInit symbol update).restrict symbol = (s.restrict symbol).pushInit symbol update := by
  unfold pushInit
  rw [init_restrict]
  split
  · exact restrict_setInit _
  · rfl

/-- Suspending a handler of the symbol, in its part. -/
theorem restrict_addTask {task : InitTask D} (htask : task.symbol = symbol) :
    (s.addTask task).restrict symbol = (s.restrict symbol).addTask task := by
  simp [restrict, addTask, htask]

/-- Suspending a handler of another symbol leaves the part alone. -/
theorem restrict_addTask_of_ne {task : InitTask D} (htask : task.symbol ≠ symbol) :
    (s.addTask task).restrict symbol = s.restrict symbol := by
  simp [restrict, addTask, htask]

/-- A handler of the symbol is found at its position. -/
theorem getElem?_restrict {i : ℕ} {task : InitTask D} (htask : s.tasks[i]? = some task) :
    (s.restrict task.symbol).tasks[position (fun other => other.symbol = task.symbol) s.tasks i]? =
      some task :=
  getElem?_filter (p := fun other : InitTask D => other.symbol = task.symbol) htask
    (decide_eq_true rfl)

/-- Sending a book of the symbol to its watchers, in its part. -/
theorem restrict_deliver (href : ref.1 = symbol) :
    (s.deliver symbol ref).restrict symbol = (s.restrict symbol).deliver symbol ref := by
  obtain ⟨owner, n⟩ := ref
  cases href
  unfold deliver
  rw [pending_restrict]
  split
  · rfl
  · simp [restrict, only_update_of_pos, only_of_pos, List.filter_map, Function.comp_def]

/-- Sending a book of another symbol leaves the part alone. -/
theorem restrict_deliver_of_ne (hname : name ≠ symbol) (href : ref.1 = name) :
    (s.deliver name ref).restrict symbol = s.restrict symbol := by
  obtain ⟨owner, n⟩ := ref
  cases href
  unfold deliver
  split
  · rfl
  · simp [restrict, only_update_of_neg (p := (· = symbol)) hname, hname, List.filter_map,
      Function.comp_def]

/-- A handler of the symbol continues, in its part. -/
theorem restrict_setTask {i : ℕ} {task : InitTask D} {next : Option (InitTask D)}
    (htask : s.tasks[i]? = some task) (hsymbol : task.symbol = symbol)
    (hnext : ∀ other ∈ next, other.symbol = symbol) :
    (s.setTask i next).restrict symbol = (s.restrict symbol).setTask
      (position (fun task => task.symbol = symbol) s.tasks i) next := by
  cases next with
  | none =>
    simp only [restrict, setTask, filter_eraseIdx
      (p := fun task : InitTask D => task.symbol = symbol) htask (decide_eq_true hsymbol)]
  | some other =>
    simp only [restrict, setTask, filter_set (p := fun task : InitTask D => task.symbol = symbol)
      htask (decide_eq_true hsymbol) (decide_eq_true (hnext other rfl))]

/-- A handler of another symbol continues and leaves the part alone. -/
theorem restrict_setTask_of_ne {i : ℕ} {task : InitTask D} {next : Option (InitTask D)}
    (htask : s.tasks[i]? = some task) (hsymbol : task.symbol ≠ symbol)
    (hnext : ∀ other ∈ next, other.symbol ≠ symbol) :
    (s.setTask i next).restrict symbol = s.restrict symbol := by
  cases next with
  | none =>
    simp only [restrict, setTask, filter_eraseIdx_of_neg
      (p := fun task : InitTask D => task.symbol = symbol) htask (decide_eq_false hsymbol)]
  | some other =>
    simp only [restrict, setTask, filter_set_of_neg
      (p := fun task : InitTask D => task.symbol = symbol) htask (decide_eq_false hsymbol)
      (decide_eq_false (hnext other rfl))]

/-- A watch call of the symbol, in its part. -/
theorem restrict_watch (waiter : ℕ) (subscribes sends : Bool) :
    (s.watch symbol waiter subscribes sends).restrict symbol =
      (s.restrict symbol).watch symbol waiter subscribes sends := by
  unfold watch
  rw [subscribed_restrict, pending_restrict, opened_restrict]
  split
  · split
    · rfl
    · simp only [restrict, only_update_of_pos]
  · cases subscribes
    · simp [restrict, only_update_of_pos]
    · simp [restrict, only_update_of_pos]

/-- An unwatch call of the symbol, in its part. -/
theorem restrict_unwatch (unsubscribes : Bool) :
    (s.unwatch symbol unsubscribes).restrict symbol =
      (s.restrict symbol).unwatch symbol unsubscribes := by
  unfold unwatch
  rw [subscribed_restrict]
  split
  · rfl
  · cases unsubscribes
    · rfl
    · simp [restrict, only_update_of_pos]

/-- The failure of the connection, in the part of the symbol. -/
theorem restrict_onFail : s.onFail.restrict symbol = (s.restrict symbol).onFail := by
  simp only [restrict, onFail, only_const, List.filter_nil]

/-- An attempt to replay the buffer of the symbol, in its part. -/
theorem restrict_replayAttempt {task : InitTask D} (hsymbol : task.symbol = symbol)
    (hbook : task.book.1 = symbol) (snapshot : OrderBook D) (retries : ℕ) :
    (s.restrict symbol).replayAttempt task snapshot retries =
      ((s.replayAttempt task snapshot retries).1.restrict symbol,
        (s.replayAttempt task snapshot retries).2) := by
  subst hsymbol
  unfold replayAttempt
  rw [init_restrict]
  split
  · rw [restrict_setUpdateId hbook]
  · split
    · rfl
    · split <;> rw [restrict_setInit]

/-- A watcher that holds a book of the symbol resumes, in its part. -/
theorem restrict_resume [LinearOrder D] {k : ℕ} {entry : ℕ × BookRef}
    (hentry : s.handed[k]? = some entry) (hsymbol : entry.2.1 = symbol) :
    (s.restrict symbol).resume (position (fun entry => entry.2.1 = symbol) s.handed k) =
      (s.resume k).map (restrict symbol) := by
  have hfound := getElem?_filter (p := fun entry : ℕ × BookRef => entry.2.1 = symbol) hentry
    (decide_eq_true hsymbol)
  have herase := filter_eraseIdx (p := fun entry : ℕ × BookRef => entry.2.1 = symbol) hentry
    (decide_eq_true hsymbol)
  have hread : (s.restrict symbol).handed[position (fun entry => entry.2.1 = symbol) s.handed k]? =
      some entry := hfound
  simp only [resume, hentry, hread, Option.map_some, books_restrict hsymbol]
  simp only [restrict, herase]

/-- Books are found under their own symbols at the start. -/
theorem named_start : (start : FeedState D).Named where
  refs := nofun
  tasks := nofun

/-- No book is subscribed after the connection failed. -/
theorem Named.onFail (_ : s.Named) : s.onFail.Named where
  refs := nofun
  tasks := nofun

/-- What happens is confined to a symbol: the part of any other one is unchanged, but for the
flag that stops the process, and every book stays under its own symbol. -/
structure Confined (name : String) (s t : FeedState D) : Prop where
  named : s.Named → t.Named
  unseen : ∀ symbol, name ≠ symbol →
    { t.restrict symbol with aborted := s.aborted } = s.restrict symbol

namespace Confined

/-- A change that does nothing is confined. -/
theorem refl (name : String) (s : FeedState D) : Confined name s s := ⟨id, fun _ _ => rfl⟩

variable {t u : FeedState D}

/-- Two confined changes make one. -/
theorem trans (h : Confined name s t) (h' : Confined name t u) : Confined name s u where
  named hs := h'.named (h.named hs)
  unseen symbol hne := by rw [← h.unseen symbol hne, ← h'.unseen symbol hne]

/-- A change is confined when it leaves the flag and the parts of other symbols alone. -/
theorem of_restrict (hnamed : s.Named → t.Named) (haborted : t.aborted = s.aborted)
    (h : ∀ symbol, name ≠ symbol → t.restrict symbol = s.restrict symbol) :
    Confined name s t where
  named := hnamed
  unseen symbol hne := by
    have hflag : (t.restrict symbol).aborted = s.aborted := haborted
    rw [← hflag, h symbol hne]

/-- Stopping the process is confined to any symbol. -/
theorem abort (name : String) (s : FeedState D) : Confined name s { s with aborted := true } where
  named hs := ⟨hs.refs, hs.tasks⟩
  unseen _ _ := rfl

/-- Writing a book of the symbol is confined to it. -/
theorem setBook (href : ref.1 = name) (book : OrderBook D) :
    Confined name s (s.setBook ref book) :=
  of_restrict (fun hs => ⟨hs.refs, hs.tasks⟩) rfl fun _ hne =>
    restrict_setBook_of_ne (href ▸ hne) book

/-- Writing the buffer of the symbol is confined to it. -/
theorem setInit (updates : List (OrderBookUpdate D)) : Confined name s (s.setInit name updates) :=
  of_restrict (fun hs => ⟨hs.refs, hs.tasks⟩) rfl fun _ hne => restrict_setInit_of_ne hne updates

/-- Buffering an update of the symbol is confined to it. -/
theorem pushInit (update : Option (OrderBookUpdate D)) :
    Confined name s (s.pushInit name update) := by
  unfold FeedState.pushInit
  split
  · exact setInit _
  · exact refl name s

/-- Suspending a handler of the symbol is confined to it. -/
theorem addTask {task : InitTask D} (hsymbol : task.symbol = name) (hbook : task.book.1 = name) :
    Confined name s (s.addTask task) := by
  refine of_restrict (fun hs => ⟨hs.refs, fun other hother => ?_⟩) rfl fun symbol hne =>
    restrict_addTask_of_ne (hsymbol ▸ hne)
  rcases List.mem_append.mp hother with hold | hnew
  · exact hs.tasks other hold
  · rw [List.mem_singleton.mp hnew, hsymbol, hbook]

/-- The next stage of a handler of the symbol is confined to it. -/
theorem setTask {i : ℕ} {task : InitTask D} {next : Option (InitTask D)}
    (htask : s.tasks[i]? = some task) (hsymbol : task.symbol = name)
    (hnext : ∀ other ∈ next, other.symbol = name ∧ other.book.1 = name) :
    Confined name s (s.setTask i next) := by
  refine of_restrict (fun hs => ?_) (by cases next <;> rfl) fun symbol hne =>
    restrict_setTask_of_ne htask (hsymbol ▸ hne) fun other hother => (hnext other hother).1 ▸ hne
  cases next with
  | none => exact ⟨hs.refs, fun other hother => hs.tasks other (List.mem_of_mem_eraseIdx hother)⟩
  | some next =>
    refine ⟨hs.refs, fun other hother => ?_⟩
    rcases List.mem_or_eq_of_mem_set hother with hold | rfl
    · exact hs.tasks other hold
    · rw [(hnext other rfl).1, (hnext other rfl).2]

/-- Sending a book of the symbol to its watchers is confined to it. -/
theorem deliver (href : ref.1 = name) : Confined name s (s.deliver name ref) := by
  refine of_restrict (fun hs => ?_) ?_ fun symbol hne => restrict_deliver_of_ne hne href
  · unfold FeedState.deliver
    split
    · exact hs
    · exact ⟨hs.refs, hs.tasks⟩
  · unfold FeedState.deliver
    split <;> rfl

/-- A watch call of the symbol is confined to it. -/
theorem watch (waiter : ℕ) (subscribes sends : Bool) :
    Confined name s (s.watch name waiter subscribes sends) := by
  unfold FeedState.watch
  split
  · split
    · exact abort name s
    · refine of_restrict (fun hs => ⟨hs.refs, hs.tasks⟩) rfl fun symbol hne => ?_
      simp only [restrict, only_update_of_neg (p := (· = symbol)) hne]
  · cases subscribes with
    | false =>
      refine of_restrict (fun hs => ⟨hs.refs, hs.tasks⟩) rfl fun symbol hne => ?_
      simp [restrict, only_update_of_neg (p := (· = symbol)) hne]
    | true =>
      refine of_restrict (fun hs => ⟨fun other ref href => ?_, hs.tasks⟩) rfl fun symbol hne => ?_
      · rcases eq_or_ne other name with rfl | hother
        · simp only [if_true, Function.update_self, Option.some.injEq] at href
          rw [← href]
        · simp only [if_true, Function.update_of_ne hother] at href
          exact hs.refs other ref href
      · have hkey : ¬((name, s.opened name) : BookRef).1 = symbol := hne
        simp [restrict, only_update_of_neg (p := (· = symbol)) hne,
          only_update_of_neg (p := fun ref : BookRef => ref.1 = symbol) hkey]

/-- An unwatch call of the symbol is confined to it. -/
theorem unwatch (unsubscribes : Bool) : Confined name s (s.unwatch name unsubscribes) := by
  unfold FeedState.unwatch
  split
  · exact refl name s
  · cases unsubscribes with
    | false => exact refl name s
    | true =>
      refine of_restrict (fun hs => ⟨fun other ref href => ?_, hs.tasks⟩) rfl fun symbol hne => ?_
      · rcases eq_or_ne other name with rfl | hother
        · simp at href
        · simp only [if_true, Function.update_of_ne hother] at href
          exact hs.refs other ref href
      · simp [restrict, only_update_of_neg (p := (· = symbol)) hne]

/-- The resumption of a watcher that holds a book of the symbol is confined to it. -/
theorem resume [LinearOrder D] {k : ℕ} {entry : ℕ × BookRef} (hentry : s.handed[k]? = some entry)
    (hsymbol : entry.2.1 = name) (hresume : s.resume k = some t) : Confined name s t := by
  simp only [FeedState.resume, hentry, Option.map_some, Option.some.injEq] at hresume
  subst hresume
  refine ⟨fun hs => ⟨hs.refs, hs.tasks⟩, fun symbol hne => ?_⟩
  simp only [restrict, filter_eraseIdx_of_neg (p := fun entry : ℕ × BookRef => entry.2.1 = symbol)
    hentry (decide_eq_false (hsymbol ▸ hne))]

/-- An attempt to replay the buffer of the symbol is confined to it, and so is the handler that
it leaves. -/
theorem replayAttempt {task : InitTask D} (hsymbol : task.symbol = name)
    (hbook : task.book.1 = name) (snapshot : OrderBook D) (retries : ℕ) :
    Confined name s (s.replayAttempt task snapshot retries).1 ∧
      (s.replayAttempt task snapshot retries).1.tasks = s.tasks ∧
      ∀ next, (s.replayAttempt task snapshot retries).2 = .sleeping next →
        next.symbol = name ∧ next.book.1 = name := by
  subst hsymbol
  unfold FeedState.replayAttempt
  split
  · exact ⟨setBook hbook _, rfl, nofun⟩
  · split
    · exact ⟨refl _ _, rfl, nofun⟩
    · split
      · refine ⟨setInit _, rfl, fun next hnext => ?_⟩
        cases hnext
        exact ⟨rfl, hbook⟩
      · exact ⟨setInit _, rfl, nofun⟩

end Confined

/-- A handler of a symbol leaves another one or none, also in the part of its symbol. -/
theorem setTask_cases {t : FeedState D} {i : ℕ} {task : InitTask D} {next : Option (InitTask D)}
    (htask : s.tasks[i]? = some task) (h : Confined task.symbol s t) (htasks : t.tasks = s.tasks)
    (hnext : ∀ other ∈ next, other.symbol = task.symbol ∧ other.book.1 = task.symbol) :
    Confined task.symbol s (t.setTask i next) ∧
      (t.restrict task.symbol).setTask
        (position (fun other => other.symbol = task.symbol) s.tasks i) next =
        (t.setTask i next).restrict task.symbol := by
  have htask' : t.tasks[i]? = some task := htasks ▸ htask
  refine ⟨h.trans (.setTask htask' rfl hnext), ?_⟩
  rw [restrict_setTask htask' rfl fun other hother => (hnext other hother).1, htasks]

/-- The state of the run of a symbol: its part of the whole state, but that the process may have
been stopped in the whole run only. -/
structure Tracks (symbol : String) (s u : FeedState D) : Prop where
  named : s.Named
  aborted : u.aborted = true → s.aborted = true
  same : { s.restrict symbol with aborted := u.aborted } = u

/-- While the process runs, the state of the run of a symbol is its part of the whole state. -/
theorem Tracks.eq_restrict {u : FeedState D} (h : Tracks symbol s u) (hrunning : ¬s.aborted) :
    u = s.restrict symbol := by
  have hs : s.aborted = false := eq_false_of_ne_true hrunning
  have hu : u.aborted = false := eq_false_of_ne_true (mt h.aborted hrunning)
  rw [← h.same, hu, ← hs]
  rfl

end FeedState

end Arbexpert.Base
