import Arbexpert.Base.Phases
import Arbexpert.Base.Requests
import Arbexpert.Base.Symbols

/-!
# Calls that can still be served

While the id of a book is one, events for it are only buffered, and its handler is to go on. When no
handler is suspended for it, the calls that wait for the book wait until the connection fails or the
symbol is unwatched. In every other state events and responses may arrive that serve them.
-/

namespace Arbexpert.Base

open Sentinel

variable {σ D : Type*}

/-- The connection stays up, and the symbol stays watched. -/
def FeedAction.Stays (symbol : String) : FeedAction D → Prop
  | .fail => False
  | .unwatch name _ => name ≠ symbol
  | _ => True

namespace FeedState

/-- The id of a book stands for a suspended handler that there is not. -/
def Stuck (s : FeedState D) (ref : BookRef) : Prop :=
  (s.books ref).updateId = 1 ∧ ∀ task ∈ s.tasks, task.book ≠ ref

/-- Calls wait for the book of a symbol, before any that came later. -/
structure Waits (s : FeedState D) (symbol : String) (ref : BookRef) (senders : List Sender) :
    Prop where
  subscribed : s.subscribed symbol = some ref
  pending : ∃ later, s.pending symbol = some (senders ++ later)

/-- The subscriptions, the watchers, and the flag that stops the process are the same. -/
structure Quiet (s t : FeedState D) : Prop where
  subscribed : t.subscribed = s.subscribed
  pending : t.pending = s.pending
  handed : t.handed = s.handed
  aborted : t.aborted = s.aborted

/-- What holds of every state of a run. -/
structure Intact (s : FeedState D) : Prop where
  sound : s.cells.Sound
  buffered : s.Buffered
  named : s.Named
  fits : ∀ task ∈ s.tasks, task.stage.SleepsFit

/-- The calls that waited for a book have been handed it, with a best level on both sides. -/
structure Served [LinearOrder D] (s : FeedState D) (symbol : String) (ref : BookRef)
    (senders : List Sender) (t : FeedState D) : Prop where
  running : t.aborted = false
  pending : t.pending symbol = some []
  handed : t.handed = s.handed ++
    (senders.filter Sender.listening).map fun sender => (sender.waiter, ref)
  ready : (t.books ref).Ready

/-- What a sleeping handler does when it wakes up: it makes an attempt to replay its buffer. -/
structure WakesUp (s : FeedState D) (task : InitTask D) (snapshot : OrderBook D) (retries : ℕ)
    (t : FeedState D) (next : Option (InitTask D)) (label : Option (BookRef × ℕ)) : Prop where
  runs : s.RunsOn task t next label
  again : ∀ other ∈ next, other.stage = .replaying snapshot (retries + 1) ∧ retries ≠ 5
  number : ∀ n, label = some (task.book, n) →
    s.replayed task.symbol snapshot.updateId ≠ [] ∧
      ∃ base, n = numberAfter base (s.replayed task.symbol snapshot.updateId)

variable {s t u : FeedState D} {symbol name : String} {ref : BookRef} {senders : List Sender}

/-- A book is stuck exactly if its cell is abandoned. -/
theorem stuck_iff : s.Stuck ref ↔ s.cells.Abandoned ref := by
  simp [Stuck, Cells.Abandoned, cells]

/-- Nothing happens. -/
theorem Quiet.refl (s : FeedState D) : s.Quiet s := ⟨rfl, rfl, rfl, rfl⟩

/-- Two quiet changes make one. -/
theorem Quiet.trans (h : s.Quiet t) (h' : t.Quiet u) : s.Quiet u where
  subscribed := h'.subscribed.trans h.subscribed
  pending := h'.pending.trans h.pending
  handed := h'.handed.trans h.handed
  aborted := h'.aborted.trans h.aborted

/-- Writing a book is quiet. -/
theorem Quiet.setBook (h : s.Quiet t) (ref : BookRef) (book : OrderBook D) :
    s.Quiet (t.setBook ref book) := ⟨h.subscribed, h.pending, h.handed, h.aborted⟩

/-- Buffering an update is quiet. -/
theorem quiet_pushInit (s : FeedState D) (symbol : String) (update : Option (OrderBookUpdate D)) :
    s.Quiet (s.pushInit symbol update) := by
  unfold pushInit
  split <;> exact ⟨rfl, rfl, rfl, rfl⟩

/-- Putting a handler back is quiet. -/
theorem Quiet.setTask (h : s.Quiet t) (i : ℕ) (next : Option (InitTask D)) :
    s.Quiet (t.setTask i next) := by
  cases next <;> exact ⟨h.subscribed, h.pending, h.handed, h.aborted⟩

/-- An attempt to replay a buffer is quiet. -/
theorem quiet_replayAttempt (s : FeedState D) (task : InitTask D) (snapshot : OrderBook D)
    (retries : ℕ) : s.Quiet (s.replayAttempt task snapshot retries).1 := by
  unfold replayAttempt
  split
  · exact (Quiet.refl s).setBook _ _
  · split
    · exact .refl s
    · split <;> exact ⟨rfl, rfl, rfl, rfl⟩

/-- The calls wait on when nothing happens to the watchers. -/
theorem Waits.quiet (h : s.Waits symbol ref senders) (hquiet : s.Quiet t) :
    t.Waits symbol ref senders where
  subscribed := by rw [hquiet.subscribed, h.subscribed]
  pending := by rw [hquiet.pending]; exact h.pending

/-- The calls wait on when something happens to another symbol. -/
theorem Waits.confined (h : s.Waits symbol ref senders) (hconfined : Confined name s t)
    (hne : name ≠ symbol) : t.Waits symbol ref senders := by
  have hpart := hconfined.unseen symbol hne
  have hsubscribed := congrArg (fun part : FeedState D => part.subscribed symbol) hpart
  have hpending := congrArg (fun part : FeedState D => part.pending symbol) hpart
  simp only [subscribed_restrict] at hsubscribed
  simp only [pending_restrict] at hpending
  exact ⟨hsubscribed.trans h.subscribed, hpending ▸ h.pending⟩

/-- The calls wait on while others come. -/
theorem Waits.watch (h : s.Waits symbol ref senders) (name : String) (waiter : ℕ)
    (subscribes sends : Bool) :
    (s.watch name waiter subscribes sends).Waits symbol ref senders := by
  by_cases hname : name = symbol
  · subst hname
    obtain ⟨later, hpending⟩ := h.pending
    simp only [FeedState.watch, h.subscribed, hpending]
    exact ⟨h.subscribed, later ++ [⟨waiter, true⟩], by simp⟩
  · exact h.confined (.watch waiter subscribes sends) hname

/-- A watcher that resumes leaves the calls alone that wait. -/
theorem Waits.resume [LinearOrder D] (h : s.Waits symbol ref senders) {k : ℕ}
    (hresume : s.resume k = some t) : t.Waits symbol ref senders := by
  obtain ⟨_, _, rfl⟩ := Option.map_eq_some_iff.mp hresume
  exact ⟨h.subscribed, h.pending⟩

/-- A new sub-client is intact. -/
theorem intact_start : (start : FeedState D).Intact where
  sound := phased_start.1
  buffered := phased_start.2.1
  named := named_start
  fits := nofun

/-- A step that moves the cells, keeps the names and runs the handlers on leaves a state intact. -/
theorem Intact.step (h : s.Intact) {label : Option (BookRef × ℕ)} {again : ℕ → Prop}
    {action : FeedAction D} (hmoves : s.Moves label t) (hnamed : t.Named)
    (hstep : HandlerStep again s.tasks action t.tasks) : t.Intact where
  sound := hmoves.move.sound h.sound
  buffered := hmoves.buffered
  named := hnamed
  fits := (hstep.sleeps h.fits).1

/-- A stuck book stays stuck. -/
theorem Stuck.moves {label : Option (BookRef × ℕ)} (h : s.Stuck ref) (hsound : s.cells.Sound)
    (hsubscribed : s.subscribed symbol = some ref) (hmoves : s.Moves label t) : t.Stuck ref :=
  stuck_iff.mpr (hmoves.move.abandoned (hsound.liveOpened symbol ref hsubscribed)
    (stuck_iff.mp h))

/-- No live book is stuck while the phases of the books can be told apart. -/
theorem PhasesAgree.not_stuck (h : s.PhasesAgree) (hsubscribed : s.subscribed symbol = some ref) :
    ¬s.Stuck ref := by
  rintro ⟨hid, hnone⟩
  have hcount := (h symbol ref hsubscribed).mp hid
  rw [List.countP_eq_zero.mpr fun task htask => by simpa using hnone task htask] at hcount
  exact Nat.zero_ne_one hcount

/-- For a handler whose steps move the phases as the applied updates say, no live book gets stuck in
a run whose updates lead live books to the ids of writes. -/
theorem not_stuck_of_synchronises (feed : σ → FeedState D) {step : σ → FeedAction D → Option σ}
    {applied : FeedState D → FeedAction D → Option (Application D)}
    (hmoves : ∀ s action t, (feed s).Buffered → (feed s).cells.Sound → step s action = some t →
      (feed s).Moves ((applied (feed s) action).map Application.label) (feed t))
    {s t : σ} (hstart : feed s = start) {actions : List (FeedAction D)}
    (hsynchronises : GuardedRun.StepsSatisfy step
      (fun s action => (feed s).Synchronises (applied (feed s) action)) s actions)
    (hrun : GuardedRun.exec step s actions = some t)
    (hsubscribed : (feed t).subscribed symbol = some ref) : ¬(feed t).Stuck ref := by
  have hreaches := GuardedRun.reaches_of_exec hsynchronises hrun
  have hend := hreaches.invariant (I := fun s => (feed s).cells.Sound ∧ (feed s).Buffered ∧
    (feed s).PhasesAgree) (hstart ▸ phased_start) fun s action t hs hsynchronises hstep => by
      obtain ⟨hsound, hbuffered, hagree⟩ := hs
      have hmove := hmoves s action t hbuffered hsound hstep
      exact ⟨hmove.move.sound hsound, hmove.buffered,
        ((hmove.distinguishes_iff hsound hagree).mpr hsynchronises).agree⟩
  exact hend.2.2.not_stuck hsubscribed

/-- Sending a ready book serves the calls that wait. -/
theorem Served.deliver [LinearOrder D] (hquiet : s.Quiet t) (hrunning : s.aborted = false)
    (hpending : s.pending symbol = some senders) {book : OrderBook D} (hbook : book.Ready) :
    s.Served symbol ref senders ((t.setBook ref book).deliver symbol ref) := by
  have hsenders : (t.setBook ref book).pending symbol = some senders := by
    rw [← hpending, ← hquiet.pending]
    rfl
  unfold FeedState.deliver
  rw [hsenders]
  refine ⟨hquiet.aborted.trans hrunning, Function.update_self _ _ _, ?_, ?_⟩
  · exact congrArg (· ++ _) hquiet.handed
  · simp only [setBook, Function.update_self]
    exact hbook

/-- The buffered updates are applied after a snapshot only when there are some. -/
theorem replayApplication_eq_some {base n : ℕ} {application : Application D}
    (h : s.replayApplication symbol ref base n = some application) :
    s.replayed symbol n ≠ [] ∧ application = ⟨ref, base, s.replayed symbol n⟩ := by
  obtain ⟨hreplayed, happlied⟩ := Option.ite_none_left_eq_some.mp h
  exact ⟨by simpa using hreplayed, (Option.some.inj happlied).symm⟩

/-- The replayed updates end with the one that was buffered last. -/
theorem replayed_concat {buffer : List (OrderBookUpdate D)} {update : OrderBookUpdate D} {n : ℕ}
    (hinit : s.init symbol = some (buffer ++ [update])) (hreplayed : s.replayed symbol n ≠ []) :
    ∃ front, s.replayed symbol n = front ++ [update] := by
  cases hindex : replayIndex n (buffer ++ [update]) with
  | none => exact absurd (by simp [replayed, hinit, hindex]) hreplayed
  | some k =>
    have hlt := (List.findIdx?_eq_some_iff_getElem.mp hindex).choose
    refine ⟨buffer.drop k, ?_⟩
    simp only [replayed, hinit, Option.elim_some, hindex]
    exact List.drop_append_of_le_length (by simpa [Nat.lt_succ_iff] using hlt)

/-- An update that was buffered last and overlaps with the write after a snapshot is replayed
last. -/
theorem exists_replayApplication {buffer : List (OrderBookUpdate D)} {update : OrderBookUpdate D}
    {n : ℕ} (hinit : s.init symbol = some (buffer ++ [update]))
    (hfirst : update.firstUpdateId ≤ succU64 n) (hlast : n < update.lastUpdateId) (ref : BookRef)
    (base : ℕ) :
    ∃ front, s.replayApplication symbol ref base n = some ⟨ref, base, front ++ [update]⟩ := by
  have hreplayed : s.replayed symbol n ≠ [] := by
    cases hindex : replayIndex n (buffer ++ [update]) with
    | none =>
      have hnone := List.findIdx?_eq_none_iff.mp hindex update (by simp)
      exact absurd (decide_eq_true ⟨hfirst, hlast⟩) (Bool.eq_false_iff.mp hnone)
    | some k =>
      have hlt := (List.findIdx?_eq_some_iff_getElem.mp hindex).choose
      simpa [replayed, hinit, hindex] using hlt
  obtain ⟨front, hfront⟩ := replayed_concat hinit hreplayed
  exact ⟨front, by simp [replayApplication, hfront]⟩

/-- A handler that wakes up either writes a number of its own, or sleeps again beside a book that
stays as it is. -/
theorem WakesUp.cases {task : InitTask D} {snapshot : OrderBook D} {retries i : ℕ}
    {next : Option (InitTask D)} {label : Option (BookRef × ℕ)}
    (h : s.WakesUp task snapshot retries t next label) (htask : s.tasks[i]? = some task)
    (hnumber : ∀ n, label = some (task.book, n) → n ≠ 1) :
    ((t.setTask i next).books task.book).updateId ≠ 1 ∨
      retries ≠ 5 ∧ ((t.setTask i next).books task.book).updateId =
        (s.books task.book).updateId ∧ (t.setTask i next).tasks[i]? =
          some { task with stage := .replaying snapshot (retries + 1) } := by
  have hwritten {n : ℕ} (hn : n ≠ 1) (hcells : t.cells = s.cells.write task.book n) :
      (t.books task.book).updateId ≠ 1 := by
    have hid : (t.books task.book).updateId = n :=
      (congrArg (fun cells => cells.number task.book) hcells).trans (Function.update_self _ _ _)
    rwa [hid]
  obtain ⟨hruns, hagain, -⟩ := h
  cases hruns with
  | suspended stage hkeeps hcells =>
    obtain ⟨rfl, hretries⟩ := hagain _ rfl
    obtain ⟨hlt, -⟩ := List.getElem?_eq_some_iff.mp htask
    refine Or.inr ⟨hretries, congrArg (fun cells => cells.number task.book) hcells, ?_⟩
    simp only [FeedState.setTask, hkeeps.tasks, List.getElem?_set_self hlt]
  | gaveUp hkeeps hcells => exact Or.inl (hwritten Nat.zero_ne_one hcells)
  | finished n hkeeps hcells => exact Or.inl (hwritten (hnumber n rfl) hcells)

end FeedState

section Levels

variable [LinearOrder D] [Zero D]

/-- An update with one level on each side, of a quantity, keeps both sides. -/
theorem keeps_of_level {update : OrderBookUpdate D} {level : D × D} (hbids : update.bids = [level])
    (hasks : update.asks = [level]) (hlevel : level.2 ≠ 0) (book : OrderBook D) (side : Side) :
    update.Keeps book side := by
  have hvalue : levelValue level.2 ≠ none := by simp [levelValue, hlevel]
  have hwrites : update.writes =
      [((.bid, level.1), levelValue level.2), ((.ask, level.1), levelValue level.2)] := by
    simp only [OrderBookUpdate.writes, hbids, hasks, List.map_cons, List.map_nil,
      List.singleton_append]
  cases side with
  | bid => exact Or.inl ⟨[], _, _, hwrites, rfl, hvalue, by simp⟩
  | ask => exact Or.inl ⟨[_], _, [], hwrites, rfl, hvalue, by simp⟩

end Levels

/-- Updates that end with one whose `u` is not zero lead to it. -/
theorem numberAfter_concat (n : ℕ) (front : List (OrderBookUpdate D)) {update : OrderBookUpdate D}
    (h : 0 < update.lastUpdateId) : numberAfter n (front ++ [update]) = update.lastUpdateId := by
  rw [numberAfter_append_singleton, if_pos h]

variable [LinearOrder D]

/-- What can happen to a client while the connection stays up and a symbol stays watched. -/
abbrev DepthClient.Leads (client : DepthClient σ D) (symbol : String) : σ → σ → Prop :=
  GuardedRun.Reaches client.step fun _ action => action.Stays symbol

/-- What the steps of a client do to the calls that wait for a symbol, and what can be made to
happen to its book. -/
structure DepthClient.Restorable (client : DepthClient σ D) (symbol : String) : Prop where
  intact : ∀ {s action t}, (client.feed s).Intact → client.step s action = some t →
    (client.feed t).Intact
  moves : ∀ {s action t}, (client.feed s).Intact → client.step s action = some t →
    ∃ label, (client.feed s).Moves label (client.feed t)
  waits : ∀ {s action t ref senders}, (client.feed s).Intact → (client.feed s).Stuck ref →
    (client.feed s).Waits symbol ref senders → action.Stays symbol →
      client.step s action = some t → (client.feed t).Waits symbol ref senders
  lose : ∀ {s ref}, (client.feed s).aborted = false →
    (client.feed s).subscribed symbol = some ref → 2 ≤ ((client.feed s).books ref).updateId →
      ∃ text t, client.step s (.message text) = some t ∧ (client.feed s).Quiet (client.feed t) ∧
        ((client.feed t).books ref).updateId = 0
  refuse : ∀ {s i task first retries}, (client.feed s).aborted = false →
    (client.feed s).tasks[i]? = some task → task.stage = .fetching first retries →
      ∃ t, client.step s (.depth i none) = some t ∧ (client.feed s).Quiet (client.feed t) ∧
        ((client.feed t).books task.book).updateId = 0
  buffer : ∀ {s ref}, (client.feed s).aborted = false →
    (client.feed s).subscribed symbol = some ref → ((client.feed s).books ref).updateId = 1 →
      ∃ text update t, client.step s (.message text) = some t ∧ 2 ≤ update.lastUpdateId ∧
        client.feed t = (client.feed s).pushInit symbol (some update)
  wake : ∀ {s i task snapshot retries}, (client.feed s).Intact → (client.feed s).aborted = false →
    (client.feed s).tasks[i]? = some task → task.stage = .replaying snapshot retries →
      ∃ t feed next label, client.step s (.wake i) = some t ∧
        client.feed t = feed.setTask i next ∧ (client.feed s).Quiet feed ∧
          (client.feed s).WakesUp task snapshot retries feed next label
  serve : ∀ {s ref senders}, (client.feed s).Intact → (client.feed s).aborted = false →
    (client.feed s).subscribed symbol = some ref → (client.feed s).pending symbol = some senders →
      ((client.feed s).books ref).updateId = 0 →
        ∃ t, client.Leads symbol s t ∧
          (client.feed s).Served symbol ref senders (client.feed t)

section Restorable

variable {client : DepthClient σ D} {symbol : String} {ref : BookRef} {senders : List Sender}
  {s t : σ}

/-- While the connection stays up and the symbol stays watched, its book stays stuck, and the calls
that wait for it wait on. -/
theorem DepthClient.Restorable.stuck (h : client.Restorable symbol)
    (hrun : client.Leads symbol s t)
    (hs : (client.feed s).Intact) (hstuck : (client.feed s).Stuck ref)
    (hwaits : (client.feed s).Waits symbol ref senders) :
    (client.feed t).Stuck ref ∧ (client.feed t).Waits symbol ref senders := by
  refine (hrun.invariant (I := fun s => (client.feed s).Intact ∧ (client.feed s).Stuck ref ∧
    (client.feed s).Waits symbol ref senders) ⟨hs, hstuck, hwaits⟩ ?_).2
  rintro s action t ⟨hs, hstuck, hwaits⟩ hstays hstep
  obtain ⟨label, hmoves⟩ := h.moves hs hstep
  exact ⟨h.intact hs hstep, hstuck.moves hs.sound hwaits.subscribed hmoves,
    h.waits hs hstuck hwaits hstays hstep⟩

/-- A handler that sleeps can be woken up after an event was buffered for it; then its book gets
another id, or the handler sleeps again. -/
theorem DepthClient.Restorable.attempt (h : client.Restorable symbol) {i retries : ℕ}
    {task : InitTask D} {snapshot : OrderBook D} (hs : (client.feed s).Intact)
    (hrunning : (client.feed s).aborted = false)
    (hsubscribed : (client.feed s).subscribed symbol = some task.book)
    (hid : ((client.feed s).books task.book).updateId = 1)
    (htask : (client.feed s).tasks[i]? = some task)
    (hstage : task.stage = .replaying snapshot retries) :
    ∃ t, client.Leads symbol s t ∧
      (client.feed s).Quiet (client.feed t) ∧
        (((client.feed t).books task.book).updateId ≠ 1 ∨
          retries ≠ 5 ∧ ((client.feed t).books task.book).updateId = 1 ∧
            (client.feed t).tasks[i]? =
              some { task with stage := .replaying snapshot (retries + 1) }) := by
  obtain ⟨text, update, u, hu, hlast, hfeed⟩ := h.buffer hrunning hsubscribed hid
  have hmem := List.mem_of_getElem? htask
  have hname : task.symbol = symbol :=
    (hs.named.tasks task hmem).symm.trans (hs.named.refs symbol _ hsubscribed)
  obtain ⟨buffer, hbuffer⟩ := Option.isSome_iff_exists.mp (hs.buffered task hmem)
  have hpush : client.feed u = (client.feed s).setInit task.symbol (buffer ++ [update]) := by
    rw [hfeed, ← hname]
    simp only [FeedState.pushInit, hbuffer]
  have hinit : (client.feed u).init task.symbol = some (buffer ++ [update]) := by
    rw [hpush]
    exact Function.update_self _ _ _
  have hquiet : (client.feed s).Quiet (client.feed u) := hfeed ▸ FeedState.quiet_pushInit _ _ _
  have hutask : (client.feed u).tasks[i]? = some task := by rwa [hpush]
  have huid : ((client.feed u).books task.book).updateId = 1 := by rwa [hpush]
  obtain ⟨t, feed, next, label, ht, htfeed, hattempt, hwakes⟩ :=
    h.wake (h.intact hs hu) (hquiet.aborted.trans hrunning) hutask hstage
  -- The event that was buffered last is replayed last, so its `u` becomes the id of the book.
  have hcases := hwakes.cases hutask fun n hlabel => by
    obtain ⟨hreplayed, base, rfl⟩ := hwakes.number n hlabel
    obtain ⟨front, hfront⟩ := FeedState.replayed_concat hinit hreplayed
    rw [hfront, numberAfter_concat base front (by omega)]
    omega
  refine ⟨t, .head ⟨.message text, trivial, hu⟩ (.single ⟨.wake i, trivial, ht⟩), ?_, ?_⟩
  · rw [htfeed]
    exact hquiet.trans (hattempt.setTask i next)
  · rw [huid] at hcases
    rwa [htfeed]

/-- A handler that sleeps can be brought to give its book another id, as it makes five attempts at
most. -/
theorem DepthClient.Restorable.woken (h : client.Restorable symbol) (n : ℕ) {i retries : ℕ}
    {task : InitTask D} {snapshot : OrderBook D} (hs : (client.feed s).Intact)
    (hrunning : (client.feed s).aborted = false)
    (hsubscribed : (client.feed s).subscribed symbol = some task.book)
    (hid : ((client.feed s).books task.book).updateId = 1)
    (htask : (client.feed s).tasks[i]? = some task)
    (hstage : task.stage = .replaying snapshot retries) (hn : retries + n = 5) :
    ∃ t, client.Leads symbol s t ∧
      (client.feed s).Quiet (client.feed t) ∧ ((client.feed t).books task.book).updateId ≠ 1 := by
  induction n generalizing s retries task with
  | zero =>
    obtain ⟨t, hrun, hquiet, hwritten | ⟨hretries, -⟩⟩ :=
      h.attempt hs hrunning hsubscribed hid htask hstage
    · exact ⟨t, hrun, hquiet, hwritten⟩
    · exact absurd hn hretries
  | succ n ih =>
    obtain ⟨t, hrun, hquiet, hwritten | ⟨-, hnext, htask'⟩⟩ :=
      h.attempt hs hrunning hsubscribed hid htask hstage
    · exact ⟨t, hrun, hquiet, hwritten⟩
    · have ht : (client.feed t).Intact :=
        hrun.invariant hs fun _ _ _ hu _ hstep => h.intact hu hstep
      obtain ⟨u, hrest, hquiet', hwritten⟩ := @ih t (retries + 1)
        { task with stage := .replaying snapshot (retries + 1) } ht
        (hquiet.aborted.trans hrunning) (by rwa [hquiet.subscribed]) hnext htask' rfl (by omega)
      exact ⟨u, hrun.trans hrest, hquiet.trans hquiet', hwritten⟩

/-- A book that is not stuck can be brought out of its initialisation. -/
theorem DepthClient.Restorable.released (h : client.Restorable symbol)
    (hs : (client.feed s).Intact) (hrunning : (client.feed s).aborted = false)
    (hsubscribed : (client.feed s).subscribed symbol = some ref)
    (hstuck : ¬(client.feed s).Stuck ref) :
    ∃ t, client.Leads symbol s t ∧
      (client.feed s).Quiet (client.feed t) ∧ ((client.feed t).books ref).updateId ≠ 1 := by
  by_cases hid : ((client.feed s).books ref).updateId = 1
  · have hbusy : ∃ task ∈ (client.feed s).tasks, task.book = ref := by
      by_contra hnone
      exact hstuck ⟨hid, fun task htask hbook => hnone ⟨task, htask, hbook⟩⟩
    obtain ⟨task, hmem, rfl⟩ := hbusy
    obtain ⟨i, htask⟩ := List.mem_iff_getElem?.mp hmem
    cases hstage : task.stage with
    | fetching first retries =>
      obtain ⟨t, ht, hquiet, hzero⟩ := h.refuse hrunning htask hstage
      exact ⟨t, .single ⟨.depth i none, trivial, ht⟩, hquiet, by omega⟩
    | replaying snapshot retries =>
      have hfits := hs.fits task hmem
      rw [hstage] at hfits
      exact h.woken (5 - retries) hs hrunning hsubscribed hid htask hstage
        (Nat.add_sub_cancel' hfits)
  · exact ⟨s, .refl, .refl _, hid⟩

/-- A book that is not stuck can be brought to the start of an initialisation. -/
theorem DepthClient.Restorable.reset (h : client.Restorable symbol)
    (hs : (client.feed s).Intact) (hrunning : (client.feed s).aborted = false)
    (hsubscribed : (client.feed s).subscribed symbol = some ref)
    (hstuck : ¬(client.feed s).Stuck ref) :
    ∃ t, client.Leads symbol s t ∧
      (client.feed s).Quiet (client.feed t) ∧ ((client.feed t).books ref).updateId = 0 := by
  obtain ⟨t, hrun, hquiet, hone⟩ := h.released hs hrunning hsubscribed hstuck
  by_cases hzero : ((client.feed t).books ref).updateId = 0
  · exact ⟨t, hrun, hquiet, hzero⟩
  · obtain ⟨text, u, hu, hlost, hreset⟩ := h.lose (hquiet.aborted.trans hrunning)
      (hquiet.subscribed ▸ hsubscribed) (by omega)
    exact ⟨u, hrun.tail ⟨.message text, trivial, hu⟩, hquiet.trans hlost, hreset⟩

/-- The calls that wait for a book can be served, while the connection stays up and the symbol stays
watched, exactly if the book is not stuck. -/
theorem DepthClient.Restorable.servable_iff (h : client.Restorable symbol)
    (hs : (client.feed s).Intact) (hrunning : (client.feed s).aborted = false)
    (hsubscribed : (client.feed s).subscribed symbol = some ref)
    (hpending : (client.feed s).pending symbol = some senders) (hsenders : senders ≠ []) :
    (∃ t, client.Leads symbol s t ∧
      (client.feed s).Served symbol ref senders (client.feed t)) ↔ ¬(client.feed s).Stuck ref := by
  constructor
  · rintro ⟨t, hrun, hserved⟩ hstuck
    obtain ⟨-, hwaits⟩ := h.stuck hrun hs hstuck ⟨hsubscribed, [], by simpa using hpending⟩
    obtain ⟨later, hlater⟩ := hwaits.pending
    have hnil : senders ++ later = [] := Option.some.inj (hlater.symm.trans hserved.pending)
    exact hsenders (List.append_eq_nil_iff.mp hnil).1
  · intro hstuck
    obtain ⟨t, hrun, hquiet, hzero⟩ := h.reset hs hrunning hsubscribed hstuck
    have ht : (client.feed t).Intact :=
      hrun.invariant hs fun _ _ _ hu _ hstep => h.intact hu hstep
    obtain ⟨u, hrest, hserved⟩ := h.serve ht (hquiet.aborted.trans hrunning)
      (hquiet.subscribed ▸ hsubscribed) (hquiet.pending ▸ hpending) hzero
    exact ⟨u, hrun.trans hrest, hserved.running, hserved.pending, hquiet.handed ▸ hserved.handed,
      hserved.ready⟩

end Restorable

end Arbexpert.Base
