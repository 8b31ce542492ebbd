import Arbexpert.Base.Feed
import Arbexpert.Foundation.GuardedRun
import Arbexpert.Foundation.RangeLog

/-!
# Initialisations of a book

An event for a book that is not synchronised starts an initialisation. The events after it are
buffered while the snapshot is requested; then up to five attempts are made to find a buffered
event that continues the snapshot, and each attempt takes the buffer. The event that started the
initialisation is in no buffer.
-/

namespace Arbexpert.Base

open RangeLog

variable {σ D : Type*}

/-- An initialisation of the book of a symbol is suspended at a stage, beside other handlers. -/
structure FeedState.Initialising (s : FeedState D) (symbol : String) (ref : BookRef)
    (others : List (InitTask D)) (stage : Stage D) (buffer : List (OrderBookUpdate D)) :
    Prop where
  running : s.aborted = false
  subscribed : s.subscribed symbol = some ref
  updateId : (s.books ref).updateId = 1
  tasks : s.tasks = others ++ [⟨symbol, ref, stage⟩]
  init : s.init symbol = some buffer

/-- The initialisation is over, and leaves the book with an id. -/
structure FeedState.Initialised (s : FeedState D) (ref : BookRef) (others : List (InitTask D))
    (n : ℕ) : Prop where
  tasks : s.tasks = others
  updateId : (s.books ref).updateId = n

/-- What an attempt to replay a buffer leaves: after five attempts the book is reset; when no
update continues the snapshot the handler waits for the next attempt; otherwise the updates from
that one on are applied, and without a gap the book has the id of the last one. -/
def FeedState.Attempted (s : FeedState D) (symbol : String) (ref : BookRef)
    (others : List (InitTask D)) (buffer : List (OrderBookUpdate D)) (snapshot : OrderBook D)
    (retries : ℕ) : Prop :=
  if retries = 5 then s.Initialised ref others 0
  else
    match replayIndex snapshot.updateId buffer with
    | none => s.Initialising symbol ref others (.replaying snapshot (retries + 1)) []
    | some k =>
      Continues OrderBookUpdate.firstUpdateId OrderBookUpdate.lastUpdateId snapshot.updateId
          (buffer.drop k) → (∀ update ∈ buffer.drop k, update.lastUpdateId < 2 ^ 64) →
        s.Initialised ref others
          (lastAfter OrderBookUpdate.lastUpdateId snapshot.updateId (buffer.drop k))

/-- What the initialisations of an exchange client depend on: its steps, the state of its
handlers, the update that a message of a symbol carries, and whether a snapshot that is too old
is requested again after so many requests. -/
structure DepthClient (σ D : Type*) where
  step : σ → FeedAction D → Option σ
  feed : σ → FeedState D
  reads : String → Option Value → OrderBookUpdate D → Prop
  again : ℕ → Prop

/-- The steps from the start of an initialisation to the snapshot that is used, after a number
of requests, with the updates that arrive meanwhile and the id of the snapshot: responses that
are too old are requested again. Nothing is requested when the first id of the event is zero. -/
inductive Opening (client : DepthClient σ D) (symbol : String) (i first : ℕ) :
    ℕ → List (FeedAction D) → List (OrderBookUpdate D) → ℕ → Prop
  | unrequested (hfirst : first = 0) : Opening client symbol i first 0 [] [] 0
  | accepted {retries : ℕ} {snapshot : DepthSnapshot D} (hfirst : 0 < first)
      (hle : first ≤ snapshot.id) :
      Opening client symbol i first retries [.depth i (some snapshot)] [] snapshot.id
  | message {retries : ℕ} {actions : List (FeedAction D)} {updates : List (OrderBookUpdate D)}
      {snapshotId : ℕ} {text : Option Value} {update : OrderBookUpdate D} (hfirst : 0 < first)
      (hreads : client.reads symbol text update)
      (hrest : Opening client symbol i first retries actions updates snapshotId) :
      Opening client symbol i first retries (.message text :: actions) (update :: updates)
        snapshotId
  | old {retries : ℕ} {actions : List (FeedAction D)} {updates : List (OrderBookUpdate D)}
      {snapshotId : ℕ} {snapshot : DepthSnapshot D} (hold : snapshot.id < first)
      (hagain : client.again retries)
      (hrest : Opening client symbol i first (retries + 1) actions updates snapshotId) :
      Opening client symbol i first retries (.depth i (some snapshot) :: actions) updates
        snapshotId

/-- Messages with their updates. -/
abbrev Round (D : Type*) := List (Option Value × OrderBookUpdate D)

/-- The messages that arrive while a handler sleeps, and the end of its sleep. -/
def Round.actions (i : ℕ) (round : Round D) : List (FeedAction D) :=
  round.map (fun event => .message event.1) ++ [.wake i]

/-- An initialisation with its gap-free stream of events: the event that starts it, those that
arrive until the snapshot is there, and those that arrive in each of the sleeps after it. -/
structure Initialisation (client : DepthClient σ D) (symbol : String) where
  start : σ
  ref : BookRef
  running : (client.feed start).aborted = false
  subscribed : (client.feed start).subscribed symbol = some ref
  updateId : ((client.feed start).books ref).updateId = 0
  text : Option Value
  trigger : OrderBookUpdate D
  reads : client.reads symbol text trigger
  ordered : trigger.firstUpdateId ≤ trigger.lastUpdateId
  older : ∀ update ∈ ((client.feed start).init symbol).getD [],
    update.lastUpdateId < trigger.firstUpdateId
  requests : List (FeedAction D)
  fetched : List (OrderBookUpdate D)
  snapshotId : ℕ
  opening : Opening client symbol (client.feed start).tasks.length trigger.firstUpdateId 0 requests
    fetched snapshotId
  rounds : List (Round D)
  length_rounds : rounds.length = 5
  reads_rounds : ∀ round ∈ rounds, ∀ event ∈ round, client.reads symbol event.1 event.2
  gapFree : GapFree OrderBookUpdate.firstUpdateId OrderBookUpdate.lastUpdateId
    trigger.lastUpdateId (fetched ++ rounds.flatten.map Prod.snd)

namespace Initialisation

variable {client : DepthClient σ D} {symbol : String} (init : Initialisation client symbol)

/-- The events received up to the end of a number of sleeps. -/
def received (k : ℕ) : List (OrderBookUpdate D) :=
  init.trigger :: init.fetched ++ (init.rounds.take k).flatten.map Prod.snd

/-- The steps up to the end of a number of sleeps. -/
def actions (k : ℕ) : List (FeedAction D) :=
  .message init.text :: init.requests ++
    (init.rounds.take k).flatMap (Round.actions (client.feed init.start).tasks.length)

/-- An event received until the last attempt continues the snapshot. The handler sleeps once
more after that attempt. -/
def Continued : Prop :=
  ∃ update ∈ init.received 4,
    update.firstUpdateId ≤ init.snapshotId + 1 ∧ init.snapshotId + 1 ≤ update.lastUpdateId

/-- The initialisation ends with the book at an id, which may depend on the number of sleeps. -/
def EndsAt (id : ℕ → ℕ) : Prop :=
  ∃ k ≤ 5, ∃ t, GuardedRun.exec client.step init.start (init.actions k) = some t ∧
    (client.feed t).Initialised init.ref (client.feed init.start).tasks (id k)

/-- The initialisation ends with the book at the last id of the last event received. -/
def EndsAtLast : Prop :=
  init.EndsAt fun k => lastAfter OrderBookUpdate.lastUpdateId 0 (init.received k)

end Initialisation

section Attempts

variable {client : DepthClient σ D} {symbol : String} {ref : BookRef} {others : List (InitTask D)}
  {buffer : List (OrderBookUpdate D)} {snapshot : OrderBook D} {retries n : ℕ}

/-- An update is found that continues a snapshot, after updates that end before it. -/
theorem replayIndex_append {front back : List (OrderBookUpdate D)} {update : OrderBookUpdate D}
    (hfront : ∀ other ∈ front, other.lastUpdateId ≤ n) (hfirst : update.firstUpdateId ≤ n + 1)
    (hlast : n < update.lastUpdateId) (hlt : update.lastUpdateId < 2 ^ 64) :
    replayIndex n (front ++ update :: back) = some front.length := by
  have hsucc : succU64 n = n + 1 := succU64_of_lt (by omega)
  unfold replayIndex
  rw [List.findIdx?_append, List.findIdx?_eq_none_iff.mpr, Option.none_or, List.findIdx?_cons,
    if_pos]
  · simp
  · simp [hsucc, hfirst, hlast]
  · intro other hother
    have hle := hfront other hother
    simp only [decide_eq_false_iff_not]
    omega

/-- No update is found when each one ends before the snapshot or starts too late. -/
theorem replayIndex_eq_none {updates : List (OrderBookUpdate D)}
    (h : ∀ update ∈ updates, update.lastUpdateId ≤ n ∨
      n + 1 < update.firstUpdateId ∧ n + 1 < 2 ^ 64) : replayIndex n updates = none := by
  refine List.findIdx?_eq_none_iff.mpr fun update hupdate => ?_
  simp only [decide_eq_false_iff_not]
  rcases h update hupdate with hlast | ⟨hfirst, hlt⟩
  · omega
  · rw [succU64_of_lt hlt]
    omega

/-- An attempt finds the update that continues the snapshot. -/
theorem FeedState.Attempted.found {feed : FeedState D} (earlier : List (OrderBookUpdate D))
    {updates : List (OrderBookUpdate D)}
    (h : feed.Attempted symbol ref others (earlier ++ updates) snapshot retries)
    (hretries : retries ≠ 5)
    (hearlier : ∀ update ∈ earlier, update.lastUpdateId ≤ snapshot.updateId)
    (hgap : GapFree OrderBookUpdate.firstUpdateId OrderBookUpdate.lastUpdateId n updates)
    (hlt : ∀ update ∈ updates, update.lastUpdateId < 2 ^ 64) (hn : n ≤ snapshot.updateId)
    (hlast : snapshot.updateId < lastAfter OrderBookUpdate.lastUpdateId n updates) :
    feed.Initialised ref others (lastAfter OrderBookUpdate.lastUpdateId n updates) := by
  obtain ⟨front, update, back, rfl, hfront, hfirst, hupdate, hback⟩ := hgap.exists_split hn hlast
  have hindex : replayIndex snapshot.updateId (earlier ++ (front ++ update :: back)) =
      some (earlier ++ front).length := by
    rw [← List.append_assoc]
    refine replayIndex_append (fun other hother => ?_) hfirst hupdate (hlt update (by simp))
    exact (List.mem_append.mp hother).elim (hearlier other) (hfront other)
  rw [FeedState.Attempted, if_neg hretries, hindex] at h
  dsimp only at h
  rw [← List.append_assoc, List.drop_left] at h
  rw [lastAfter_append, lastAfter_cons]
  exact h ⟨hfirst, hupdate, hback.continues⟩ fun other hother =>
    hlt other (List.mem_append_right _ hother)

/-- An attempt finds nothing. -/
theorem FeedState.Attempted.missed {feed : FeedState D}
    (h : feed.Attempted symbol ref others buffer snapshot retries) (hretries : retries ≠ 5)
    (hbuffer : ∀ update ∈ buffer, update.lastUpdateId ≤ snapshot.updateId ∨
      snapshot.updateId + 1 < update.firstUpdateId ∧ snapshot.updateId + 1 < 2 ^ 64) :
    feed.Initialising symbol ref others (.replaying snapshot (retries + 1)) [] := by
  rw [FeedState.Attempted, if_neg hretries, replayIndex_eq_none hbuffer] at h
  exact h

/-- The last attempt was made before the last sleep. -/
theorem FeedState.Attempted.last {feed : FeedState D}
    (h : feed.Attempted symbol ref others buffer snapshot 5) : feed.Initialised ref others 0 := by
  rwa [FeedState.Attempted, if_pos rfl] at h

/-- A snapshot that is used is not older than the event that started the initialisation. -/
theorem Opening.le {i first snapshotId : ℕ} {actions : List (FeedAction D)}
    {updates : List (OrderBookUpdate D)}
    (h : Opening client symbol i first retries actions updates snapshotId) :
    first ≤ snapshotId := by
  induction h with
  | unrequested hfirst => exact hfirst.le
  | accepted _ hle => exact hle
  | message _ _ _ ih => exact ih
  | old _ _ _ ih => exact ih

/-- A suspended handler is replaced by the one that it leaves. -/
theorem FeedState.setTask_last {feed : FeedState D} {task : InitTask D}
    (h : feed.tasks = others ++ [task]) (next : Option (InitTask D)) :
    feed.setTask others.length next = { feed with tasks := others ++ next.toList } := by
  cases next with
  | none => simp [setTask, h, List.eraseIdx_append_of_length_le]
  | some next => simp [setTask, h]

/-- After an attempt a handler is suspended if one is left. -/
theorem FeedState.Attempted.addTask {feed : FeedState D} {next : Option (InitTask D)}
    (h : FeedState.Attempted { feed with tasks := others ++ next.toList } symbol ref others buffer
      snapshot retries) (htasks : feed.tasks = others) :
    (next.elim feed feed.addTask).Attempted symbol ref others buffer snapshot retries := by
  subst htasks
  cases next with
  | none => simpa using h
  | some next => exact h

/-- An attempt to replay the buffer resets the book, or waits for the next attempt, or hands over
the updates that continue the snapshot. -/
theorem FeedState.attempted_replayAttempt {feed : FeedState D} {task : InitTask D}
    (others : List (InitTask D)) (hrunning : feed.aborted = false)
    (hsubscribed : feed.subscribed task.symbol = some task.book)
    (hid : (feed.books task.book).updateId = 1) (hinit : feed.init task.symbol = some buffer)
    (snapshot : OrderBook D) (retries : ℕ) :
    match (feed.replayAttempt task snapshot retries).2 with
    | .ended => FeedState.Attempted
        { (feed.replayAttempt task snapshot retries).1 with tasks := others }
        task.symbol task.book others buffer snapshot retries
    | .sleeping next => FeedState.Attempted
        { (feed.replayAttempt task snapshot retries).1 with tasks := others ++ [next] }
        task.symbol task.book others buffer snapshot retries
    | .replay processed => processed ≠ [] ∧ ∀ result : FeedState D, result.tasks = others →
        (Continues OrderBookUpdate.firstUpdateId OrderBookUpdate.lastUpdateId snapshot.updateId
            processed → (∀ update ∈ processed, update.lastUpdateId < 2 ^ 64) →
          (result.books task.book).updateId =
            lastAfter OrderBookUpdate.lastUpdateId snapshot.updateId processed) →
        result.Attempted task.symbol task.book others buffer snapshot retries := by
  by_cases hretries : retries = 5
  · have hended : feed.replayAttempt task snapshot retries =
        (feed.setUpdateId task.book 0, .ended) := if_pos hretries
    rw [hended]
    dsimp only
    rw [FeedState.Attempted, if_pos hretries]
    exact ⟨rfl, by simp [FeedState.setUpdateId, FeedState.setBook]⟩
  cases hindex : replayIndex snapshot.updateId buffer with
  | none =>
    have hsleeping : feed.replayAttempt task snapshot retries = (feed.setInit task.symbol [],
        .sleeping { task with stage := .replaying snapshot (retries + 1) }) := by
      simp only [FeedState.replayAttempt, if_neg hretries, hinit, hindex]
    rw [hsleeping]
    dsimp only
    rw [FeedState.Attempted, if_neg hretries, hindex]
    exact ⟨hrunning, hsubscribed, hid, rfl, by simp [FeedState.setInit]⟩
  | some k =>
    have hreplay : feed.replayAttempt task snapshot retries =
        (feed.setInit task.symbol [], .replay (buffer.drop k)) := by
      simp only [FeedState.replayAttempt, if_neg hretries, hinit, hindex]
    have hlength := (List.findIdx?_eq_some_iff_getElem.mp hindex).choose
    rw [hreplay]
    refine ⟨by simpa using hlength, fun result htasks hresult => ?_⟩
    rw [FeedState.Attempted, if_neg hretries, hindex]
    exact fun hcontinues hlt => ⟨htasks, hresult hcontinues hlt⟩

/-- The book waits for its snapshot, and the updates from now on are buffered. -/
theorem FeedState.Initialising.opened {feed : FeedState D} (hrunning : feed.aborted = false)
    (hsubscribed : feed.subscribed symbol = some ref) (stage : Stage D) :
    (((feed.setUpdateId ref 1).openInit symbol).addTask ⟨symbol, ref, stage⟩).Initialising symbol
      ref feed.tasks stage ((feed.init symbol).getD []) where
  running := hrunning
  subscribed := hsubscribed
  updateId := by simp [addTask, openInit, setInit, setUpdateId, setBook]
  tasks := rfl
  init := by simp [addTask, openInit, setInit, setUpdateId, setBook]

section Initialising

variable {feed : FeedState D} {stage : Stage D}

/-- The suspended handler of an initialisation. -/
theorem FeedState.Initialising.getElem?_tasks
    (h : feed.Initialising symbol ref others stage buffer) :
    feed.tasks[others.length]? = some ⟨symbol, ref, stage⟩ := by
  rw [h.tasks, List.getElem?_append_right (Nat.le_refl _), Nat.sub_self]
  rfl

/-- An update is buffered. -/
theorem FeedState.Initialising.pushInit (h : feed.Initialising symbol ref others stage buffer)
    (update : OrderBookUpdate D) : (feed.pushInit symbol (some update)).Initialising symbol ref
      others stage (buffer ++ [update]) := by
  have hpush : feed.pushInit symbol (some update) = feed.setInit symbol (buffer ++ [update]) := by
    simp only [FeedState.pushInit, h.init]
  rw [hpush]
  exact ⟨h.running, h.subscribed, h.updateId, h.tasks, by simp [FeedState.setInit]⟩

/-- The handler is suspended again. -/
theorem FeedState.Initialising.setTask (h : feed.Initialising symbol ref others stage buffer)
    (next : Stage D) : (feed.setTask others.length (some ⟨symbol, ref, next⟩)).Initialising symbol
      ref others next buffer := by
  rw [FeedState.setTask_last h.tasks]
  exact ⟨h.running, h.subscribed, h.updateId, rfl, h.init⟩

end Initialising

/-- Nothing is requested for an event whose first id is zero. -/
theorem Opening.eq_nil {i snapshotId : ℕ} {actions : List (FeedAction D)}
    {updates : List (OrderBookUpdate D)}
    (h : Opening client symbol i 0 retries actions updates snapshotId) :
    actions = [] ∧ updates = [] ∧ snapshotId = 0 := by
  cases h with
  | unrequested => exact ⟨rfl, rfl, rfl⟩
  | accepted hfirst => exact absurd rfl hfirst.ne
  | message hfirst => exact absurd rfl hfirst.ne
  | old hold => exact absurd hold (Nat.not_lt_zero _)

/-- The updates that are in the buffer at the start end before the snapshot. -/
theorem Initialisation.older_le (init : Initialisation client symbol) :
    ∀ update ∈ ((client.feed init.start).init symbol).getD [],
      update.lastUpdateId ≤ init.snapshotId := by
  intro update hupdate
  have hlt := init.older update hupdate
  have hle := init.opening.le
  omega

/-- The last id received. -/
theorem Initialisation.lastAfter_received (init : Initialisation client symbol) (k : ℕ) :
    lastAfter OrderBookUpdate.lastUpdateId 0 (init.received k) =
      lastAfter OrderBookUpdate.lastUpdateId (lastAfter OrderBookUpdate.lastUpdateId
        init.trigger.lastUpdateId init.fetched) ((init.rounds.take k).flatten.map Prod.snd) := by
  rw [Initialisation.received, List.cons_append, lastAfter_cons, lastAfter_append]

/-- The events up to the end of a number of sleeps have no gap. -/
theorem Initialisation.gapFree_take (init : Initialisation client symbol) (k : ℕ) :
    GapFree OrderBookUpdate.firstUpdateId OrderBookUpdate.lastUpdateId init.trigger.lastUpdateId
      (init.fetched ++ (init.rounds.take k).flatten.map Prod.snd) := by
  have hgap := init.gapFree
  rw [← List.take_append_drop k init.rounds, List.flatten_append, List.map_append,
    ← List.append_assoc, gapFree_append] at hgap
  exact hgap.1

end Attempts

variable [LinearOrder D]

/-- How a client initialises the book of a symbol, step by step. -/
structure DepthClient.Lawful (client : DepthClient σ D) (symbol : String) : Prop where
  reads_lt : ∀ {text update}, client.reads symbol text update → update.lastUpdateId < 2 ^ 64
  trigger : ∀ {s ref text update}, (client.feed s).aborted = false →
    (client.feed s).subscribed symbol = some ref → ((client.feed s).books ref).updateId = 0 →
      client.reads symbol text update → ∃ t, client.step s (.message text) = some t ∧
        if 0 < update.firstUpdateId then
          (client.feed t).Initialising symbol ref (client.feed s).tasks
            (.fetching update.firstUpdateId 0) (((client.feed s).init symbol).getD [])
        else (client.feed t).Attempted symbol ref (client.feed s).tasks
          (((client.feed s).init symbol).getD []) OrderBook.empty 0
  message : ∀ {s ref others stage buffer text update},
    (client.feed s).Initialising symbol ref others stage buffer → client.reads symbol text update →
      ∃ t, client.step s (.message text) = some t ∧
        (client.feed t).Initialising symbol ref others stage (buffer ++ [update])
  old : ∀ {s ref others first retries buffer snapshot},
    (client.feed s).Initialising symbol ref others (.fetching first retries) buffer →
      snapshot.id < first → client.again retries →
        ∃ t, client.step s (.depth others.length (some snapshot)) = some t ∧
          (client.feed t).Initialising symbol ref others (.fetching first (retries + 1)) buffer
  accepted : ∀ {s ref others first retries buffer} {snapshot : DepthSnapshot D},
    (client.feed s).Initialising symbol ref others (.fetching first retries) buffer →
      first ≤ snapshot.id →
        ∃ t, client.step s (.depth others.length (some snapshot)) = some t ∧
          (client.feed t).Attempted symbol ref others buffer snapshot.book 0
  wake : ∀ {s ref others snapshot retries buffer},
    (client.feed s).Initialising symbol ref others (.replaying snapshot retries) buffer →
      ∃ t, client.step s (.wake others.length) = some t ∧
        (client.feed t).Attempted symbol ref others buffer snapshot retries

section Outcome

variable {client : DepthClient σ D} {symbol : String} {ref : BookRef} {others : List (InitTask D)}
  {s : σ} {buffer : List (OrderBookUpdate D)} {snapshot : OrderBook D} {stage : Stage D}
  {retries n : ℕ}

/-- Every event of an opening fits its type. -/
theorem Opening.reads_lt (h : client.Lawful symbol) {i first snapshotId : ℕ}
    {actions : List (FeedAction D)} {updates : List (OrderBookUpdate D)}
    (hopening : Opening client symbol i first retries actions updates snapshotId) :
    ∀ update ∈ updates, update.lastUpdateId < 2 ^ 64 := by
  induction hopening with
  | unrequested => exact nofun
  | accepted => exact nofun
  | message _ hreads _ ih =>
    intro update hupdate
    rcases List.mem_cons.mp hupdate with rfl | hupdate
    · exact h.reads_lt hreads
    · exact ih update hupdate
  | old _ _ _ ih => exact ih

/-- From the first request on to the first attempt. -/
theorem DepthClient.Lawful.opening (h : client.Lawful symbol) {first snapshotId : ℕ}
    {actions : List (FeedAction D)} {updates : List (OrderBookUpdate D)}
    (hopening : Opening client symbol others.length first retries actions updates snapshotId)
    (hfirst : 0 < first)
    (hs : (client.feed s).Initialising symbol ref others (.fetching first retries) buffer) :
    ∃ t snapshot, GuardedRun.exec client.step s actions = some t ∧
      snapshot.updateId = snapshotId ∧
        (client.feed t).Attempted symbol ref others (buffer ++ updates) snapshot 0 := by
  induction hopening generalizing s buffer with
  | unrequested hzero => exact absurd hzero hfirst.ne'
  | @accepted _ snapshot _ hle =>
    obtain ⟨t, ht, hattempt⟩ := h.accepted hs hle
    refine ⟨t, snapshot.book, ?_, rfl, ?_⟩
    · rw [GuardedRun.exec, ht]
      rfl
    · rwa [List.append_nil]
  | message _ hreads _ ih =>
    obtain ⟨t, ht, hnext⟩ := h.message hs hreads
    obtain ⟨u, snapshot, hu, hid, hattempt⟩ := ih hnext
    refine ⟨u, snapshot, ?_, hid, ?_⟩
    · rw [GuardedRun.exec, ht]
      exact hu
    · rwa [List.append_assoc] at hattempt
  | old hold hagain _ ih =>
    obtain ⟨t, ht, hnext⟩ := h.old hs hold hagain
    obtain ⟨u, snapshot, hu, hrest⟩ := ih hnext
    refine ⟨u, snapshot, ?_, hrest⟩
    rw [GuardedRun.exec, ht]
    exact hu

/-- The messages that arrive while the handler sleeps are buffered. -/
theorem DepthClient.Lawful.buffered (h : client.Lawful symbol) {round : Round D}
    (hreads : ∀ event ∈ round, client.reads symbol event.1 event.2)
    (hs : (client.feed s).Initialising symbol ref others stage buffer) :
    ∃ t, GuardedRun.exec client.step s (round.map fun event => .message event.1) = some t ∧
      (client.feed t).Initialising symbol ref others stage (buffer ++ round.map Prod.snd) := by
  induction round generalizing s buffer with
  | nil => exact ⟨s, rfl, by rwa [List.map_nil, List.append_nil]⟩
  | cons event rest ih =>
    obtain ⟨t, ht, hnext⟩ := h.message hs (hreads event List.mem_cons_self)
    obtain ⟨u, hu, hend⟩ := ih (fun other hother => hreads other (List.mem_cons_of_mem _ hother))
      hnext
    refine ⟨u, ?_, ?_⟩
    · rw [List.map_cons, GuardedRun.exec, ht]
      exact hu
    · rwa [List.append_assoc] at hend

/-- A sleep ends with an attempt on the messages that arrived. -/
theorem DepthClient.Lawful.round (h : client.Lawful symbol) {round : Round D}
    (hreads : ∀ event ∈ round, client.reads symbol event.1 event.2)
    (hs : (client.feed s).Initialising symbol ref others (.replaying snapshot retries) []) :
    ∃ t, GuardedRun.exec client.step s (Round.actions others.length round) = some t ∧
      (client.feed t).Attempted symbol ref others (round.map Prod.snd) snapshot retries := by
  obtain ⟨t, ht, hbuffered⟩ := h.buffered hreads hs
  obtain ⟨u, hu, hattempt⟩ := h.wake hbuffered
  refine ⟨u, ?_, hattempt⟩
  rw [Round.actions, GuardedRun.exec_append, ht, Option.bind_some, GuardedRun.exec, hu]
  rfl

/-- When an update continues the snapshot before the last attempt, one of the attempts finds it
and leaves the id of the last update that has arrived. -/
theorem DepthClient.Lawful.found (h : client.Lawful symbol) {rounds : List (Round D)}
    (hreads : ∀ round ∈ rounds, ∀ event ∈ round, client.reads symbol event.1 event.2)
    (hs : (client.feed s).Initialising symbol ref others (.replaying snapshot retries) [])
    (hretries : retries ≤ 5)
    (hgap : GapFree OrderBookUpdate.firstUpdateId OrderBookUpdate.lastUpdateId n
      (rounds.flatten.map Prod.snd)) (hn : n ≤ snapshot.updateId)
    (hlast : snapshot.updateId < lastAfter OrderBookUpdate.lastUpdateId n
      ((rounds.take (5 - retries)).flatten.map Prod.snd)) :
    ∃ k ≤ 5 - retries, ∃ t, GuardedRun.exec client.step s
        ((rounds.take k).flatMap (Round.actions others.length)) = some t ∧
      (client.feed t).Initialised ref others (lastAfter OrderBookUpdate.lastUpdateId n
        ((rounds.take k).flatten.map Prod.snd)) := by
  induction rounds generalizing s retries n with
  | nil =>
    rw [List.take_nil] at hlast
    exact absurd hlast (Nat.not_lt.mpr hn)
  | cons round rest ih =>
    obtain rfl | hfive := hretries.eq_or_lt
    · exact absurd hlast (Nat.not_lt.mpr hn)
    rw [List.flatten_cons, List.map_append, gapFree_append] at hgap
    obtain ⟨hround, hrest⟩ := hgap
    obtain ⟨t, ht, hattempt⟩ := h.round (hreads round List.mem_cons_self) hs
    have hlt : ∀ update ∈ round.map Prod.snd, update.lastUpdateId < 2 ^ 64 := by
      intro update hupdate
      obtain ⟨event, hevent, rfl⟩ := List.mem_map.mp hupdate
      exact h.reads_lt (hreads round List.mem_cons_self event hevent)
    by_cases hfound : snapshot.updateId < lastAfter OrderBookUpdate.lastUpdateId n
        (round.map Prod.snd)
    · refine ⟨1, by omega, t, ?_, ?_⟩
      · simpa using ht
      · have hend := FeedState.Attempted.found [] hattempt hfive.ne nofun hround hlt hn
          hfound
        simpa using hend
    · have hmissed := hattempt.missed hfive.ne fun update hupdate =>
        Or.inl ((hround.bounds update hupdate).2.trans (Nat.not_lt.mp hfound))
      have htake : 5 - retries = (5 - (retries + 1)) + 1 := by omega
      rw [htake, List.take_succ_cons, List.flatten_cons, List.map_append, lastAfter_append]
        at hlast
      obtain ⟨k, hk, u, hu, hend⟩ := ih
        (fun other hother => hreads other (List.mem_cons_of_mem _ hother)) hmissed hfive hrest
        (Nat.not_lt.mp hfound) hlast
      refine ⟨k + 1, by omega, u, ?_, ?_⟩
      · rw [List.take_succ_cons, List.flatMap_cons, GuardedRun.exec_append, ht]
        exact hu
      · rwa [List.take_succ_cons, List.flatten_cons, List.map_append, lastAfter_append]

/-- When every update starts too late for the snapshot, the attempts find nothing. -/
theorem DepthClient.Lawful.missed (h : client.Lawful symbol) {rounds : List (Round D)}
    (hreads : ∀ round ∈ rounds, ∀ event ∈ round, client.reads symbol event.1 event.2)
    (hs : (client.feed s).Initialising symbol ref others (.replaying snapshot retries) [])
    (hlate : ∀ update ∈ rounds.flatten.map Prod.snd,
      snapshot.updateId + 1 < update.firstUpdateId)
    (hlt : snapshot.updateId + 1 < 2 ^ 64) (hretries : retries + rounds.length ≤ 5) :
    ∃ t, GuardedRun.exec client.step s (rounds.flatMap (Round.actions others.length)) = some t ∧
      (client.feed t).Initialising symbol ref others
        (.replaying snapshot (retries + rounds.length)) [] := by
  induction rounds generalizing s retries with
  | nil => exact ⟨s, rfl, hs⟩
  | cons round rest ih =>
    rw [List.length_cons] at hretries
    obtain ⟨t, ht, hattempt⟩ := h.round (hreads round List.mem_cons_self) hs
    have hnext := hattempt.missed (by omega) fun update hupdate => Or.inr ⟨hlate update (by
      rw [List.flatten_cons, List.map_append]
      exact List.mem_append_left _ hupdate), hlt⟩
    obtain ⟨u, hu, hend⟩ := ih
      (fun other hother => hreads other (List.mem_cons_of_mem _ hother)) hnext
      (fun update hupdate => hlate update (by
        rw [List.flatten_cons, List.map_append]
        exact List.mem_append_right _ hupdate)) (by omega)
    refine ⟨u, ?_, ?_⟩
    · rw [List.flatMap_cons, GuardedRun.exec_append, ht]
      exact hu
    · rwa [List.length_cons, Nat.add_comm rest.length, ← Nat.add_assoc]

/-- Every initialisation comes to its first attempt. -/
theorem DepthClient.Lawful.start (h : client.Lawful symbol)
    (init : Initialisation client symbol) :
    ∃ s snapshot, GuardedRun.exec client.step init.start (.message init.text :: init.requests) =
        some s ∧ snapshot.updateId = init.snapshotId ∧
      (client.feed s).Attempted symbol init.ref (client.feed init.start).tasks
        (((client.feed init.start).init symbol).getD [] ++ init.fetched) snapshot 0 := by
  obtain ⟨s, hs, hstart⟩ := h.trigger init.running init.subscribed init.updateId init.reads
  have hopening := init.opening
  split at hstart
  · rename_i hfirst
    obtain ⟨t, snapshot, ht, hid, hattempt⟩ := h.opening hopening hfirst hstart
    refine ⟨t, snapshot, ?_, hid, hattempt⟩
    rw [GuardedRun.exec, hs]
    exact ht
  · rename_i hfirst
    rw [Nat.eq_zero_of_not_pos hfirst] at hopening
    obtain ⟨hrequests, hfetched, hid⟩ := hopening.eq_nil
    refine ⟨s, OrderBook.empty, ?_, hid.symm, ?_⟩
    · rw [hrequests, GuardedRun.exec, hs]
      rfl
    · rwa [hfetched, List.append_nil]

end Outcome

section Main

variable {client : DepthClient σ D} {symbol : String} (init : Initialisation client symbol)

/-- When the event that starts an initialisation ends at the snapshot or before it, the event
that continues the snapshot is buffered, and the book ends with the last id received. -/
theorem Initialisation.endsAtLast (h : client.Lawful symbol) (hcontinued : init.Continued)
    (hle : init.trigger.lastUpdateId ≤ init.snapshotId) : init.EndsAtLast := by
  obtain ⟨s, snapshot, hs, hid, hattempt⟩ := h.start init
  have hgap := init.gapFree
  rw [gapFree_append] at hgap
  obtain ⟨hfetched, hrounds⟩ := hgap
  have hlast : init.snapshotId < lastAfter OrderBookUpdate.lastUpdateId
      init.trigger.lastUpdateId (init.fetched ++ (init.rounds.take 4).flatten.map Prod.snd) := by
    obtain ⟨update, hupdate, -, hend⟩ := hcontinued
    rcases List.mem_cons.mp hupdate with rfl | hupdate
    · omega
    · have hbound := ((init.gapFree_take 4).bounds update hupdate).2
      omega
  have holder := init.older_le
  rw [← hid] at hle hlast holder
  by_cases hfound : snapshot.updateId < lastAfter OrderBookUpdate.lastUpdateId
      init.trigger.lastUpdateId init.fetched
  · refine ⟨0, by omega, s, ?_, ?_⟩
    · simpa [Initialisation.actions] using hs
    · dsimp only
      rw [init.lastAfter_received]
      have hend := FeedState.Attempted.found _ hattempt (Nat.zero_ne_add_one 4) holder hfetched
        (init.opening.reads_lt h) hle hfound
      exact hend
  · have hmissed := hattempt.missed (by omega) fun update hupdate => Or.inl <| by
      rcases List.mem_append.mp hupdate with hold | hnew
      · exact holder update hold
      · exact (hfetched.bounds update hnew).2.trans (Nat.not_lt.mp hfound)
    rw [lastAfter_append] at hlast
    obtain ⟨k, hk, t, ht, hend⟩ := h.found init.reads_rounds hmissed (by omega) hrounds
      (Nat.not_lt.mp hfound) hlast
    refine ⟨k, by omega, t, ?_, ?_⟩
    · rw [Initialisation.actions, GuardedRun.exec_append, hs]
      exact ht
    · dsimp only
      rw [init.lastAfter_received]
      exact hend

/-- When the event that starts an initialisation goes on beyond the snapshot, every attempt fails:
the handler is still suspended before the fifth sleep ends, and resets the book then. -/
theorem Initialisation.missed (h : client.Lawful symbol)
    (hlt : init.snapshotId < init.trigger.lastUpdateId) {k : ℕ} (hk : k ≤ 5) :
    ∃ t, GuardedRun.exec client.step init.start (init.actions k) = some t ∧
      if k = 5 then (client.feed t).Initialised init.ref (client.feed init.start).tasks 0
      else (client.feed t).tasks ≠ (client.feed init.start).tasks := by
  obtain ⟨s, snapshot, hs, hid, hattempt⟩ := h.start init
  have hlate : ∀ update ∈ init.fetched ++ init.rounds.flatten.map Prod.snd,
      snapshot.updateId + 1 < update.firstUpdateId := fun update hupdate => by
    have hbound := (init.gapFree.bounds update hupdate).1
    omega
  have hword : snapshot.updateId + 1 < 2 ^ 64 := by
    have htrigger := h.reads_lt init.reads
    omega
  have hmissed := hattempt.missed (by omega) fun update hupdate => by
    rcases List.mem_append.mp hupdate with hold | hnew
    · exact Or.inl (hid ▸ init.older_le update hold)
    · exact Or.inr ⟨hlate update (List.mem_append_left _ hnew), hword⟩
  -- the rounds before the fifth one end with an attempt that fails
  have hsleeps (m : ℕ) (hm : m ≤ 4) : ∃ t, GuardedRun.exec client.step init.start
      (init.actions m) = some t ∧ (client.feed t).Initialising symbol init.ref
        (client.feed init.start).tasks (.replaying snapshot (1 + m)) [] := by
    have hlength : (init.rounds.take m).length = m := by
      rw [List.length_take, init.length_rounds]
      omega
    have hsum : 1 + (init.rounds.take m).length ≤ 5 := by omega
    obtain ⟨t, ht, hend⟩ := h.missed
      (fun round hround => init.reads_rounds round (List.mem_of_mem_take hround)) hmissed
      (fun update hupdate => by
        obtain ⟨event, hevent, rfl⟩ := List.mem_map.mp hupdate
        obtain ⟨round, hround, hevent⟩ := List.mem_flatten.mp hevent
        refine hlate _ (List.mem_append_right _ (List.mem_map_of_mem ?_))
        exact List.mem_flatten.mpr ⟨round, List.mem_of_mem_take hround, hevent⟩)
      hword hsum
    refine ⟨t, ?_, ?_⟩
    · rw [Initialisation.actions, GuardedRun.exec_append, hs]
      exact ht
    · rwa [hlength] at hend
  rcases hk.eq_or_lt with rfl | hlt
  · obtain ⟨t, ht, hend⟩ := hsleeps 4 le_rfl
    have hfour : 4 < init.rounds.length := by
      rw [init.length_rounds]
      omega
    obtain ⟨u, hu, hreset⟩ := h.round (init.reads_rounds _ (List.getElem_mem hfour)) hend
    refine ⟨u, ?_, ?_⟩
    · rw [Initialisation.actions, List.take_succ_eq_append_getElem hfour, List.flatMap_append,
        ← List.append_assoc, GuardedRun.exec_append, ← Initialisation.actions, ht]
      simpa using hu
    · rw [if_pos rfl]
      exact hreset.last
  · obtain ⟨t, ht, hend⟩ := hsleeps k (by omega)
    refine ⟨t, ht, ?_⟩
    rw [if_neg hlt.ne, hend.tasks]
    simp

/-- Among the initialisations in which an event that arrives continues the snapshot, those end
with the last id received whose first event does not go on beyond the snapshot; the others end
with the book reset. -/
theorem Initialisation.endsAtLast_iff (h : client.Lawful symbol) (hcontinued : init.Continued) :
    (init.EndsAtLast ↔ init.trigger.lastUpdateId ≤ init.snapshotId) ∧
      (init.snapshotId < init.trigger.lastUpdateId → init.EndsAt fun _ => 0) := by
  have hreset (hlt : init.snapshotId < init.trigger.lastUpdateId) :
      init.EndsAt fun _ => 0 := by
    obtain ⟨t, ht, hend⟩ := init.missed h hlt le_rfl
    exact ⟨5, le_rfl, t, ht, hend⟩
  refine ⟨⟨fun hends => ?_, init.endsAtLast h hcontinued⟩, hreset⟩
  by_contra hlt
  rw [Nat.not_le] at hlt
  obtain ⟨k, hk, t, ht, hend⟩ := hends
  obtain ⟨u, hu, hmissed⟩ := init.missed h hlt hk
  cases Option.some.inj (ht.symm.trans hu)
  split at hmissed
  · have hid := hend.updateId.symm.trans hmissed.updateId
    have hgrows := (init.gapFree_take k).le_lastAfter
    dsimp only at hid
    rw [init.lastAfter_received, ← lastAfter_append] at hid
    omega
  · exact hmissed hend.tasks

end Main

end Arbexpert.Base
