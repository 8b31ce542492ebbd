import Arbexpert.Base.Feed
import Arbexpert.Foundation.GuardedRun
import Arbexpert.Foundation.Sentinel

/-!
# The phases of the live books

The id of a book also says what is going on with it: 0 stands for a book that is not synchronised,
1 for one whose snapshot is being fetched. The ids of the exchange are written to the same field, so
the phases of a live book can be told apart as long as no applied update brings these two numbers.
-/

namespace Arbexpert.Base

open Sentinel

variable {D : Type*}

/-- The number that updates lead to from the id of a book: the last `u` that is not zero, or the id
where all are zero, and one more for each later update that lists a level. -/
def numberAfter (n : ℕ) (updates : List (OrderBookUpdate D)) : ℕ :=
  let later := updates.reverse.takeWhile fun update => update.lastUpdateId = 0
  let last := updates.reverse.find? fun update => update.lastUpdateId ≠ 0
  succU64^[later.countP fun update => 0 < update.bids.length ∨ 0 < update.asks.length]
    (last.elim n OrderBookUpdate.lastUpdateId)

/-- Each update starts one after the number reached so far at the latest, and ends there at the
earliest. -/
def Contiguous (n : ℕ) : List (OrderBookUpdate D) → Prop
  | [] => True
  | update :: rest => (update.firstUpdateId ≤ succU64 n ∧ succU64 n ≤ update.lastUpdateId) ∧
    Contiguous (numberAfter n [update]) rest

/-- Whether updates follow without a gap is computed update by update. -/
instance Contiguous.decidable (n : ℕ) :
    ∀ updates : List (OrderBookUpdate D), Decidable (Contiguous n updates)
  | [] => isTrue trivial
  | update :: rest =>
    have := Contiguous.decidable (numberAfter n [update]) rest
    inferInstanceAs (Decidable ((update.firstUpdateId ≤ succU64 n ∧
      succU64 n ≤ update.lastUpdateId) ∧ Contiguous (numberAfter n [update]) rest))

/-- Updates that a step applies to a book to the end, with the id from which they go on. -/
structure Application (D : Type*) where
  book : BookRef
  base : ℕ
  updates : List (OrderBookUpdate D)

/-- The book that updates are applied to, with the number that they lead to. -/
def Application.label (application : Application D) : BookRef × ℕ :=
  (application.book, numberAfter application.base application.updates)

/-- No update leads nowhere. -/
theorem numberAfter_nil (n : ℕ) : numberAfter n ([] : List (OrderBookUpdate D)) = n := rfl

/-- The last update counts alone when its `u` is not zero, and else from the number that the
updates before it lead to. -/
theorem numberAfter_append_singleton (n : ℕ) (updates : List (OrderBookUpdate D))
    (update : OrderBookUpdate D) : numberAfter n (updates ++ [update]) =
      if 0 < update.lastUpdateId then update.lastUpdateId
      else if 0 < update.bids.length ∨ 0 < update.asks.length then
        succU64 (numberAfter n updates)
      else numberAfter n updates := by
  simp only [numberAfter]
  rw [List.reverse_append, List.reverse_singleton, List.singleton_append]
  by_cases hlast : update.lastUpdateId = 0
  · rw [if_neg (by omega), List.takeWhile_cons_of_pos (by simpa using hlast),
      List.find?_cons_of_neg (by simpa using hlast), List.countP_cons]
    by_cases hlevels : 0 < update.bids.length ∨ 0 < update.asks.length
    · simp only [hlevels, decide_true, if_true, Function.iterate_succ_apply']
    · simp only [hlevels, decide_false, Bool.false_eq_true, if_false, Nat.add_zero]
  · rw [if_pos (by omega), List.takeWhile_cons_of_neg (by simpa using hlast),
      List.find?_cons_of_pos (by simpa using hlast)]
    rfl

/-- Updates lead on from the number that earlier ones lead to. -/
theorem numberAfter_append (n : ℕ) (updates later : List (OrderBookUpdate D)) :
    numberAfter n (updates ++ later) = numberAfter (numberAfter n updates) later := by
  induction later using List.reverseRecOn with
  | nil => rw [List.append_nil, numberAfter_nil]
  | append_singleton later update ih =>
    rw [← List.append_assoc, numberAfter_append_singleton, numberAfter_append_singleton, ih]

namespace FeedState

/-- The ids of the books, the live books, and those that a handler is suspended for. -/
def cells (s : FeedState D) : Cells String BookRef where
  live := s.subscribed
  number ref := (s.books ref).updateId
  busy := s.tasks.map InitTask.book
  opened := {ref | ref.2 < s.opened ref.1}

/-- Every suspended handler has a buffer. -/
def Buffered (s : FeedState D) : Prop := ∀ task ∈ s.tasks, (s.init task.symbol).isSome

/-- The task that goes on to replay its buffer when it is continued, with the id of its snapshot. -/
def replaying (s : FeedState D) (i : ℕ) (response : Option (Option (DepthSnapshot D))) :
    Option (InitTask D × ℕ) :=
  (s.tasks[i]?).bind fun task =>
    match task.stage, response with
    | .fetching initialEventU _, some response => response.bind fun snapshot =>
      if snapshot.id < initialEventU then none else some (task, snapshot.id)
    | .replaying snapshot retries, none =>
      if retries = 5 then none else some (task, snapshot.updateId)
    | _, _ => none

/-- The buffered updates that overlap or follow a snapshot, to be applied on from an id. -/
def replayApplication (s : FeedState D) (symbol : String) (ref : BookRef) (base snapshotId : ℕ) :
    Option (Application D) :=
  if (s.replayed symbol snapshotId).isEmpty then none
  else some ⟨ref, base, s.replayed symbol snapshotId⟩

/-- The live books have id one exactly while one handler is suspended for them. -/
def PhasesAgree (s : FeedState D) : Prop :=
  ∀ name ref, s.subscribed name = some ref →
    ((s.books ref).updateId = 1 ↔ (s.tasks.countP fun task => task.book = ref) = 1)

/-- A step leaves the phases of the live books in agreement with the suspended handlers, and a live
book that it synchronises with the id of a write. -/
structure Distinguishes (s : FeedState D) (applied : Option (Application D)) (t : FeedState D) :
    Prop where
  agree : t.PhasesAgree
  synchronised : ∀ application, applied = some application →
    (∃ name, s.subscribed name = some application.book) →
      2 ≤ (t.books application.book).updateId

/-- The updates that are applied to a live book lead to the id of a write. -/
def Synchronises (s : FeedState D) (applied : Option (Application D)) : Prop :=
  ∀ application, applied = some application →
    (∃ name, s.subscribed name = some application.book) →
      2 ≤ numberAfter application.base application.updates

/-- A step moves the cells, and leaves every suspended handler with a buffer. -/
structure Moves (s : FeedState D) (label : Option (BookRef × ℕ)) (t : FeedState D) : Prop where
  move : Move s.cells label t.cells
  buffered : t.Buffered

/-- The suspended handlers are the same, and no buffer is lost. -/
structure Keeps (s t : FeedState D) : Prop where
  tasks : t.tasks = s.tasks
  init : ∀ name, (s.init name).isSome → (t.init name).isSome

/-- What a handler does while it runs on: it is suspended again, or gives up, or writes its book
with a number. -/
inductive RunsOn (s : FeedState D) (task : InitTask D) :
    FeedState D → Option (InitTask D) → Option (BookRef × ℕ) → Prop
  | suspended {t : FeedState D} (stage : Stage D) (hkeeps : s.Keeps t)
      (hcells : t.cells = s.cells) : RunsOn s task t (some { task with stage }) none
  | gaveUp {t : FeedState D} (hkeeps : s.Keeps t) (hcells : t.cells = s.cells.write task.book 0) :
      RunsOn s task t none none
  | finished {t : FeedState D} (n : ℕ) (hkeeps : s.Keeps t)
      (hcells : t.cells = s.cells.write task.book n) : RunsOn s task t none (some (task.book, n))

variable {s t : FeedState D} {label : Option (BookRef × ℕ)}

/-- Writing a book writes its id. -/
@[simp] theorem cells_setBook (s : FeedState D) (ref : BookRef) (book : OrderBook D) :
    (s.setBook ref book).cells = s.cells.write ref book.updateId := by
  have hnumber : (fun other => (Function.update s.books ref book other).updateId) =
      Function.update (fun other => (s.books other).updateId) ref book.updateId :=
    Function.comp_update OrderBook.updateId s.books ref book
  unfold cells Cells.write setBook
  simp only [hnumber]

/-- Writing an id. -/
@[simp] theorem cells_setUpdateId (s : FeedState D) (ref : BookRef) (n : ℕ) :
    (s.setUpdateId ref n).cells = s.cells.write ref n := s.cells_setBook ref _

/-- Buffering an update changes no phase. -/
@[simp] theorem cells_pushInit (s : FeedState D) (symbol : String)
    (update : Option (OrderBookUpdate D)) : (s.pushInit symbol update).cells = s.cells := by
  unfold pushInit
  split <;> rfl

/-- Sending a book changes no phase. -/
@[simp] theorem cells_deliver (s : FeedState D) (symbol : String) (ref : BookRef) :
    (s.deliver symbol ref).cells = s.cells := by
  unfold deliver
  split <;> rfl

/-- A suspended handler is busy with its book. -/
@[simp] theorem cells_addTask (s : FeedState D) (task : InitTask D) :
    (s.addTask task).cells = { s.cells with busy := s.cells.busy ++ [task.book] } := by
  simp only [cells, addTask, List.map_append, List.map_cons, List.map_nil]

/-- A handler that has ended is no longer busy. -/
@[simp] theorem cells_setTask_none (s : FeedState D) (i : ℕ) :
    (s.setTask i none).cells = { s.cells with busy := s.cells.busy.eraseIdx i } := by
  simp only [cells, FeedState.setTask, List.eraseIdx_map]

/-- A handler that is suspended again is busy with the same book. -/
theorem cells_setTask_some {i : ℕ} {task : InitTask D} (hi : s.cells.busy[i]? = some task.book) :
    (s.setTask i (some task)).cells = s.cells := by
  obtain ⟨hlt, hget⟩ := List.getElem?_eq_some_iff.mp hi
  have hbusy : (s.tasks.set i task).map InitTask.book = s.tasks.map InitTask.book := by
    rw [List.map_set, ← hget]
    exact List.set_getElem_self hlt
  simp only [cells, FeedState.setTask, hbusy]

/-- The phases agree with the handlers exactly if the numbers do with the workers. -/
theorem phasesAgree_iff : s.PhasesAgree ↔ s.cells.Agree := by
  unfold PhasesAgree Cells.Agree
  simp only [cells, List.count_eq_countP, List.countP_map, Function.comp_def, beq_eq_decide]

/-- Nothing happens. -/
theorem Keeps.refl (s : FeedState D) : s.Keeps s := ⟨rfl, fun _ h => h⟩

/-- Writing a book. -/
theorem Keeps.setBook (h : s.Keeps t) (ref : BookRef) (book : OrderBook D) :
    s.Keeps (t.setBook ref book) := ⟨h.tasks, h.init⟩

/-- Writing a buffer. -/
theorem Keeps.setInit (h : s.Keeps t) (symbol : String) (updates : List (OrderBookUpdate D)) :
    s.Keeps (t.setInit symbol updates) where
  tasks := h.tasks
  init name hname := by
    by_cases heq : name = symbol
    · simp [FeedState.setInit, heq]
    · simpa [FeedState.setInit, Function.update_of_ne heq] using h.init name hname

/-- The suspended handlers keep their buffers. -/
theorem Buffered.keeps (h : s.Buffered) (hkeeps : s.Keeps t) : t.Buffered := by
  intro task htask
  rw [hkeeps.tasks] at htask
  exact hkeeps.init _ (h task htask)

/-- A step that keeps the suspended handlers. -/
theorem Keeps.moves (hkeeps : s.Keeps t) (h : s.Buffered) (hmove : Move s.cells label t.cells) :
    s.Moves label t := ⟨hmove, h.keeps hkeeps⟩

/-- A step that changes no phase. -/
theorem Keeps.rests (hkeeps : s.Keeps t) (h : s.Buffered) (hcells : t.cells = s.cells) :
    s.Moves none t := hkeeps.moves h (hcells ▸ .rest)

/-- Buffering an update. -/
theorem moves_pushInit (h : s.Buffered) (symbol : String) (update : Option (OrderBookUpdate D)) :
    s.Moves none (s.pushInit symbol update) := by
  refine Keeps.rests ?_ h (s.cells_pushInit symbol update)
  unfold pushInit
  split
  · exact (Keeps.refl s).setInit _ _
  · exact Keeps.refl s

/-- Sending a book after a step. -/
theorem Moves.deliver (h : s.Moves label t) (symbol : String) (ref : BookRef) :
    s.Moves label (t.deliver symbol ref) := by
  constructor
  · rw [cells_deliver]
    exact h.move
  · unfold FeedState.deliver
    split <;> exact h.buffered

/-- A handler that runs on from a suspension. -/
theorem RunsOn.setTask {task : InitTask D} {next : Option (InitTask D)} {i : ℕ}
    (hruns : s.RunsOn task t next label) (h : s.Buffered) (htask : s.tasks[i]? = some task) :
    s.Moves label (t.setTask i next) := by
  have hbusy : s.cells.busy[i]? = some task.book := by simp [cells, htask]
  have hended {ended : FeedState D} (hkeeps : s.Keeps ended) : (ended.setTask i none).Buffered :=
    fun other hother => h.keeps hkeeps other (List.mem_of_mem_eraseIdx hother)
  cases hruns with
  | suspended stage hkeeps hcells =>
    refine ⟨?_, fun other hother => ?_⟩
    · rw [cells_setTask_some (hcells ▸ hbusy), hcells]
      exact .rest
    · rcases List.mem_or_eq_of_mem_set hother with hold | rfl
      · exact h.keeps hkeeps other hold
      · exact hkeeps.init _ (h task (List.mem_of_getElem? htask))
  | gaveUp hkeeps hcells =>
    refine ⟨?_, hended hkeeps⟩
    rw [cells_setTask_none, hcells]
    exact .stop i task.book hbusy
  | finished n hkeeps hcells =>
    refine ⟨?_, hended hkeeps⟩
    rw [cells_setTask_none, hcells]
    exact .finish i task.book n hbusy

/-- A handler that starts on a book that is not synchronised, and is suspended or runs to its
end. -/
theorem RunsOn.start (task : InitTask D) {next : Option (InitTask D)}
    (hruns : ((s.setUpdateId task.book 1).openInit task.symbol).RunsOn task t next label)
    (h : s.Buffered) (hzero : (s.books task.book).updateId = 0)
    (hopened : task.book.2 < s.opened task.book.1) :
    s.Moves label (next.elim t t.addTask) := by
  have hopen : s.Keeps ((s.setUpdateId task.book 1).openInit task.symbol) :=
    ((Keeps.refl s).setBook _ _).setInit _ _
  have hstart : ((s.setUpdateId task.book 1).openInit task.symbol).cells =
      s.cells.write task.book 1 := s.cells_setUpdateId task.book 1
  have hbuffered := h.keeps hopen
  have hended {n : ℕ} (hcells : t.cells =
      ((s.setUpdateId task.book 1).openInit task.symbol).cells.write task.book n) :
      t.cells = s.cells.write task.book n := by
    rw [hcells, hstart]
    simp only [Cells.write, Function.update_idem]
  cases hruns with
  | suspended stage hkeeps hcells =>
    refine ⟨?_, fun other hother => ?_⟩
    · rw [Option.elim_some, cells_addTask, hcells, hstart]
      exact .start task.book hzero hopened
    · rcases List.mem_append.mp hother with hold | hnew
      · exact hbuffered.keeps hkeeps other hold
      · cases List.mem_singleton.mp hnew
        apply hkeeps.init
        simp [openInit, FeedState.setInit]
  | gaveUp hkeeps hcells =>
    refine ⟨?_, hbuffered.keeps hkeeps⟩
    rw [Option.elim_none, hended hcells]
    exact .reset task.book (by rw [show s.cells.number task.book = 0 from hzero]; decide)
  | finished n hkeeps hcells =>
    refine ⟨?_, hbuffered.keeps hkeeps⟩
    rw [Option.elim_none, hended hcells]
    exact .settle task.book n (by rw [show s.cells.number task.book = 0 from hzero]; decide)

/-- A buffer that was made for a symbol without one has nothing to replay. -/
theorem replayApplication_openInit (s : FeedState D) (symbol : String) (ref : BookRef)
    (n base snapshotId : ℕ) :
    ((s.setUpdateId ref n).openInit symbol).replayApplication symbol ref base snapshotId =
      s.replayApplication symbol ref base snapshotId := by
  have hreplayed : ((s.setUpdateId ref n).openInit symbol).replayed symbol snapshotId =
      s.replayed symbol snapshotId := by
    simp only [replayed, openInit, FeedState.setInit, Function.update_self, Option.elim_some]
    cases hinit : s.init symbol with
    | none =>
      simp [setUpdateId, FeedState.setBook, hinit, replayIndex]
    | some pending =>
      simp [setUpdateId, FeedState.setBook, hinit]
  simp only [replayApplication, hreplayed]

/-- What an attempt to replay the buffer of a task does. -/
theorem replayAttempt_cases {task : InitTask D} (h : (s.init task.symbol).isSome)
    (snapshot : OrderBook D) (retries : ℕ) :
    retries = 5 ∧
        s.replayAttempt task snapshot retries = (s.setUpdateId task.book 0, .ended) ∨
      retries ≠ 5 ∧ s.replayed task.symbol snapshot.updateId = [] ∧
        s.replayAttempt task snapshot retries = (s.setInit task.symbol [],
          .sleeping { task with stage := .replaying snapshot (retries + 1) }) ∨
      retries ≠ 5 ∧ s.replayed task.symbol snapshot.updateId ≠ [] ∧
        s.replayAttempt task snapshot retries = (s.setInit task.symbol [],
          .replay (s.replayed task.symbol snapshot.updateId)) := by
  obtain ⟨pending, hpending⟩ := Option.isSome_iff_exists.mp h
  by_cases hretries : retries = 5
  · exact Or.inl ⟨hretries, if_pos hretries⟩
  · cases hindex : replayIndex snapshot.updateId pending with
    | none =>
      refine Or.inr (Or.inl ⟨hretries, ?_, ?_⟩)
      · simp [replayed, hpending, hindex]
      · simp [replayAttempt, hretries, hpending, hindex]
    | some k =>
      have hattempt : s.replayAttempt task snapshot retries = (s.setInit task.symbol [],
          .replay (s.replayed task.symbol snapshot.updateId)) := by
        simp [replayAttempt, replayed, hretries, hpending, hindex]
      exact Or.inr (Or.inr ⟨hretries,
        (replayAttempt_eq_replay (congrArg Prod.snd hattempt)).2.2, hattempt⟩)

/-- A response that is not too old lets its task go on to the replay. -/
theorem replaying_fetching {i initialEventU retries : ℕ} {task : InitTask D}
    (htask : s.tasks[i]? = some task) (hstage : task.stage = .fetching initialEventU retries)
    (response : Option (DepthSnapshot D)) (replay : InitTask D × ℕ → Option (Application D)) :
    (s.replaying i (some response)).bind replay = response.bind fun snapshot =>
      if snapshot.id < initialEventU then none else replay (task, snapshot.id) := by
  cases response with
  | none => simp [replaying, htask, hstage]
  | some snapshot =>
    by_cases hold : snapshot.id < initialEventU <;> simp [replaying, htask, hstage, hold]

/-- The end of its sleep lets a task go on to the replay, except after the last attempt. -/
theorem replaying_sleeping {i retries : ℕ} {task : InitTask D} {snapshot : OrderBook D}
    (htask : s.tasks[i]? = some task) (hstage : task.stage = .replaying snapshot retries)
    (replay : InitTask D × ℕ → Option (Application D)) :
    (s.replaying i none).bind replay =
      if retries = 5 then none else replay (task, snapshot.updateId) := by
  by_cases hretries : retries = 5 <;> simp [replaying, htask, hstage, hretries]

/-- A watch call makes at most a book of its own, which is not synchronised. -/
theorem move_watch (s : FeedState D) (name : String) (waiter : ℕ) (subscribes sends : Bool) :
    Move s.cells none (s.watch name waiter subscribes sends).cells := by
  have hopened : insert (name, s.opened name) s.cells.opened ⊆
      {ref : BookRef | ref.2 < Function.update s.opened name (s.opened name + 1) ref.1} := by
    rintro ref (rfl | href)
    · simp
    · have hlt : ref.2 < s.opened ref.1 := href
      by_cases heq : ref.1 = name
      · rw [heq] at hlt
        simp only [Set.mem_ofPred_eq, heq, Function.update_self]
        omega
      · simpa only [Set.mem_ofPred_eq, Function.update_of_ne heq] using hlt
  have hnew : (name, s.opened name) ∉ s.cells.opened := lt_irrefl (s.opened name)
  have hnumber : (fun ref => (Function.update s.books (name, s.opened name) OrderBook.empty
      ref).updateId) = Function.update s.cells.number (name, s.opened name) 0 :=
    Function.comp_update OrderBook.updateId s.books _ _
  unfold watch
  split
  · split <;> exact .rest
  · split
    · unfold cells
      simp only [hnumber]
      exact .create name _ _ hnew hopened
    · exact .grow _ ((Set.subset_insert _ _).trans hopened)

/-- A watch call keeps the suspended handlers. -/
theorem keeps_watch (s : FeedState D) (name : String) (waiter : ℕ) (subscribes sends : Bool) :
    s.Keeps (s.watch name waiter subscribes sends) := by
  unfold watch
  split <;> split <;> exact ⟨rfl, fun _ h => h⟩

/-- An unwatch call forgets at most its symbol. -/
theorem move_unwatch (s : FeedState D) (name : String) (unsubscribes : Bool) :
    Move s.cells none (s.unwatch name unsubscribes).cells := by
  unfold unwatch
  split
  · exact .rest
  · split
    · refine .forget _ fun other ref href => ?_
      by_cases heq : other = name
      · subst heq
        exact absurd ((Function.update_self other none s.subscribed).symm.trans href)
          (Option.some_ne_none ref).symm
      · exact (Function.update_of_ne heq none s.subscribed).symm.trans href
    · exact .rest

/-- An unwatch call keeps the suspended handlers. -/
theorem keeps_unwatch (s : FeedState D) (name : String) (unsubscribes : Bool) :
    s.Keeps (s.unwatch name unsubscribes) := by
  unfold unwatch
  split
  · exact Keeps.refl s
  · split <;> exact ⟨rfl, fun _ h => h⟩

/-- A connection failure forgets all symbols, and drops the suspended handlers. -/
theorem moves_onFail (s : FeedState D) : s.Moves none s.onFail := ⟨.fail, nofun⟩

/-- A watcher that resumes changes no phase. -/
theorem moves_resume [LinearOrder D] (h : s.Buffered) {k : ℕ} (hresume : s.resume k = some t) :
    s.Moves none t := by
  obtain ⟨_, _, rfl⟩ := Option.map_eq_some_iff.mp hresume
  exact Keeps.rests ⟨rfl, fun _ h => h⟩ h rfl

/-- A new sub-client has neither live books nor suspended handlers. -/
theorem phased_start : (start : FeedState D).cells.Sound ∧ (start : FeedState D).Buffered ∧
    (start : FeedState D).PhasesAgree :=
  ⟨⟨nofun, List.nodup_nil, nofun, nofun⟩, nofun, nofun⟩

/-- A step that moves the phases as the applied updates say keeps them apart exactly if the updates
lead a live book to the id of a write. -/
theorem Moves.distinguishes_iff {applied : Option (Application D)}
    (hmoves : s.Moves (applied.map Application.label) t) (hsound : s.cells.Sound)
    (hagree : s.PhasesAgree) : s.Distinguishes applied t ↔ s.Synchronises applied := by
  have hnumber (application : Application D) (happlied : applied = some application) :
      (t.books application.book).updateId =
        numberAfter application.base application.updates := by
    have hmove := hmoves.move
    rw [happlied] at hmove
    exact hmove.settled
  constructor
  · intro h application happlied hlive
    rw [← hnumber application happlied]
    exact h.synchronised application happlied hlive
  · intro h
    refine ⟨phasesAgree_iff.mpr ?_, fun application happlied hlive => ?_⟩
    · refine hmoves.move.agree hsound (phasesAgree_iff.mp hagree) fun ref n hlabel hlive => ?_
      obtain ⟨application, happlied, hpair⟩ := Option.map_eq_some_iff.mp hlabel
      cases hpair
      have htwo := h application happlied hlive
      omega
    · rw [hnumber application happlied]
      exact h application happlied hlive

/-- For a handler whose steps move the phases as the applied updates say, every step of a run keeps
the phases of the live books apart exactly if every step leads the live books that it synchronises
to the id of a write. -/
theorem stepsDistinguish_iff {σ : Type*} (feed : σ → FeedState D)
    {step : σ → FeedAction D → Option σ}
    {applied : FeedState D → FeedAction D → Option (Application D)}
    (hmoves : ∀ s action t, (feed s).Buffered → (feed s).cells.Sound → step s action = some t →
      (feed s).Moves ((applied (feed s) action).map Application.label) (feed t))
    {s : σ} (hstart : feed s = start) (actions : List (FeedAction D)) :
    GuardedRun.StepsSatisfy step (fun s action => ∀ t, step s action = some t →
        (feed s).Distinguishes (applied (feed s) action) (feed t)) s actions ↔
      GuardedRun.StepsSatisfy step
        (fun s action => (feed s).Synchronises (applied (feed s) action)) s actions := by
  refine GuardedRun.stepsSatisfy_iff (I := fun s => (feed s).cells.Sound ∧ (feed s).Buffered ∧
    (feed s).PhasesAgree) (fun s action t hs hstep => ?_) (hstart ▸ phased_start)
  obtain ⟨hsound, hbuffered, hagree⟩ := hs
  have hmove := hmoves s action t hbuffered hsound hstep
  have hiff := hmove.distinguishes_iff hsound hagree
  constructor
  · constructor
    · exact fun h => hiff.mp (h t hstep)
    · intro h u hu
      cases Option.some.inj (hstep.symm.trans hu)
      exact hiff.mpr h
  · exact fun h => ⟨hmove.move.sound hsound, hmove.buffered, (h t hstep).agree⟩

end FeedState

variable [LinearOrder D] [Zero D]

/-- An update writes the number that it leads to. -/
theorem updateId_applyUpdate_eq (book : OrderBook D) (update : OrderBookUpdate D) :
    (book.applyUpdate update).updateId = numberAfter book.updateId [update] :=
  (numberAfter_append_singleton book.updateId [] update).symm

/-- Updates that are applied one after the other write the number that they lead to. -/
theorem updateId_foldl_applyUpdate (book : OrderBook D) (updates : List (OrderBookUpdate D)) :
    (updates.foldl OrderBook.applyUpdate book).updateId = numberAfter book.updateId updates := by
  induction updates generalizing book with
  | nil => rfl
  | cons update rest ih =>
    rw [List.foldl_cons, ih, updateId_applyUpdate_eq, ← numberAfter_append, List.singleton_append]

end Arbexpert.Base
