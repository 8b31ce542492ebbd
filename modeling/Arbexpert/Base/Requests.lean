import Arbexpert.Base.Initialisation
import Arbexpert.Foundation.Accounting
import Arbexpert.Foundation.Potential

/-!
# What a message costs

Only a message starts an initialisation. An initialisation sleeps five times at most before it gives
up. When it also gives up after five snapshots that are too old, it makes five requests at most; so
the requests and the sleeps of a run are paid by its messages.
-/

namespace Arbexpert.Base

variable {D : Type*}

/-- The responses that a suspended handler may still wait for, when it makes five requests. -/
def Stage.requestsLeft : Stage D → ℕ
  | .fetching _ retries => 5 - retries
  | .replaying _ _ => 0

/-- The sleeps that a suspended handler may still come out of. -/
def Stage.sleepsLeft : Stage D → ℕ
  | .fetching _ _ => 5
  | .replaying _ retries => 6 - retries

/-- A handler that makes five requests has made fewer. -/
def Stage.RequestsFit : Stage D → Prop
  | .fetching _ retries => retries < 5
  | .replaying _ _ => True

/-- A handler has slept five times at most. -/
def Stage.SleepsFit : Stage D → Prop
  | .fetching _ _ => True
  | .replaying _ retries => retries ≤ 5

/-- What becomes of a list of handlers when one of them has run on. -/
def replaceTask (tasks : List (InitTask D)) (i : ℕ) : Option (InitTask D) → List (InitTask D)
  | none => tasks.eraseIdx i
  | some task => tasks.set i task

/-- What an action does to the suspended handlers; a handler that got a snapshot that is too old
may request another one after some numbers of requests only. -/
inductive HandlerStep (again : ℕ → Prop) (tasks : List (InitTask D)) :
    FeedAction D → List (InitTask D) → Prop
  | fetch (text : Option Value) {task : InitTask D} {first : ℕ}
      (hstage : task.stage = .fetching first 0) :
      HandlerStep again tasks (.message text) (tasks ++ [task])
  | sleep (text : Option Value) {task : InitTask D} {book : OrderBook D}
      (hstage : task.stage = .replaying book 1) :
      HandlerStep again tasks (.message text) (tasks ++ [task])
  | depth {i first retries : ℕ} (response : Option (DepthSnapshot D)) {task : InitTask D}
      {next : Option (InitTask D)} (htask : tasks[i]? = some task)
      (hstage : task.stage = .fetching first retries)
      (hnext : ∀ other ∈ next, (other.stage = .fetching first (retries + 1) ∧ again retries) ∨
        ∃ book, other.stage = .replaying book 1) :
      HandlerStep again tasks (.depth i response) (replaceTask tasks i next)
  | wake {i retries : ℕ} {task : InitTask D} {book : OrderBook D} {next : Option (InitTask D)}
      (htask : tasks[i]? = some task) (hstage : task.stage = .replaying book retries)
      (hnext : ∀ other ∈ next, other.stage = .replaying book (retries + 1) ∧ retries ≠ 5) :
      HandlerStep again tasks (.wake i) (replaceTask tasks i next)
  | keep {action : FeedAction D} (hdepth : ∀ i response, action ≠ .depth i response)
      (hwake : ∀ i, action ≠ .wake i) : HandlerStep again tasks action tasks
  | fail : HandlerStep again tasks .fail []

/-- An action that handles a message. -/
def FeedAction.isMessage : FeedAction D → Bool
  | .message _ => true
  | _ => false

/-- An action that handles the response to a snapshot request. -/
def FeedAction.isDepth : FeedAction D → Bool
  | .depth _ _ => true
  | _ => false

/-- An action that ends the sleep of a handler. -/
def FeedAction.isWake : FeedAction D → Bool
  | .wake _ => true
  | _ => false

/-- The total over the handlers. -/
def total (left : Stage D → ℕ) (tasks : List (InitTask D)) : ℕ :=
  (tasks.map fun task => left task.stage).sum

variable {again : ℕ → Prop} {tasks tasks' : List (InitTask D)} {action : FeedAction D}
  {left : Stage D → ℕ} {i : ℕ} {task : InitTask D} {next : Option (InitTask D)}

/-- The total when a handler has run on. -/
theorem total_replaceTask_le (left : Stage D → ℕ) (bound : ℕ) (htask : tasks[i]? = some task)
    (hnext : ∀ other ∈ next, left other.stage ≤ bound) :
    total left (replaceTask tasks i next) + left task.stage ≤ total left tasks + bound := by
  cases next with
  | none =>
    obtain ⟨hi, rfl⟩ := List.getElem?_eq_some_iff.mp htask
    have hperm := (List.getElem_cons_eraseIdx_perm hi).map fun task => left task.stage
    have hsum := hperm.sum_eq
    rw [List.map_cons, List.sum_cons] at hsum
    simp only [replaceTask, total]
    omega
  | some other =>
    have hset := Accounting.sum_map_set (fun task => left task.stage) htask other
    have hother := hnext other rfl
    simp only [replaceTask, total]
    omega

/-- The handlers when one of them has run on. -/
theorem forall_mem_replaceTask {Fits : Stage D → Prop} (htasks : ∀ task ∈ tasks, Fits task.stage)
    (hnext : ∀ other ∈ next, Fits other.stage) :
    ∀ task ∈ replaceTask tasks i next, Fits task.stage := by
  cases next with
  | none => exact fun task hmem => htasks task (List.mem_of_mem_eraseIdx hmem)
  | some other =>
    exact Accounting.forall_mem_set (P := fun task : InitTask D => Fits task.stage) htasks
      (hnext other rfl)

/-- The handlers with a new one. -/
theorem forall_mem_append {Fits : Stage D → Prop} (htasks : ∀ task ∈ tasks, Fits task.stage)
    (htask : Fits task.stage) : ∀ other ∈ tasks ++ [task], Fits other.stage := by
  intro other hmem
  rcases List.mem_append.mp hmem with hold | hnew
  · exact htasks other hold
  · rwa [List.mem_singleton.mp hnew]

/-- The total with a new handler. -/
theorem total_append (left : Stage D → ℕ) (tasks : List (InitTask D)) (task : InitTask D) :
    total left (tasks ++ [task]) = total left tasks + left task.stage := by
  simp [total]

/-- The end of a sleep is paid by the event that started the initialisation. -/
theorem HandlerStep.sleeps (h : HandlerStep again tasks action tasks')
    (hfits : ∀ task ∈ tasks, task.stage.SleepsFit) :
    (∀ task ∈ tasks', task.stage.SleepsFit) ∧
      total Stage.sleepsLeft tasks' + (if action.isWake then 1 else 0) ≤
        total Stage.sleepsLeft tasks + if action.isMessage then 5 else 0 := by
  cases h with
  | fetch text hstage =>
    refine ⟨forall_mem_append hfits (by rw [hstage]; trivial), ?_⟩
    rw [total_append, hstage]
    exact Nat.le_refl _
  | sleep text hstage =>
    refine ⟨forall_mem_append hfits (by rw [hstage]; exact Nat.le_of_ble_eq_true rfl), ?_⟩
    rw [total_append, hstage]
    exact Nat.le_refl _
  | @depth i first retries response task next htask hstage hnext =>
    have hother : ∀ other ∈ next, other.stage.SleepsFit ∧ other.stage.sleepsLeft ≤ 5 := by
      intro other hmem
      obtain ⟨hagain, _⟩ | ⟨book, hsleep⟩ := hnext other hmem
      · rw [hagain]
        exact ⟨trivial, Nat.le_refl _⟩
      · rw [hsleep]
        exact ⟨Nat.le_of_ble_eq_true rfl, Nat.le_refl _⟩
    have hpaid := total_replaceTask_le Stage.sleepsLeft 5 htask fun other hmem =>
      (hother other hmem).2
    rw [hstage] at hpaid
    exact ⟨forall_mem_replaceTask hfits fun other hmem => (hother other hmem).1,
      Nat.le_of_add_le_add_right hpaid⟩
  | @wake i retries task book next htask hstage hnext =>
    have hfit := hfits _ (List.mem_of_getElem? htask)
    rw [hstage] at hfit
    have hother : ∀ other ∈ next, other.stage.SleepsFit ∧
        other.stage.sleepsLeft ≤ 5 - retries := by
      intro other hmem
      obtain ⟨hsleep, hmore⟩ := hnext other hmem
      rw [hsleep]
      exact ⟨by simp only [Stage.SleepsFit] at hfit ⊢; omega, by simp [Stage.sleepsLeft]⟩
    have hpaid := total_replaceTask_le Stage.sleepsLeft (5 - retries) htask fun other hmem =>
      (hother other hmem).2
    refine ⟨forall_mem_replaceTask hfits fun other hmem => (hother other hmem).1, ?_⟩
    rw [hstage] at hpaid
    simp only [Stage.sleepsLeft, Stage.SleepsFit] at hpaid hfit
    simp only [FeedAction.isWake, FeedAction.isMessage, if_true, Bool.false_eq_true, if_false]
    omega
  | keep hdepth hwake =>
    refine ⟨hfits, ?_⟩
    cases action with
    | wake i => exact absurd rfl (hwake i)
    | _ => simp [FeedAction.isWake]
  | fail => exact ⟨nofun, Nat.zero_le _⟩

/-- A response is paid by the event that started the initialisation, when a handler makes five
requests. -/
theorem HandlerStep.requests (h : HandlerStep again tasks action tasks')
    (hagain : ∀ n, again n → n + 1 ≠ 5) (hfits : ∀ task ∈ tasks, task.stage.RequestsFit) :
    (∀ task ∈ tasks', task.stage.RequestsFit) ∧
      total Stage.requestsLeft tasks' + (if action.isDepth then 1 else 0) ≤
        total Stage.requestsLeft tasks + if action.isMessage then 5 else 0 := by
  cases h with
  | fetch text hstage =>
    refine ⟨forall_mem_append hfits (by rw [hstage]; exact Nat.succ_pos 4), ?_⟩
    rw [total_append, hstage]
    exact Nat.le_refl _
  | sleep text hstage =>
    refine ⟨forall_mem_append hfits (by rw [hstage]; trivial), ?_⟩
    rw [total_append, hstage]
    exact Nat.le_add_right _ _
  | @depth i first retries response task next htask hstage hnext =>
    have hfit := hfits _ (List.mem_of_getElem? htask)
    rw [hstage] at hfit
    have hother : ∀ other ∈ next, other.stage.RequestsFit ∧
        other.stage.requestsLeft ≤ 4 - retries := by
      intro other hmem
      obtain ⟨hstage', hmore⟩ | ⟨book, hsleep⟩ := hnext other hmem
      · rw [hstage']
        have hne := hagain retries hmore
        simp only [Stage.RequestsFit, Stage.requestsLeft] at hfit ⊢
        omega
      · rw [hsleep]
        exact ⟨trivial, Nat.zero_le _⟩
    have hpaid := total_replaceTask_le Stage.requestsLeft (4 - retries) htask fun other hmem =>
      (hother other hmem).2
    refine ⟨forall_mem_replaceTask hfits fun other hmem => (hother other hmem).1, ?_⟩
    rw [hstage] at hpaid
    simp only [Stage.requestsLeft, Stage.RequestsFit] at hpaid hfit
    simp only [FeedAction.isDepth, FeedAction.isMessage, if_true, Bool.false_eq_true, if_false]
    omega
  | @wake i retries task book next htask hstage hnext =>
    have hother : ∀ other ∈ next, other.stage.RequestsFit ∧ other.stage.requestsLeft ≤ 0 := by
      intro other hmem
      rw [(hnext other hmem).1]
      exact ⟨trivial, Nat.le_refl _⟩
    have hpaid := total_replaceTask_le Stage.requestsLeft 0 htask fun other hmem =>
      (hother other hmem).2
    exact ⟨forall_mem_replaceTask hfits fun other hmem => (hother other hmem).1,
      Nat.le_trans (Nat.le_add_right _ _) hpaid⟩
  | keep hdepth hwake =>
    refine ⟨hfits, ?_⟩
    cases action with
    | depth i response => exact absurd rfl (hdepth i response)
    | _ => simp [FeedAction.isDepth]
  | fail => exact ⟨nofun, Nat.zero_le _⟩

/-- When every step does to the handlers what a client does, the sleeps of a run are paid by its
messages. -/
theorem sleeps_bounded {σ : Type*} {step : σ → FeedAction D → Option σ} {again : ℕ → Prop}
    (tasks : σ → List (InitTask D))
    (hstep : ∀ s action t, step s action = some t → HandlerStep again (tasks s) action (tasks t))
    {s t : σ} {actions : List (FeedAction D)} (hstart : tasks s = [])
    (hrun : GuardedRun.exec step s actions = some t) :
    actions.countP FeedAction.isWake ≤ 5 * actions.countP FeedAction.isMessage := by
  have hpaid := GuardedRun.countP_le_of_potential
    (I := fun s => ∀ task ∈ tasks s, task.stage.SleepsFit)
    (fun s => total Stage.sleepsLeft (tasks s)) FeedAction.isWake FeedAction.isMessage 5
    (fun s action t hfits hst => (hstep s action t hst).sleeps hfits)
    (hstart ▸ List.forall_mem_nil _) hrun
  simpa [hstart, total] using hpaid

/-- The same for the responses to snapshot requests, when a handler makes five at most. -/
theorem responses_bounded {σ : Type*} {step : σ → FeedAction D → Option σ} {again : ℕ → Prop}
    (tasks : σ → List (InitTask D)) (hagain : ∀ n, again n → n + 1 ≠ 5)
    (hstep : ∀ s action t, step s action = some t → HandlerStep again (tasks s) action (tasks t))
    {s t : σ} {actions : List (FeedAction D)} (hstart : tasks s = [])
    (hrun : GuardedRun.exec step s actions = some t) :
    actions.countP FeedAction.isDepth ≤ 5 * actions.countP FeedAction.isMessage := by
  have hpaid := GuardedRun.countP_le_of_potential
    (I := fun s => ∀ task ∈ tasks s, task.stage.RequestsFit)
    (fun s => total Stage.requestsLeft (tasks s)) FeedAction.isDepth FeedAction.isMessage 5
    (fun s action t hfits hst => (hstep s action t hst).requests hagain hfits)
    (hstart ▸ List.forall_mem_nil _) hrun
  simpa [hstart, total] using hpaid

/-- A handler that goes to sleep has counted one more attempt, of five at most. -/
theorem FeedState.sleeping_replayAttempt {s : FeedState D} {snapshot : OrderBook D} {retries : ℕ}
    {other : InitTask D} (h : (s.replayAttempt task snapshot retries).2 = .sleeping other) :
    other.stage = .replaying snapshot (retries + 1) ∧ retries ≠ 5 := by
  unfold FeedState.replayAttempt at h
  split at h
  · cases h
  · rename_i hretries
    split at h
    · cases h
    · split at h
      · cases h
        exact ⟨rfl, hretries⟩
      · cases h

/-- Sending a book leaves the handlers alone. -/
theorem FeedState.tasks_deliver (s : FeedState D) (symbol : String) (ref : BookRef) :
    (s.deliver symbol ref).tasks = s.tasks := by
  unfold FeedState.deliver
  split <;> rfl

/-- Buffering an update leaves the handlers alone. -/
theorem FeedState.tasks_pushInit (s : FeedState D) (symbol : String)
    (update : Option (OrderBookUpdate D)) : (s.pushInit symbol update).tasks = s.tasks := by
  unfold FeedState.pushInit
  split <;> rfl

/-- A watch leaves the handlers alone. -/
theorem FeedState.tasks_watch (s : FeedState D) (symbol : String) (waiter : ℕ)
    (subscribes sends : Bool) : (s.watch symbol waiter subscribes sends).tasks = s.tasks := by
  unfold FeedState.watch
  split
  · split <;> rfl
  · dsimp only
    split <;> rfl

/-- An unwatch leaves the handlers alone. -/
theorem FeedState.tasks_unwatch (s : FeedState D) (symbol : String) (unsubscribes : Bool) :
    (s.unwatch symbol unsubscribes).tasks = s.tasks := by
  unfold FeedState.unwatch
  split
  · rfl
  · split <;> rfl

/-- Replacing a handler. -/
theorem FeedState.tasks_setTask (s : FeedState D) (i : ℕ) (next : Option (InitTask D)) :
    (s.setTask i next).tasks = replaceTask s.tasks i next := by
  cases next <;> rfl

end Arbexpert.Base
