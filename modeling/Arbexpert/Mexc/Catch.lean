import Arbexpert.Foundation.GuardedRun
import Arbexpert.Foundation.NumberedLog

/-!
# Catching orders

The push handler sends the orders of a symbol into the channel of an order catch. A task
receives them one by one, appends each to a list under the next nonce and wakes the
consumers that wait. A consumer asks for the orders after the nonce that it got from its
last call; when there are none it waits and reads the list again once it is woken.
-/

namespace Arbexpert.Mexc

/-- The orders that a call of `next` returns, and the nonce to pass to the next call. -/
structure CatchReturn (O : Type*) where
  orders : List O
  nonce : ℕ

/-- The orders with their nonces, the last nonce, and the senders of the oneshot channels of
the calls that wait. A channel is named by the number of channels made before it. -/
structure OrderCatchState (O : Type*) where
  orders : List (ℕ × O)
  nonce : ℕ
  wakers : List ℕ

/-- The channel of the task and the state that it shares with the calls, the number of oneshot
channels that were made, and those that got a value. -/
structure CatchTask (O : Type*) where
  channel : List O
  state : OrderCatchState O
  made : ℕ
  signalled : List ℕ

/-- A consumer: the channel on which its call waits, if it is in one, and what its calls have
returned. -/
structure Consumer (O : Type*) where
  waiting : Option ℕ
  results : List (CatchReturn O)

/-- An order catch with its consumers. The orders that the task has received are recorded. -/
structure OrderCatch (O : Type*) extends CatchTask O where
  consumers : ℕ → Consumer O
  received : List O

/-- What can happen next: the push handler sends an order, the task receives one, a consumer
calls `next`, or resumes after it was woken, or drops its call. -/
inductive CatchAction (O : Type*)
  | push (order : O)
  | forward
  | next (c : ℕ)
  | wake (c : ℕ)
  | cancel (c : ℕ)

variable {O : Type*}

/-- The nonce that a consumer passes to its next call: zero, then the one it got last. -/
def Consumer.lastNonce (consumer : Consumer O) : ℕ :=
  consumer.results.getLast?.elim 0 CatchReturn.nonce

/-- The orders that a consumer has got, in the order in which it got them. -/
def Consumer.delivered (consumer : Consumer O) : List O :=
  (consumer.results.map CatchReturn.orders).flatten

/-- The orders after a nonce, with the current nonce. -/
def OrderCatchState.collect (state : OrderCatchState O) (lastNonce : ℕ) : CatchReturn O where
  orders := (state.orders.filter fun entry => lastNonce < entry.1).map Prod.snd
  nonce := state.nonce

namespace CatchTask

/-- The task of a new order catch, for which no order has come. -/
def new : CatchTask O := ⟨[], ⟨[], 0, []⟩, 0, []⟩

/-- The task receives an order. -/
def forward (task : CatchTask O) (order : O) (rest : List O) : CatchTask O :=
  let nonce := task.state.nonce + 1
  { task with
    channel := rest
    state := ⟨task.state.orders ++ [(nonce, order)], nonce, []⟩
    signalled := task.signalled ++ task.state.wakers }

/-- `next` up to its return, or its suspension on a new channel. -/
def next (task : CatchTask O) (lastNonce : ℕ) : CatchTask O × (CatchReturn O ⊕ ℕ) :=
  if lastNonce < task.state.nonce then (task, .inl (task.state.collect lastNonce))
  else
    ({ task with
      state := { task.state with wakers := task.state.wakers ++ [task.made] }
      made := task.made + 1 }, .inr task.made)

end CatchTask

namespace OrderCatch

/-- A new order catch, whose consumers have made no call. -/
def new : OrderCatch O := ⟨CatchTask.new, fun _ => ⟨none, []⟩, []⟩

/-- The task receives an order. -/
def forward (s : OrderCatch O) (order : O) (rest : List O) : OrderCatch O :=
  { s with
    toCatchTask := s.toCatchTask.forward order rest
    received := s.received ++ [order] }

/-- A call of a consumer returns the orders after its nonce. -/
def answer (s : OrderCatch O) (c : ℕ) : OrderCatch O :=
  let consumer := s.consumers c
  { s with
    consumers := Function.update s.consumers c
      ⟨none, consumer.results ++ [s.state.collect consumer.lastNonce]⟩ }

/-- A consumer calls `next`. -/
def next (s : OrderCatch O) (c : ℕ) : OrderCatch O :=
  let consumer := s.consumers c
  match s.toCatchTask.next consumer.lastNonce with
  | (task, .inl result) =>
    { s with
      toCatchTask := task
      consumers := Function.update s.consumers c ⟨none, consumer.results ++ [result]⟩ }
  | (task, .inr waker) =>
    { s with
      toCatchTask := task
      consumers := Function.update s.consumers c { consumer with waiting := some waker } }

/-- One step. A consumer makes one call at a time; it resumes when its channel has got a
value, whatever has been received since. -/
def step (s : OrderCatch O) : CatchAction O → Option (OrderCatch O)
  | .push order => some { s with channel := s.channel ++ [order] }
  | .forward =>
    match s.channel with
    | [] => none
    | order :: rest => some (s.forward order rest)
  | .next c =>
    match (s.consumers c).waiting with
    | none => some (s.next c)
    | some _ => none
  | .wake c =>
    match (s.consumers c).waiting with
    | none => none
    | some waker => if waker ∈ s.signalled then some (s.answer c) else none
  | .cancel c =>
    match (s.consumers c).waiting with
    | none => none
    | some _ =>
      some { s with
        consumers := Function.update s.consumers c { s.consumers c with waiting := none } }

/-- The enabled actions, with what they do. -/
inductive Steps (s : OrderCatch O) : CatchAction O → OrderCatch O → Prop
  | push (order : O) : Steps s (.push order) { s with channel := s.channel ++ [order] }
  | forward {order : O} {rest : List O} (hchannel : s.channel = order :: rest) :
      Steps s .forward (s.forward order rest)
  | next {c : ℕ} (hidle : (s.consumers c).waiting = none) : Steps s (.next c) (s.next c)
  | wake {c waker : ℕ} (hwaiting : (s.consumers c).waiting = some waker)
      (hsignalled : waker ∈ s.signalled) : Steps s (.wake c) (s.answer c)
  | cancel {c waker : ℕ} (hwaiting : (s.consumers c).waiting = some waker) :
      Steps s (.cancel c) { s with
        consumers := Function.update s.consumers c { s.consumers c with waiting := none } }

/-- The list holds the received orders under their nonces, and each consumer has got those
up to the nonce that it passes to its next call. -/
structure Complete (s : OrderCatch O) : Prop where
  orders : s.state.orders = NumberedLog.numbered s.received
  nonce : s.state.nonce = s.received.length
  delivered : ∀ c, (s.consumers c).delivered = s.received.take (s.consumers c).lastNonce
  lastNonce : ∀ c, (s.consumers c).lastNonce ≤ s.received.length

/-- A call that waits will be woken: its channel has a value, or its sender is kept until the
next order comes, and no order after its nonce has been received. -/
def Attended (s : OrderCatch O) : Prop :=
  ∀ c waker, (s.consumers c).waiting = some waker → waker ∈ s.signalled ∨
    waker ∈ s.state.wakers ∧ s.state.nonce ≤ (s.consumers c).lastNonce

variable {s t : OrderCatch O} {action : CatchAction O}

/-- Every action does what its name says, when it is enabled. -/
theorem steps_of_step (hstep : s.step action = some t) : s.Steps action t := by
  cases action <;> simp only [step] at hstep
  case push order =>
    cases hstep
    exact .push order
  case forward =>
    split at hstep <;> cases hstep
    rename_i hchannel
    exact .forward hchannel
  case next c =>
    split at hstep <;> cases hstep
    rename_i hidle
    exact .next hidle
  case wake c =>
    split at hstep
    · cases hstep
    · rename_i waker hwaiting
      obtain ⟨hsignalled, hnext⟩ := Option.ite_none_right_eq_some.mp hstep
      obtain rfl := Option.some.inj hnext
      exact .wake hwaiting hsignalled
  case cancel c =>
    split at hstep <;> cases hstep
    rename_i hwaiting
    exact .cancel hwaiting

/-- A call returns when there is an order after its nonce, and waits on a new channel otherwise. -/
theorem next_eq (s : OrderCatch O) (c : ℕ) :
    s.next c = if (s.consumers c).lastNonce < s.state.nonce then s.answer c
      else { s with
        state := { s.state with wakers := s.state.wakers ++ [s.made] }
        made := s.made + 1
        consumers := Function.update s.consumers c
          { s.consumers c with waiting := some s.made } } := by
  unfold OrderCatch.next CatchTask.next
  by_cases hlast : (s.consumers c).lastNonce < s.state.nonce
  · simp only [if_pos hlast]
    rfl
  · simp only [if_neg hlast]

/-- Nothing has been received or returned at the start. -/
theorem complete_new : (new : OrderCatch O).Complete where
  orders := rfl
  nonce := rfl
  delivered _ := rfl
  lastNonce _ := Nat.zero_le _

/-- A call that returns has brought its consumer everything received so far. -/
theorem Complete.delivered_answer (h : s.Complete) (c : ℕ) :
    ((s.answer c).consumers c).delivered = s.received ∧
      ((s.answer c).consumers c).lastNonce = s.received.length := by
  have hcollect : (s.state.collect (s.consumers c).lastNonce).orders =
      s.received.drop (s.consumers c).lastNonce := by
    rw [← NumberedLog.since_numbered, ← h.orders]
    rfl
  have hdelivered := h.delivered c
  constructor
  · simp only [Consumer.delivered] at hdelivered
    simp only [answer, Function.update_self, Consumer.delivered, List.map_append,
      List.flatten_append, hdelivered, List.map_singleton, hcollect, List.flatten_singleton,
      List.take_append_drop]
  · simpa [answer, Consumer.lastNonce, OrderCatchState.collect] using h.nonce

/-- A call that returns leaves the other consumers alone. -/
theorem answer_of_ne {c d : ℕ} (hne : d ≠ c) : (s.answer c).consumers d = s.consumers d :=
  Function.update_of_ne hne ..

/-- A call that returns keeps the list complete. -/
theorem Complete.answer (h : s.Complete) (c : ℕ) : (s.answer c).Complete := by
  obtain ⟨hdelivered, hlast⟩ := h.delivered_answer c
  refine ⟨h.orders, h.nonce, fun d => ?_, fun d => ?_⟩
  · by_cases hd : d = c
    · subst hd
      rw [hdelivered, hlast]
      exact List.take_length.symm
    · rw [answer_of_ne hd]
      exact h.delivered d
  · by_cases hd : d = c
    · subst hd
      exact Nat.le_of_eq hlast
    · rw [answer_of_ne hd]
      exact h.lastNonce d

/-- A received order is appended under the next nonce. -/
theorem Complete.forward (h : s.Complete) (order : O) (rest : List O) :
    (s.forward order rest).Complete := by
  refine ⟨?_, ?_, fun c => ?_, fun c => ?_⟩
  · simp only [OrderCatch.forward, CatchTask.forward, NumberedLog.numbered_concat, h.orders,
      h.nonce]
  · simp only [OrderCatch.forward, CatchTask.forward, List.length_append, List.length_singleton,
      h.nonce]
  · exact (h.delivered c).trans (List.take_append_of_le_length (h.lastNonce c)).symm
  · exact Nat.le_trans (h.lastNonce c) (by simp [OrderCatch.forward])

/-- A consumer that starts to wait, or stops waiting, has the same results. -/
theorem Complete.waiting (h : s.Complete) {c : ℕ} {waiting : Option ℕ}
    (hstate : t.state.orders = s.state.orders ∧ t.state.nonce = s.state.nonce)
    (hreceived : t.received = s.received)
    (hconsumers : t.consumers =
      Function.update s.consumers c { s.consumers c with waiting := waiting }) : t.Complete := by
  have hsame (d : ℕ) : (t.consumers d).results = (s.consumers d).results := by
    rw [hconsumers]
    by_cases hd : d = c
    · rw [hd, Function.update_self]
    · rw [Function.update_of_ne hd]
  refine ⟨?_, ?_, fun d => ?_, fun d => ?_⟩
  · rw [hstate.1, hreceived, h.orders]
  · rw [hstate.2, hreceived, h.nonce]
  · simpa only [Consumer.delivered, Consumer.lastNonce, hsame, hreceived] using h.delivered d
  · simpa only [Consumer.lastNonce, hsame, hreceived] using h.lastNonce d

/-- Every step keeps the list complete. -/
theorem Complete.step (h : s.Complete) (hstep : s.step action = some t) : t.Complete := by
  cases steps_of_step hstep with
  | push order => exact ⟨h.orders, h.nonce, h.delivered, h.lastNonce⟩
  | forward hchannel => exact h.forward _ _
  | next hidle =>
    rw [next_eq]
    split
    · exact h.answer _
    · exact h.waiting ⟨rfl, rfl⟩ rfl rfl
  | wake hwaiting hsignalled => exact h.answer _
  | cancel hwaiting => exact h.waiting ⟨rfl, rfl⟩ rfl rfl

/-- A new order wakes every call that waits; a call that starts to wait has no order after
its nonce. -/
theorem Attended.step (h : s.Attended) (hstep : s.step action = some t) : t.Attended := by
  have hothers {c : ℕ} {consumer : Consumer O} (hnone : consumer.waiting = none) (d waker : ℕ)
      (hd : (Function.update s.consumers c consumer d).waiting = some waker) :
      d ≠ c ∧ (s.consumers d).waiting = some waker := by
    by_cases heq : d = c
    · rw [heq, Function.update_self, hnone] at hd
      cases hd
    · rw [Function.update_of_ne heq] at hd
      exact ⟨heq, hd⟩
  have hanswer (c : ℕ) : (s.answer c).Attended := by
    intro d waker hd
    obtain ⟨heq, hold⟩ := hothers rfl d waker hd
    rw [answer_of_ne heq]
    exact h d waker hold
  cases steps_of_step hstep with
  | push order => exact h
  | @forward order rest hchannel =>
    intro c waker hc
    rcases h c waker hc with hsignalled | ⟨hwaker, _⟩
    · exact Or.inl (List.mem_append_left _ hsignalled)
    · exact Or.inl (List.mem_append_right _ hwaker)
  | @next c hidle =>
    rw [next_eq]
    split
    · exact hanswer c
    · rename_i hlast
      intro d waker hd
      by_cases heq : d = c
      · subst heq
        simp only [Function.update_self, Option.some.injEq] at hd
        subst hd
        refine Or.inr ⟨by simp, ?_⟩
        simpa [Consumer.lastNonce] using hlast
      · simp only [Function.update_of_ne heq] at hd ⊢
        rcases h d waker hd with hsignalled | ⟨hwaker, hnonce⟩
        · exact Or.inl hsignalled
        · exact Or.inr ⟨List.mem_append_left _ hwaker, hnonce⟩
  | @wake c _ hwaiting hsignalled => exact hanswer c
  | @cancel c _ hwaiting =>
    intro d waker hd
    obtain ⟨heq, hold⟩ := hothers rfl d waker hd
    simp only [Function.update_of_ne heq]
    exact h d waker hold

/-- Nobody waits for an order that has been received without having been woken. -/
theorem attended_new : (new : OrderCatch O).Attended := nofun

/-- A call of the consumer returns in this step. -/
def Returns (s t : OrderCatch O) (c : ℕ) : Prop :=
  (t.consumers c).results.length ≠ (s.consumers c).results.length

/-- Only a call that returns adds to the results of its consumer. -/
theorem eq_answer_of_returns (hstep : s.step action = some t) {c : ℕ} (hreturns : s.Returns t c) :
    t = s.answer c := by
  have hanswer {d : ℕ} (ht : t = s.answer d) : t = s.answer c := by
    by_cases heq : c = d
    · rw [heq, ht]
    · apply absurd _ hreturns
      rw [ht, answer_of_ne heq]
  have hsame {d : ℕ} {waiting : Option ℕ} (ht : t.consumers =
      Function.update s.consumers d { s.consumers d with waiting }) : t = s.answer c := by
    apply absurd _ hreturns
    rw [ht]
    by_cases heq : c = d
    · rw [heq, Function.update_self]
    · rw [Function.update_of_ne heq]
  cases steps_of_step hstep with
  | push order => exact absurd rfl hreturns
  | forward hchannel => exact absurd rfl hreturns
  | next hidle =>
    rw [next_eq] at hanswer hsame ⊢
    split at hanswer
    · rename_i hlast
      rw [if_pos hlast]
      exact hanswer rfl
    · rename_i hlast
      rw [if_neg hlast] at hsame ⊢
      exact hsame rfl
  | wake hwaiting hsignalled => exact hanswer rfl
  | cancel hwaiting => exact hsame rfl

/-- In every run of the task with any number of consumers, what a consumer has got is a
prefix of the received orders, and all of them after each return of a call. -/
theorem orders_delivered (actions : List (CatchAction O)) :
    GuardedRun.StatesSatisfy step
        (fun s : OrderCatch O => ∀ c, (s.consumers c).delivered <+: s.received) new actions ∧
      GuardedRun.StepsSatisfy step (fun s action => ∀ t c, s.step action = some t →
        s.Returns t c → (t.consumers c).delivered = t.received) new actions := by
  refine ⟨GuardedRun.statesSatisfy_of_invariant (fun _ _ _ h hstep => h.step hstep)
    (fun s h c => ?_) complete_new, GuardedRun.stepsSatisfy_of_invariant
      (fun _ _ _ h hstep => h.step hstep) (fun s action _ h _ t c hstep hreturns => ?_)
        complete_new⟩
  · rw [h.delivered c]
    exact List.take_prefix _ _
  · rw [eq_answer_of_returns hstep hreturns]
    exact (h.delivered_answer c).1

/-- In every run, a call that waits although an order after its nonce has been received has
been woken. -/
theorem waiting_attended (actions : List (CatchAction O)) :
    GuardedRun.StatesSatisfy step (fun s : OrderCatch O => ∀ c waker,
      (s.consumers c).waiting = some waker → (s.consumers c).lastNonce < s.state.nonce →
        waker ∈ s.signalled) new actions := by
  refine GuardedRun.statesSatisfy_of_invariant (fun _ _ _ h hstep => Attended.step h hstep)
    (fun s h c waker hwaiting hlast => ?_) attended_new
  rcases h c waker hwaiting with hsignalled | ⟨_, hnonce⟩
  · exact hsignalled
  · omega

end OrderCatch

end Arbexpert.Mexc
