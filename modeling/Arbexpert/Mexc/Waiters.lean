import Arbexpert.Mexc.Catch

/-!
# Waiting for orders after the connection

The task of an order catch ends when the sender of its channel has been dropped with the
connection and the last order has been received. The channels on which calls of `next` wait
belong to the order catch, not to the task, so the end of the task wakes nobody. A call that
waits has been woken exactly if an order has been received since it was made; one that is
made after the end of the task waits for ever.
-/

namespace Arbexpert.Mexc

/-- A call of `next`: it waits on a channel, with the nonce at which it was made, or it has
returned, or was dropped. -/
inductive NextCall (O : Type*)
  | waiting (lastNonce waker since : ℕ)
  | returned (result : CatchReturn O)
  | dropped

/-- An order catch with its source: whether the exchange still holds the sender of the channel,
and whether the task runs. Calls may pass any nonce. -/
structure OrderSource (O : Type*) extends CatchTask O where
  sending : Bool
  running : Bool
  calls : List (NextCall O)

/-- What can happen next: the push handler sends an order, the connection is lost, the task
receives an order, or the end of the channel, a call is made, resumes, or is dropped. -/
inductive SourceAction (O : Type*)
  | push (order : O)
  | lose
  | forward
  | finish
  | next (lastNonce : ℕ)
  | wake (i : ℕ)
  | cancel (i : ℕ)

variable {O : Type*}

namespace OrderSource

/-- A new order catch. -/
def new : OrderSource O := ⟨CatchTask.new, true, true, []⟩

/-- The task receives an order. -/
def forward (s : OrderSource O) (order : O) (rest : List O) : OrderSource O :=
  { s with toCatchTask := s.toCatchTask.forward order rest }

/-- A call of `next` is made. -/
def next (s : OrderSource O) (lastNonce : ℕ) : OrderSource O :=
  match s.toCatchTask.next lastNonce with
  | (task, .inl result) => { s with toCatchTask := task, calls := s.calls ++ [.returned result] }
  | (task, .inr waker) =>
    { s with
      toCatchTask := task
      calls := s.calls ++ [.waiting lastNonce waker s.state.nonce] }

/-- One step. -/
def step (s : OrderSource O) : SourceAction O → Option (OrderSource O)
  | .push order => if s.sending then some { s with channel := s.channel ++ [order] } else none
  | .lose => if s.sending then some { s with sending := false } else none
  | .forward =>
    match s.running, s.channel with
    | true, order :: rest => some (s.forward order rest)
    | _, _ => none
  | .finish =>
    if s.running ∧ s.sending = false ∧ s.channel = [] then some { s with running := false }
    else none
  | .next lastNonce => some (s.next lastNonce)
  | .wake i =>
    match s.calls[i]? with
    | some (.waiting lastNonce waker _) =>
      if waker ∈ s.signalled then
        some { s with calls := s.calls.set i (.returned (s.state.collect lastNonce)) }
      else none
    | _ => none
  | .cancel i =>
    match s.calls[i]? with
    | some (.waiting _ _ _) => some { s with calls := s.calls.set i .dropped }
    | _ => none

/-- Once the task has ended, no channel of a call that waits is kept for the next order, and
each of them has been resolved. -/
def NoWaiterLeft (s : OrderSource O) : Prop :=
  s.running = false → ∀ lastNonce waker since, .waiting lastNonce waker since ∈ s.calls →
    waker ∉ s.state.wakers ∧ waker ∈ s.signalled

/-- The task ends when an order has been received since each waiting call was made, and a call
that is made after its end passes a nonce before the current one. -/
def Served (s : OrderSource O) : SourceAction O → Prop
  | .finish => ∀ lastNonce waker since, .waiting lastNonce waker since ∈ s.calls →
    since < s.state.nonce
  | .next lastNonce => s.running = false → lastNonce < s.state.nonce
  | _ => True

/-- The channels have been made in order. That of a waiting call is kept for the next order
until one is received, and then it is resolved. -/
structure Attended (s : OrderSource O) : Prop where
  wakers : ∀ waker ∈ s.state.wakers, waker < s.made
  signalled : ∀ waker ∈ s.signalled, waker < s.made
  calls : ∀ lastNonce waker since, .waiting lastNonce waker since ∈ s.calls →
    since ≤ s.state.nonce ∧ waker < s.made ∧
      (waker ∈ s.state.wakers ↔ since = s.state.nonce) ∧
      (waker ∈ s.signalled ↔ since < s.state.nonce)

variable {s t : OrderSource O} {action : SourceAction O}

/-- A call returns when there is an order after its nonce, and waits on a new channel otherwise. -/
theorem next_eq (s : OrderSource O) (lastNonce : ℕ) :
    s.next lastNonce = if lastNonce < s.state.nonce then
        { s with calls := s.calls ++ [.returned (s.state.collect lastNonce)] }
      else { s with
        state := { s.state with wakers := s.state.wakers ++ [s.made] }
        made := s.made + 1
        calls := s.calls ++ [.waiting lastNonce s.made s.state.nonce] } := by
  unfold OrderSource.next CatchTask.next
  by_cases hlast : lastNonce < s.state.nonce
  · simp only [if_pos hlast]
  · simp only [if_neg hlast]

/-- A new order catch has no calls. -/
theorem attended_new : (new : OrderSource O).Attended where
  wakers _ h := absurd h List.not_mem_nil
  signalled _ h := absurd h List.not_mem_nil
  calls _ _ _ h := absurd h List.not_mem_nil

/-- Where no call waits that did not wait before, the calls are attended as before. -/
theorem Attended.of_calls (h : s.Attended) {calls : List (NextCall O)}
    (hcalls : ∀ lastNonce waker since, .waiting lastNonce waker since ∈ calls →
      .waiting lastNonce waker since ∈ s.calls) : Attended { s with calls } :=
  ⟨h.wakers, h.signalled, fun _ _ _ hmem => h.calls _ _ _ (hcalls _ _ _ hmem)⟩

/-- An order that is received resolves the channels of all waiting calls. -/
theorem Attended.forward (h : s.Attended) (order : O) (rest : List O) :
    (s.forward order rest).Attended := by
  refine ⟨fun _ hmem => absurd hmem List.not_mem_nil, fun waker hmem => ?_, ?_⟩
  · rcases List.mem_append.mp hmem with hold | hkept
    · exact h.signalled waker hold
    · exact h.wakers waker hkept
  · intro lastNonce waker since hmem
    obtain ⟨hsince, hmade, hkept, hresolved⟩ := h.calls lastNonce waker since hmem
    refine ⟨Nat.le_succ_of_le hsince, hmade, ?_, ?_⟩
    · have hlater : ¬since = s.state.nonce + 1 := by omega
      exact iff_of_false List.not_mem_nil hlater
    · refine iff_of_true (List.mem_append.mpr ?_) (Nat.lt_succ_of_le hsince)
      rcases Nat.lt_or_eq_of_le hsince with hlt | heq
      · exact Or.inl (hresolved.mpr hlt)
      · exact Or.inr (hkept.mpr heq)

/-- A call returns, or it waits on a new channel that is kept for the next order. -/
theorem Attended.next (h : s.Attended) (lastNonce : ℕ) : (s.next lastNonce).Attended := by
  rw [next_eq]
  split
  · exact h.of_calls fun _ _ _ hmem => by simpa using hmem
  · refine ⟨fun waker hmem => ?_, fun waker hmem => Nat.lt_succ_of_lt (h.signalled waker hmem), ?_⟩
    · rcases List.mem_append.mp hmem with hold | hnew
      · exact Nat.lt_succ_of_lt (h.wakers waker hold)
      · rw [List.mem_singleton.mp hnew]
        exact Nat.lt_succ_self _
    · intro lastNonce' waker since hmem
      simp only [List.mem_append, List.mem_singleton, NextCall.waiting.injEq] at hmem ⊢
      rcases hmem with hold | ⟨rfl, rfl, rfl⟩
      · obtain ⟨hsince, hmade, hkept, hresolved⟩ := h.calls lastNonce' waker since hold
        refine ⟨hsince, Nat.lt_succ_of_lt hmade, ?_, hresolved⟩
        rw [← hkept]
        exact or_iff_left (Nat.ne_of_lt hmade)
      · refine ⟨Nat.le_refl _, Nat.lt_succ_self _, iff_of_true (Or.inr rfl) rfl, ?_⟩
        exact iff_of_false (fun hold => Nat.lt_irrefl _ (h.signalled _ hold)) (Nat.lt_irrefl _)

/-- What a step does: the task receives an order, or its end, a call is made, or no call waits
that did not wait before and the task and the channels of the calls stay as they are. -/
inductive Steps (s : OrderSource O) : SourceAction O → OrderSource O → Prop
  | forward (order : O) (rest : List O) (hrunning : s.running = true) :
      Steps s .forward (s.forward order rest)
  | finish (hrunning : s.running = true) : Steps s .finish { s with running := false }
  | next (lastNonce : ℕ) : Steps s (.next lastNonce) (s.next lastNonce)
  | stay {action : SourceAction O} {channel : List O} {sending : Bool} {calls : List (NextCall O)}
      (hcalls : ∀ lastNonce waker since, .waiting lastNonce waker since ∈ calls →
        .waiting lastNonce waker since ∈ s.calls) (hserved : s.Served action) :
      Steps s action { s with channel, sending, calls }

/-- Every action does one of these things, when it is enabled. -/
theorem steps_of_step (hstep : s.step action = some t) : s.Steps action t := by
  have hset {i : ℕ} {call : NextCall O} (hcall : ∀ lastNonce waker since,
      call ≠ .waiting lastNonce waker since) (lastNonce waker since : ℕ)
      (hmem : .waiting lastNonce waker since ∈ s.calls.set i call) :
      .waiting lastNonce waker since ∈ s.calls := by
    rcases List.mem_or_eq_of_mem_set hmem with hold | heq
    · exact hold
    · exact absurd heq.symm (hcall lastNonce waker since)
  cases action <;> simp only [step] at hstep
  case push order =>
    obtain ⟨_, rfl⟩ := GuardedRun.of_enabled hstep
    exact .stay (fun _ _ _ hmem => hmem) trivial
  case lose =>
    obtain ⟨_, rfl⟩ := GuardedRun.of_enabled hstep
    exact .stay (fun _ _ _ hmem => hmem) trivial
  case forward =>
    split at hstep <;> cases hstep
    rename_i hrunning hchannel
    exact .forward _ _ hrunning
  case finish =>
    obtain ⟨hended, rfl⟩ := GuardedRun.of_enabled hstep
    exact .finish hended.1
  case next lastNonce =>
    cases hstep
    exact .next lastNonce
  case wake i =>
    split at hstep
    · obtain ⟨_, rfl⟩ := GuardedRun.of_enabled hstep
      exact .stay (hset (by simp)) trivial
    · cases hstep
  case cancel i =>
    split at hstep <;> cases hstep
    exact .stay (hset (by simp)) trivial

/-- Every step keeps the calls attended. -/
theorem Attended.step (h : s.Attended) (hstep : s.step action = some t) : t.Attended := by
  cases steps_of_step hstep with
  | forward order rest hrunning => exact h.forward order rest
  | finish hrunning => exact ⟨h.wakers, h.signalled, h.calls⟩
  | next lastNonce => exact h.next lastNonce
  | stay hcalls hserved =>
    have hkept := h.of_calls hcalls
    exact ⟨hkept.wakers, hkept.signalled, hkept.calls⟩

/-- After a step no waiting call is left without its source exactly if the step is served. -/
theorem noWaiterLeft_step_iff (h : s.Attended) (hnone : s.NoWaiterLeft)
    (hstep : s.step action = some t) : t.NoWaiterLeft ↔ s.Served action := by
  cases steps_of_step hstep with
  | forward order rest hrunning =>
    refine iff_of_true (fun hended => ?_) trivial
    cases hrunning.symm.trans hended
  | finish hrunning =>
    constructor
    · intro hleft lastNonce waker since hmem
      obtain ⟨_, _, _, hresolved⟩ := h.calls lastNonce waker since hmem
      exact hresolved.mp (hleft rfl lastNonce waker since hmem).2
    · intro hserved _ lastNonce waker since hmem
      obtain ⟨_, _, hkept, hresolved⟩ := h.calls lastNonce waker since hmem
      have hlt := hserved lastNonce waker since hmem
      exact ⟨fun hwaker => Nat.ne_of_lt hlt (hkept.mp hwaker), hresolved.mpr hlt⟩
  | next lastNonce =>
    rw [next_eq]
    split
    · rename_i hlast
      refine iff_of_true (fun hended lastNonce' waker since hmem => ?_) fun _ => hlast
      exact hnone hended lastNonce' waker since (by simpa using hmem)
    · rename_i hlast
      constructor
      · intro hleft hended
        have hwaker := hleft hended lastNonce s.made s.state.nonce
          (List.mem_append_right _ (List.mem_singleton_self _))
        exact absurd (List.mem_append_right _ (List.mem_singleton_self _)) hwaker.1
      · intro hserved hended
        exact absurd (hserved hended) hlast
  | stay hcalls hserved =>
    refine iff_of_true (fun hended lastNonce waker since hmem => ?_) hserved
    exact hnone hended lastNonce waker since (hcalls lastNonce waker since hmem)

/-- In every run, once the task has ended no channel of a waiting call is left unresolved
exactly if the task ends after an order for each waiting call, and later calls pass a nonce
before the current one. -/
theorem no_waiter_left_iff (actions : List (SourceAction O)) :
    GuardedRun.StatesSatisfy step NoWaiterLeft (new : OrderSource O) actions ↔
      GuardedRun.StepsSatisfy step Served (new : OrderSource O) actions :=
  GuardedRun.statesSatisfy_iff_stepsSatisfy (I := Attended)
    (fun _ _ _ h _ hstep => h.step hstep)
    (fun _ _ _ h hnone hstep => noWaiterLeft_step_iff h hnone hstep) attended_new nofun

/-- A call that waits when the connection is lost waits for ever, and so does a later one. -/
theorem waiter_outlives_source : ∃ s : OrderSource ℕ,
    GuardedRun.exec step (new : OrderSource ℕ) [.next 0, .lose, .finish, .next 0] = some s ∧
      s.calls = [.waiting 0 0 0, .waiting 0 1 0] ∧ s.state.wakers = [0, 1] ∧
      s.signalled = [] ∧ ¬s.NoWaiterLeft := by
  refine ⟨_, rfl, rfl, rfl, rfl, fun hleft => ?_⟩
  exact absurd (hleft rfl 0 0 0 List.mem_cons_self).2 List.not_mem_nil

end OrderSource

end Arbexpert.Mexc
