import Arbexpert.Foundation.GuardedRun

/-!
# The queue with many senders

The handles of a queue share its buffer, the waker of the task that waits, and a flag that says
whether items are still accepted. The number of handles tells the receiver that all senders are
gone. A sender that changes what the next poll would give has to wake the task.
-/

namespace Arbexpert.Base

/-- What the handles of a queue share. The waker of the one task that receives is registered or
not. -/
structure Shared (T : Type*) where
  buffer : List T
  blockedRecv : Bool
  hasReceiver : Bool
  deriving DecidableEq

/-- A queue with its handles. It is recorded whether the task waits, which items were accepted,
received and thrown away, and whether a poll has found the end. -/
structure Mpsc (T : Type*) where
  shared : Shared T
  senders : ℕ
  receiver : Bool
  waiting : Bool
  accepted : List T
  received : List T
  thrown : List T
  ended : Bool
  deriving DecidableEq

/-- The result of a poll. -/
inductive Poll (T : Type*)
  | ready (item : Option T)
  | pending
  deriving DecidableEq

/-- What can happen next: a handle of a sender sends, closes, is cloned or dropped; the receiver
makes a sender, closes, takes an item, is polled by its task, or is dropped; the task gives its
poll up. -/
inductive MpscAction (T : Type*)
  | send (item : T)
  | closeSender
  | cloneSender
  | dropSender
  | sender
  | closeReceiver
  | tryRecv
  | pollRecv
  | dropReceiver
  | giveUp

variable {T : Type*}

namespace Mpsc

/-- A new queue with one sender. -/
def channel : Mpsc T := ⟨⟨[], false, true⟩, 1, true, false, [], [], [], false⟩

/-- The number of handles. -/
def strongCount (s : Mpsc T) : ℕ := s.senders + if s.receiver then 1 else 0

/-- Wake the task whose waker is registered. -/
def wake (s : Mpsc T) : Mpsc T :=
  { s with
    shared.blockedRecv := false
    waiting := s.waiting && !s.shared.blockedRecv }

/-- `send`: the item comes back when it is not accepted. -/
def send (s : Mpsc T) (item : T) : Mpsc T × Except T Unit :=
  if s.shared.hasReceiver then
    ({ s with
      shared.buffer := s.shared.buffer ++ [item]
      accepted := s.accepted ++ [item] }.wake, .ok ())
  else (s, .error item)

/-- `close` of a sender. -/
def closeSender (s : Mpsc T) : Mpsc T := { s with shared.hasReceiver := false }.wake

/-- `drop` of a sender. -/
def dropSender (s : Mpsc T) : Mpsc T :=
  let s' := if s.shared.hasReceiver ∧ s.strongCount = 2 then s.wake else s
  { s' with senders := s.senders - 1 }

/-- `close` of the receiver. -/
def closeReceiver (s : Mpsc T) : Mpsc T := { s with shared.hasReceiver := false }

/-- `is_closed` of either handle. -/
def isClosed (s : Mpsc T) : Bool := s.strongCount = 1 || !s.shared.hasReceiver

/-- `try_recv`. -/
def tryRecv (s : Mpsc T) : Mpsc T × Option T :=
  match s.shared.buffer with
  | [] => (s, none)
  | item :: buffer =>
    ({ s with
      shared.buffer := buffer
      received := s.received ++ [item] }, some item)

/-- `poll_recv`. -/
def pollRecv (s : Mpsc T) : Mpsc T × Poll T :=
  match s.shared.buffer with
  | item :: buffer =>
    ({ s with
      shared.buffer := buffer
      received := s.received ++ [item]
      waiting := false }, .ready (some item))
  | [] =>
    if s.shared.hasReceiver then
      if s.strongCount = 1 then
        ({ s with shared.blockedRecv := true, waiting := false, ended := true }, .ready none)
      else ({ s with shared.blockedRecv := true, waiting := true }, .pending)
    else ({ s with waiting := false, ended := true }, .ready none)

/-- `drop` of the receiver. -/
def dropReceiver (s : Mpsc T) : Mpsc T :=
  { s with
    shared.buffer := []
    shared.hasReceiver := false
    receiver := false
    waiting := false
    thrown := s.shared.buffer }

/-- One step of the handles that exist. -/
def step (s : Mpsc T) : MpscAction T → Option (Mpsc T)
  | .send item => if 0 < s.senders then some (s.send item).1 else none
  | .closeSender => if 0 < s.senders then some s.closeSender else none
  | .cloneSender => if 0 < s.senders then some { s with senders := s.senders + 1 } else none
  | .dropSender => if 0 < s.senders then some s.dropSender else none
  | .sender => if s.receiver then some { s with senders := s.senders + 1 } else none
  | .closeReceiver => if s.receiver then some s.closeReceiver else none
  | .tryRecv => if s.receiver then some s.tryRecv.1 else none
  | .pollRecv => if s.receiver then some s.pollRecv.1 else none
  | .dropReceiver => if s.receiver then some s.dropReceiver else none
  | .giveUp => if s.waiting then some { s with waiting := false } else none

/-- The accepted items have been received in their order, then come those that were thrown away with
the receiver, then those in the buffer; a queue without its receiver accepts nothing. -/
structure Delivered (s : Mpsc T) : Prop where
  items : s.accepted = s.received ++ s.thrown ++ s.shared.buffer
  alive : s.receiver = true → s.thrown = []
  dropped : s.receiver = false → s.shared.buffer = [] ∧ s.shared.hasReceiver = false

/-- A task that waits would have to wait again, if it was polled. -/
def NothingMissed (s : Mpsc T) : Prop := s.waiting = true → s.pollRecv.2 = .pending

/-- A poll that has found the end is followed by polls that find it. -/
def StaysEnded (s : Mpsc T) : Prop := s.ended = true → s.pollRecv.2 = .ready none

/-- The receiver is not closed while its task waits. -/
def ClosesAwake (s : Mpsc T) : MpscAction T → Prop
  | .closeReceiver => s.waiting = false
  | _ => True

/-- No sender is made after the end has been found, unless the queue is closed. -/
def EndsOnce (s : Mpsc T) : MpscAction T → Prop
  | .sender => s.ended = true → s.shared.hasReceiver = false
  | _ => True

variable {s t : Mpsc T} {action : MpscAction T} {item : T}

/-- A queue is open exactly if it accepts items and has another handle. -/
theorem isClosed_eq_false_iff :
    s.isClosed = false ↔ s.strongCount ≠ 1 ∧ s.shared.hasReceiver = true := by
  simp [isClosed]

/-- A sent item is accepted and wakes the task, or nothing happens. -/
theorem send_cases (s : Mpsc T) (item : T) :
    (s.shared.hasReceiver = true ∧ (s.send item).1 = ({ s with
      shared.buffer := s.shared.buffer ++ [item]
      accepted := s.accepted ++ [item] } : Mpsc T).wake) ∨
    (s.shared.hasReceiver = false ∧ (s.send item).1 = s) := by
  unfold send
  cases hopen : s.shared.hasReceiver <;> simp

/-- The first item is taken, if there is one. -/
theorem tryRecv_cases (s : Mpsc T) :
    (∃ item rest, s.shared.buffer = item :: rest ∧ s.tryRecv.1 = { s with
      shared.buffer := rest
      received := s.received ++ [item] }) ∨
    (s.shared.buffer = [] ∧ s.tryRecv.1 = s) := by
  unfold tryRecv
  split
  · rename_i hbuffer
    exact .inr ⟨hbuffer, rfl⟩
  · rename_i item rest hbuffer
    exact .inl ⟨item, rest, hbuffer, rfl⟩

/-- A poll gets the first item, finds the end, or waits. -/
theorem pollRecv_cases (s : Mpsc T) :
    (∃ item rest, s.shared.buffer = item :: rest ∧ s.pollRecv = ({ s with
      shared.buffer := rest
      received := s.received ++ [item]
      waiting := false }, .ready (some item))) ∨
    (s.shared.buffer = [] ∧ s.isClosed = true ∧ ∃ registered, s.pollRecv = ({ s with
      shared.blockedRecv := registered
      waiting := false
      ended := true }, .ready none)) ∨
    (s.shared.buffer = [] ∧ s.isClosed = false ∧ s.pollRecv = ({ s with
      shared.blockedRecv := true
      waiting := true }, .pending)) := by
  unfold pollRecv isClosed
  split
  · rename_i item rest hbuffer
    exact .inl ⟨item, rest, hbuffer, rfl⟩
  · rename_i hbuffer
    refine .inr ?_
    split
    · rename_i hopen
      split
      · rename_i hcount
        exact .inl ⟨hbuffer, by simp [hcount], true, rfl⟩
      · rename_i hcount
        exact .inr ⟨hbuffer, by simp [hcount, hopen], rfl⟩
    · rename_i hclosed
      exact .inl ⟨hbuffer, by simp [hclosed], s.shared.blockedRecv, rfl⟩

/-- A poll waits exactly if the queue is empty and not closed. -/
theorem pollRecv_eq_pending_iff :
    s.pollRecv.2 = .pending ↔ s.shared.buffer = [] ∧ s.isClosed = false := by
  obtain ⟨item, rest, hbuffer, heq⟩ | ⟨hempty, hclosed, registered, heq⟩ | ⟨hempty, hopen, heq⟩ :=
    s.pollRecv_cases
  · simp [heq, hbuffer]
  · simp [heq, hclosed]
  · simp [heq, hempty, hopen]

/-- A poll finds the end exactly if the queue is empty and closed. -/
theorem pollRecv_eq_none_iff :
    s.pollRecv.2 = .ready none ↔ s.shared.buffer = [] ∧ s.isClosed = true := by
  obtain ⟨item, rest, hbuffer, heq⟩ | ⟨hempty, hclosed, registered, heq⟩ | ⟨hempty, hopen, heq⟩ :=
    s.pollRecv_cases
  · simp [heq, hbuffer]
  · simp [heq, hempty, hclosed]
  · simp [heq, hopen]

/-- The items after a step come from the same sends. -/
theorem Delivered.step (h : s.Delivered) (hstep : s.step action = some t) : t.Delivered := by
  obtain ⟨hitems, halive, hdropped⟩ := h
  cases action with
  | send item =>
    obtain ⟨_, rfl⟩ := GuardedRun.of_enabled hstep
    obtain ⟨hopen, heq⟩ | ⟨_, heq⟩ := s.send_cases item
    · rw [heq]
      refine ⟨?_, halive, fun hgone => ?_⟩
      · simp [wake, hitems]
      · exact absurd (hdropped hgone).2 (by simp [hopen])
    · rw [heq]
      exact ⟨hitems, halive, hdropped⟩
  | closeSender =>
    obtain ⟨_, rfl⟩ := GuardedRun.of_enabled hstep
    exact ⟨hitems, halive, fun hgone => ⟨(hdropped hgone).1, rfl⟩⟩
  | cloneSender =>
    obtain ⟨_, rfl⟩ := GuardedRun.of_enabled hstep
    exact ⟨hitems, halive, hdropped⟩
  | dropSender =>
    obtain ⟨_, rfl⟩ := GuardedRun.of_enabled hstep
    unfold dropSender
    split <;> exact ⟨hitems, halive, hdropped⟩
  | sender =>
    obtain ⟨_, rfl⟩ := GuardedRun.of_enabled hstep
    exact ⟨hitems, halive, hdropped⟩
  | closeReceiver =>
    obtain ⟨_, rfl⟩ := GuardedRun.of_enabled hstep
    exact ⟨hitems, halive, fun hgone => ⟨(hdropped hgone).1, rfl⟩⟩
  | tryRecv =>
    obtain ⟨hreceiver, rfl⟩ := GuardedRun.of_enabled hstep
    obtain ⟨item, rest, hbuffer, heq⟩ | ⟨_, heq⟩ := s.tryRecv_cases
    · rw [heq]
      refine ⟨?_, halive, fun hgone => nomatch hgone.symm.trans hreceiver⟩
      simp [hitems, hbuffer, halive hreceiver]
    · rw [heq]
      exact ⟨hitems, halive, hdropped⟩
  | pollRecv =>
    obtain ⟨hreceiver, rfl⟩ := GuardedRun.of_enabled hstep
    obtain ⟨item, rest, hbuffer, heq⟩ | ⟨_, _, registered, heq⟩ | ⟨_, _, heq⟩ := s.pollRecv_cases
    · rw [heq]
      refine ⟨?_, halive, fun hgone => nomatch hgone.symm.trans hreceiver⟩
      simp [hitems, hbuffer, halive hreceiver]
    · rw [heq]
      exact ⟨hitems, halive, hdropped⟩
    · rw [heq]
      exact ⟨hitems, halive, hdropped⟩
  | dropReceiver =>
    obtain ⟨hreceiver, rfl⟩ := GuardedRun.of_enabled hstep
    refine ⟨?_, nofun, fun _ => ⟨rfl, rfl⟩⟩
    simp [dropReceiver, hitems, halive hreceiver]
  | giveUp =>
    obtain ⟨_, rfl⟩ := GuardedRun.of_enabled hstep
    exact ⟨hitems, halive, hdropped⟩

/-- A queue that does not accept items never does so again. -/
theorem accepted_of_step (hclosed : s.shared.hasReceiver = false) (hstep : s.step action = some t) :
    t.shared.hasReceiver = false ∧ t.accepted = s.accepted := by
  cases action with
  | send item =>
    obtain ⟨_, rfl⟩ := GuardedRun.of_enabled hstep
    obtain ⟨hopen, _⟩ | ⟨_, heq⟩ := s.send_cases item
    · exact nomatch hclosed.symm.trans hopen
    · rw [heq]
      exact ⟨hclosed, rfl⟩
  | closeSender =>
    obtain ⟨_, rfl⟩ := GuardedRun.of_enabled hstep
    exact ⟨rfl, rfl⟩
  | dropSender =>
    obtain ⟨_, rfl⟩ := GuardedRun.of_enabled hstep
    unfold dropSender
    split <;> exact ⟨hclosed, rfl⟩
  | closeReceiver | dropReceiver =>
    obtain ⟨_, rfl⟩ := GuardedRun.of_enabled hstep
    exact ⟨rfl, rfl⟩
  | cloneSender | sender | giveUp =>
    obtain ⟨_, rfl⟩ := GuardedRun.of_enabled hstep
    exact ⟨hclosed, rfl⟩
  | tryRecv =>
    obtain ⟨_, rfl⟩ := GuardedRun.of_enabled hstep
    obtain ⟨_, _, _, heq⟩ | ⟨_, heq⟩ := s.tryRecv_cases <;> rw [heq] <;> exact ⟨hclosed, rfl⟩
  | pollRecv =>
    obtain ⟨_, rfl⟩ := GuardedRun.of_enabled hstep
    obtain ⟨_, _, _, heq⟩ | ⟨_, _, _, heq⟩ | ⟨_, _, heq⟩ := s.pollRecv_cases <;> rw [heq] <;>
      exact ⟨hclosed, rfl⟩

/-- Every accepted item is received once, in the order of the sends, unless the receiver is dropped
before. Once the queue is closed nothing more is accepted. -/
theorem items_delivered {s t : Mpsc T}
    (hrun : GuardedRun.Reaches step (fun _ _ => True) channel s)
    (hlater : GuardedRun.Reaches step (fun _ _ => True) s t) :
    s.Delivered ∧ (s.shared.hasReceiver = false → t.accepted = s.accepted) := by
  constructor
  · exact hrun.invariant ⟨rfl, fun _ => rfl, nofun⟩ fun _ _ _ h _ hstep => h.step hstep
  · intro hclosed
    have hkept : t.shared.hasReceiver = false ∧ t.accepted = s.accepted :=
      hlater.invariant (I := fun t => t.shared.hasReceiver = false ∧ t.accepted = s.accepted)
        ⟨hclosed, rfl⟩ fun _ _ _ h _ hstep =>
          ⟨(accepted_of_step h.1 hstep).1, (accepted_of_step h.1 hstep).2.trans h.2⟩
    exact hkept.2

/-- A queue whose last sender is dropped after the first of two items has been received. -/
def drainRun : List (MpscAction ℕ) :=
  [.pollRecv, .send 1, .send 2, .pollRecv, .dropSender, .pollRecv, .pollRecv]

/-- Both items are received. -/
theorem drainRun_delivered : ∃ s : Mpsc ℕ, GuardedRun.exec step channel drainRun = some s ∧
    s.received = [1, 2] ∧ s.Delivered := by
  refine ⟨_, rfl, rfl, ?_⟩
  have hrun := GuardedRun.reaches_of_exec (GuardedRun.stepsSatisfy_of_forall
    (P := fun _ _ => True) fun _ _ _ => trivial)
    (rfl : GuardedRun.exec step channel drainRun = _)
  exact (items_delivered hrun .refl).1

/-- The receiver is there while its task waits, with its waker registered. -/
structure Parked (s : Mpsc T) : Prop where
  registered : s.waiting = true → s.shared.blockedRecv = true
  alive : s.waiting = true → s.receiver = true

/-- After the task has been woken it does not wait. -/
theorem Parked.waiting_wake (h : s.Parked) : s.wake.waiting = false := by
  cases hwaiting : s.waiting with
  | false => simp [wake, hwaiting]
  | true => simp [wake, h.registered hwaiting]

/-- Nothing is asked of a queue whose task does not wait. -/
theorem awake (h : s.waiting = false) : s.Parked ∧ s.NothingMissed := by
  have hnot (hwaiting : s.waiting = true) : False := nomatch h.symm.trans hwaiting
  exact ⟨⟨fun hwaiting => (hnot hwaiting).elim, fun hwaiting => (hnot hwaiting).elim⟩,
    fun hwaiting => (hnot hwaiting).elim⟩

/-- More senders do not end the wait. -/
theorem Parked.addSender (h : s.Parked) (hmissed : s.NothingMissed) :
    ({ s with senders := s.senders + 1 } : Mpsc T).NothingMissed := by
  intro hwaiting
  obtain ⟨hempty, hopen⟩ := pollRecv_eq_pending_iff.mp (hmissed hwaiting)
  obtain ⟨_, haccepts⟩ := isClosed_eq_false_iff.mp hopen
  have hreceiver : s.receiver = true := h.alive hwaiting
  refine pollRecv_eq_pending_iff.mpr ⟨hempty, isClosed_eq_false_iff.mpr ⟨?_, haccepts⟩⟩
  simp [strongCount, hreceiver]

/-- The last sender wakes the task when it is dropped, and another one leaves it waiting. -/
theorem Parked.dropSender (h : s.Parked) (hsender : 0 < s.senders) (hmissed : s.NothingMissed) :
    s.dropSender.Parked ∧ s.dropSender.NothingMissed := by
  unfold Mpsc.dropSender
  split
  · exact awake h.waiting_wake
  · rename_i hmore
    refine ⟨⟨h.registered, h.alive⟩, fun hwaiting => ?_⟩
    obtain ⟨hempty, hopen⟩ := pollRecv_eq_pending_iff.mp (hmissed hwaiting)
    obtain ⟨_, haccepts⟩ := isClosed_eq_false_iff.mp hopen
    have hreceiver : s.receiver = true := h.alive hwaiting
    have hcount : s.strongCount ≠ 2 := fun htwo => hmore ⟨haccepts, htwo⟩
    refine pollRecv_eq_pending_iff.mpr ⟨hempty, isClosed_eq_false_iff.mpr ⟨?_, haccepts⟩⟩
    simp only [strongCount, hreceiver] at hcount ⊢
    omega

/-- A step from a state in which nothing is missed misses something exactly if the receiver is
closed while its task waits. -/
theorem Parked.step (h : s.Parked) (hmissed : s.NothingMissed) (hstep : s.step action = some t) :
    t.Parked ∧ (t.NothingMissed ↔ s.ClosesAwake action) := by
  cases action with
  | send item =>
    obtain ⟨_, rfl⟩ := GuardedRun.of_enabled hstep
    obtain ⟨_, heq⟩ | ⟨_, heq⟩ := s.send_cases item
    · rw [heq]
      have hawake := awake (Parked.waiting_wake (s := { s with
        shared.buffer := s.shared.buffer ++ [item]
        accepted := s.accepted ++ [item] }) ⟨h.registered, h.alive⟩)
      exact ⟨hawake.1, iff_of_true hawake.2 trivial⟩
    · rw [heq]
      exact ⟨h, iff_of_true hmissed trivial⟩
  | closeSender =>
    obtain ⟨_, rfl⟩ := GuardedRun.of_enabled hstep
    have hawake := awake (Parked.waiting_wake (s := { s with shared.hasReceiver := false })
      ⟨h.registered, h.alive⟩)
    exact ⟨hawake.1, iff_of_true hawake.2 trivial⟩
  | cloneSender | sender =>
    obtain ⟨_, rfl⟩ := GuardedRun.of_enabled hstep
    exact ⟨⟨h.registered, h.alive⟩, iff_of_true (h.addSender hmissed) trivial⟩
  | dropSender =>
    obtain ⟨hsender, rfl⟩ := GuardedRun.of_enabled hstep
    obtain ⟨hparked, hnothing⟩ := h.dropSender hsender hmissed
    exact ⟨hparked, iff_of_true hnothing trivial⟩
  | closeReceiver =>
    obtain ⟨_, rfl⟩ := GuardedRun.of_enabled hstep
    refine ⟨⟨h.registered, h.alive⟩, fun hnothing => ?_, fun hawake => ?_⟩
    · cases hwaiting : s.waiting with
      | false => exact hwaiting
      | true =>
        obtain ⟨_, hopen⟩ := pollRecv_eq_pending_iff.mp (hnothing hwaiting)
        exact nomatch (isClosed_eq_false_iff.mp hopen).2
    · exact (awake (s := s.closeReceiver) hawake).2
  | tryRecv =>
    obtain ⟨_, rfl⟩ := GuardedRun.of_enabled hstep
    obtain ⟨item, rest, hbuffer, heq⟩ | ⟨_, heq⟩ := s.tryRecv_cases
    · have hawake : s.waiting = false := by
        cases hwaiting : s.waiting with
        | false => rfl
        | true =>
          obtain ⟨hempty, _⟩ := pollRecv_eq_pending_iff.mp (hmissed hwaiting)
          cases hempty.symm.trans hbuffer
      rw [heq]
      refine ⟨(awake ?_).1, iff_of_true (awake ?_).2 trivial⟩ <;> exact hawake
    · rw [heq]
      exact ⟨h, iff_of_true hmissed trivial⟩
  | pollRecv =>
    obtain ⟨hreceiver, rfl⟩ := GuardedRun.of_enabled hstep
    obtain ⟨_, _, _, heq⟩ | ⟨_, _, _, heq⟩ | ⟨hempty, hopen, heq⟩ := s.pollRecv_cases
    · rw [heq]
      exact ⟨(awake rfl).1, iff_of_true (awake rfl).2 trivial⟩
    · rw [heq]
      exact ⟨(awake rfl).1, iff_of_true (awake rfl).2 trivial⟩
    · rw [heq]
      refine ⟨⟨fun _ => rfl, fun _ => hreceiver⟩, iff_of_true (fun _ => ?_) trivial⟩
      exact pollRecv_eq_pending_iff.mpr ⟨hempty, hopen⟩
  | dropReceiver | giveUp =>
    obtain ⟨_, rfl⟩ := GuardedRun.of_enabled hstep
    exact ⟨(awake rfl).1, iff_of_true (awake rfl).2 trivial⟩

/-- In every run, a task that waits is woken whenever a poll would give it something, exactly if the
receiver is never closed while its task waits. -/
theorem no_wakeup_lost_iff (actions : List (MpscAction T)) :
    GuardedRun.StatesSatisfy step NothingMissed channel actions ↔
      GuardedRun.StepsSatisfy step ClosesAwake channel actions := by
  obtain ⟨hparked, hnothing⟩ := awake (s := (channel : Mpsc T)) rfl
  exact GuardedRun.statesSatisfy_iff_stepsSatisfy
    (fun _ _ _ h hmissed hstep => (h.step hmissed hstep).1)
    (fun _ _ _ h hmissed hstep => (h.step hmissed hstep).2) hparked hnothing

/-- An empty queue that is closed stays at its end. -/
theorem staysEnded_of_closed (hempty : s.shared.buffer = []) (hclosed : s.isClosed = true) :
    s.StaysEnded := fun _ => pollRecv_eq_none_iff.mpr ⟨hempty, hclosed⟩

/-- A queue that accepts nothing is closed. -/
theorem isClosed_of_hasReceiver (h : s.shared.hasReceiver = false) : s.isClosed = true := by
  simp [isClosed, h]

/-- A closed queue that still has a sender accepts nothing. -/
theorem Delivered.hasReceiver_of_sender (h : s.Delivered) (hclosed : s.isClosed = true)
    (hsender : 0 < s.senders) : s.shared.hasReceiver = false := by
  cases hopen : s.shared.hasReceiver with
  | false => rfl
  | true =>
    have hone : s.strongCount = 1 := by simpa [isClosed, hopen] using hclosed
    cases hreceiver : s.receiver with
    | false => exact hopen.symm.trans (h.dropped hreceiver).2
    | true =>
      simp only [strongCount, hreceiver, if_true] at hone
      omega

/-- Before the end has been found, only a poll finds it. -/
theorem staysEnded_of_not_ended (hended : s.ended = false) (hstep : s.step action = some t) :
    t.StaysEnded := by
  have hnot (hsame : t.ended = s.ended) : t.StaysEnded := fun htrue =>
    nomatch htrue.symm.trans (hsame.trans hended)
  cases action with
  | send item =>
    obtain ⟨_, rfl⟩ := GuardedRun.of_enabled hstep
    have hsame : (s.send item).1.ended = s.ended := by
      obtain ⟨_, heq⟩ | ⟨_, heq⟩ := s.send_cases item <;> rw [heq]
      rfl
    exact hnot hsame
  | dropSender =>
    obtain ⟨_, rfl⟩ := GuardedRun.of_enabled hstep
    refine hnot ?_
    unfold dropSender
    split <;> rfl
  | closeSender | cloneSender | sender | closeReceiver | dropReceiver | giveUp =>
    obtain ⟨_, rfl⟩ := GuardedRun.of_enabled hstep
    exact hnot rfl
  | tryRecv =>
    obtain ⟨_, rfl⟩ := GuardedRun.of_enabled hstep
    have hsame : s.tryRecv.1.ended = s.ended := by
      obtain ⟨_, _, _, heq⟩ | ⟨_, heq⟩ := s.tryRecv_cases <;> rw [heq]
    exact hnot hsame
  | pollRecv =>
    obtain ⟨_, rfl⟩ := GuardedRun.of_enabled hstep
    obtain ⟨_, _, _, heq⟩ | ⟨hempty, hclosed, _, heq⟩ | ⟨_, _, heq⟩ := s.pollRecv_cases
    · exact hnot (heq ▸ rfl)
    · rw [heq]
      exact staysEnded_of_closed hempty hclosed
    · exact hnot (heq ▸ rfl)

/-- A poll that has found the end is followed by polls that find it, until a sender is made of an
open queue. -/
theorem StaysEnded.step (h : s.StaysEnded) (hdelivered : s.Delivered)
    (hstep : s.step action = some t) : t.StaysEnded ↔ s.EndsOnce action := by
  cases hended : s.ended with
  | false =>
    refine iff_of_true (staysEnded_of_not_ended hended hstep) ?_
    cases action <;> simp [EndsOnce, hended]
  | true =>
    obtain ⟨hempty, hclosed⟩ := pollRecv_eq_none_iff.mp (h hended)
    cases action with
    | send item =>
      obtain ⟨hsender, rfl⟩ := GuardedRun.of_enabled hstep
      have hrefuses := hdelivered.hasReceiver_of_sender hclosed hsender
      obtain ⟨hopen, _⟩ | ⟨_, heq⟩ := s.send_cases item
      · exact nomatch hrefuses.symm.trans hopen
      · rw [heq]
        exact iff_of_true h trivial
    | cloneSender =>
      obtain ⟨hsender, rfl⟩ := GuardedRun.of_enabled hstep
      have hrefuses := hdelivered.hasReceiver_of_sender hclosed hsender
      exact iff_of_true (staysEnded_of_closed hempty (isClosed_of_hasReceiver hrefuses)) trivial
    | dropSender =>
      obtain ⟨hsender, rfl⟩ := GuardedRun.of_enabled hstep
      have hrefuses := hdelivered.hasReceiver_of_sender hclosed hsender
      refine iff_of_true ?_ trivial
      unfold dropSender
      split <;> exact staysEnded_of_closed hempty (isClosed_of_hasReceiver hrefuses)
    | sender =>
      obtain ⟨hreceiver, rfl⟩ := GuardedRun.of_enabled hstep
      constructor
      · intro hstays _
        obtain ⟨_, hstill⟩ := pollRecv_eq_none_iff.mp (hstays hended)
        cases hopen : s.shared.hasReceiver with
        | false => rfl
        | true =>
          have hone : s.strongCount = 1 := by simpa [isClosed, hopen] using hclosed
          have htwo : ({ s with senders := s.senders + 1 } : Mpsc T).strongCount = 1 := by
            simpa [isClosed, hopen] using hstill
          simp only [strongCount] at hone htwo
          omega
      · exact fun honce => staysEnded_of_closed hempty (isClosed_of_hasReceiver (honce hended))
    | closeSender | closeReceiver =>
      obtain ⟨_, rfl⟩ := GuardedRun.of_enabled hstep
      exact iff_of_true (staysEnded_of_closed hempty (isClosed_of_hasReceiver rfl)) trivial
    | dropReceiver =>
      obtain ⟨_, rfl⟩ := GuardedRun.of_enabled hstep
      exact iff_of_true (staysEnded_of_closed rfl (isClosed_of_hasReceiver rfl)) trivial
    | giveUp =>
      obtain ⟨_, rfl⟩ := GuardedRun.of_enabled hstep
      exact iff_of_true (staysEnded_of_closed hempty hclosed) trivial
    | tryRecv =>
      obtain ⟨_, rfl⟩ := GuardedRun.of_enabled hstep
      obtain ⟨_, _, hbuffer, _⟩ | ⟨_, heq⟩ := s.tryRecv_cases
      · cases hempty.symm.trans hbuffer
      · rw [heq]
        exact iff_of_true h trivial
    | pollRecv =>
      obtain ⟨_, rfl⟩ := GuardedRun.of_enabled hstep
      obtain ⟨_, _, hbuffer, _⟩ | ⟨_, _, _, heq⟩ | ⟨_, hopen, _⟩ := s.pollRecv_cases
      · cases hempty.symm.trans hbuffer
      · rw [heq]
        exact iff_of_true (staysEnded_of_closed hempty hclosed) trivial
      · cases hclosed.symm.trans hopen

/-- In every run, once a poll has found the end all later polls find it, exactly if no sender is
made after that while the queue is open. -/
theorem end_is_final_iff (actions : List (MpscAction T)) :
    GuardedRun.StatesSatisfy step StaysEnded channel actions ↔
      GuardedRun.StepsSatisfy step EndsOnce channel actions := by
  have hstart : (channel : Mpsc T).Delivered := ⟨rfl, fun _ => rfl, nofun⟩
  exact GuardedRun.statesSatisfy_iff_stepsSatisfy
    (fun _ _ _ h _ hstep => h.step hstep)
    (fun _ _ _ h hended hstep => hended.step h hstep) hstart nofun

end Mpsc

end Arbexpert.Base
