import Arbexpert.Foundation.Accounting
import Arbexpert.Foundation.GuardedRun
import Arbexpert.Macros.Select
import Mathlib.Data.List.Basic
import Mathlib.Data.List.Perm.Basic

/-!
# The web clients

The texts that the workers broadcast go to all web clients. A task takes them out of the receiver
of its client and starts to send each of them; a service answers the frames of the client, and tells
the task when the client closes. The channel drops its oldest text when it is full, and tells a
receiver that it has missed some. The task ends then, but the service does not.
-/

namespace Arbexpert.Web

open Arbexpert.Macros

/-- The number of texts that the channel holds. -/
def capacity : ℕ := 1000000

/-- A frame that a client sends. -/
inductive Frame
  | text (text : List UInt8)
  | binary (bin : List UInt8)
  | ping (msg : List UInt8)
  | close (reason : Option String)
  | other
  deriving DecidableEq

/-- A message that is sent to a client. -/
inductive Message
  | text (text : String)
  | binary (bin : List UInt8)
  | pong (msg : List UInt8)
  | close (reason : Option String)
  deriving DecidableEq

/-- The answer to a frame; `lossy` reads bytes as a text. -/
def Frame.response (lossy : List UInt8 → String) : Frame → Option Message
  | .text bytes => some (.text (lossy bytes))
  | .binary bytes => some (.binary bytes)
  | .ping bytes => some (.pong bytes)
  | .close reason => some (.close reason)
  | .other => none

/-- A frame that closes. -/
def Frame.isClose : Frame → Bool
  | .close _ => true
  | _ => false

/-- Why the task of a client has returned. -/
inductive Ending
  | lagged
  | failed
  | closed
  deriving DecidableEq

/-- A client: the number of texts that had been broadcast before it, the texts that its task has
received, those that are being sent and those that have been sent, why and after how many texts the
task has returned, and its service with the sender that tells the task to close. -/
structure Client (M : Type*) where
  joined : ℕ
  received : List M
  tasks : List M
  sent : List M
  ending : Option (Ending × ℕ)
  served : Bool
  closeTx : Bool
  replies : List Message

/-- The texts that have been broadcast, and the clients. -/
structure Hub (M : Type*) where
  history : List M
  clients : List (Client M)

/-- What the task of a client waits for: a text or an error of the channel, the end of one of the
sends, and the order to close. -/
inductive Event (M : Type*)
  | req (result : Option M)
  | task (i : ℕ) (sends : Bool)
  | close

/-- The steps: a text is broadcast; a client comes, sends a frame or goes; its task is polled. -/
inductive HubAction (M : Type*)
  | broadcast (text : M)
  | connect
  | frame (k : ℕ) (frame : Frame)
  | disconnect (k : ℕ)
  | poll (k : ℕ) (req : Option (Option M)) (task : Option (ℕ × Bool))

variable {M : Type*}

/-- The client that an action is about. -/
def HubAction.target : HubAction M → Option ℕ
  | .frame k _ => some k
  | .disconnect k => some k
  | .poll k _ _ => some k
  | _ => none

/-- A poll of the task of a client. -/
def HubAction.isPoll (k : ℕ) : HubAction M → Bool
  | .poll j _ _ => j == k
  | _ => false

/-- The frame that a client sends. -/
def HubAction.frameOf (k : ℕ) : HubAction M → Option Frame
  | .frame j given => if j = k then some given else none
  | _ => none

/-- The value that a call of the macro in a loop has when its task is polled. -/
def chosen (loop : Loop) (answer : ℕ → Option M) : Option M :=
  ((Select.start loop.branches).wake loop.branches answer).bind fun call =>
    match call.output with
    | some (.ready _ value) => some value
    | _ => none

namespace Client

/-- A new client. -/
def new (joined : ℕ) : Client M := ⟨joined, [], [], [], none, true, true, []⟩

/-- The number of texts that the receiver has gone past. -/
def position (client : Client M) : ℕ := client.joined + client.received.length

/-- What the futures of the branches answer. -/
def answer (client : Client M) (req : Option (Option M)) (task : Option (ℕ × Bool)) :
    ℕ → Option (Event M)
  | 0 => req.map .req
  | 1 => task.map fun done => .task done.1 done.2
  | _ => if client.closeTx then none else some .close

/-- The event that the macro chooses; the task only waits for the end of a send when it has some. -/
def select (client : Client M) (req : Option (Option M)) (task : Option (ℕ × Bool)) :
    Option (Event M) :=
  chosen (.service !client.tasks.isEmpty) (client.answer req task)

/-- The task handles an event when `count` texts have been broadcast. -/
def handle (client : Client M) (count : ℕ) : Event M → Option (Client M)
  | .req none => some { client with ending := some (.lagged, count) }
  | .req (some text) =>
    some { client with received := client.received ++ [text], tasks := client.tasks ++ [text] }
  | .task i sends =>
    client.tasks[i]?.map fun text =>
      if sends then { client with tasks := client.tasks.eraseIdx i, sent := client.sent ++ [text] }
      else { client with ending := some (.failed, count) }
  | .close => some { client with ending := some (.closed, count) }

/-- The task is polled; it waits when there is no event. -/
def poll (client : Client M) (count : ℕ) (req : Option (Option M)) (task : Option (ℕ × Bool)) :
    Option (Client M) :=
  match client.select req task with
  | none => some client
  | some event => client.handle count event

/-- The service answers a frame, and tells the task when the client closes. -/
def serve (lossy : List UInt8 → String) (client : Client M) (frame : Frame) : Client M :=
  { client with
    closeTx := client.closeTx && !frame.isClose
    replies := client.replies ++ (frame.response lossy).toList }

end Client

/-- What the channel documents for a receiver that is polled: the texts come in their order, an
error says that it has missed texts, and only a receiver that has all texts waits. -/
def Answers (history : List M) (position : ℕ) : Option (Option M) → Prop
  | none => history.length ≤ position
  | some (some text) => history[position]? = some text ∧ history.length ≤ position + capacity
  | some none => position + capacity < history.length

instance [DecidableEq M] (history : List M) (position : ℕ) :
    DecidablePred (Answers history position)
  | none => inferInstanceAs (Decidable (_ ≤ _))
  | some (some _) => inferInstanceAs (Decidable (_ ∧ _))
  | some none => inferInstanceAs (Decidable (_ < _))

namespace Hub

/-- The server before its first client. -/
def start : Hub M := ⟨[], []⟩

/-- One step of the server. -/
def step (lossy : List UInt8 → String) (s : Hub M) : HubAction M → Option (Hub M)
  | .broadcast text => some { s with history := s.history ++ [text] }
  | .connect => some { s with clients := s.clients ++ [.new s.history.length] }
  | .frame k frame =>
    s.clients[k]?.bind fun client =>
      if client.served then some { s with clients := s.clients.set k (client.serve lossy frame) }
      else none
  | .disconnect k =>
    s.clients[k]?.map fun client =>
      { s with clients := s.clients.set k { client with served := false, closeTx := false } }
  | .poll k req task =>
    s.clients[k]?.bind fun client =>
      if client.ending = none then
        (client.poll s.history.length req task).map fun next =>
          { s with clients := s.clients.set k next }
      else none

/-- The channel keeps its documentation when it answers a receiver. -/
def Documented (s : Hub M) : HubAction M → Prop
  | .poll k req _ => ∀ client ∈ s.clients[k]?, Answers s.history client.position req
  | _ => True

instance [DecidableEq M] (s : Hub M) : DecidablePred s.Documented
  | .broadcast _ => isTrue trivial
  | .connect => isTrue trivial
  | .frame _ _ => isTrue trivial
  | .disconnect _ => isTrue trivial
  | .poll k req _ =>
    inferInstanceAs (Decidable (∀ client ∈ s.clients[k]?, Answers s.history client.position req))

end Hub

/-- What a poll makes of a client. -/
inductive Client.Polled (client : Client M) (count : ℕ) :
    Option (Option M) → Option (ℕ × Bool) → Client M → Prop
  | lags (task : Option (ℕ × Bool)) :
      client.Polled count (some none) task { client with ending := some (.lagged, count) }
  | receives (text : M) (task : Option (ℕ × Bool)) :
      client.Polled count (some (some text)) task
        { client with received := client.received ++ [text], tasks := client.tasks ++ [text] }
  | sends {i : ℕ} {text : M} (htask : client.tasks[i]? = some text) :
      client.Polled count none (some (i, true))
        { client with tasks := client.tasks.eraseIdx i, sent := client.sent ++ [text] }
  | fails {i : ℕ} {text : M} (htask : client.tasks[i]? = some text) :
      client.Polled count none (some (i, false)) { client with ending := some (.failed, count) }
  | closes (task : Option (ℕ × Bool)) (hclose : client.closeTx = false) :
      client.Polled count none task { client with ending := some (.closed, count) }
  | waits (task : Option (ℕ × Bool)) : client.Polled count none task client

/-- The loop of a client takes the first of its branches that has a value. -/
theorem chosen_service (tasks : Bool) (answer : ℕ → Option M) :
    chosen (.service tasks) answer =
      (answer 0).or ((if tasks then answer 1 else none).or (answer 2)) := by
  unfold chosen
  cases tasks <;> cases h0 : answer 0 <;> cases h1 : answer 1 <;> cases h2 : answer 2 <;>
    simp [Select.wake, Select.start, Loop.branches, Branch.any, preconditions, pollLoop, pollOrder,
      threadRngN, maskWidth, List.range, List.range.loop, h0, h1, h2]

namespace Client

variable {client next : Client M} {count : ℕ} {req : Option (Option M)}
  {task : Option (ℕ × Bool)}

/-- The macro prefers the channel to the sends, and these to the order to close. -/
theorem select_eq : client.select req task =
    (req.map .req).or ((if client.tasks.isEmpty then none else
      task.map fun done => .task done.1 done.2).or
        (if client.closeTx then none else some .close)) := by
  unfold select
  rw [chosen_service]
  cases client.tasks.isEmpty <;> rfl

/-- A poll does one of these. -/
theorem polled_of_poll (h : client.poll count req task = some next) :
    client.Polled count req task next := by
  unfold poll at h
  rw [select_eq] at h
  rcases req with _ | (_ | text)
  · rcases hdone : (if client.tasks.isEmpty then none else task) with _ | ⟨i, sends⟩
    · have hnone : (if client.tasks.isEmpty then none else
          task.map fun done => (.task done.1 done.2 : Event M)) = none := by
        split at hdone
        · rw [if_pos ‹_›]
        · rw [if_neg ‹_›, hdone]
          rfl
      rw [hnone] at h
      cases hclose : client.closeTx with
      | false =>
        rw [hclose] at h
        cases h
        exact .closes task hclose
      | true =>
        rw [hclose] at h
        cases h
        exact .waits task
    · obtain ⟨htasks, rfl⟩ : client.tasks.isEmpty = false ∧ task = some (i, sends) := by
        split at hdone
        · cases hdone
        · exact ⟨Bool.eq_false_iff.mpr ‹_›, hdone⟩
      rw [htasks] at h
      obtain ⟨text, htext, rfl⟩ := Option.map_eq_some_iff.mp h
      cases sends with
      | false => exact .fails htext
      | true => exact .sends htext
  · cases h
    exact .lags task
  · cases h
    exact .receives text task

/-- What is known of a client: the texts that it has received are those that were broadcast after it
came, in their order, each of them is being sent or has been sent, and its task has returned only
for a reason. One that did not lag had received all texts then. -/
structure Sound (history : List M) (client : Client M) : Prop where
  joined : client.joined ≤ history.length
  segment : client.received <+: history.drop client.joined
  kept : client.received.Perm (client.sent ++ client.tasks)
  ended : ∀ ending count, client.ending = some (ending, count) → count ≤ history.length ∧
    match ending with
    | .lagged => client.position + capacity < count
    | .failed => client.received = (history.take count).drop client.joined ∧ client.tasks ≠ []
    | .closed => client.received = (history.take count).drop client.joined ∧ client.closeTx = false

variable {history : List M}

/-- The text at the position of a receiver is the next one. -/
theorem Sound.segment_next (h : client.Sound history) {text : M}
    (htext : history[client.position]? = some text) :
    client.received ++ [text] <+: history.drop client.joined := by
  have hnext : (history.drop client.joined)[client.received.length]? = some text := by
    rw [List.getElem?_drop]
    exact htext
  have htake := List.take_add_one (l := history.drop client.joined) (i := client.received.length)
  rw [← List.prefix_iff_eq_take.mp h.segment, hnext] at htake
  rw [← Option.toList_some, ← htake]
  exact List.take_prefix _ _

/-- A receiver that waits has received all texts. -/
theorem Sound.received_eq (h : client.Sound history) (hwaits : history.length ≤ client.position) :
    client.received = (history.take history.length).drop client.joined := by
  rw [List.take_length]
  refine h.segment.eq_of_length_le ?_
  rw [List.length_drop]
  unfold position at hwaits
  omega

/-- More texts are broadcast. -/
theorem Sound.append (h : client.Sound history) (texts : List M) :
    client.Sound (history ++ texts) where
  joined := by
    rw [List.length_append]
    exact Nat.le_add_right_of_le h.joined
  segment := by
    rw [List.drop_append_of_le_length h.joined]
    exact h.segment.trans (List.prefix_append _ _)
  kept := h.kept
  ended := by
    intro ending count hending
    obtain ⟨hcount, hreason⟩ := h.ended ending count hending
    rw [List.take_append_of_le_length hcount, List.length_append]
    exact ⟨Nat.le_add_right_of_le hcount, hreason⟩

/-- A new client. -/
theorem sound_new (history : List M) : (new history.length).Sound history where
  joined := Nat.le_refl _
  segment := List.nil_prefix
  kept := .refl _
  ended := nofun

/-- The sender that tells the task to close is used. -/
theorem Sound.close (h : client.Sound history) {closeTx served : Bool} {replies : List Message}
    (hclose : client.closeTx = false → closeTx = false) :
    { client with closeTx := closeTx, served := served, replies := replies }.Sound history where
  joined := h.joined
  segment := h.segment
  kept := h.kept
  ended := by
    intro ending count hending
    obtain ⟨hcount, hreason⟩ := h.ended ending count hending
    refine ⟨hcount, ?_⟩
    cases ending with
    | lagged => exact hreason
    | failed => exact hreason
    | closed => exact ⟨hreason.1, hclose hreason.2⟩

/-- The task returns. -/
theorem Sound.finish (h : client.Sound history) (ending : Ending)
    (hreason : match ending with
      | .lagged => client.position + capacity < history.length
      | .failed => client.received = (history.take history.length).drop client.joined ∧
          client.tasks ≠ []
      | .closed => client.received = (history.take history.length).drop client.joined ∧
          client.closeTx = false) :
    { client with ending := some (ending, history.length) }.Sound history where
  joined := h.joined
  segment := h.segment
  kept := h.kept
  ended := by
    intro ending count hending
    cases hending
    exact ⟨Nat.le_refl _, hreason⟩

/-- The task is polled. -/
theorem Sound.poll (h : client.Sound history) (hending : client.ending = none)
    (hdocumented : Answers history client.position req)
    (hpolled : client.Polled history.length req task next) : next.Sound history := by
  cases hpolled with
  | lags task => exact h.finish .lagged hdocumented
  | receives text task =>
    refine ⟨h.joined, h.segment_next hdocumented.1, ?_, ?_⟩
    · rw [← List.append_assoc]
      exact h.kept.append_right [text]
    · intro ending count hended
      rw [hending] at hended
      cases hended
  | @sends i text htask =>
    refine ⟨h.joined, h.segment, h.kept.trans ?_, ?_⟩
    · rw [List.append_assoc]
      obtain ⟨hi, rfl⟩ := List.getElem?_eq_some_iff.mp htask
      exact (List.getElem_cons_eraseIdx_perm hi).symm.append_left client.sent
    · intro ending count hended
      rw [hending] at hended
      cases hended
  | fails htask =>
    refine h.finish .failed ⟨h.received_eq hdocumented, fun hnil => ?_⟩
    rw [hnil] at htask
    cases htask
  | closes task hclose => exact h.finish .closed ⟨h.received_eq hdocumented, hclose⟩
  | waits task => exact h

end Client

namespace Hub

variable {lossy : List UInt8 → String} {s t : Hub M} {action : HubAction M} {k : ℕ}
  {client : Client M}

/-- What an action does to one of the clients. -/
inductive Own (lossy : List UInt8 → String) (count k : ℕ) (client : Client M) :
    HubAction M → Client M → Prop
  | other {action : HubAction M} (htarget : action.target ≠ some k) :
      Own lossy count k client action client
  | frame (frame : Frame) : Own lossy count k client (.frame k frame) (client.serve lossy frame)
  | disconnect :
      Own lossy count k client (.disconnect k) { client with served := false, closeTx := false }
  | poll {req : Option (Option M)} {task : Option (ℕ × Bool)} {next : Client M}
      (hending : client.ending = none) (hpolled : client.Polled count req task next) :
      Own lossy count k client (.poll k req task) next

/-- A client among the others, one of which changes. -/
theorem getElem?_set_cases {clients : List (Client M)} (hclient : clients[k]? = some client) (j : ℕ)
    (next : Client M) : (j = k ∧ (clients.set j next)[k]? = some next) ∨
      (some j ≠ some k ∧ (clients.set j next)[k]? = some client) := by
  by_cases hj : j = k
  · subst hj
    obtain ⟨hlt, _⟩ := List.getElem?_eq_some_iff.mp hclient
    exact .inl ⟨rfl, List.getElem?_set_self hlt⟩
  · exact .inr ⟨fun h => hj (Option.some.inj h), by rw [List.getElem?_set_ne hj, hclient]⟩

/-- A step does one of these to a client. -/
theorem own_of_step (hclient : s.clients[k]? = some client) (hstep : s.step lossy action = some t) :
    ∃ next, t.clients[k]? = some next ∧ Own lossy s.history.length k client action next ∧
      s.history.length ≤ t.history.length := by
  cases action with
  | broadcast text =>
    cases hstep
    exact ⟨client, hclient, .other nofun, by simp⟩
  | connect =>
    cases hstep
    obtain ⟨hlt, _⟩ := List.getElem?_eq_some_iff.mp hclient
    exact ⟨client, by rw [List.getElem?_append_left hlt, hclient], .other nofun, Nat.le_refl _⟩
  | frame j frame =>
    obtain ⟨other, hother, hserved⟩ := Option.bind_eq_some_iff.mp hstep
    obtain ⟨_, rfl⟩ := GuardedRun.of_enabled hserved
    obtain ⟨rfl, hnext⟩ | ⟨hj, hnext⟩ := getElem?_set_cases hclient j (other.serve lossy frame)
    · cases hclient.symm.trans hother
      exact ⟨_, hnext, .frame frame, Nat.le_refl _⟩
    · exact ⟨_, hnext, .other hj, Nat.le_refl _⟩
  | disconnect j =>
    obtain ⟨other, hother, rfl⟩ := Option.map_eq_some_iff.mp hstep
    obtain ⟨rfl, hnext⟩ | ⟨hj, hnext⟩ := getElem?_set_cases hclient j
      { other with served := false, closeTx := false }
    · cases hclient.symm.trans hother
      exact ⟨_, hnext, .disconnect, Nat.le_refl _⟩
    · exact ⟨_, hnext, .other hj, Nat.le_refl _⟩
  | poll j req task =>
    obtain ⟨other, hother, hrest⟩ := Option.bind_eq_some_iff.mp hstep
    obtain ⟨hending, hpoll⟩ := Option.ite_none_right_eq_some.mp hrest
    obtain ⟨polled, hpolled, rfl⟩ := Option.map_eq_some_iff.mp hpoll
    obtain ⟨rfl, hnext⟩ | ⟨hj, hnext⟩ := getElem?_set_cases hclient j polled
    · cases hclient.symm.trans hother
      exact ⟨_, hnext, .poll hending (Client.polled_of_poll hpolled), Nat.le_refl _⟩
    · exact ⟨_, hnext, .other hj, Nat.le_refl _⟩

/-- Only a broadcast adds a text. -/
theorem history_of_step (hstep : s.step lossy action = some t)
    (haction : ∀ text, action ≠ .broadcast text) : t.history = s.history := by
  cases action with
  | broadcast text => exact absurd rfl (haction text)
  | connect =>
    cases hstep
    rfl
  | frame j frame =>
    obtain ⟨client, _, hserved⟩ := Option.bind_eq_some_iff.mp hstep
    obtain ⟨_, rfl⟩ := GuardedRun.of_enabled hserved
    rfl
  | disconnect j =>
    obtain ⟨client, _, rfl⟩ := Option.map_eq_some_iff.mp hstep
    rfl
  | poll j req task =>
    obtain ⟨client, _, hrest⟩ := Option.bind_eq_some_iff.mp hstep
    obtain ⟨_, hpoll⟩ := Option.ite_none_right_eq_some.mp hrest
    obtain ⟨next, _, rfl⟩ := Option.map_eq_some_iff.mp hpoll
    rfl

/-- Every step keeps what is known of the clients. -/
theorem sound_step (h : ∀ client ∈ s.clients, client.Sound s.history)
    (hdocumented : s.Documented action) (hstep : s.step lossy action = some t) :
    ∀ client ∈ t.clients, client.Sound t.history := by
  cases action with
  | broadcast text =>
    cases hstep
    exact fun client hmem => (h client hmem).append [text]
  | connect =>
    cases hstep
    intro client hmem
    rcases List.mem_append.mp hmem with hold | hnew
    · exact h client hold
    · rw [List.mem_singleton.mp hnew]
      exact Client.sound_new s.history
  | frame k frame =>
    obtain ⟨client, hclient, hserved⟩ := Option.bind_eq_some_iff.mp hstep
    obtain ⟨_, rfl⟩ := GuardedRun.of_enabled hserved
    have hsound := h client (List.mem_of_getElem? hclient)
    refine Accounting.forall_mem_set h (hsound.close fun hclose => ?_)
    rw [hclose]
    rfl
  | disconnect k =>
    obtain ⟨client, hclient, rfl⟩ := Option.map_eq_some_iff.mp hstep
    exact Accounting.forall_mem_set h ((h client (List.mem_of_getElem? hclient)).close fun _ => rfl)
  | poll k req task =>
    obtain ⟨client, hclient, hrest⟩ := Option.bind_eq_some_iff.mp hstep
    obtain ⟨hending, hpoll⟩ := Option.ite_none_right_eq_some.mp hrest
    obtain ⟨next, hnext, rfl⟩ := Option.map_eq_some_iff.mp hpoll
    exact Accounting.forall_mem_set h ((h client (List.mem_of_getElem? hclient)).poll hending
      (hdocumented client hclient) (Client.polled_of_poll hnext))

/-- In every run, however the tasks are polled, each client has received the texts that were
broadcast since it came, in their order and without a gap, up to some text. Each of them is being
sent or has been sent, once, and only a client that falls too far behind, cannot be sent a text or
closes is given up. -/
theorem texts_in_order (lossy : List UInt8 → String)
    (hrun : GuardedRun.Reaches (step lossy) Documented (start : Hub M) s) :
    ∀ client ∈ s.clients, client.Sound s.history :=
  hrun.invariant (I := fun s : Hub M => ∀ client ∈ s.clients, client.Sound s.history)
    (List.forall_mem_nil _)
    fun _ _ _ hsound hdocumented hstep => sound_step hsound hdocumented hstep

/-- A client comes between two texts, gets the second and is sent it, and closes. -/
def closedRun : List (HubAction ℕ) :=
  [.broadcast 1, .connect, .broadcast 2, .poll 0 (some (some 2)) none,
    .poll 0 none (some (0, true)), .frame 0 (.close none), .poll 0 none none]

/-- The client after the run. -/
def closedClient : Client ℕ :=
  ⟨1, [2], [], [2], some (.closed, 2), true, false, [.close none]⟩

/-- The run keeps the documentation. -/
theorem closedRun_documented :
    GuardedRun.StepsSatisfy (step fun _ => "") Documented start closedRun := by
  decide

/-- The client got what it should. -/
theorem closedRun_in_order : ∃ s, GuardedRun.exec (step fun _ => "") start closedRun = some s ∧
    closedClient ∈ s.clients ∧ closedClient.Sound s.history := by
  refine ⟨⟨[1, 2], [closedClient]⟩, rfl, List.mem_singleton.mpr rfl, ?_⟩
  exact texts_in_order (fun _ => "") (GuardedRun.reaches_of_exec closedRun_documented rfl) _
    (List.mem_singleton.mpr rfl)

/-- A task that has ended stays so. -/
theorem ending_of_exec {actions : List (HubAction M)} (hclient : s.clients[k]? = some client)
    (hended : client.ending ≠ none) (hrun : GuardedRun.exec (step lossy) s actions = some t) :
    ∃ next, t.clients[k]? = some next ∧ next.ending = client.ending := by
  induction actions generalizing s client with
  | nil =>
    cases hrun
    exact ⟨client, hclient, rfl⟩
  | cons action rest ih =>
    obtain ⟨u, hstep, hrest⟩ := Option.bind_eq_some_iff.mp hrun
    obtain ⟨mid, hmid, hown, _⟩ := own_of_step hclient hstep
    cases hown with
    | other htarget => exact ih hmid hended hrest
    | frame frame =>
      obtain ⟨next, hnext, hending⟩ := ih hmid hended hrest
      exact ⟨next, hnext, hending⟩
    | disconnect =>
      obtain ⟨next, hnext, hending⟩ := ih hmid hended hrest
      exact ⟨next, hnext, hending⟩
    | poll hending hpolled => exact absurd hending hended

/-- The task of a client that has ended stays so, and receives and sends nothing any more. The
service still answers every frame. -/
theorem ended_client_stays (lossy : List UInt8 → String) {actions : List (HubAction M)}
    (hclient : s.clients[k]? = some client) (hended : client.ending ≠ none)
    (hrun : GuardedRun.exec (step lossy) s actions = some t) :
    ∃ next, t.clients[k]? = some next ∧ next.ending = client.ending ∧
      next.received = client.received ∧ next.sent = client.sent ∧
      next.replies = client.replies ++
        (actions.filterMap (HubAction.frameOf k)).filterMap (Frame.response lossy) := by
  induction actions generalizing s client with
  | nil =>
    cases hrun
    exact ⟨client, hclient, rfl, rfl, rfl, by simp⟩
  | cons action rest ih =>
    obtain ⟨u, hstep, hrest⟩ := Option.bind_eq_some_iff.mp hrun
    obtain ⟨mid, hmid, hown, _⟩ := own_of_step hclient hstep
    cases hown with
    | other htarget =>
      have hframe : action.frameOf k = none := by
        cases action with
        | frame j given => exact if_neg fun hj => htarget (congrArg some hj)
        | _ => rfl
      obtain ⟨next, hnext, hending, hreceived, hsent, hreplies⟩ := ih hmid hended hrest
      exact ⟨next, hnext, hending, hreceived, hsent, by
        rw [hreplies, List.filterMap_cons_none hframe]⟩
    | frame frame =>
      obtain ⟨next, hnext, hending, hreceived, hsent, hreplies⟩ := ih hmid hended hrest
      refine ⟨next, hnext, hending, hreceived, hsent, ?_⟩
      have hframe : (HubAction.frame k frame : HubAction M).frameOf k = some frame := if_pos rfl
      rw [hreplies, List.filterMap_cons_some hframe, Client.serve, List.append_assoc]
      cases hresponse : frame.response lossy with
      | none => rw [List.filterMap_cons_none hresponse]; rfl
      | some message => rw [List.filterMap_cons_some hresponse]; rfl
    | disconnect =>
      obtain ⟨next, hnext, hkept⟩ := ih hmid hended hrest
      exact ⟨next, hnext, hkept⟩
    | poll hending hpolled => exact absurd hending hended

/-- A client whose task has ended pings between two broadcasts. -/
def deafRun : List (HubAction ℕ) :=
  [.broadcast 2, .frame 0 (.ping [1]), .broadcast 3]

/-- The service answers, but the texts are not sent any more. -/
theorem deafRun_stays : ∃ s, GuardedRun.exec (step fun _ => "") ⟨[1, 2], [closedClient]⟩ deafRun =
    some s ∧ ∃ next, s.clients[0]? = some next ∧ next.sent = [2] ∧
      next.replies = [.close none, .pong [1]] := by
  have hrun : GuardedRun.exec (step fun _ => "") ⟨[1, 2], [closedClient]⟩ deafRun =
      some ⟨[1, 2, 2, 3],
        [{ closedClient with replies := [.close none, .pong [1]] }]⟩ := rfl
  obtain ⟨next, hnext, _, _, hsent, hreplies⟩ :=
    ended_client_stays (fun _ => "") (k := 0) (s := ⟨[1, 2], [closedClient]⟩) rfl nofun hrun
  exact ⟨_, hrun, next, hnext, hsent, hreplies⟩

/-- A poll lets a client receive a text, unless it has received all or lags. -/
theorem Own.position_le {next : Client M} (h : Own lossy s.history.length k client action next)
    (hclient : s.clients[k]? = some client) (hdocumented : s.Documented action) :
    (∃ count, next.ending = some (.lagged, count)) ∨
      min s.history.length (client.position + if action.isPoll k then 1 else 0) ≤
        next.position := by
  cases h with
  | other htarget =>
    have hpoll : action.isPoll k = false := by
      cases action with
      | poll j req task =>
        exact beq_false_of_ne fun hj => htarget (congrArg some hj)
      | _ => rfl
    rw [hpoll]
    exact .inr (Nat.min_le_right _ _)
  | frame frame => exact .inr (Nat.min_le_right _ _)
  | disconnect => exact .inr (Nat.min_le_right _ _)
  | poll hending hpolled =>
    have hanswer := hdocumented client hclient
    cases hpolled with
    | lags task => exact .inl ⟨_, rfl⟩
    | receives text task =>
      refine .inr (Nat.le_trans (Nat.min_le_right _ _) ?_)
      simp [HubAction.isPoll, Client.position, Nat.add_assoc]
    | sends htask => exact .inr (Nat.le_trans (Nat.min_le_left _ _) hanswer)
    | fails htask => exact .inr (Nat.le_trans (Nat.min_le_left _ _) hanswer)
    | closes task hclose => exact .inr (Nat.le_trans (Nat.min_le_left _ _) hanswer)
    | waits task => exact .inr (Nat.le_trans (Nat.min_le_left _ _) hanswer)

/-- Every poll of its task lets a client receive one of the texts that were broadcast, until it has
received all of them: neither the sends nor an order to close come first. Only a client that lags
gets none. -/
theorem polled_client_receives (lossy : List UInt8 → String) {actions : List (HubAction M)}
    (hclient : s.clients[k]? = some client)
    (hdocumented : GuardedRun.StepsSatisfy (step lossy) Documented s actions)
    (hrun : GuardedRun.exec (step lossy) s actions = some t) :
    ∃ next, t.clients[k]? = some next ∧ ((∃ count, next.ending = some (.lagged, count)) ∨
      min s.history.length (client.position + actions.countP (HubAction.isPoll k)) ≤
        next.position) := by
  induction actions generalizing s client with
  | nil =>
    cases hrun
    exact ⟨client, hclient, .inr (Nat.min_le_right _ _)⟩
  | cons action rest ih =>
    obtain ⟨u, hstep, hrest⟩ := Option.bind_eq_some_iff.mp hrun
    obtain ⟨haction, hguards⟩ := hdocumented u hstep
    obtain ⟨mid, hmid, hown, hlonger⟩ := own_of_step hclient hstep
    obtain ⟨next, hnext, hlater⟩ := ih hmid hguards hrest
    refine ⟨next, hnext, ?_⟩
    rcases hown.position_le hclient haction with ⟨count, hlagged⟩ | hmoved
    · obtain ⟨last, hlast, hending⟩ := ending_of_exec hmid (hlagged ▸ nofun) hrest
      cases hlast.symm.trans hnext
      exact .inl ⟨count, hending.trans hlagged⟩
    · rcases hlater with hlagged | hreached
      · exact .inl hlagged
      · rw [List.countP_cons]
        exact .inr (by omega)

/-- The task of a client that two texts were broadcast to is polled twice. -/
def twoPolls : List (HubAction ℕ) :=
  [.poll 0 (some (some 1)) (some (0, false)), .poll 0 (some (some 2)) none]

/-- It receives both texts. -/
theorem twoPolls_receives : ∃ s, GuardedRun.exec (step fun _ => "") ⟨[1, 2], [.new 0]⟩ twoPolls =
    some s ∧ ∃ next, s.clients[0]? = some next ∧
      ((∃ count, next.ending = some (.lagged, count)) ∨ 2 ≤ next.position) := by
  have hrun : GuardedRun.exec (step fun _ => "") ⟨[1, 2], [.new 0]⟩ twoPolls =
      some ⟨[1, 2], [⟨0, [1, 2], [1, 2], [], none, true, true, []⟩]⟩ := rfl
  exact ⟨_, hrun, polled_client_receives (fun _ => "") (k := 0) rfl
    (by decide) hrun⟩

end Hub

end Arbexpert.Web
