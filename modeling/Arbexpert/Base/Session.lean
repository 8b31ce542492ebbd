import Arbexpert.Base.WsClient
import Arbexpert.Foundation.GuardedRun
import Arbexpert.Ratelimit.Ratelimiter
import Mathlib.Data.List.Perm.Lattice
import Mathlib.Data.List.Range

/-!
# The order of outgoing frames

A session takes the commands of the client from a channel and makes a task of each. A task
asks the limiter for a token and sleeps when it gets none. The tasks are polled in any order,
so a command can be overtaken, but only while its own task waits.
-/

namespace Arbexpert.Base

open Ratelimit

/-- A frame for the sink. A text is numbered by the call that sent it. -/
inductive Outgoing (M : Type*)
  | text (call : ℕ) (message : M)
  | close
  | ping
  | pong (payload : List UInt8)
  deriving DecidableEq

/-- A task that sends a frame, with the end of its sleep, if it has slept. -/
structure SendTask (M : Type*) where
  frame : Outgoing M
  wakeAt : Option ℤ
  deriving DecidableEq

/-- A session: the channel of its commands, the tasks that wait, the limiter and the clock.
The texts of the calls are recorded, and the frames handed to the sink. -/
structure Session (M : Type*) where
  channel : List (Outgoing M)
  tasks : List (SendTask M)
  limiter : Option Ratelimiter
  now : ℤ
  live : Bool
  sent : List M
  handed : List (Outgoing M)
  deriving DecidableEq

/-- What can happen next: the client sends a text or a close frame, the session takes a
command, makes a ping or a pong, or polls a task, which reads the clock twice; time passes,
another session uses the limiter, or the session ends. -/
inductive SessionAction (M : Type*)
  | send (message : M)
  | close
  | take
  | ping
  | pong (payload : List UInt8)
  | poll (i d : ℕ)
  | pass (d : ℕ)
  | interfere (limiter : Ratelimiter)
  | stop

variable {M : Type*}

/-- The call that sent a frame. -/
def Outgoing.call : Outgoing M → Option ℕ
  | .text call _ => some call
  | _ => none

namespace Session

/-- A new session. -/
def start (limiter : Option Ratelimiter) (now : ℤ) : Session M :=
  ⟨[], [], limiter, now, true, [], []⟩

/-- A new task for a frame. -/
def push (s : Session M) (frame : Outgoing M) : Session M :=
  { s with tasks := s.tasks ++ [⟨frame, none⟩] }

/-- A task hands its frame to the sink. -/
def hand (s : Session M) (i : ℕ) (frame : Outgoing M) : Session M :=
  { s with
    tasks := s.tasks.eraseIdx i
    handed := s.handed ++ [frame] }

/-- A task is polled: it asks for a token, and sleeps for the hint when it gets none. -/
def poll (s : Session M) (i : ℕ) (task : SendTask M) (d : ℕ) : Session M :=
  match s.limiter with
  | none => s.hand i task.frame
  | some limiter =>
    let (limiter, result) := limiter.tryWait s.now (s.now + d)
    let s := { s with limiter := some limiter }
    match result with
    | .ok () => s.hand i task.frame
    | .error hint =>
      { s with
        tasks := s.tasks.set i ⟨task.frame, some (s.now + d + hint)⟩
        now := s.now + d }

/-- One step. A task that sleeps is polled when its time has come. -/
def step (s : Session M) (action : SessionAction M) : Option (Session M) :=
  if s.live then
    match action with
    | .send message =>
      some { s with
        channel := s.channel ++ [.text s.sent.length message]
        sent := s.sent ++ [message] }
    | .close => some { s with channel := s.channel ++ [.close] }
    | .take =>
      match s.channel with
      | [] => none
      | frame :: channel => some ({ s with channel }.push frame)
    | .ping => some (s.push .ping)
    | .pong payload => some (s.push (.pong payload))
    | .poll i d => s.tasks[i]?.bind fun task =>
      if ∀ wakeAt ∈ task.wakeAt, wakeAt ≤ s.now then some (s.poll i task d) else none
    | .pass d => some { s with now := s.now + d }
    | .interfere limiter => some { s with limiter := s.limiter.map fun _ => limiter }
    | .stop => some { s with live := false }
  else none

/-- The calls whose texts have been handed to the sink, in that order. -/
def handedCalls (s : Session M) : List ℕ := s.handed.filterMap Outgoing.call

/-- The frames of the tasks that wait. -/
def waiting (s : Session M) : List (Outgoing M) := s.tasks.map SendTask.frame

/-- The calls whose tasks wait. -/
def waitingCalls (s : Session M) : List ℕ := s.waiting.filterMap Outgoing.call

/-- The calls whose texts are in the channel. -/
def channelCalls (s : Session M) : List ℕ := s.channel.filterMap Outgoing.call

/-- A command is taken from the channel when no task of a call waits. -/
def TakesAlone (s : Session M) : SessionAction M → Prop
  | .take => s.waitingCalls = []
  | _ => True

/-- Whether a command is taken alone is computed. -/
instance (s : Session M) (action : SessionAction M) : Decidable (s.TakesAlone action) :=
  match action with
  | .take => inferInstanceAs (Decidable (s.waitingCalls = []))
  | .send _ | .close | .ping | .pong _ | .poll _ _ | .pass _ | .interfere _ | .stop =>
    isTrue trivial

/-- The frame is not a text, or it is the text of its call. -/
def Sent (s : Session M) : Outgoing M → Prop
  | .text call message => s.sent[call]? = some message
  | _ => True

/-- The first calls have been taken, each once, and the channel has the later ones in order;
every text is that of its call. -/
structure Ordered (s : Session M) (n : ℕ) : Prop where
  taken : (s.handedCalls ++ s.waitingCalls).Perm (List.range n)
  channel : s.channelCalls = List.range' n (s.sent.length - n)
  le : n ≤ s.sent.length
  sent : ∀ frame, frame ∈ s.handed ∨ frame ∈ s.waiting ∨ frame ∈ s.channel → s.Sent frame

/-- One text at most waits, and the texts taken are handed over in order. -/
structure OneWaits (s : Session M) : Prop where
  taken : ∃ n, s.handedCalls ++ s.waitingCalls = List.range n
  one : s.waitingCalls.length ≤ 1

/-- What a step does to the frames: a text or a close frame is sent, a command is taken, an
own frame is made, a task hands its frame to the sink, or the frames stay where they are. -/
inductive Moves (s : Session M) (action : SessionAction M) (t : Session M) : Prop
  | text (message : M) (hchannel : t.channel = s.channel ++ [.text s.sent.length message])
      (hsent : t.sent = s.sent ++ [message]) (hwaiting : t.waiting = s.waiting)
      (hhanded : t.handed = s.handed)
  | close (hchannel : t.channel = s.channel ++ [.close]) (hsent : t.sent = s.sent)
      (hwaiting : t.waiting = s.waiting) (hhanded : t.handed = s.handed)
  | take (frame : Outgoing M) (haction : action = .take)
      (hchannel : s.channel = frame :: t.channel) (hsent : t.sent = s.sent)
      (hwaiting : t.waiting = s.waiting ++ [frame])
      (hhanded : t.handed = s.handed)
  | own (frame : Outgoing M) (hcall : frame.call = none) (hchannel : t.channel = s.channel)
      (hsent : t.sent = s.sent) (hwaiting : t.waiting = s.waiting ++ [frame])
      (hhanded : t.handed = s.handed)
  | hand (frame : Outgoing M) (before after : List (Outgoing M))
      (hold : s.waiting = before ++ frame :: after) (hchannel : t.channel = s.channel)
      (hsent : t.sent = s.sent) (hwaiting : t.waiting = before ++ after)
      (hhanded : t.handed = s.handed ++ [frame])
  | stay (hchannel : t.channel = s.channel) (hsent : t.sent = s.sent)
      (hwaiting : t.waiting = s.waiting) (hhanded : t.handed = s.handed)

variable {s t : Session M} {action : SessionAction M} {n : ℕ}

/-- A task that is polled hands its frame to the sink, or the frames stay where they are. -/
theorem moves_poll {i : ℕ} {task : SendTask M} (htask : s.tasks[i]? = some task) (d : ℕ) :
    s.Moves action (s.poll i task d) := by
  obtain ⟨hi, hget⟩ := List.getElem?_eq_some_iff.mp htask
  have hsplit : s.tasks = s.tasks.take i ++ task :: s.tasks.drop (i + 1) := by
    rw [← hget, List.getElem_cons_drop, List.take_append_drop]
  have hold : s.waiting = (s.tasks.take i).map SendTask.frame ++
      task.frame :: (s.tasks.drop (i + 1)).map SendTask.frame := by
    rw [waiting, ← List.map_cons, ← List.map_append, ← hsplit]
  have herase : (s.tasks.eraseIdx i).map SendTask.frame =
      (s.tasks.take i).map SendTask.frame ++ (s.tasks.drop (i + 1)).map SendTask.frame := by
    rw [List.eraseIdx_eq_take_drop_succ, List.map_append]
  have hset (wakeAt : Option ℤ) :
      (s.tasks.set i ⟨task.frame, wakeAt⟩).map SendTask.frame = s.waiting := by
    have hframe : (s.tasks.map SendTask.frame)[i]? = some task.frame := by
      rw [List.getElem?_map, htask, Option.map_some]
    obtain ⟨hlength, hframe⟩ := List.getElem?_eq_some_iff.mp hframe
    rw [List.map_set, ← hframe, List.set_getElem_self, waiting]
  unfold poll
  split
  · exact .hand task.frame _ _ hold rfl rfl herase rfl
  · rename_i limiter _
    generalize limiter.tryWait s.now (s.now + d) = outcome
    obtain ⟨limiter', result⟩ := outcome
    cases result with
    | ok result => exact .hand task.frame _ _ hold rfl rfl herase rfl
    | error hint => exact .stay rfl rfl (hset _) rfl

/-- Every step moves the frames in one of these ways. -/
theorem moves_step (hstep : s.step action = some t) : s.Moves action t := by
  obtain ⟨_, hstep⟩ := Option.ite_none_right_eq_some.mp hstep
  have hpush (s : Session M) (frame : Outgoing M) :
      (s.push frame).waiting = s.waiting ++ [frame] := by
    rw [push, waiting, List.map_append]
    rfl
  cases action with
  | send message =>
    cases hstep
    exact .text message rfl rfl rfl rfl
  | close =>
    cases hstep
    exact .close rfl rfl rfl rfl
  | take =>
    simp only at hstep
    split at hstep <;> cases hstep
    rename_i frame channel hchannel
    exact .take frame rfl hchannel rfl (hpush _ frame) rfl
  | ping =>
    cases hstep
    exact .own .ping rfl rfl rfl (hpush s _) rfl
  | pong payload =>
    cases hstep
    exact .own (.pong payload) rfl rfl rfl (hpush s _) rfl
  | poll i d =>
    obtain ⟨task, htask, hrest⟩ := Option.bind_eq_some_iff.mp hstep
    obtain ⟨_, hrest⟩ := Option.ite_none_right_eq_some.mp hrest
    cases hrest
    exact moves_poll htask d
  | pass d =>
    cases hstep
    exact .stay rfl rfl rfl rfl
  | interfere limiter =>
    cases hstep
    exact .stay rfl rfl rfl rfl
  | stop =>
    cases hstep
    exact .stay rfl rfl rfl rfl

/-- Nothing has been sent at the start. -/
theorem ordered_start (limiter : Option Ratelimiter) (now : ℤ) :
    (start limiter now : Session M).Ordered 0 where
  taken := .refl _
  channel := rfl
  le := Nat.le_refl _
  sent := by simp [start, waiting]

/-- What is sent later does not change the text of a call. -/
theorem Sent.append {frame : Outgoing M} (h : s.Sent frame) {message : M}
    (hsent : t.sent = s.sent ++ [message]) : t.Sent frame := by
  cases frame with
  | text call other =>
    have hcall : s.sent[call]? = some other := h
    obtain ⟨hlt, _⟩ := List.getElem?_eq_some_iff.mp hcall
    simp only [Sent, hsent, List.getElem?_append_left hlt, hcall]
  | close => trivial
  | ping => trivial
  | pong payload => trivial

/-- Whether a frame is the text of its call depends on the texts sent. -/
theorem sent_congr (hsent : t.sent = s.sent) (frame : Outgoing M) :
    t.Sent frame ↔ s.Sent frame := by
  cases frame <;> simp only [Sent, hsent]

/-- When no text is sent, the frames that were there before have the texts of their calls. -/
theorem Ordered.sent_of_subset (h : s.Ordered n) (hsent : t.sent = s.sent)
    (hsubset : ∀ frame, frame ∈ t.handed ∨ frame ∈ t.waiting ∨ frame ∈ t.channel →
      frame.call = none ∨ frame ∈ s.handed ∨ frame ∈ s.waiting ∨ frame ∈ s.channel)
    (frame : Outgoing M) (hframe : frame ∈ t.handed ∨ frame ∈ t.waiting ∨ frame ∈ t.channel) :
    t.Sent frame := by
  rcases hsubset frame hframe with hnone | hold
  · cases frame with
    | text call message => cases hnone
    | close => trivial
    | ping => trivial
    | pong payload => trivial
  · exact (sent_congr hsent frame).mpr (h.sent frame hold)

/-- The first text in the channel is that of the first call that has not been taken. -/
theorem Ordered.head_channel (h : s.Ordered n) {frame : Outgoing M} {rest : List (Outgoing M)}
    (hchannel : s.channel = frame :: rest) {call : ℕ} (hcall : frame.call = some call) :
    call = n ∧ rest.filterMap Outgoing.call = List.range' (n + 1) (s.sent.length - (n + 1)) ∧
      n < s.sent.length := by
  have hcalls := h.channel
  rw [channelCalls, hchannel, List.filterMap_cons_some hcall] at hcalls
  obtain ⟨k, hk⟩ : ∃ k, s.sent.length - n = k + 1 := by
    refine Nat.exists_eq_succ_of_ne_zero fun hzero => ?_
    rw [hzero] at hcalls
    cases hcalls
  rw [hk, List.range'_succ] at hcalls
  obtain ⟨hfirst, hrest⟩ := List.cons.inj hcalls
  exact ⟨hfirst, by rw [hrest, show s.sent.length - (n + 1) = k by omega], by omega⟩

/-- When no text is sent and the same calls have been taken, the calls stay in order. -/
theorem Ordered.of_perm (h : s.Ordered n) (hsent : t.sent = s.sent)
    (hchannel : t.channelCalls = s.channelCalls)
    (hperm : (t.handedCalls ++ t.waitingCalls).Perm (s.handedCalls ++ s.waitingCalls))
    (hsubset : ∀ frame, frame ∈ t.handed ∨ frame ∈ t.waiting ∨ frame ∈ t.channel →
      frame.call = none ∨ frame ∈ s.handed ∨ frame ∈ s.waiting ∨ frame ∈ s.channel) :
    t.Ordered n where
  taken := hperm.trans h.taken
  channel := by
    rw [hchannel, hsent]
    exact h.channel
  le := hsent ▸ h.le
  sent := h.sent_of_subset hsent hsubset

/-- A text that is sent is the last one in the channel. -/
theorem Ordered.text (h : s.Ordered n) {message : M}
    (hchannel : t.channel = s.channel ++ [.text s.sent.length message])
    (hsent : t.sent = s.sent ++ [message]) (hwaiting : t.waiting = s.waiting)
    (hhanded : t.handed = s.handed) : t.Ordered n := by
  have hle := h.le
  refine ⟨?_, ?_, ?_, ?_⟩
  · simpa only [handedCalls, waitingCalls, hhanded, hwaiting] using h.taken
  · have hcalls := h.channel
    simp only [channelCalls] at hcalls ⊢
    rw [hchannel, hsent, List.filterMap_append, hcalls, List.length_append, List.length_singleton,
      Nat.sub_add_comm hle, List.range'_concat]
    simp [Outgoing.call, Nat.add_sub_cancel' hle]
  · rw [hsent, List.length_append]
    exact Nat.le_add_right_of_le hle
  · intro frame hframe
    rw [hhanded, hwaiting, hchannel, List.mem_append, List.mem_singleton, ← or_assoc,
      ← or_assoc] at hframe
    rcases hframe with hold | rfl
    · exact (h.sent frame (or_assoc.mp hold)).append hsent
    · simp [Sent, hsent]

/-- When a text is taken from the channel, it is that of the next call. -/
theorem Ordered.take (h : s.Ordered n) {frame : Outgoing M} {call : ℕ}
    (hcall : frame.call = some call) (hchannel : s.channel = frame :: t.channel)
    (hsent : t.sent = s.sent) (hwaiting : t.waiting = s.waiting ++ [frame])
    (hhanded : t.handed = s.handed) : t.Ordered (n + 1) := by
  obtain ⟨rfl, hrest, hlt⟩ := h.head_channel hchannel hcall
  refine ⟨?_, ?_, ?_, h.sent_of_subset hsent fun other hother => ?_⟩
  · have hwaits : t.waitingCalls = s.waitingCalls ++ [call] := by
      simp [waitingCalls, hwaiting, hcall]
    have hhands : t.handedCalls = s.handedCalls := by rw [handedCalls, hhanded, handedCalls]
    rw [hwaits, hhands, ← List.append_assoc, List.range_succ]
    exact h.taken.append_right [call]
  · rw [channelCalls, hrest, hsent]
  · rw [hsent]
    exact hlt
  · rw [hhanded, hwaiting, List.mem_append, List.mem_singleton] at hother
    rw [hchannel, List.mem_cons]
    tauto

/-- Every step keeps the calls in order. -/
theorem Ordered.step (h : s.Ordered n) (hstep : s.step action = some t) :
    ∃ m, t.Ordered m := by
  cases moves_step hstep with
  | text message hchannel hsent hwaiting hhanded =>
    exact ⟨n, h.text hchannel hsent hwaiting hhanded⟩
  | close hchannel hsent hwaiting hhanded =>
    refine ⟨n, h.of_perm hsent ?_ ?_ fun frame hframe => ?_⟩
    · have hnone : [Outgoing.close (M := M)].filterMap Outgoing.call = [] := rfl
      rw [channelCalls, hchannel, List.filterMap_append, hnone, List.append_nil, channelCalls]
    · rw [handedCalls, waitingCalls, hhanded, hwaiting, handedCalls, waitingCalls]
    · rw [hhanded, hwaiting, hchannel, List.mem_append, List.mem_singleton] at hframe
      rcases hframe with hframe | hframe | hframe | rfl
      · exact Or.inr (Or.inl hframe)
      · exact Or.inr (Or.inr (Or.inl hframe))
      · exact Or.inr (Or.inr (Or.inr hframe))
      · exact Or.inl rfl
  | take frame haction hchannel hsent hwaiting hhanded =>
    cases hcall : frame.call with
    | some call => exact ⟨n + 1, h.take hcall hchannel hsent hwaiting hhanded⟩
    | none =>
      refine ⟨n, h.of_perm hsent ?_ ?_ fun other hother => ?_⟩
      · rw [channelCalls, channelCalls, hchannel, List.filterMap_cons_none hcall]
      · simp [handedCalls, waitingCalls, hhanded, hwaiting, hcall]
      · rw [hhanded, hwaiting, List.mem_append, List.mem_singleton] at hother
        rw [hchannel, List.mem_cons]
        tauto
  | own frame hcall hchannel hsent hwaiting hhanded =>
    refine ⟨n, h.of_perm hsent ?_ ?_ fun other hother => ?_⟩
    · rw [channelCalls, hchannel, channelCalls]
    · simp [handedCalls, waitingCalls, hhanded, hwaiting, hcall]
    · rw [hhanded, hwaiting, hchannel, List.mem_append, List.mem_singleton] at hother
      rcases hother with hother | (hother | rfl) | hother
      · exact Or.inr (Or.inl hother)
      · exact Or.inr (Or.inr (Or.inl hother))
      · exact Or.inl hcall
      · exact Or.inr (Or.inr (Or.inr hother))
  | hand frame before after hold hchannel hsent hwaiting hhanded =>
    refine ⟨n, h.of_perm hsent ?_ ?_ fun other hother => ?_⟩
    · rw [channelCalls, hchannel, channelCalls]
    · have hmoved : (t.handed ++ t.waiting).Perm (s.handed ++ s.waiting) := by
        rw [hhanded, hwaiting, hold, List.append_assoc, List.singleton_append]
        exact (List.perm_middle.symm).append_left s.handed
      simpa only [handedCalls, waitingCalls, ← List.filterMap_append] using
        hmoved.filterMap Outgoing.call
    · rw [hhanded, hwaiting, hchannel, List.mem_append, List.mem_singleton,
        List.mem_append] at hother
      rw [hold, List.mem_append, List.mem_cons]
      tauto
  | stay hchannel hsent hwaiting hhanded =>
    refine ⟨n, h.of_perm hsent ?_ ?_ fun other hother => ?_⟩
    · rw [channelCalls, hchannel, channelCalls]
    · rw [handedCalls, waitingCalls, hhanded, hwaiting, handedCalls, waitingCalls]
    · rw [hhanded, hwaiting, hchannel] at hother
      exact Or.inr hother

/-- The text that is handed to the sink is the one that waited. -/
theorem OneWaits.hand (h : s.OneWaits) {frame : Outgoing M} {before after : List (Outgoing M)}
    (hold : s.waiting = before ++ frame :: after) (hwaiting : t.waiting = before ++ after)
    (hhanded : t.handed = s.handed ++ [frame]) : t.OneWaits := by
  obtain ⟨m, htaken⟩ := h.taken
  have hone := h.one
  rw [waitingCalls, hold, List.filterMap_append] at hone htaken
  have hhands : t.handedCalls = s.handedCalls ++ frame.call.toList := by
    rw [handedCalls, hhanded, List.filterMap_append, handedCalls]
    cases hcall : frame.call <;> simp [hcall]
  cases hcall : frame.call with
  | none =>
    rw [List.filterMap_cons_none hcall, ← List.filterMap_append, ← hwaiting] at hone htaken
    refine ⟨⟨m, ?_⟩, hone⟩
    rw [hhands, hcall, Option.toList_none, List.append_nil]
    exact htaken
  | some call =>
    rw [List.filterMap_cons_some hcall] at hone htaken
    rw [List.length_append, List.length_cons] at hone
    have hbefore : before.filterMap Outgoing.call = [] := List.eq_nil_of_length_eq_zero (by omega)
    have hafter : after.filterMap Outgoing.call = [] := List.eq_nil_of_length_eq_zero (by omega)
    have hwaits : t.waitingCalls = [] := by
      rw [waitingCalls, hwaiting, List.filterMap_append, hbefore, hafter, List.append_nil]
    rw [hbefore, hafter, List.nil_append] at htaken
    refine ⟨⟨m, ?_⟩, by simp [hwaits]⟩
    rw [hwaits, List.append_nil, hhands, hcall]
    exact htaken

/-- A step that takes a command only when no task of a call waits keeps one task at most. -/
theorem OneWaits.step (h : s.OneWaits) (hordered : s.Ordered n) (halone : s.TakesAlone action)
    (hstep : s.step action = some t) : t.OneWaits := by
  obtain ⟨m, htaken⟩ := h.taken
  have hone := h.one
  have hsame (hwaiting : t.waitingCalls = s.waitingCalls) (hhanded : t.handed = s.handed) :
      t.OneWaits := by
    refine ⟨⟨m, ?_⟩, hwaiting ▸ hone⟩
    rw [hwaiting, handedCalls, hhanded]
    exact htaken
  cases moves_step hstep with
  | text message hchannel hsent hwaiting hhanded =>
    exact hsame (by rw [waitingCalls, hwaiting, waitingCalls]) hhanded
  | close hchannel hsent hwaiting hhanded =>
    exact hsame (by rw [waitingCalls, hwaiting, waitingCalls]) hhanded
  | stay hchannel hsent hwaiting hhanded =>
    exact hsame (by rw [waitingCalls, hwaiting, waitingCalls]) hhanded
  | own frame hcall hchannel hsent hwaiting hhanded =>
    exact hsame (by simp [waitingCalls, hwaiting, hcall]) hhanded
  | take frame haction hchannel hsent hwaiting hhanded =>
    subst haction
    have hnone : s.waitingCalls = [] := halone
    cases hcall : frame.call with
    | none => exact hsame (by simp [waitingCalls, hwaiting, hcall]) hhanded
    | some call =>
      obtain ⟨rfl, _, _⟩ := hordered.head_channel hchannel hcall
      have hlength := hordered.taken.length_eq
      rw [htaken, List.length_range, List.length_range] at hlength
      have hwaits : t.waitingCalls = [call] := by
        rw [waitingCalls] at hnone ⊢
        rw [hwaiting, List.filterMap_append, hnone]
        simp [hcall]
      refine ⟨⟨call + 1, ?_⟩, by simp [hwaits]⟩
      rw [hnone, List.append_nil, hlength] at htaken
      rw [hwaits, List.range_succ, ← htaken, handedCalls, handedCalls, hhanded]
  | hand frame before after hold hchannel hsent hwaiting hhanded =>
    exact h.hand hold hwaiting hhanded

/-- In every run of a session each text is handed to the sink at most once and is that of its
call; when it is handed over, the texts of all earlier calls have been handed over or their
tasks wait. In a run in which no command is taken while the task of a call waits, the texts
are handed over in the order of the calls. -/
theorem handed_in_order {limiter : Option Ratelimiter} {now : ℤ}
    {actions : List (SessionAction M)}
    (hrun : GuardedRun.exec step (start limiter now) actions = some s) :
    s.handedCalls.Nodup ∧
      (∀ call message, .text call message ∈ s.handed → s.sent[call]? = some message) ∧
      (∀ i j, i < j → j ∈ s.handedCalls → i ∈ s.handedCalls ∨ i ∈ s.waitingCalls) ∧
      (GuardedRun.StepsSatisfy step TakesAlone (start limiter now) actions →
        s.handedCalls = List.range s.handedCalls.length) := by
  have hstart : (start limiter now : Session M).Ordered 0 := ordered_start limiter now
  have hordered : ∃ n, s.Ordered n :=
    GuardedRun.invariant_of_exec (I := fun u => ∃ n, Ordered u n)
      (fun _ _ _ ⟨_, hu⟩ hstep => hu.step hstep) hrun ⟨0, hstart⟩
  obtain ⟨n, h⟩ := hordered
  have hmem (call : ℕ) : call ∈ s.handedCalls ∨ call ∈ s.waitingCalls ↔ call < n := by
    rw [← List.mem_append, h.taken.mem_iff, List.mem_range]
  refine ⟨?_, fun call message hframe => h.sent _ (Or.inl hframe), fun i j hij hj => ?_,
    fun halone => ?_⟩
  · exact (List.nodup_append.mp (h.taken.nodup_iff.mpr List.nodup_range)).1
  · exact (hmem i).mpr (Nat.lt_trans hij ((hmem j).mp (Or.inl hj)))
  · have hone : (start limiter now : Session M).OneWaits := ⟨⟨0, rfl⟩, Nat.zero_le _⟩
    obtain ⟨_, hwaits⟩ := (GuardedRun.reaches_of_exec halone hrun).invariant
      (I := fun u => (∃ n, Ordered u n) ∧ OneWaits u) ⟨⟨0, hstart⟩, hone⟩
      fun _ _ _ ⟨⟨_, hu⟩, hone⟩ halone hstep => ⟨hu.step hstep, hone.step hu halone hstep⟩
    obtain ⟨m, hm⟩ := hwaits.taken
    have hle : s.handedCalls.length ≤ m := by
      have hlength := congrArg List.length hm
      rw [List.length_append, List.length_range] at hlength
      omega
    have hfront : s.handedCalls = (List.range m).take s.handedCalls.length := by
      rw [← hm, List.take_left]
    rw [hfront, List.take_range, Nat.min_eq_left hle, List.length_range]

/-- A limiter without tokens that gets one every ten nanoseconds. -/
def emptyLimiter : Ratelimiter := ⟨0, 0, ⟨1, 1, 10, .interval, 0⟩, 0⟩

/-- Two commands, of which the second is taken when the first has been handed over. -/
theorem patientRun_in_order : ∃ s : Session Frame,
    GuardedRun.exec step (start (some emptyLimiter) 0)
      [.send (.subscribe "BTC_USDT"), .take, .poll 0 0, .send (.unsubscribe "BTC_USDT"), .pass 10,
        .poll 0 0, .take, .poll 0 0, .ping, .pass 10, .poll 1 0, .pass 10, .poll 0 0] = some s ∧
      s.handed = [.text 0 (.subscribe "BTC_USDT"), .ping, .text 1 (.unsubscribe "BTC_USDT")] ∧
      s.handedCalls = List.range s.handedCalls.length := by
  have halone : GuardedRun.StepsSatisfy step TakesAlone
      (start (some emptyLimiter) 0 : Session Frame)
      [.send (.subscribe "BTC_USDT"), .take, .poll 0 0, .send (.unsubscribe "BTC_USDT"), .pass 10,
        .poll 0 0, .take, .poll 0 0, .ping, .pass 10, .poll 1 0, .pass 10, .poll 0 0] := by
    decide +kernel
  exact ⟨_, rfl, rfl, (handed_in_order rfl).2.2.2 halone⟩

/-- The task of the first command sleeps; the second command is sent when a token has come, and
takes it. -/
theorem unsubscribe_overtakes : (GuardedRun.exec step (start (some emptyLimiter) 0)
      [.send (Frame.subscribe "BTC_USDT"), .take, .poll 0 0, .pass 10,
        .send (.unsubscribe "BTC_USDT"), .take, .poll 1 0, .poll 0 0, .pass 10, .poll 0 0]).map
      Session.handed =
    some [.text 1 (.unsubscribe "BTC_USDT"), .text 0 (.subscribe "BTC_USDT")] := by
  decide +kernel

end Session

end Arbexpert.Base
