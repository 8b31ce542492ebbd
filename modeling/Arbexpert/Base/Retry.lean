import Arbexpert.Base.WsClient
import Arbexpert.Foundation.GuardedRun

/-!
# Connecting again

A call of `connect` borrows the client until it returns, so calls come one after the other. A
call that finds the client disconnected stores the status of an attempt before it parses the
URL and builds the client, and only a failure of the network puts the status back. After any
other failure the next call waits for an attempt that nobody makes.
-/

namespace Arbexpert.Base

/-- What a call of `connect` that has not returned waits for: the network, or the attempt of
another call. -/
inductive ConnectCall
  | attempting
  | queued
  deriving DecidableEq

/-- The client and the call that borrows it; the callers are numbered. -/
structure Borrowed where
  ws : WsClient
  call : Option ConnectCall
  caller : ℕ

/-- What can happen next: a call, whose URL is parsed and whose client is built or not, the end
of its attempt, or the loss of the connection. -/
inductive BorrowAction
  | connect (builds : Bool)
  | finish (succeeds : Bool)
  | lose

namespace Borrowed

/-- A client that never connected. -/
def new : Borrowed := ⟨.new, none, 0⟩

/-- What a call waits for, after it has run up to its first suspension. -/
def callOf : ConnectStart → Option ConnectCall
  | .connected => none
  | .queued => some .queued
  | .failed => none
  | .attempting => some .attempting

/-- One step. -/
def step (s : Borrowed) : BorrowAction → Option Borrowed
  | .connect builds =>
    match s.call with
    | none =>
      let (ws, start) := s.ws.connect s.caller builds
      some ⟨ws, callOf start, s.caller + 1⟩
    | some _ => none
  | .finish succeeds =>
    match s.call with
    | some .attempting => some { s with ws := s.ws.finishConnect succeeds, call := none }
    | _ => none
  | .lose => if s.ws.sender.any Channel.live then some { s with ws := s.ws.disconnect } else none

/-- The client is ready for a call: when none is in progress, it is connected and its session
runs, or it is disconnected, and no caller waits; and no call waits for that of another. -/
structure Ready (s : Borrowed) : Prop where
  status : s.call = none → (s.ws.connectStatus = .connected ∧
    ∃ channel, s.ws.sender = some channel ∧ channel.live = true) ∨
      s.ws.connectStatus = .disconnected
  connecting : s.call = none → s.ws.connecting = []
  attempting : s.call ≠ some .queued

/-- A call that finds the client disconnected parses its URL and builds its client. -/
def Builds (s : Borrowed) : BorrowAction → Prop
  | .connect builds => s.ws.connectStatus = .disconnected → builds = true
  | _ => True

/-- The status says whether a session runs, and a call that waits for the network has stored
the status of an attempt. -/
structure Attempts (s : Borrowed) : Prop where
  consistent : s.ws.Consistent
  status : s.call = some .attempting → s.ws.connectStatus = .connecting

variable {s t : Borrowed} {action : BorrowAction}

/-- A new client makes no attempt. -/
theorem attempts_new : new.Attempts := ⟨WsClient.consistent_new, nofun⟩

/-- A new client is ready. -/
theorem ready_new : new.Ready := ⟨fun _ => Or.inr rfl, fun _ => rfl, nofun⟩

/-- What a call does to a client that is ready: nothing when it is connected, else it stores
the status of an attempt, and returns at once if it does not build. -/
theorem connect_cases (hready : s.Ready) (hcall : s.call = none) (builds : Bool) :
    (s.ws.connectStatus = .connected ∧ s.ws.connect s.caller builds = (s.ws, .connected)) ∨
      s.ws.connectStatus = .disconnected ∧ s.ws.connect s.caller builds =
        ({ s.ws with connectStatus := .connecting },
          if builds then .attempting else .failed) := by
  rcases hready.status hcall with ⟨hstatus, _⟩ | hstatus
  · exact Or.inl ⟨hstatus, by simp only [WsClient.connect, hstatus]⟩
  · exact Or.inr ⟨hstatus, by simp only [WsClient.connect, hstatus]⟩

/-- The enabled actions, with what they do. -/
inductive Steps (s : Borrowed) : BorrowAction → Borrowed → Prop
  | connect (builds : Bool) (hcall : s.call = none) : Steps s (.connect builds)
      ⟨(s.ws.connect s.caller builds).1, callOf (s.ws.connect s.caller builds).2, s.caller + 1⟩
  | finish (succeeds : Bool) (hcall : s.call = some .attempting) : Steps s (.finish succeeds)
      { s with
        ws := s.ws.finishConnect succeeds
        call := none }
  | lose (hlive : ∃ channel, s.ws.sender = some channel ∧ channel.live = true) :
      Steps s .lose { s with ws := s.ws.disconnect }

/-- Every action does what its name says, when it is enabled. -/
theorem steps_of_step (hstep : s.step action = some t) : s.Steps action t := by
  cases action <;> simp only [step] at hstep
  case connect builds =>
    split at hstep <;> cases hstep
    rename_i hcall
    exact .connect builds hcall
  case finish succeeds =>
    split at hstep <;> cases hstep
    rename_i hcall
    exact .finish succeeds hcall
  case lose =>
    obtain ⟨hlive, rfl⟩ := GuardedRun.of_enabled hstep
    exact .lose (by simpa [Option.any_eq_true] using hlive)

/-- Every step from a client that is ready keeps the status of the attempts. -/
theorem Attempts.step (h : s.Attempts) (hready : s.Ready) (hstep : s.step action = some t) :
    t.Attempts := by
  cases steps_of_step hstep with
  | connect builds hcall =>
    refine ⟨h.consistent.connect _ _, fun hattempting => ?_⟩
    rcases connect_cases hready hcall builds with ⟨_, heq⟩ | ⟨_, heq⟩
    · rw [heq] at hattempting
      cases hattempting
    · rw [heq]
  | finish succeeds hcall =>
    have hstatus := h.status hcall
    exact ⟨h.consistent.finishConnect (by simp [hstatus]) succeeds, nofun⟩
  | lose hlive =>
    have hconnected := h.consistent.mpr hlive
    refine ⟨WsClient.consistent_disconnect _, fun hattempting => ?_⟩
    cases hconnected.symm.trans (h.status hattempting)

/-- A step leaves the client ready exactly if it is not a failure before the network. -/
theorem ready_step_iff (hready : s.Ready) (hstep : s.step action = some t) :
    t.Ready ↔ s.Builds action := by
  cases steps_of_step hstep with
  | connect builds hcall =>
    have hnone := hready.connecting hcall
    rcases connect_cases hready hcall builds with ⟨hstatus, heq⟩ | ⟨hstatus, heq⟩
    · rw [heq]
      refine iff_of_true ⟨fun _ => hready.status hcall, fun _ => hnone, nofun⟩ fun hdown => ?_
      cases hstatus.symm.trans hdown
    · rw [heq]
      cases builds with
      | true => exact iff_of_true ⟨nofun, nofun, nofun⟩ fun _ => rfl
      | false =>
        refine iff_of_false (fun hnext => ?_) fun hbuilds => nomatch hbuilds hstatus
        rcases hnext.status rfl with ⟨hconnected, _⟩ | hdown
        · cases hconnected
        · cases hdown
  | finish succeeds hcall =>
    refine iff_of_true ⟨fun _ => ?_, fun _ => ?_, nofun⟩ trivial
    · cases succeeds with
      | true => exact Or.inl ⟨rfl, _, rfl, rfl⟩
      | false => exact Or.inr rfl
    · cases succeeds <;> rfl
  | lose hlive =>
    exact iff_of_true ⟨fun _ => Or.inr rfl, hready.connecting, hready.attempting⟩ trivial

/-- In every run of calls, ends of attempts and losses of the connection, the client is ready
in all states exactly if every call that finds it disconnected builds its client. -/
theorem connect_ready_iff (actions : List BorrowAction) :
    GuardedRun.StatesSatisfy step Ready new actions ↔
      GuardedRun.StepsSatisfy step Builds new actions :=
  GuardedRun.statesSatisfy_iff_stepsSatisfy (I := Attempts)
    (fun _ _ _ h hready hstep => h.step hready hstep)
    (fun _ _ _ _ hready hstep => ready_step_iff hready hstep) attempts_new ready_new

/-- After a call whose URL is not parsed, the next call waits, and no attempt is made. -/
theorem unparsed_url_blocks_next : ∃ s t : Borrowed,
    step new (.connect false) = some s ∧ s.call = none ∧ s.ws.connectStatus = .connecting ∧
      ¬s.Ready ∧ step s (.connect true) = some t ∧ t.call = some .queued ∧
      ∀ succeeds, step t (.finish succeeds) = none := by
  refine ⟨_, _, rfl, rfl, rfl, fun hready => ?_, rfl, rfl, fun _ => rfl⟩
  rcases hready.status rfl with ⟨hconnected, _⟩ | hdown
  · cases hconnected
  · cases hdown

end Borrowed

end Arbexpert.Base
