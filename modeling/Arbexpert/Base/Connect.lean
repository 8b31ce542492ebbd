import Arbexpert.Base.SubClient
import Arbexpert.Foundation.GuardedRun

/-!
# Callers of `connect`

A caller that finds the socket free and not connected starts an attempt and holds the
socket until the attempt has ended; callers that find the socket held are queued. The
verdict of the attempt goes to the queued callers, but the caller that made it returns
its id in any case.
-/

namespace Arbexpert.Base

/-- Where a caller of `connect` stands: asleep in a rate limiter, in its attempt, in an
attempt of the socket that never ends, or queued behind another caller, with the id
that it read and its verdict. A result of `none` is an error. -/
inductive Caller
  | idle
  | limited (id : ℕ)
  | connecting (id : ℕ)
  | stalled (id : ℕ)
  | queued (id : ℕ) (verdict : Option Bool)
  | returned (result : Option ℕ)
  deriving DecidableEq

/-- The part of a sub-client that `connect` uses. Beside it stand the attempts that have
ended, with their ids and whether they succeeded, and for each caller the number of the
attempt that it made or was queued behind. -/
structure Connector where
  ws : WsClient
  borrowed : Bool
  connectingId : ℕ
  connecting : List ℕ
  callers : ℕ → Caller
  ended : List (ℕ × Bool)
  attemptOf : ℕ → Option ℕ

/-- What can happen next: a caller starts, the limiters admit it, its attempt ends, a
queued caller resumes, or the connection is lost. -/
inductive ConnectAction
  | call (i : ℕ)
  | proceed (i : ℕ) (builds : Bool)
  | attempt (i : ℕ) (succeeds : Bool)
  | resume (i : ℕ)
  | lose

namespace Connector

/-- The connector of a new sub-client. -/
def new : Connector where
  ws := WsClient.new
  borrowed := false
  connectingId := 2 ^ 32 - 1
  connecting := []
  callers := fun _ => .idle
  ended := []
  attemptOf := fun _ => none

/-- Move a caller. -/
def setCaller (s : Connector) (i : ℕ) (caller : Caller) : Connector :=
  { s with callers := Function.update s.callers i caller }

/-- Note the attempt to which a caller belongs; the next one to end has the number of
those that have ended. -/
def setAttempt (s : Connector) (i : ℕ) (attempt : Option ℕ) : Connector :=
  { s with attemptOf := Function.update s.attemptOf i attempt }

/-- Give a verdict to queued callers; dropping their senders is the verdict `false`. -/
def resolve (s : Connector) (senders : List ℕ) (verdict : Bool) : Connector :=
  { s with
    callers := fun i =>
      match s.callers i with
      | .queued id none =>
        if i ∈ senders then .queued id (some verdict) else .queued id none
      | caller => caller }

/-- `connect` up to its first suspension. -/
def call (s : Connector) (i : ℕ) : Connector :=
  if s.borrowed then
    { (s.setCaller i (.queued s.connectingId none)).setAttempt i (some s.ended.length) with
      connecting := s.connecting ++ [i] }
  else if s.ws.isConnected then
    (s.setCaller i (.returned (some s.connectingId))).setAttempt i none
  else
    let id := SubClient.nextConnectingId s.connectingId
    { (s.setCaller i (.limited id)).setAttempt i (some s.ended.length) with
      connectingId := id
      borrowed := true }

/-- The end of an attempt: the socket is released, the queued callers get the verdict,
and the caller returns its id. -/
def finish (s : Connector) (i id : ℕ) (ok : Bool) : Connector :=
  { (s.resolve s.connecting ok).setCaller i (.returned (some id)) with
    connecting := []
    borrowed := false
    ended := s.ended ++ [(id, ok)] }

/-- A caller that the limiters have admitted starts to connect. -/
def proceed (s : Connector) (i id : ℕ) (builds : Bool) : Connector :=
  let (ws, start) := s.ws.connect i builds
  let s := { s with ws }
  match start with
  | .attempting => s.setCaller i (.connecting id)
  | .queued => s.setCaller i (.stalled id)
  | .connected => s.finish i id true
  | .failed => s.finish i id false

/-- `on_fail` of the sub-client, for the callers of `connect`. -/
def onFail (s : Connector) : Connector :=
  { s.resolve s.connecting false with connecting := [] }

/-- One step. `on_fail` is called by a session that ends, and a session runs exactly
while the status is `connected`. -/
def step (s : Connector) : ConnectAction → Option Connector
  | .call i =>
    match s.callers i with
    | .idle => some (s.call i)
    | .returned _ => some (s.call i)
    | _ => none
  | .proceed i builds =>
    match s.callers i with
    | .limited id => some (s.proceed i id builds)
    | _ => none
  | .attempt i succeeds =>
    match s.callers i with
    | .connecting id => some ({ s with ws := s.ws.finishConnect succeeds }.finish i id succeeds)
    | _ => none
  | .resume i =>
    match s.callers i with
    | .queued id (some verdict) =>
      some (s.setCaller i (.returned (if verdict then some id else none)))
    | _ => none
  | .lose => if s.ws.isConnected then some { s with ws := s.ws.disconnect }.onFail else none

/-- The enabled actions, with what they do. -/
inductive Steps (s : Connector) : ConnectAction → Connector → Prop
  | call {i : ℕ} (hcaller : s.callers i = .idle ∨ ∃ result, s.callers i = .returned result) :
      Steps s (.call i) (s.call i)
  | proceed {i id : ℕ} {builds : Bool} (hcaller : s.callers i = .limited id) :
      Steps s (.proceed i builds) (s.proceed i id builds)
  | attempt {i id : ℕ} {succeeds : Bool} (hcaller : s.callers i = .connecting id) :
      Steps s (.attempt i succeeds)
        (Connector.finish { s with ws := s.ws.finishConnect succeeds } i id succeeds)
  | resume {i id : ℕ} {verdict : Bool} (hcaller : s.callers i = .queued id (some verdict)) :
      Steps s (.resume i) (s.setCaller i (.returned (if verdict then some id else none)))
  | lose (hconnected : s.ws.isConnected = true) :
      Steps s .lose (Connector.onFail { s with ws := s.ws.disconnect })

variable {s t : Connector} {action : ConnectAction}

/-- Every action does what its name says, when it is enabled. -/
theorem steps_of_step (hstep : s.step action = some t) : s.Steps action t := by
  cases action <;> simp only [step] at hstep
  case call i =>
    split at hstep <;> cases hstep
    · rename_i hcaller
      exact .call (Or.inl hcaller)
    · rename_i result hcaller
      exact .call (Or.inr ⟨result, hcaller⟩)
  case proceed i builds =>
    split at hstep <;> cases hstep
    rename_i hcaller
    exact .proceed hcaller
  case attempt i succeeds =>
    split at hstep <;> cases hstep
    rename_i hcaller
    exact .attempt hcaller
  case resume i =>
    split at hstep <;> cases hstep
    rename_i hcaller
    exact .resume hcaller
  case lose =>
    split at hstep <;> cases hstep
    rename_i hconnected
    exact .lose hconnected

end Connector

end Arbexpert.Base
