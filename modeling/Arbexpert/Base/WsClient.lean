import Mathlib.Data.List.Basic

/-!
# The WebSocket client

A session owns the receiving end of a channel; the client keeps the sending end even
when the session has ended, and a frame sent then is refused. A connection attempt
stores its status first, so an attempt that fails before it reaches the network
leaves the status behind.
-/

namespace Arbexpert.Base

/-- The commands that a sub-client sends. -/
inductive Frame
  | subscribe (symbol : String)
  | unsubscribe (symbol : String)
  deriving DecidableEq

/-- The channel to a session: the frames that it accepted, and whether the session
still receives. -/
structure Channel where
  frames : List Frame
  live : Bool
  deriving DecidableEq

/-- The status of the connection. -/
inductive ConnectStatus
  | connecting
  | connected
  | disconnected
  deriving DecidableEq

/-- The client: its channel, its status, and the callers that wait for an attempt
of another caller. -/
structure WsClient where
  sender : Option Channel
  connectStatus : ConnectStatus
  connecting : List ℕ

/-- How far `connect` runs before it is suspended for the first time. -/
inductive ConnectStart
  | connected
  | queued
  | failed
  | attempting
  deriving DecidableEq

namespace WsClient

/-- A client that never connected. -/
def new : WsClient := ⟨none, .disconnected, []⟩

/-- Whether the status is `connected`. -/
def isConnected (ws : WsClient) : Bool := ws.connectStatus = .connected

/-- Start `connect`; `builds` says whether the URL is parsed and the client is built.
When it is not, the status stays `connecting`. -/
def connect (ws : WsClient) (caller : ℕ) (builds : Bool) : WsClient × ConnectStart :=
  match ws.connectStatus with
  | .connected => (ws, .connected)
  | .connecting => ({ ws with connecting := ws.connecting ++ [caller] }, .queued)
  | .disconnected =>
    ({ ws with connectStatus := .connecting }, if builds then .attempting else .failed)

/-- The end of an attempt: a new session, or none. The callers that wait are
released, or dropped. -/
def finishConnect (ws : WsClient) (succeeds : Bool) : WsClient :=
  if succeeds then ⟨some ⟨[], true⟩, .connected, []⟩
  else { ws with connectStatus := .disconnected, connecting := [] }

/-- The session ends. -/
def disconnect (ws : WsClient) : WsClient :=
  { ws with
    connectStatus := .disconnected
    sender := ws.sender.map fun channel => { channel with live := false } }

/-- Send a frame to the session; `none` when there is none, or it has ended. -/
def send (ws : WsClient) (frame : Frame) : Option WsClient :=
  match ws.sender with
  | none => none
  | some channel =>
    if channel.live then
      some { ws with sender := some { channel with frames := channel.frames ++ [frame] } }
    else none

/-- The session that is running accepted the frame. -/
def Accepted (ws : WsClient) (frame : Frame) : Prop :=
  ∃ channel, ws.sender = some channel ∧ channel.live = true ∧ frame ∈ channel.frames

/-- The client is connected exactly while its channel has a session. -/
def Consistent (ws : WsClient) : Prop :=
  ws.connectStatus = .connected ↔ ∃ channel, ws.sender = some channel ∧ channel.live = true

/-- A client that never connected has no session. -/
theorem consistent_new : new.Consistent := by
  simp [Consistent, new]

/-- Starting to connect neither makes nor ends a session. -/
theorem Consistent.connect {ws : WsClient} (h : ws.Consistent) (caller : ℕ) (builds : Bool) :
    (ws.connect caller builds).1.Consistent := by
  unfold WsClient.connect
  split
  · exact h
  · exact h
  · rename_i hstatus
    simp only [Consistent, hstatus, reduceCtorEq, false_iff] at h
    simpa only [Consistent, reduceCtorEq, false_iff] using h

/-- The end of an attempt that was running. -/
theorem Consistent.finishConnect {ws : WsClient} (h : ws.Consistent)
    (hstatus : ws.connectStatus ≠ .connected) (succeeds : Bool) :
    (ws.finishConnect succeeds).Consistent := by
  unfold WsClient.finishConnect
  split
  · simp [Consistent]
  · simp only [Consistent, hstatus, false_iff] at h
    simpa only [Consistent, reduceCtorEq, false_iff] using h

/-- The end of a session. -/
theorem consistent_disconnect (ws : WsClient) : ws.disconnect.Consistent := by
  simp only [Consistent, disconnect, reduceCtorEq, false_iff, Option.map_eq_some_iff]
  rintro ⟨_, ⟨channel, _, rfl⟩, hlive⟩
  cases hlive

/-- A frame that is accepted does not end the session. -/
theorem Consistent.send {ws ws' : WsClient} (h : ws.Consistent) {frame : Frame}
    (hsend : ws.send frame = some ws') : ws'.Consistent := by
  unfold WsClient.send at hsend
  split at hsend
  · cases hsend
  · rename_i channel hchannel
    split at hsend
    · rename_i hlive
      cases hsend
      exact iff_of_true (h.mpr ⟨channel, hchannel, hlive⟩) ⟨_, rfl, hlive⟩
    · cases hsend

/-- A frame is accepted exactly if the client is connected. -/
theorem Consistent.send_isSome_iff {ws : WsClient} (h : ws.Consistent) (frame : Frame) :
    (ws.send frame).isSome ↔ ws.connectStatus = .connected := by
  apply Iff.trans _ (Iff.symm h)
  unfold WsClient.send
  split
  · rename_i hsender
    simp [hsender]
  · rename_i channel hsender
    split <;> simp_all

/-- An accepted frame is among the frames of the running session, with all earlier
ones. -/
theorem accepted_of_send {ws ws' : WsClient} {frame other : Frame}
    (hsend : ws.send frame = some ws') (h : other = frame ∨ ws.Accepted other) :
    ws'.Accepted other := by
  unfold WsClient.send at hsend
  split at hsend
  · cases hsend
  · rename_i channel hchannel
    split at hsend
    · rename_i hlive
      cases hsend
      refine ⟨_, rfl, hlive, ?_⟩
      rcases h with rfl | ⟨old, hold, _, hmem⟩
      · simp
      · rw [hchannel] at hold
        cases hold
        exact List.mem_append_left _ hmem
    · cases hsend

end WsClient

end Arbexpert.Base
