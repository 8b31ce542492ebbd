import Arbexpert.Base.SubClient

/-!
# The socket of a sub-client

The caller that connects holds the socket for the whole attempt, so no session runs
then and there is one such caller at most. Connecting leaves the maps alone.
-/

namespace Arbexpert.Base

/-- The call holds the socket. -/
def Phase.HoldsSocket : Phase → Prop
  | .limited _ _ => True
  | .connecting _ _ => True
  | .stalled _ _ => True
  | _ => False

/-- The call waits for one of the two closures. -/
def Phase.InClosure : Phase → Prop
  | .subscribing _ => True
  | .unsubscribing _ _ => True
  | _ => False

namespace SubClient

/-- The socket is held while it is not connected, by one call at most. -/
structure Socket (s : SubClient) : Prop where
  consistent : s.ws.Consistent
  held : s.borrowed = true → s.ws.connectStatus ≠ .connected
  holder : ∀ i, (s.calls i).HoldsSocket → s.borrowed = true
  unique : ∀ i j, (s.calls i).HoldsSocket → (s.calls j).HoldsSocket → i = j

/-- What connecting leaves alone: the maps, the calls in a closure and the frames of the
running session. A call that leaves its loop is in no closure. -/
structure Connects (s : SubClient) (result : SubClient × Option (ℕ × String)) : Prop where
  subscribed : result.1.subscribed = s.subscribed
  pending : result.1.pending = s.pending
  closures : ∀ j phase, phase.InClosure → (result.1.calls j = phase ↔ s.calls j = phase)
  accepted : ∀ frame, s.ws.Accepted frame → result.1.ws.Accepted frame
  next : ∀ i symbol, result.2 = some (i, symbol) → ¬(s.calls i).InClosure

variable {s t : SubClient} {i : ℕ} {symbol : String} {id : ℕ}

/-- A new sub-client holds no socket. -/
theorem socket_new : new.Socket where
  consistent := WsClient.consistent_new
  held := nofun
  holder := nofun
  unique := nofun

/-- Moving a call to a phase that does not take the socket. -/
theorem Socket.setCall (h : s.Socket) {phase : Phase}
    (hphase : phase.HoldsSocket → (s.calls i).HoldsSocket) : (s.setCall i phase).Socket := by
  have hcalls (j : ℕ) (hj : ((s.setCall i phase).calls j).HoldsSocket) :
      (s.calls j).HoldsSocket := by
    by_cases heq : j = i
    · subst heq
      simp only [SubClient.setCall, Function.update_self] at hj
      exact hphase hj
    · simpa only [SubClient.setCall, Function.update_of_ne heq] using hj
  exact ⟨h.consistent, h.held, fun j hj => h.holder j (hcalls j hj),
    fun j k hj hk => h.unique j k (hcalls j hj) (hcalls k hk)⟩

/-- A verdict moves no call to or from the socket. -/
theorem holdsSocket_resolve (s : SubClient) (senders : List ℕ) (verdict : Bool) (j : ℕ) :
    ((s.resolve senders verdict).calls j).HoldsSocket ↔ (s.calls j).HoldsSocket := by
  simp only [resolve]
  split
  · rename_i hcall
    rw [hcall]
    split <;> rfl
  · rfl

/-- A verdict moves no call to or from a closure. -/
theorem closures_resolve (s : SubClient) (senders : List ℕ) (verdict : Bool) (j : ℕ)
    {phase : Phase} (hphase : phase.InClosure) :
    (s.resolve senders verdict).calls j = phase ↔ s.calls j = phase := by
  simp only [resolve]
  split
  · rename_i hcall
    rw [hcall]
    constructor
    · rintro rfl
      split at hphase <;> exact hphase.elim
    · rintro rfl
      exact hphase.elim
  · rfl

/-- Moving a call that is in no closure and enters none. -/
theorem closures_setCall {next : Phase} (hi : ¬(s.calls i).InClosure) (hnext : ¬next.InClosure)
    (j : ℕ) {phase : Phase} (hphase : phase.InClosure) :
    (s.setCall i next).calls j = phase ↔ s.calls j = phase := by
  by_cases heq : j = i
  · subst heq
    simp only [SubClient.setCall, Function.update_self]
    apply iff_of_false
    · rintro rfl
      exact hnext hphase
    · rintro rfl
      exact hi hphase
  · simp only [SubClient.setCall, Function.update_of_ne heq]

/-- The loop keeps the socket with one holder. -/
theorem Socket.enter (h : s.Socket) (i : ℕ) (symbol : String) (id : ℕ) :
    (s.enter i symbol id).1.Socket := by
  unfold SubClient.enter
  split
  · exact h
  · split
    · have hset : (s.setCall i (.queued symbol s.connectingId none)).Socket :=
        h.setCall False.elim
      exact ⟨hset.consistent, hset.held, hset.holder, hset.unique⟩
    · rename_i hfree
      split
      · exact h
      · rename_i hdown
        have hnone (j : ℕ) (hj : ((s.setCall i (.limited symbol
            (nextConnectingId s.connectingId))).calls j).HoldsSocket) : j = i := by
          by_contra hne
          simp only [SubClient.setCall, Function.update_of_ne hne] at hj
          exact hfree (h.holder j hj)
        refine ⟨h.consistent, fun _ hstatus => hdown (decide_eq_true hstatus), fun _ _ => rfl,
          fun j k hj hk => ?_⟩
        rw [hnone j hj, hnone k hk]

/-- Moving a call between phases outside of the closures connects. -/
theorem connects_moved (hi : ¬(s.calls i).InClosure) {next : Phase}
    (hcalls : t.calls = (s.setCall i next).calls) (hnext : ¬next.InClosure)
    (hsubscribed : t.subscribed = s.subscribed) (hpending : t.pending = s.pending)
    (haccepted : ∀ frame, s.ws.Accepted frame → t.ws.Accepted frame) : s.Connects (t, none) := by
  refine ⟨hsubscribed, hpending, fun j phase hphase => ?_, haccepted, by simp⟩
  rw [hcalls]
  exact closures_setCall hi hnext j hphase

/-- The loop connects. -/
theorem connects_enter (hi : ¬(s.calls i).InClosure) (symbol : String) (id : ℕ) :
    s.Connects (s.enter i symbol id) := by
  have hends : s.Connects (s, some (i, symbol)) := by
    refine ⟨rfl, rfl, fun _ _ _ => Iff.rfl, fun _ h => h, fun j other hnext => ?_⟩
    cases hnext
    exact hi
  unfold SubClient.enter
  split
  · exact hends
  · split
    · exact connects_moved hi rfl False.elim rfl rfl fun _ h => h
    · split
      · exact hends
      · exact connects_moved hi rfl False.elim rfl rfl fun _ h => h

/-- The only holder releases the socket. -/
theorem socket_release (hconsistent : s.ws.Consistent)
    (hholder : ∀ j, (s.calls j).HoldsSocket → j = i) (ok : Bool) : (s.release i ok).Socket := by
  have hnone (j : ℕ) : ¬((s.release i ok).calls j).HoldsSocket := by
    by_cases heq : j = i
    · subst heq
      simp [release, SubClient.setCall, Phase.HoldsSocket]
    · simp only [release, SubClient.setCall, Function.update_of_ne heq, holdsSocket_resolve]
      exact fun hj => heq (hholder j hj)
  exact ⟨hconsistent, fun hfalse => absurd hfalse Bool.false_ne_true,
    fun j hj => absurd hj (hnone j), fun j _ hj => absurd hj (hnone j)⟩

/-- Releasing the socket moves no call to or from a closure. -/
theorem closures_release (hi : ¬(s.calls i).InClosure) (ok : Bool) (j : ℕ) {phase : Phase}
    (hphase : phase.InClosure) : (s.release i ok).calls j = phase ↔ s.calls j = phase := by
  have hresolved : ¬((s.resolve s.connecting ok).calls i).InClosure := fun hcontra =>
    hi ((closures_resolve s _ ok i hcontra).mp rfl ▸ hcontra)
  exact (closures_setCall hresolved (by exact False.elim) j hphase).trans
    (closures_resolve s _ ok j hphase)

/-- The end of an attempt connects. -/
theorem connects_finish (hi : ¬(s.calls i).InClosure) (symbol : String) (id : ℕ)
    (ok : Bool) : s.Connects (s.finish i symbol id ok) := by
  have hreleased : ¬((s.release i ok).calls i).InClosure := fun hcontra =>
    hi ((closures_release hi ok i hcontra).mp rfl ▸ hcontra)
  have hloop := connects_enter hreleased symbol id
  refine ⟨hloop.subscribed, hloop.pending, fun j phase hphase => ?_, hloop.accepted,
    fun j other hnext hcontra => ?_⟩
  · exact (hloop.closures j phase hphase).trans (closures_release hi ok j hphase)
  · apply hloop.next j other hnext
    rw [(closures_release hi ok j hcontra).mpr rfl]
    exact hcontra

/-- Starting to connect moves the holder on, or ends its attempt. -/
theorem socket_proceed (h : s.Socket) (hi : (s.calls i).HoldsSocket) (symbol : String) (id : ℕ)
    (builds : Bool) : (s.proceed i symbol id builds).1.Socket := by
  have hconsistent := h.consistent.connect i builds
  have hstatus : (s.ws.connect i builds).1.connectStatus ≠ .connected := by
    have hdown := h.held (h.holder i hi)
    unfold WsClient.connect
    split <;> simp_all
  have hmoved : SubClient.Socket { s with ws := (s.ws.connect i builds).1 } :=
    ⟨hconsistent, fun _ => hstatus, h.holder, h.unique⟩
  have hholder : ∀ j, (s.calls j).HoldsSocket → j = i := fun j hj => h.unique j i hj hi
  simp only [SubClient.proceed]
  split
  · exact hmoved.setCall fun _ => hi
  · exact hmoved.setCall fun _ => hi
  · exact (socket_release (s := { s with ws := (s.ws.connect i builds).1 }) hconsistent hholder
      true).enter i symbol id
  · exact (socket_release (s := { s with ws := (s.ws.connect i builds).1 }) hconsistent hholder
      false).enter i symbol id

/-- Starting to connect connects. -/
theorem connects_proceed (hi : ¬(s.calls i).InClosure) (symbol : String) (id : ℕ)
    (builds : Bool) : s.Connects (s.proceed i symbol id builds) := by
  have haccepted (frame : Frame) (hframe : s.ws.Accepted frame) :
      (s.ws.connect i builds).1.Accepted frame := by
    unfold WsClient.connect
    split <;> exact hframe
  have hfinish (ok : Bool) : s.Connects
      (SubClient.finish { s with ws := (s.ws.connect i builds).1 } i symbol id ok) := by
    have hloop := connects_finish (s := { s with ws := (s.ws.connect i builds).1 }) hi symbol id ok
    exact ⟨hloop.subscribed, hloop.pending, hloop.closures,
      fun frame hframe => hloop.accepted frame (haccepted frame hframe), hloop.next⟩
  simp only [SubClient.proceed]
  split
  · exact connects_moved hi rfl False.elim rfl rfl haccepted
  · exact connects_moved hi rfl False.elim rfl rfl haccepted
  · exact hfinish true
  · exact hfinish false

/-- The end of an attempt that reached the network connects: no session was running
that could have accepted a frame. -/
theorem connects_attempt (h : s.Socket) (hcall : s.calls i = .connecting symbol id)
    (succeeds : Bool) :
    s.Connects (SubClient.finish { s with ws := s.ws.finishConnect succeeds } i symbol id
      succeeds) := by
  have hi : ¬(s.calls i).InClosure := by simp [hcall, Phase.InClosure]
  have hholds : (s.calls i).HoldsSocket := by simp [hcall, Phase.HoldsSocket]
  have hloop := connects_finish (s := { s with ws := s.ws.finishConnect succeeds }) hi symbol id
    succeeds
  refine ⟨hloop.subscribed, hloop.pending, hloop.closures, fun frame hframe => ?_, hloop.next⟩
  obtain ⟨channel, hchannel, hlive, _⟩ := hframe
  exact absurd (h.consistent.mpr ⟨channel, hchannel, hlive⟩) (h.held (h.holder i hholds))

/-- The end of an attempt that reached the network frees the socket. -/
theorem socket_attempt (h : s.Socket) (hcall : s.calls i = .connecting symbol id)
    (succeeds : Bool) :
    (SubClient.finish { s with ws := s.ws.finishConnect succeeds } i symbol id
      succeeds).1.Socket := by
  have hholds : (s.calls i).HoldsSocket := by simp [hcall, Phase.HoldsSocket]
  have hconsistent := h.consistent.finishConnect (h.held (h.holder i hholds)) succeeds
  exact (socket_release (s := { s with ws := s.ws.finishConnect succeeds }) hconsistent
    (fun j hj => h.unique j i hj hholds) succeeds).enter i symbol id

/-- Entering a symbol takes no socket. -/
theorem Socket.join (h : s.Socket) (i : ℕ) (symbol : String) : (s.join i symbol).Socket := by
  have hset (phase : Phase) (hphase : ¬phase.HoldsSocket) : (s.setCall i phase).Socket :=
    h.setCall fun hcontra => absurd hcontra hphase
  simp only [SubClient.join]
  split
  · have hcall := hset (.subscribing symbol) id
    exact ⟨hcall.consistent, hcall.held, hcall.holder, hcall.unique⟩
  · split
    · exact ⟨h.consistent, h.held, h.holder, h.unique⟩
    · have hcall := hset (.waiting symbol) id
      exact ⟨hcall.consistent, hcall.held, hcall.holder, hcall.unique⟩

/-- A frame that is sent takes no socket. -/
theorem Socket.send (h : s.Socket) {frame : Frame} (hsend : s.send frame = some t) :
    t.Socket := by
  unfold SubClient.send at hsend
  split at hsend
  · cases hsend
  · rename_i hfree
    obtain ⟨ws, hws, rfl⟩ := Option.map_eq_some_iff.mp hsend
    exact ⟨h.consistent.send hws, fun hheld => absurd hheld hfree, h.holder, h.unique⟩

/-- A frame is sent exactly if the client is connected. -/
theorem Socket.send_isSome_iff (h : s.Socket) (frame : Frame) :
    (s.send frame).isSome ↔ s.ws.connectStatus = .connected := by
  unfold SubClient.send
  split
  · rename_i hheld
    exact iff_of_false Bool.false_ne_true (h.held hheld)
  · rw [Option.isSome_map]
    exact h.consistent.send_isSome_iff frame

/-- The rest of a watch call keeps the socket with one holder. -/
theorem Socket.subscribe (h : s.Socket) (i : ℕ) (symbol : String) (ok : Bool) :
    (s.subscribe i symbol ok).Socket := by
  unfold SubClient.subscribe
  split
  · split
    · rename_i t hsend
      exact (h.send hsend).setCall False.elim
    · exact h.setCall False.elim
  · have hcall : (s.setCall i (.watched none)).Socket := h.setCall False.elim
    exact ⟨hcall.consistent, hcall.held, hcall.holder, hcall.unique⟩

/-- The rest of an unwatch call keeps the socket with one holder. -/
theorem Socket.unsubscribe (h : s.Socket) (i : ℕ) (symbol : String) (book : ℕ) (ok : Bool) :
    (s.unsubscribe i symbol book ok).Socket := by
  have hremove : (s.removePending symbol).Socket := ⟨h.consistent, h.held, h.holder, h.unique⟩
  unfold SubClient.unsubscribe
  split
  · simp only
    split
    · rename_i t hsend
      exact (hremove.send hsend).setCall False.elim
    · exact hremove.setCall False.elim
  · have hcall : (s.setCall i (.unwatched true)).Socket := h.setCall False.elim
    exact ⟨hcall.consistent, hcall.held, hcall.holder, hcall.unique⟩

/-- Every action keeps the socket with one holder. -/
theorem Socket.advances (h : s.Socket) {action : SubAction}
    {result : SubClient × Option (ℕ × String)} (hadvances : s.Advances action result) :
    result.1.Socket := by
  cases hadvances with
  | watch hcall => exact h.enter _ _ _
  | proceed hcall => exact socket_proceed h (by simp [hcall, Phase.HoldsSocket]) _ _ _
  | attempt hcall => exact socket_attempt h hcall _
  | resume hcall => exact h.enter _ _ _
  | refuse hcall => exact h.setCall False.elim
  | subscribe hcall => exact h.subscribe _ _ _
  | receive hcall hinbox => exact h.setCall False.elim
  | closed hcall hinbox => exact h.setCall False.elim
  | absent hcall hsymbol => exact h.setCall False.elim
  | @unwatch i symbol book hcall hsymbol =>
    have hset : (s.setCall i (.unsubscribing symbol book)).Socket := h.setCall False.elim
    exact ⟨hset.consistent, hset.held, hset.holder, hset.unique⟩
  | unsubscribe hcall => exact h.unsubscribe _ _ _ _
  | broadcast hsymbol hpending => exact ⟨h.consistent, h.held, h.holder, h.unique⟩
  | lose hconnected =>
    have hholds (j : ℕ) := (holdsSocket_resolve s s.connecting false j).mp
    exact ⟨s.ws.consistent_disconnect, fun _ => nofun, fun j hj => h.holder j (hholds j hj),
      fun j k hj hk => h.unique j k (hholds j hj) (hholds k hk)⟩

/-- Every step keeps the socket with one holder. -/
theorem Socket.step (h : s.Socket) {action : SubAction} (hstep : s.step action = some t) :
    t.Socket := by
  obtain ⟨⟨u, next⟩, hadvances, rfl⟩ := advances_of_step hstep
  have hu := h.advances hadvances
  cases next with
  | none => exact hu
  | some call => exact hu.join call.1 call.2

end SubClient

end Arbexpert.Base
