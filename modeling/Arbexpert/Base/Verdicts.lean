import Arbexpert.Base.Connect

/-!
# The verdict of a connection attempt

One attempt runs at a time, and all callers that are queued while it runs read its id.
They get the verdict of the attempt, whatever is interleaved. The caller that made the
attempt returns its id also when it failed, so all callers of an attempt agree with it
exactly as long as no attempt fails.
-/

namespace Arbexpert.Base

/-- The caller holds the socket for the attempt with this id. -/
def Caller.HoldsSocket (id : ℕ) (caller : Caller) : Prop :=
  caller = .limited id ∨ caller = .connecting id ∨ caller = .stalled id

namespace Connector

/-- Every caller of an attempt that has returned has the verdict of that attempt: its id if
it succeeded, an error if it failed. -/
def Agrees (s : Connector) : Prop :=
  ∀ i k result, s.callers i = .returned result → s.attemptOf i = some k →
    ∃ id ok, s.ended[k]? = some (id, ok) ∧ result = if ok then some id else none

/-- The attempt that ends in this step, if one does, has succeeded. -/
def Succeeds (s : Connector) : ConnectAction → Prop
  | .proceed i builds => (s.ws.connect i builds).2 ≠ .failed
  | .attempt _ succeeds => succeeds = true
  | _ => True

/-- One caller at most holds the socket, while it is not connected; callers are queued only
then. The holder and the queued callers without a verdict belong to the attempt that
runs, and a verdict is that of the attempt behind which its caller was queued. -/
structure SingleFlight (s : Connector) : Prop where
  held : s.borrowed = true → s.ws.connectStatus ≠ .connected
  free : s.borrowed = false → s.connecting = []
  holder : ∀ i id, (s.callers i).HoldsSocket id →
    s.borrowed = true ∧ id = s.connectingId ∧ s.attemptOf i = some s.ended.length
  unique : ∀ i j id id', (s.callers i).HoldsSocket id → (s.callers j).HoldsSocket id' → i = j
  waiting : ∀ i id, s.callers i = .queued id none →
    i ∈ s.connecting ∧ id = s.connectingId ∧ s.attemptOf i = some s.ended.length
  verdict : ∀ i id ok, s.callers i = .queued id (some ok) →
    ∃ k, s.attemptOf i = some k ∧ s.ended[k]? = some (id, ok)

variable {s t : Connector} {action : ConnectAction} {i id : ℕ}

/-- A new sub-client has no caller. -/
theorem singleFlight_new : new.SingleFlight where
  held := nofun
  free _ := rfl
  holder i id h := by simp [new, Caller.HoldsSocket] at h
  unique i j id id' h := by simp [new, Caller.HoldsSocket] at h
  waiting := nofun
  verdict := nofun

/-- No caller of a new sub-client has returned. -/
theorem agrees_new : new.Agrees := nofun

/-- The caller that moved. -/
theorem setCaller_self (s : Connector) (i : ℕ) (caller : Caller) :
    (s.setCaller i caller).callers i = caller :=
  Function.update_self ..

/-- A caller that did not move. -/
theorem setCaller_of_ne {j : ℕ} (s : Connector) (caller : Caller) (h : j ≠ i) :
    (s.setCaller i caller).callers j = s.callers j :=
  Function.update_of_ne h ..

/-- A verdict moves no caller to or from the socket. -/
theorem holdsSocket_resolve (senders : List ℕ) (ok : Bool) :
    ((s.resolve senders ok).callers i).HoldsSocket id ↔ (s.callers i).HoldsSocket id := by
  simp only [resolve]
  split
  · rename_i hcaller
    rw [hcaller]
    split <;> simp [Caller.HoldsSocket]
  · rfl

/-- Callers that have returned get no verdict. -/
theorem returned_resolve (senders : List ℕ) (ok : Bool) {result : Option ℕ} :
    (s.resolve senders ok).callers i = .returned result ↔ s.callers i = .returned result := by
  simp only [resolve]
  split
  · rename_i hcaller
    rw [hcaller]
    split <;> simp
  · rfl

/-- A caller that is queued after a verdict was queued before. -/
theorem queued_resolve {senders : List ℕ} {ok : Bool} {verdict : Option Bool}
    (h : (s.resolve senders ok).callers i = .queued id verdict) :
    (s.callers i = .queued id none ∧ verdict = if i ∈ senders then some ok else none) ∨
      s.callers i = .queued id verdict := by
  simp only [resolve] at h
  split at h
  · rename_i hcaller
    split at h <;> cases h <;> simp_all
  · exact Or.inr h

/-- Moving a caller that does not take the socket and is not queued keeps the attempts
apart. -/
theorem SingleFlight.setCaller (h : s.SingleFlight) {caller : Caller}
    (hholds : ∀ id, caller.HoldsSocket id → (s.callers i).HoldsSocket id)
    (hqueued : ∀ id verdict, caller ≠ .queued id verdict) :
    (s.setCaller i caller).SingleFlight := by
  have hback (j id : ℕ) (hj : ((s.setCaller i caller).callers j).HoldsSocket id) :
      (s.callers j).HoldsSocket id := by
    by_cases heq : j = i
    · subst heq
      rw [setCaller_self] at hj
      exact hholds id hj
    · rwa [setCaller_of_ne s caller heq] at hj
  have hold (j id : ℕ) (verdict : Option Bool)
      (hj : (s.setCaller i caller).callers j = .queued id verdict) :
      s.callers j = .queued id verdict := by
    by_cases heq : j = i
    · subst heq
      rw [setCaller_self] at hj
      exact absurd hj (hqueued id verdict)
    · rwa [setCaller_of_ne s caller heq] at hj
  exact ⟨h.held, h.free, fun j id hj => h.holder j id (hback j id hj),
    fun j k id id' hj hk => h.unique j k id id' (hback j id hj) (hback k id' hk),
    fun j id hj => h.waiting j id (hold j id none hj),
    fun j id ok hj => h.verdict j id ok (hold j id (some ok) hj)⟩

/-- A caller that has returned belongs to no attempt that runs, so noting its next attempt
keeps the attempts apart. -/
theorem SingleFlight.setAttempt (h : s.SingleFlight) (attempt : Option ℕ)
    (hholds : ∀ id, ¬(s.callers i).HoldsSocket id)
    (hqueued : ∀ id verdict, s.callers i ≠ .queued id verdict) :
    (s.setAttempt i attempt).SingleFlight := by
  have hother (j id : ℕ) (hj : (s.callers j).HoldsSocket id) : j ≠ i := by
    rintro rfl
    exact hholds id hj
  have hwaiting (j id : ℕ) (verdict : Option Bool) (hj : s.callers j = .queued id verdict) :
      j ≠ i := by
    rintro rfl
    exact hqueued id verdict hj
  refine ⟨h.held, h.free, fun j id hj => ?_, h.unique, fun j id hj => ?_, fun j id ok hj => ?_⟩
  · simp only [Connector.setAttempt, Function.update_of_ne (hother j id hj)]
    exact h.holder j id hj
  · simp only [Connector.setAttempt, Function.update_of_ne (hwaiting j id none hj)]
    exact h.waiting j id hj
  · simp only [Connector.setAttempt, Function.update_of_ne (hwaiting j id (some ok) hj)]
    exact h.verdict j id ok hj

/-- A caller that may start to connect holds no socket and waits for no verdict. -/
theorem idle_caller (h : s.callers i = .idle ∨ ∃ result, s.callers i = .returned result) :
    (∀ id, ¬(s.callers i).HoldsSocket id) ∧ ∀ id verdict, s.callers i ≠ .queued id verdict := by
  rcases h with hidle | ⟨result, hreturned⟩
  · simp [hidle, Caller.HoldsSocket]
  · simp [hreturned, Caller.HoldsSocket]

/-- A new caller is queued behind the attempt that runs. -/
theorem SingleFlight.queue (h : s.SingleFlight) (hheld : s.borrowed = true) (i : ℕ) :
    SingleFlight { (s.setCaller i (.queued s.connectingId none)).setAttempt i
      (some s.ended.length) with connecting := s.connecting ++ [i] } := by
  have hback {j id : ℕ} (hj : (Function.update s.callers i
      (.queued s.connectingId none) j).HoldsSocket id) : j ≠ i ∧ (s.callers j).HoldsSocket id := by
    by_cases heq : j = i
    · subst heq
      simp [Caller.HoldsSocket] at hj
    · rw [Function.update_of_ne heq] at hj
      exact ⟨heq, hj⟩
  refine ⟨h.held, fun hfree => (nomatch hheld.symm.trans hfree), ?_, ?_, ?_, ?_⟩
  · intro j id hj
    obtain ⟨heq, hold⟩ := hback hj
    simp only [Connector.setAttempt, Function.update_of_ne heq]
    exact h.holder j id hold
  · exact fun j k id id' hj hk => h.unique j k id id' (hback hj).2 (hback hk).2
  · intro j id hj
    by_cases heq : j = i
    · subst heq
      simp only [Connector.setAttempt, Connector.setCaller, Function.update_self] at hj ⊢
      cases hj
      exact ⟨by simp, rfl, trivial⟩
    · simp only [Connector.setAttempt, Connector.setCaller, Function.update_of_ne heq] at hj ⊢
      obtain ⟨hmem, hrest⟩ := h.waiting j id hj
      exact ⟨List.mem_append_left _ hmem, hrest⟩
  · intro j id ok hj
    by_cases heq : j = i
    · subst heq
      simp [Connector.setAttempt, Connector.setCaller] at hj
    · simp only [Connector.setAttempt, Connector.setCaller, Function.update_of_ne heq] at hj ⊢
      exact h.verdict j id ok hj

/-- A new caller starts the next attempt. -/
theorem SingleFlight.start (h : s.SingleFlight) (hfree : s.borrowed = false)
    (hdown : s.ws.connectStatus ≠ .connected) (i id : ℕ) :
    SingleFlight { (s.setCaller i (.limited id)).setAttempt i (some s.ended.length) with
      connectingId := id
      borrowed := true } := by
  have hholder (j id : ℕ) : ¬(s.callers j).HoldsSocket id := fun hj => by
    simp [(h.holder j id hj).1] at hfree
  have hwaiting (j id : ℕ) : s.callers j ≠ .queued id none := fun hj => by
    have hmem := (h.waiting j id hj).1
    rw [h.free hfree] at hmem
    exact List.not_mem_nil hmem
  have hself {j id' : ℕ} (hj : (Function.update s.callers i (.limited id) j).HoldsSocket id') :
      j = i := by
    by_contra heq
    rw [Function.update_of_ne heq] at hj
    exact hholder j id' hj
  refine ⟨fun _ => hdown, nofun, ?_, ?_, ?_, ?_⟩
  · intro j id' hj
    obtain rfl := hself hj
    simp only [Connector.setAttempt, Connector.setCaller, Function.update_self] at hj ⊢
    simp only [Caller.HoldsSocket, Caller.limited.injEq, reduceCtorEq, or_false] at hj
    exact ⟨trivial, hj.symm, trivial⟩
  · intro j k id' id'' hj hk
    rw [hself hj, hself hk]
  · intro j id' hj
    by_cases heq : j = i
    · subst heq
      simp [Connector.setAttempt, Connector.setCaller] at hj
    · simp only [Connector.setAttempt, Connector.setCaller, Function.update_of_ne heq] at hj
      exact absurd hj (hwaiting j id')
  · intro j id' ok hj
    by_cases heq : j = i
    · subst heq
      simp [Connector.setAttempt, Connector.setCaller] at hj
    · simp only [Connector.setAttempt, Connector.setCaller, Function.update_of_ne heq] at hj ⊢
      exact h.verdict j id' ok hj

/-- A new caller is queued behind the attempt that runs, starts the next one, or returns. -/
theorem SingleFlight.call (h : s.SingleFlight)
    (hcaller : s.callers i = .idle ∨ ∃ result, s.callers i = .returned result) :
    (s.call i).SingleFlight := by
  unfold Connector.call
  split
  · rename_i hheld
    exact h.queue hheld i
  · rename_i hfree
    split
    · obtain ⟨hholds, hqueued⟩ := idle_caller hcaller
      exact (h.setAttempt none hholds hqueued).setCaller (by simp [Caller.HoldsSocket]) nofun
    · rename_i hdown
      refine h.start (Bool.not_eq_true _ ▸ hfree) (fun hstatus => ?_) i _
      exact hdown (decide_eq_true hstatus)

/-- The end of an attempt gives its verdict to the callers that were queued behind it. -/
theorem SingleFlight.finish (h : s.SingleFlight) (hholds : (s.callers i).HoldsSocket id)
    (ok : Bool) : (s.finish i id ok).SingleFlight := by
  obtain ⟨_, hid, _⟩ := h.holder i id hholds
  have hnone (j id' : ℕ) : ¬((s.finish i id ok).callers j).HoldsSocket id' := by
    intro hj
    by_cases heq : j = i
    · subst heq
      simp [Connector.finish, Connector.setCaller, Caller.HoldsSocket] at hj
    · simp only [Connector.finish, Connector.setCaller, Function.update_of_ne heq,
        holdsSocket_resolve] at hj
      exact heq (h.unique j i id' id hj hholds)
  have hqueued {j id' : ℕ} {verdict : Option Bool}
      (hj : (s.finish i id ok).callers j = .queued id' verdict) :
      (s.callers j = .queued id' none ∧ verdict = if j ∈ s.connecting then some ok else none) ∨
        s.callers j = .queued id' verdict := by
    by_cases heq : j = i
    · subst heq
      simp [Connector.finish, Connector.setCaller] at hj
    · simp only [Connector.finish, Connector.setCaller, Function.update_of_ne heq] at hj
      exact queued_resolve hj
  refine ⟨nofun, fun _ => rfl, fun j id' hj => absurd hj (hnone j id'),
    fun j _ id' _ hj => absurd hj (hnone j id'), fun j id' hj => ?_, fun j id' verdict hj => ?_⟩
  · exfalso
    rcases hqueued hj with ⟨hwaits, hverdict⟩ | hwaits
    · rw [if_pos (h.waiting j id' hwaits).1] at hverdict
      cases hverdict
    · have hresolved : (s.resolve s.connecting ok).callers j = .queued id' (some ok) := by
        simp [resolve, hwaits, (h.waiting j id' hwaits).1]
      have hne : j ≠ i := by
        rintro rfl
        simp [hwaits, Caller.HoldsSocket] at hholds
      simp only [Connector.finish, Connector.setCaller, Function.update_of_ne hne] at hj
      rw [hresolved] at hj
      cases hj
  · rcases hqueued hj with ⟨hwaits, hverdict⟩ | hwaits
    · obtain ⟨hmem, hread, hattempt⟩ := h.waiting j id' hwaits
      rw [if_pos hmem] at hverdict
      cases hverdict
      refine ⟨s.ended.length, hattempt, ?_⟩
      rw [hread, ← hid]
      exact List.getElem?_concat_length
    · obtain ⟨k, hk, hended⟩ := h.verdict j id' verdict hwaits
      have hlt := (List.getElem?_eq_some_iff.mp hended).1
      exact ⟨k, hk, (List.getElem?_append_left hlt).trans hended⟩

/-- A new state of the socket that is not connected while it is held. -/
theorem SingleFlight.setWs (h : s.SingleFlight) {ws : WsClient}
    (hstatus : s.borrowed = true → ws.connectStatus ≠ .connected) :
    SingleFlight { s with ws } :=
  ⟨hstatus, h.free, h.holder, h.unique, h.waiting, h.verdict⟩

/-- Starting to connect does not connect. -/
theorem connect_status {ws : WsClient} (h : ws.connectStatus ≠ .connected) (builds : Bool) :
    (ws.connect i builds).1.connectStatus ≠ .connected := by
  unfold WsClient.connect
  split <;> simp_all

/-- Starting to connect keeps the attempts apart. -/
theorem SingleFlight.proceed (h : s.SingleFlight) (hcaller : s.callers i = .limited id)
    (builds : Bool) : (s.proceed i id builds).SingleFlight := by
  have hholds : (s.callers i).HoldsSocket id := Or.inl hcaller
  have hsocket := h.setWs fun hheld => connect_status (i := i) (h.held hheld) builds
  have hmoved {caller : Caller} (hnext : caller = .connecting id ∨ caller = .stalled id) :
      (Connector.setCaller { s with ws := (s.ws.connect i builds).1 } i caller).SingleFlight := by
    refine hsocket.setCaller (fun id' hid => ?_) ?_
    · rcases hnext with rfl | rfl <;>
        · simp only [Caller.HoldsSocket, reduceCtorEq, Caller.connecting.injEq,
            Caller.stalled.injEq, false_or, or_false] at hid
          exact hid ▸ hholds
    · rcases hnext with rfl | rfl <;> nofun
  simp only [Connector.proceed]
  split
  · exact hmoved (Or.inl rfl)
  · exact hmoved (Or.inr rfl)
  · exact hsocket.finish hholds true
  · exact hsocket.finish hholds false

/-- When the socket is connected, nobody is queued. -/
theorem SingleFlight.connecting_eq_nil (h : s.SingleFlight)
    (hconnected : s.ws.isConnected = true) : s.connecting = [] := by
  apply h.free
  cases hheld : s.borrowed with
  | false => rfl
  | true => exact absurd (of_decide_eq_true hconnected) (h.held hheld)

/-- A lost connection finds nobody in the queue. -/
theorem SingleFlight.callers_lose (h : s.SingleFlight) (hconnected : s.ws.isConnected = true) :
    (Connector.onFail { s with ws := s.ws.disconnect }).callers = s.callers := by
  funext j
  simp only [Connector.onFail, resolve, h.connecting_eq_nil hconnected, List.not_mem_nil, if_false]
  split
  · rename_i hcaller
    exact hcaller.symm
  · rfl

/-- A lost connection keeps the attempts apart. -/
theorem SingleFlight.lose (h : s.SingleFlight) (hconnected : s.ws.isConnected = true) :
    (Connector.onFail { s with ws := s.ws.disconnect }).SingleFlight := by
  have hcallers := h.callers_lose hconnected
  have hwaiting (j id : ℕ) (hj : s.callers j = .queued id none) : False := by
    have hmem := (h.waiting j id hj).1
    rw [h.connecting_eq_nil hconnected] at hmem
    exact List.not_mem_nil hmem
  refine ⟨fun _ => by simp [onFail, resolve, WsClient.disconnect], fun _ => rfl, ?_, ?_, ?_, ?_⟩
  · exact fun j id hj => h.holder j id (hcallers ▸ hj)
  · exact fun j k id id' hj hk => h.unique j k id id' (hcallers ▸ hj) (hcallers ▸ hk)
  · exact fun j id hj => (hwaiting j id (hcallers ▸ hj)).elim
  · exact fun j id ok hj => h.verdict j id ok (hcallers ▸ hj)

/-- Every step keeps the attempts apart. -/
theorem SingleFlight.step (h : s.SingleFlight) (hstep : s.step action = some t) :
    t.SingleFlight := by
  cases steps_of_step hstep with
  | call hcaller => exact h.call hcaller
  | proceed hcaller => exact h.proceed hcaller _
  | @attempt i id succeeds hcaller =>
    have hholds : (s.callers i).HoldsSocket id := Or.inr (Or.inl hcaller)
    obtain ⟨hheld, hid, hattempt⟩ := h.holder i id hholds
    -- The socket is released in the same step in which it becomes connected.
    have hfinish := h.finish hholds succeeds
    exact hfinish.setWs nofun
  | resume hcaller => exact h.setCaller (by simp [Caller.HoldsSocket]) nofun
  | lose hconnected => exact h.lose hconnected

/-- Callers that returned before the end of an attempt keep their results and verdicts; so
the callers agree afterwards exactly if the caller that made the attempt does. -/
theorem agrees_finish_iff (h : s.SingleFlight) (hagrees : s.Agrees)
    (hholds : (s.callers i).HoldsSocket id) (ok : Bool) :
    (s.finish i id ok).Agrees ↔ ok = true := by
  obtain ⟨_, _, hattempt⟩ := h.holder i id hholds
  have hlast : (s.ended ++ [(id, ok)])[s.ended.length]? = some (id, ok) :=
    List.getElem?_concat_length
  constructor
  · intro hall
    obtain ⟨id', ok', hended, hresult⟩ :=
      hall i s.ended.length (some id) (by simp [Connector.finish, Connector.setCaller]) hattempt
    cases hlast.symm.trans hended
    cases ok with
    | true => rfl
    | false => cases hresult
  · rintro rfl j k result hreturned hk
    by_cases heq : j = i
    · subst heq
      cases hattempt.symm.trans hk
      simp only [Connector.finish, Connector.setCaller, Function.update_self] at hreturned
      cases hreturned
      exact ⟨id, true, hlast, rfl⟩
    · simp only [Connector.finish, Connector.setCaller, Function.update_of_ne heq,
        returned_resolve] at hreturned
      obtain ⟨id', ok', hended, hresult⟩ := hagrees j k result hreturned hk
      have hlt := (List.getElem?_eq_some_iff.mp hended).1
      exact ⟨id', ok', (List.getElem?_append_left hlt).trans hended, hresult⟩

/-- A caller that moves on without returning leaves the results of the others. -/
theorem Agrees.setCaller (h : s.Agrees) {caller : Caller}
    (hcaller : ∀ k result, caller = .returned result → s.attemptOf i = some k →
      ∃ id ok, s.ended[k]? = some (id, ok) ∧ result = if ok then some id else none) :
    (s.setCaller i caller).Agrees := by
  intro j k result hreturned hk
  by_cases heq : j = i
  · subst heq
    rw [setCaller_self] at hreturned
    exact hcaller k result hreturned hk
  · rw [setCaller_of_ne s caller heq] at hreturned
    exact h j k result hreturned hk

/-- A new caller takes its own result back only. -/
theorem Agrees.call (h : s.Agrees) (hcaller : s.callers i = .idle ∨
    ∃ result, s.callers i = .returned result) : (s.call i).Agrees := by
  intro j k result hreturned hk
  by_cases heq : j = i
  · subst heq
    unfold Connector.call at hreturned hk
    split at hreturned
    · simp [Connector.setAttempt, Connector.setCaller] at hreturned
    · rename_i hfree
      rw [if_neg hfree] at hk
      split at hreturned
      · rename_i hconnected
        rw [if_pos hconnected] at hk
        simp [Connector.setAttempt, Connector.setCaller] at hk
      · simp [Connector.setAttempt, Connector.setCaller] at hreturned
  · have hcall : (s.call i).callers j = s.callers j ∧ (s.call i).attemptOf j = s.attemptOf j ∧
        (s.call i).ended = s.ended := by
      unfold Connector.call
      split
      · simp [Connector.setAttempt, Connector.setCaller, heq]
      · split <;> simp [Connector.setAttempt, Connector.setCaller, heq]
    obtain ⟨hcallers, hattempt, hended⟩ := hcall
    rw [hcallers] at hreturned
    rw [hattempt] at hk
    rw [hended]
    exact h j k result hreturned hk

/-- After a step all callers agree with their attempts exactly if no attempt failed in it. -/
theorem agrees_step_iff (h : s.SingleFlight) (hagrees : s.Agrees)
    (hstep : s.step action = some t) : t.Agrees ↔ s.Succeeds action := by
  cases steps_of_step hstep with
  | call hcaller => exact iff_of_true (hagrees.call hcaller) trivial
  | @proceed i id builds hcaller =>
    have hholds : (s.callers i).HoldsSocket id := Or.inl hcaller
    have hsocket := h.setWs fun hheld => connect_status (i := i) (h.held hheld) builds
    simp only [Connector.proceed, Succeeds]
    split
    · rename_i hstart
      rw [hstart]
      exact iff_of_true (Agrees.setCaller hagrees nofun) nofun
    · rename_i hstart
      rw [hstart]
      exact iff_of_true (Agrees.setCaller hagrees nofun) nofun
    · rename_i hstart
      rw [hstart]
      exact (agrees_finish_iff hsocket hagrees hholds true).trans (by simp)
    · rename_i hstart
      rw [hstart]
      exact (agrees_finish_iff hsocket hagrees hholds false).trans (by simp)
  | @attempt i id succeeds hcaller =>
    exact agrees_finish_iff h hagrees (Or.inr (Or.inl hcaller)) succeeds
  | @resume i id verdict hcaller =>
    refine iff_of_true (Agrees.setCaller hagrees fun k result hreturned hk => ?_) trivial
    cases hreturned
    obtain ⟨k', hk', hended⟩ := h.verdict i id verdict hcaller
    cases hk.symm.trans hk'
    exact ⟨id, verdict, hended, rfl⟩
  | lose hconnected =>
    refine iff_of_true (fun j k result hreturned hk => ?_) trivial
    rw [h.callers_lose hconnected] at hreturned
    exact hagrees j k result hreturned hk

/-- In a run of any number of callers, every caller of an attempt that has returned has the
verdict of that attempt in all states exactly if no attempt of the run fails. -/
theorem connect_verdicts_iff (actions : List ConnectAction) :
    GuardedRun.StatesSatisfy step Agrees new actions ↔
      GuardedRun.StepsSatisfy step Succeeds new actions :=
  GuardedRun.statesSatisfy_iff_stepsSatisfy (I := SingleFlight)
    (fun _ _ _ h _ hstep => h.step hstep)
    (fun _ _ _ h hagrees hstep => agrees_step_iff h hagrees hstep) singleFlight_new agrees_new

/-- A caller whose attempt fails returns its id, while the caller queued behind it gets an
error. -/
theorem failed_attempt_returns_id : ∃ s : Connector,
    GuardedRun.exec step new [.call 0, .call 1, .proceed 0 true, .attempt 0 false, .resume 1] =
      some s ∧ s.ended = [(1, false)] ∧ s.attemptOf 0 = some 0 ∧ s.attemptOf 1 = some 0 ∧
        s.callers 0 = .returned (some 1) ∧ s.callers 1 = .returned none ∧ ¬s.Agrees := by
  refine ⟨_, rfl, rfl, rfl, rfl, rfl, rfl, fun hagrees => ?_⟩
  obtain ⟨id, ok, hended, hresult⟩ := hagrees 0 0 (some 1) rfl rfl
  cases hended
  cases hresult

end Connector

end Arbexpert.Base
