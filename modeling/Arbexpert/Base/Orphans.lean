import Arbexpert.Base.Socket
import Arbexpert.Foundation.GuardedRun

/-!
# Subscriptions that nobody has sent

A symbol is entered in the maps before its frame is sent. The closure's error path
takes it out again, the error path of the send does not, and a failed unsubscribe
closure puts a symbol back whatever happened to the connection in between.
-/

namespace Arbexpert.Base

namespace SubClient

/-- Each subscribed symbol has a watch call that will send its frame, or the running
session accepted its frame. -/
def NoOrphan (s : SubClient) : Prop :=
  ∀ symbol, symbol ∈ s.subscribed →
    (∃ i, s.calls i = .subscribing symbol) ∨ s.ws.Accepted (.subscribe symbol)

/-- A step keeps the subscriptions sound: it leaves no orphan, and a watch call that
fails in its closure or in its send leaves its symbol in neither map. -/
def SoundStep (s : SubClient) (action : SubAction) : Prop :=
  ∀ t, s.step action = some t → t.NoOrphan ∧
    ∀ i ok symbol, action = .subscribe i ok → s.calls i = .subscribing symbol →
      t.calls i = .watched none → symbol ∉ t.subscribed ∧ symbol ∉ t.pending

/-- When the closure of a watch call has made its frame, the client is connected or
the symbol is in neither map; when an unsubscribe closure fails, the frame of the
symbol was accepted in the running session or will be sent by a watch call. -/
def SendsOrAbsent (s : SubClient) : SubAction → Prop
  | .subscribe i true => ∀ symbol, s.calls i = .subscribing symbol →
      s.ws.connectStatus = .connected ∨ symbol ∉ s.subscribed ∧ symbol ∉ s.pending
  | .unsubscribe i false => ∀ symbol book, s.calls i = .unsubscribing symbol book →
      (∃ k, s.calls k = .subscribing symbol) ∨ s.ws.Accepted (.subscribe symbol)
  | _ => True

variable {s t : SubClient} {i : ℕ} {symbol : String}

/-- A new sub-client has no orphan. -/
theorem noOrphan_new : new.NoOrphan :=
  fun _ hsymbol => absurd hsymbol Finmap.notMem_empty

/-- A state with fewer symbols, and with the calls and the frames of those that are
left, has no new orphan. -/
theorem NoOrphan.mono (h : s.NoOrphan)
    (hsubscribed : ∀ other ∈ t.subscribed, other ∈ s.subscribed)
    (hcalls : ∀ other ∈ t.subscribed, ∀ j, s.calls j = .subscribing other →
      t.calls j = .subscribing other)
    (haccepted : ∀ frame, s.ws.Accepted frame → t.ws.Accepted frame) : t.NoOrphan := by
  intro other hother
  rcases h other (hsubscribed other hother) with ⟨j, hj⟩ | hframe
  · exact Or.inl ⟨j, hcalls other hother j hj⟩
  · exact Or.inr (haccepted _ hframe)

/-- Connecting makes no orphan. -/
theorem NoOrphan.connects (h : s.NoOrphan) {result : SubClient × Option (ℕ × String)}
    (hresult : s.Connects result) : result.1.NoOrphan := by
  refine h.mono (fun other hother => ?_) (fun other _ j hj => ?_) hresult.accepted
  · rwa [← hresult.subscribed]
  · exact (hresult.closures j (.subscribing other) trivial).mpr hj

/-- A call in no subscribe closure that enters a symbol makes no orphan. -/
theorem NoOrphan.join (h : s.NoOrphan) (hi : ∀ other, s.calls i ≠ .subscribing other)
    (symbol : String) : (s.join i symbol).NoOrphan := by
  have hmoved (phase : Phase) {other : String} {j : ℕ} (hj : s.calls j = .subscribing other) :
      (s.setCall i phase).calls j = .subscribing other := by
    have hne : j ≠ i := fun heq => hi other (heq ▸ hj)
    simpa only [SubClient.setCall, Function.update_of_ne hne] using hj
  simp only [SubClient.join]
  split
  · intro other hother
    by_cases heq : other = symbol
    · exact Or.inl ⟨i, by simp [SubClient.setCall, heq]⟩
    · have hold : other ∈ s.subscribed := by
        rcases Finmap.mem_insert.mp hother with hsame | hold
        · exact absurd hsame heq
        · exact hold
      rcases h other hold with ⟨j, hj⟩ | hframe
      · exact Or.inl ⟨j, hmoved _ hj⟩
      · exact Or.inr hframe
  · split
    · exact h
    · exact h.mono (fun _ hother => hother) (fun _ _ _ hj => hmoved _ hj) fun _ hframe => hframe

/-- A call that connects, and perhaps enters its symbol, makes no orphan. -/
theorem NoOrphan.enter (h : s.NoOrphan) {result : SubClient × Option (ℕ × String)}
    (hresult : s.Connects result) :
    (result.2.elim result.1 fun call => result.1.join call.1 call.2).NoOrphan := by
  obtain ⟨u, next⟩ := result
  cases next with
  | none => exact h.connects hresult
  | some call =>
    refine (h.connects hresult).join (fun other hcontra => ?_) call.2
    apply hresult.next call.1 call.2 rfl
    rw [(hresult.closures call.1 (.subscribing other) trivial).mp hcontra]
    trivial

/-- A call in no subscribe closure that moves on makes no orphan. -/
theorem NoOrphan.setCall (h : s.NoOrphan) (hi : ∀ other, s.calls i ≠ .subscribing other)
    (phase : Phase) : (s.setCall i phase).NoOrphan := by
  refine h.mono (fun _ hother => hother) (fun other _ j hj => ?_) fun _ hframe => hframe
  have hne : j ≠ i := fun heq => hi other (heq ▸ hj)
  simpa only [SubClient.setCall, Function.update_of_ne hne] using hj

/-- A frame that is sent makes no orphan, and is accepted. -/
theorem NoOrphan.send (h : s.NoOrphan) {frame : Frame} (hsend : s.send frame = some t) :
    t.NoOrphan ∧ t.ws.Accepted frame ∧ t.subscribed = s.subscribed ∧ t.calls = s.calls := by
  unfold SubClient.send at hsend
  split at hsend
  · cases hsend
  · obtain ⟨ws, hws, rfl⟩ := Option.map_eq_some_iff.mp hsend
    refine ⟨?_, WsClient.accepted_of_send hws (Or.inl rfl), rfl, rfl⟩
    exact h.mono (fun _ hother => hother) (fun _ _ _ hj => hj)
      fun _ hframe => WsClient.accepted_of_send hws (Or.inr hframe)

/-- The rest of a watch call is sound exactly if its frame can be sent, or the symbol
has left both maps. -/
theorem subscribe_sound_iff (h : s.Socket) (hno : s.NoOrphan)
    (hcall : s.calls i = .subscribing symbol) (ok : Bool) :
    (s.subscribe i symbol ok).NoOrphan ∧
        ((s.subscribe i symbol ok).calls i = .watched none →
          symbol ∉ (s.subscribe i symbol ok).subscribed ∧
            symbol ∉ (s.subscribe i symbol ok).pending) ↔
      (ok = true → s.ws.connectStatus = .connected ∨
        symbol ∉ s.subscribed ∧ symbol ∉ s.pending) := by
  have hmoved (u : SubClient) (hu : u.calls = s.calls) (phase : Phase) {other : String} {j : ℕ}
      (hne : other ≠ symbol) (hj : u.calls j = .subscribing other) :
      (u.setCall i phase).calls j = .subscribing other := by
    have hji : j ≠ i := by
      rintro rfl
      rw [hu, hcall] at hj
      exact hne (Phase.subscribing.inj hj).symm
    simpa only [SubClient.setCall, Function.update_of_ne hji] using hj
  have hsome := h.send_isSome_iff (.subscribe symbol)
  unfold SubClient.subscribe
  cases ok with
  | true =>
    simp only [if_true, true_imp_iff]
    split
    · rename_i u hsend
      obtain ⟨hu, haccepted, _, hcalls⟩ := hno.send hsend
      refine iff_of_true ⟨fun other hother => ?_, fun hrefused => ?_⟩ (Or.inl ?_)
      · by_cases heq : other = symbol
        · exact Or.inr (heq ▸ haccepted)
        · rcases hu other hother with ⟨j, hj⟩ | hframe
          · exact Or.inl ⟨j, hmoved u hcalls _ heq hj⟩
          · exact Or.inr hframe
      · simp [SubClient.setCall] at hrefused
      · rw [← hsome, hsend]
        rfl
    · rename_i hrefused
      have hdown : s.ws.connectStatus ≠ .connected := by
        rw [Ne, ← hsome, hrefused]
        exact Bool.false_ne_true
      constructor
      · rintro ⟨_, habsent⟩
        exact Or.inr (habsent (by simp [SubClient.setCall]))
      · intro hor
        have habsent := hor.resolve_left hdown
        refine ⟨fun other hother => ?_, fun _ => habsent⟩
        have hne : other ≠ symbol := by
          rintro rfl
          exact habsent.1 hother
        rcases hno other hother with ⟨j, hj⟩ | hframe
        · exact Or.inl ⟨j, hmoved s rfl _ hne hj⟩
        · exact Or.inr hframe
  | false =>
    simp only [Bool.false_eq_true, if_false, false_imp_iff, iff_true]
    refine ⟨hno.mono (fun other hother => ?_) (fun other hother j hj => ?_) fun _ hframe => hframe,
      fun _ => ⟨?_, ?_⟩⟩
    · exact (Finmap.mem_erase.mp hother).2
    · exact hmoved s rfl _ (Finmap.mem_erase.mp hother).1 hj
    · exact fun hcontra => (Finmap.mem_erase.mp hcontra).1 rfl
    · exact fun hcontra => (Finmap.mem_erase.mp hcontra).1 rfl

/-- The rest of an unwatch call leaves no orphan exactly if the symbol that it puts
back has a frame that was accepted or will be sent. -/
theorem unsubscribe_noOrphan_iff (hno : s.NoOrphan) {book : ℕ}
    (hcall : s.calls i = .unsubscribing symbol book) (ok : Bool) :
    (s.unsubscribe i symbol book ok).NoOrphan ↔ (ok = false →
      (∃ k, s.calls k = .subscribing symbol) ∨ s.ws.Accepted (.subscribe symbol)) := by
  have hi : ∀ other, s.calls i ≠ .subscribing other := by simp [hcall]
  unfold SubClient.unsubscribe
  cases ok with
  | true =>
    have hremove : (s.removePending symbol).NoOrphan := hno
    simp only [if_true, Bool.true_eq_false, false_imp_iff, iff_true]
    split
    · rename_i u hsend
      obtain ⟨hu, _, _, hcalls⟩ := hremove.send hsend
      exact hu.setCall (fun other => hcalls ▸ hi other) _
    · exact hremove.setCall hi _
  | false =>
    have hset : (s.setCall i (.unwatched true)).NoOrphan := hno.setCall hi _
    simp only [Bool.false_eq_true, if_false, true_imp_iff]
    constructor
    · intro h
      rcases h symbol (Finmap.mem_insert.mpr (Or.inl rfl)) with ⟨k, hk⟩ | hframe
      · refine Or.inl ⟨k, ?_⟩
        have hne : k ≠ i := by
          rintro rfl
          simp [SubClient.setCall] at hk
        simpa only [SubClient.setCall, Function.update_of_ne hne] using hk
      · exact Or.inr hframe
    · intro h other hother
      rcases Finmap.mem_insert.mp hother with rfl | hold
      · rcases h with ⟨k, hk⟩ | hframe
        · have hne : k ≠ i := fun heq => hi other (heq ▸ hk)
          exact Or.inl ⟨k, by simpa only [SubClient.setCall, Function.update_of_ne hne] using hk⟩
        · exact Or.inr hframe
      · exact hset other hold

/-- An action without an entry, that is not the end of a closure, makes no orphan. -/
theorem NoOrphan.advances (h : s.NoOrphan) (hsocket : s.Socket) {action : SubAction}
    {result : SubClient × Option (ℕ × String)} (hadvances : s.Advances action result)
    (hsubscribe : ∀ i ok, action ≠ .subscribe i ok)
    (hunsubscribe : ∀ i ok, action ≠ .unsubscribe i ok) :
    (result.2.elim result.1 fun call => result.1.join call.1 call.2).NoOrphan := by
  cases hadvances with
  | watch hcall => exact h.enter (connects_enter (by simp [hcall, Phase.InClosure]) _ _)
  | proceed hcall => exact h.enter (connects_proceed (by simp [hcall, Phase.InClosure]) _ _ _)
  | attempt hcall => exact h.enter (connects_attempt hsocket hcall _)
  | resume hcall => exact h.enter (connects_enter (by simp [hcall, Phase.InClosure]) _ _)
  | refuse hcall => exact h.setCall (by simp [hcall]) _
  | subscribe hcall => exact absurd rfl (hsubscribe _ _)
  | receive hcall hinbox => exact h.setCall (by simp [hcall]) _
  | closed hcall hinbox => exact h.setCall (by simp [hcall]) _
  | absent hcall hsymbol => exact h.setCall (by simp [hcall]) _
  | @unwatch i symbol book hcall hsymbol =>
    have hset := h.setCall (i := i) (by simp [hcall]) (.unsubscribing symbol book)
    exact hset.mono (fun _ hother => (Finmap.mem_erase.mp hother).2) (fun _ _ _ hj => hj)
      fun _ hframe => hframe
  | unsubscribe hcall => exact absurd rfl (hunsubscribe _ _)
  | broadcast hsymbol hpending => exact h
  | lose hconnected => exact fun _ hother => absurd hother Finmap.notMem_empty

/-- A step is sound exactly if it meets the condition. -/
theorem soundStep_iff (h : s.Socket) (hno : s.NoOrphan) {action : SubAction}
    (hstep : s.step action = some t) : s.SoundStep action ↔ s.SendsOrAbsent action := by
  obtain ⟨result, hadvances, ht⟩ := advances_of_step hstep
  have hother (hsubscribe : ∀ i ok, action ≠ .subscribe i ok)
      (hunsubscribe : ∀ i ok, action ≠ .unsubscribe i ok) : s.SoundStep action := by
    intro v hv
    obtain rfl := Option.some.inj (hstep.symm.trans hv)
    refine ⟨?_, fun i ok symbol haction => absurd haction (hsubscribe i ok)⟩
    rw [ht]
    exact hno.advances h hadvances hsubscribe hunsubscribe
  cases action with
  | subscribe i ok =>
    cases hadvances with
    | @subscribe _ _ symbol hcall =>
      have hiff := subscribe_sound_iff h hno hcall ok
      have hsound : s.SoundStep (.subscribe i ok) ↔ t.NoOrphan ∧
          (t.calls i = .watched none → symbol ∉ t.subscribed ∧ symbol ∉ t.pending) := by
        constructor
        · intro hs
          exact ⟨(hs t hstep).1, (hs t hstep).2 i ok symbol rfl hcall⟩
        · rintro ⟨hnone, habsent⟩ v hv
          obtain rfl := Option.some.inj (hstep.symm.trans hv)
          refine ⟨hnone, fun j _ other haction hj hrefused => ?_⟩
          cases haction
          obtain rfl := Phase.subscribing.inj (hcall.symm.trans hj)
          exact habsent hrefused
      rw [hsound, ht]
      apply hiff.trans
      cases ok with
      | false => exact iff_of_true nofun trivial
      | true =>
        refine ⟨fun hcond other hj => ?_, fun hcond _ => hcond symbol hcall⟩
        obtain rfl := Phase.subscribing.inj (hcall.symm.trans hj)
        exact hcond rfl
  | unsubscribe i ok =>
    cases hadvances with
    | @unsubscribe _ _ symbol book hcall =>
      have hiff := unsubscribe_noOrphan_iff hno hcall ok
      have hsound : s.SoundStep (.unsubscribe i ok) ↔ t.NoOrphan := by
        refine ⟨fun hs => (hs t hstep).1, fun hnone v hv => ?_⟩
        obtain rfl := Option.some.inj (hstep.symm.trans hv)
        exact ⟨hnone, nofun⟩
      rw [hsound, ht]
      apply hiff.trans
      cases ok with
      | true => exact iff_of_true nofun trivial
      | false =>
        refine ⟨fun hcond other stored hj => ?_, fun hcond _ => hcond symbol book hcall⟩
        obtain ⟨rfl, rfl⟩ := Phase.unsubscribing.inj (hcall.symm.trans hj)
        exact hcond rfl
  | _ => exact iff_of_true (hother nofun nofun) trivial

/-- A run leaves no orphan, and no symbol of a watch call that failed in its closure or
its send, exactly if each frame is made while the client is connected or after its
symbol has left the maps, and each symbol that a failed unsubscribe closure puts back
has a frame that was accepted in the running session or will be sent. -/
theorem subscriptions_sound_iff (actions : List SubAction) :
    GuardedRun.StepsSatisfy step SoundStep new actions ↔
      GuardedRun.StepsSatisfy step SendsOrAbsent new actions := by
  refine GuardedRun.stepsSatisfy_iff (I := fun s => s.Socket ∧ s.NoOrphan)
    (fun s action t hs hstep => ⟨soundStep_iff hs.1 hs.2 hstep, fun hsound => ?_⟩)
    ⟨socket_new, noOrphan_new⟩
  exact ⟨hs.1.step hstep, (hsound t hstep).1⟩

/-- A watch call whose connection attempt fails returns an error and leaves its symbol
in both maps; the next watch call connects and waits for a book of a subscription that
was never sent. -/
theorem failed_connect_leaves_orphan : ∃ s : SubClient,
    GuardedRun.exec step new [.watch 0 "BTC_USDT", .proceed 0 true, .attempt 0 false,
        .subscribe 0 true, .watch 1 "BTC_USDT", .proceed 1 true, .attempt 1 true] = some s ∧
      s.calls 0 = .watched none ∧ "BTC_USDT" ∈ s.subscribed ∧ "BTC_USDT" ∈ s.pending ∧
        s.calls 1 = .waiting "BTC_USDT" ∧ s.ws.sender = some ⟨[], true⟩ := by
  have hrun : (GuardedRun.exec step new [.watch 0 "BTC_USDT", .proceed 0 true, .attempt 0 false,
      .subscribe 0 true, .watch 1 "BTC_USDT", .proceed 1 true, .attempt 1 true]).map (fun s =>
        (s.calls 0, s.subscribed.lookup "BTC_USDT", s.pending.lookup "BTC_USDT", s.calls 1,
          s.ws.sender)) =
      some (.watched none, some 0, some [0, 1], .waiting "BTC_USDT", some ⟨[], true⟩) := by
    rfl
  obtain ⟨s, hexec, hresult⟩ := Option.map_eq_some_iff.mp hrun
  simp only [Prod.mk.injEq] at hresult
  obtain ⟨hrefused, hsubscribed, hpending, hwaiting, hsender⟩ := hresult
  exact ⟨s, hexec, hrefused, Finmap.mem_of_lookup_eq_some hsubscribed,
    Finmap.mem_of_lookup_eq_some hpending, hwaiting, hsender⟩

end SubClient

end Arbexpert.Base
