import Arbexpert.Base.Calls
import Arbexpert.Foundation.GuardedRun

/-!
# Subscribed symbols and their pending lists

A symbol enters both maps together and leaves them together, but for the body of an unwatch call,
which takes the symbol out of one map before its closure runs and out of the other one after it.
What other calls do to the symbol in between decides whether the maps match again.
-/

namespace Arbexpert.Base

namespace SubClient

/-- An unwatch call of the symbol is in its closure. -/
def Unwatching (s : SubClient) (symbol : String) : Prop :=
  ∃ i book, s.calls i = .unsubscribing symbol book

/-- A subscribed symbol has a pending list, and the symbol of a list with senders is subscribed. -/
structure Matched (s : SubClient) (symbol : String) : Prop where
  pending : symbol ∈ s.subscribed → symbol ∈ s.pending
  subscribed : ∀ senders, s.pending.lookup symbol = some senders → senders ≠ [] →
    symbol ∈ s.subscribed

/-- No watch call has found a subscribed symbol without its list, and the maps match at every
symbol that is in no unwatch call. -/
structure MapsMatched (s : SubClient) : Prop where
  aborted : s.aborted = false
  matched : ∀ symbol, ¬s.Unwatching symbol → s.Matched symbol

/-- A watch call that leaves its loop while its symbol is in an unwatch call finds it out of the
maps or in both of them; and when the closure of the last unwatch call of a symbol completes, the
symbol has not been subscribed again, or has kept its list if the closure fails. -/
def KeepsMatched (s : SubClient) (action : SubAction) : Prop :=
  (∀ i symbol, s.entering action = some (i, symbol) → s.Unwatching symbol →
    symbol ∈ s.subscribed → symbol ∈ s.pending) ∧
  ∀ i ok symbol book, action = .unsubscribe i ok → s.calls i = .unsubscribing symbol book →
    (∃ j ≠ i, ∃ book, s.calls j = .unsubscribing symbol book) ∨
      if ok then symbol ∉ s.subscribed else symbol ∈ s.pending

variable {s t : SubClient} {i : ℕ} {symbol : String} {action : SubAction}

/-- The maps of a new sub-client match. -/
theorem mapsMatched_new : new.MapsMatched where
  aborted := rfl
  matched _ _ := ⟨fun hmem => absurd hmem Finmap.notMem_empty, fun _ hlookup => by
    simp [new] at hlookup⟩

/-- A state that is not aborted keeps the maps matched when each symbol that is in no unwatch call
was in none before, and is still matched. -/
theorem MapsMatched.mono (h : s.MapsMatched) (haborted : t.aborted = false)
    (hunwatching : ∀ other, s.Unwatching other → t.Unwatching other)
    (hmatched : ∀ other, ¬t.Unwatching other → s.Matched other → t.Matched other) :
    t.MapsMatched where
  aborted := haborted
  matched other hother :=
    hmatched other hother (h.matched other fun hold => hother (hunwatching other hold))

/-- Equal maps match at the same symbols. -/
theorem Matched.congr (h : s.Matched symbol) (hsubscribed : t.subscribed = s.subscribed)
    (hpending : t.pending = s.pending) : t.Matched symbol where
  pending := by
    rw [hsubscribed, hpending]
    exact h.pending
  subscribed := by
    rw [hsubscribed, hpending]
    exact h.subscribed

/-- A symbol that leaves both maps is matched. -/
theorem matched_of_notMem (hsubscribed : symbol ∉ t.subscribed) (hpending : symbol ∉ t.pending) :
    t.Matched symbol :=
  ⟨fun hmem => absurd hmem hsubscribed, fun _ hlookup =>
    absurd (Finmap.mem_of_lookup_eq_some hlookup) hpending⟩

/-- A symbol in both maps is matched. -/
theorem matched_of_mem (hsubscribed : symbol ∈ t.subscribed) (hpending : symbol ∈ t.pending) :
    t.Matched symbol :=
  ⟨fun _ => hpending, fun _ _ _ => hsubscribed⟩

/-- Moving a call out of no unwatch closure ends no unwatch call. -/
theorem Unwatching.of_update (h : s.Unwatching symbol) {phase : Phase}
    (hi : ∀ other book, s.calls i ≠ .unsubscribing other book)
    (hcalls : t.calls = Function.update s.calls i phase) : t.Unwatching symbol := by
  obtain ⟨j, book, hj⟩ := h
  have hne : j ≠ i := fun heq => hi symbol book (heq ▸ hj)
  exact ⟨j, book, by rwa [hcalls, Function.update_of_ne hne]⟩

/-- A call that moves without touching the maps keeps them matched. -/
theorem MapsMatched.setCall (h : s.MapsMatched)
    (hi : ∀ other book, s.calls i ≠ .unsubscribing other book) (phase : Phase) :
    (s.setCall i phase).MapsMatched :=
  h.mono h.aborted (fun _ hold => hold.of_update hi rfl) fun _ _ hother => hother.congr rfl rfl

/-- A call that enters a symbol keeps the maps matched, unless the symbol is in an unwatch call
that has not removed its pending list from under a new subscription. -/
theorem join_matched_iff (h : s.MapsMatched) (hi : ¬(s.calls i).InClosure) :
    (s.join i symbol).MapsMatched ↔
      (s.Unwatching symbol → symbol ∈ s.subscribed → symbol ∈ s.pending) := by
  have hcall : ∀ other book, s.calls i ≠ .unsubscribing other book := by
    intro other book hcontra
    exact hi (by rw [hcontra]; trivial)
  simp only [SubClient.join]
  split
  · rename_i hlookup
    have hnew : symbol ∉ s.subscribed := Finmap.lookup_eq_none.mp hlookup
    refine iff_of_true ?_ fun _ hmem => absurd hmem hnew
    refine h.mono h.aborted (fun _ hold => hold.of_update hcall rfl) fun other _ hother => ?_
    by_cases heq : other = symbol
    · subst heq
      exact matched_of_mem (Finmap.mem_insert.mpr (Or.inl rfl)) (Finmap.mem_insert.mpr (Or.inl rfl))
    · refine ⟨fun hmem => ?_, fun senders hsenders hne => ?_⟩
      · have hold := (Finmap.mem_insert.mp hmem).resolve_left heq
        exact Finmap.mem_insert.mpr (Or.inr (hother.pending hold))
      · rw [Finmap.lookup_insert_of_ne _ heq] at hsenders
        exact Finmap.mem_insert.mpr (Or.inr (hother.subscribed senders hsenders hne))
  · rename_i book hlookup
    have hmem : symbol ∈ s.subscribed := Finmap.mem_of_lookup_eq_some hlookup
    split
    · rename_i hnone
      have hnot : symbol ∉ s.pending := Finmap.lookup_eq_none.mp hnone
      refine iff_of_false (fun hmatched => Bool.noConfusion hmatched.aborted) fun hkept => ?_
      by_cases hunwatching : s.Unwatching symbol
      · exact hnot (hkept hunwatching hmem)
      · exact hnot ((h.matched symbol hunwatching).pending hmem)
    · rename_i senders hsenders
      have hpending : symbol ∈ s.pending := Finmap.mem_of_lookup_eq_some hsenders
      refine iff_of_true ?_ fun _ _ => hpending
      refine h.mono h.aborted (fun _ hold => hold.of_update hcall rfl) fun other _ hother => ?_
      by_cases heq : other = symbol
      · subst heq
        exact matched_of_mem hmem (Finmap.mem_insert.mpr (Or.inl rfl))
      · refine ⟨fun hold => Finmap.mem_insert.mpr (Or.inr (hother.pending hold)), ?_⟩
        intro list hlist hne
        rw [Finmap.lookup_insert_of_ne _ heq] at hlist
        exact hother.subscribed list hlist hne

/-- Connecting leaves the maps matched, so only the entry of a symbol decides. -/
theorem connects_matched_iff (h : s.MapsMatched) {result : SubClient × Option (ℕ × String)}
    (hresult : s.Connects result) (haborted : result.1.aborted = s.aborted) :
    (result.2.elim result.1 fun call => result.1.join call.1 call.2).MapsMatched ↔
      ∀ i symbol, result.2 = some (i, symbol) → s.Unwatching symbol →
        symbol ∈ s.subscribed → symbol ∈ s.pending := by
  have hunwatching (other : String) : result.1.Unwatching other ↔ s.Unwatching other :=
    exists_congr fun j => exists_congr fun book => hresult.closures j _ trivial
  have hmatched : result.1.MapsMatched :=
    h.mono (haborted.trans h.aborted) (fun other hold => (hunwatching other).mpr hold)
      fun other _ hother => hother.congr hresult.subscribed hresult.pending
  obtain ⟨u, next⟩ := result
  cases next with
  | none => exact iff_of_true hmatched nofun
  | some call =>
    obtain ⟨j, symbol⟩ := call
    have hj : ¬(u.calls j).InClosure := by
      intro hcontra
      apply hresult.next j symbol rfl
      rwa [(hresult.closures j _ hcontra).mp rfl]
    apply (join_matched_iff hmatched hj).trans
    rw [hunwatching, hresult.subscribed, hresult.pending]
    constructor
    · intro hkept k other hnext
      cases hnext
      exact hkept
    · exact fun hkept => hkept j symbol rfl

/-- Starting or continuing to connect aborts nothing. -/
theorem aborted_enter (s : SubClient) (i : ℕ) (symbol : String) (id : ℕ) :
    (s.enter i symbol id).1.aborted = s.aborted := by
  unfold SubClient.enter
  split
  · rfl
  · split
    · rfl
    · split <;> rfl

/-- A caller that the limiters have admitted aborts nothing. -/
theorem aborted_proceed (s : SubClient) (i : ℕ) (symbol : String) (id : ℕ) (builds : Bool) :
    (s.proceed i symbol id builds).1.aborted = s.aborted := by
  simp only [SubClient.proceed]
  split
  · rfl
  · rfl
  · exact aborted_enter _ _ _ _
  · exact aborted_enter _ _ _ _

/-- A frame that is sent moves no call and aborts nothing. -/
theorem calls_send {frame : Frame} (hsend : s.send frame = some t) :
    t.calls = s.calls ∧ t.aborted = s.aborted := by
  unfold SubClient.send at hsend
  split at hsend
  · cases hsend
  · obtain ⟨ws, _, rfl⟩ := Option.map_eq_some_iff.mp hsend
    exact ⟨rfl, rfl⟩

/-- A watch call leaves its closure for a phase that is in none. -/
theorem calls_subscribe (s : SubClient) (i : ℕ) (symbol : String) (ok : Bool) :
    ∃ phase, ¬phase.InClosure ∧ (s.subscribe i symbol ok).calls = Function.update s.calls i phase ∧
      (s.subscribe i symbol ok).aborted = s.aborted := by
  unfold SubClient.subscribe
  split
  · split
    · rename_i u hsend
      obtain ⟨hcalls, haborted⟩ := calls_send hsend
      exact ⟨.waiting symbol, id, by rw [SubClient.setCall, hcalls], haborted⟩
    · exact ⟨.watched none, id, rfl, rfl⟩
  · exact ⟨.watched none, id, rfl, rfl⟩

/-- An unwatch call leaves its closure for a phase that is in none. -/
theorem calls_unsubscribe (s : SubClient) (i : ℕ) (symbol : String) (book : ℕ) (ok : Bool) :
    ∃ phase, ¬phase.InClosure ∧
      (s.unsubscribe i symbol book ok).calls = Function.update s.calls i phase ∧
        (s.unsubscribe i symbol book ok).aborted = s.aborted := by
  unfold SubClient.unsubscribe
  split
  · dsimp only
    split
    · rename_i u hsend
      obtain ⟨hcalls, haborted⟩ := calls_send hsend
      refine ⟨.unwatched true, id, ?_, haborted⟩
      rw [SubClient.setCall, hcalls]
      rfl
    · exact ⟨.unwatched false, id, rfl, rfl⟩
  · exact ⟨.unwatched true, id, rfl, rfl⟩

/-- A watch call whose closure completes keeps the maps matched: it leaves them alone, or takes
its symbol out of both. -/
theorem MapsMatched.subscribe (h : s.MapsMatched) (hcall : s.calls i = .subscribing symbol)
    (ok : Bool) : (s.subscribe i symbol ok).MapsMatched := by
  obtain ⟨phase, _, hcalls, haborted⟩ := calls_subscribe s i symbol ok
  obtain ⟨hsubscribed, hpending⟩ := maps_subscribe s i symbol ok
  have hi : ∀ other book, s.calls i ≠ .unsubscribing other book := by simp [hcall]
  refine h.mono (haborted.trans h.aborted) (fun _ hold => hold.of_update hi hcalls)
    fun other _ hother => ?_
  cases ok with
  | true => exact hother.congr hsubscribed hpending
  | false =>
    simp only [Bool.false_eq_true, if_false] at hsubscribed hpending
    by_cases heq : other = symbol
    · apply matched_of_notMem
      · rw [hsubscribed, heq]
        exact fun hmem => (Finmap.mem_erase.mp hmem).1 rfl
      · rw [hpending, heq]
        exact fun hmem => (Finmap.mem_erase.mp hmem).1 rfl
    · refine ⟨fun hmem => ?_, fun senders hsenders hne => ?_⟩
      · rw [hsubscribed, Finmap.mem_erase] at hmem
        rw [hpending]
        exact Finmap.mem_erase.mpr ⟨heq, hother.pending hmem.2⟩
      · rw [hpending, Finmap.lookup_erase_ne heq] at hsenders
        rw [hsubscribed]
        exact Finmap.mem_erase.mpr ⟨heq, hother.subscribed senders hsenders hne⟩

/-- An unwatch call whose closure completes leaves all other symbols matched. -/
theorem Matched.unsubscribe_of_ne {other : String} (h : s.Matched other) (hne : other ≠ symbol)
    (i book : ℕ) (ok : Bool) : (s.unsubscribe i symbol book ok).Matched other := by
  obtain ⟨hsubscribed, hpending⟩ := maps_unsubscribe s i symbol book ok
  cases ok with
  | true =>
    simp only [if_true] at hsubscribed hpending
    refine ⟨fun hmem => ?_, fun senders hsenders hlist => ?_⟩
    · rw [hsubscribed] at hmem
      rw [hpending]
      exact Finmap.mem_erase.mpr ⟨hne, h.pending hmem⟩
    · rw [hpending, Finmap.lookup_erase_ne hne] at hsenders
      rw [hsubscribed]
      exact h.subscribed senders hsenders hlist
  | false =>
    simp only [Bool.false_eq_true, if_false] at hsubscribed hpending
    refine ⟨fun hmem => ?_, fun senders hsenders hlist => ?_⟩
    · rw [hsubscribed] at hmem
      rw [hpending]
      exact h.pending ((Finmap.mem_insert.mp hmem).resolve_left hne)
    · rw [hpending] at hsenders
      rw [hsubscribed]
      exact Finmap.mem_insert.mpr (Or.inr (h.subscribed senders hsenders hlist))

/-- After a successful closure the symbol matches if it was not subscribed again, after a failed
one if it has kept its list. -/
theorem matched_unsubscribe_iff (s : SubClient) (i : ℕ) (symbol : String) (book : ℕ) (ok : Bool) :
    (s.unsubscribe i symbol book ok).Matched symbol ↔
      if ok then symbol ∉ s.subscribed else symbol ∈ s.pending := by
  obtain ⟨hsubscribed, hpending⟩ := maps_unsubscribe s i symbol book ok
  cases ok with
  | true =>
    simp only [if_true] at hsubscribed hpending ⊢
    have hnone : symbol ∉ (s.unsubscribe i symbol book true).pending := by
      rw [hpending]
      exact fun hmem => (Finmap.mem_erase.mp hmem).1 rfl
    refine ⟨fun h hmem => hnone (h.pending (hsubscribed ▸ hmem)), fun h => ?_⟩
    exact matched_of_notMem (hsubscribed ▸ h) hnone
  | false =>
    simp only [Bool.false_eq_true, if_false] at hsubscribed hpending ⊢
    have hback : symbol ∈ (s.unsubscribe i symbol book false).subscribed := by
      rw [hsubscribed]
      exact Finmap.mem_insert.mpr (Or.inl rfl)
    refine ⟨fun h => hpending ▸ h.pending hback, fun h => ?_⟩
    exact matched_of_mem hback (hpending ▸ h)

/-- An unwatch call whose closure completes keeps the maps matched exactly if another unwatch call
of the symbol is running, or the symbol matches. -/
theorem unsubscribe_matched_iff (h : s.MapsMatched) {book : ℕ}
    (hcall : s.calls i = .unsubscribing symbol book) (ok : Bool) :
    (s.unsubscribe i symbol book ok).MapsMatched ↔
      (∃ j ≠ i, ∃ other, s.calls j = .unsubscribing symbol other) ∨
        if ok then symbol ∉ s.subscribed else symbol ∈ s.pending := by
  obtain ⟨phase, hphase, hcalls, haborted⟩ := calls_unsubscribe s i symbol book ok
  have hsame : (s.unsubscribe i symbol book ok).Unwatching symbol ↔
      ∃ j ≠ i, ∃ other, s.calls j = .unsubscribing symbol other := by
    constructor
    · rintro ⟨j, other, hj⟩
      have hne : j ≠ i := by
        rintro rfl
        rw [hcalls, Function.update_self] at hj
        exact hphase (by rw [hj]; trivial)
      rw [hcalls, Function.update_of_ne hne] at hj
      exact ⟨j, hne, other, hj⟩
    · rintro ⟨j, hne, other, hj⟩
      exact ⟨j, other, by rwa [hcalls, Function.update_of_ne hne]⟩
  have hother {other : String} (hne : other ≠ symbol)
      (hold : s.Unwatching other) : (s.unsubscribe i symbol book ok).Unwatching other := by
    obtain ⟨j, stored, hj⟩ := hold
    have hji : j ≠ i := by
      rintro rfl
      exact hne (Phase.unsubscribing.inj (hj.symm.trans hcall)).1
    exact ⟨j, stored, by rwa [hcalls, Function.update_of_ne hji]⟩
  rw [← matched_unsubscribe_iff s i symbol book ok, ← hsame]
  constructor
  · intro hmatched
    by_cases hrunning : (s.unsubscribe i symbol book ok).Unwatching symbol
    · exact Or.inl hrunning
    · exact Or.inr (hmatched.matched symbol hrunning)
  · refine fun hkept => ⟨haborted.trans h.aborted, fun other hrunning => ?_⟩
    by_cases heq : other = symbol
    · subst heq
      exact hkept.resolve_left hrunning
    · exact (h.matched other fun hold => hrunning (hother heq hold)).unsubscribe_of_ne heq i book ok

/-- An unwatch call that starts takes its symbol out of one map, and the symbol is exempt until
the call ends. -/
theorem MapsMatched.unwatch (h : s.MapsMatched) (hcall : s.calls i = .idle) (book : ℕ) :
    MapsMatched { s.setCall i (.unsubscribing symbol book) with
      subscribed := s.subscribed.erase symbol } := by
  have hi : ∀ other stored, s.calls i ≠ .unsubscribing other stored := by simp [hcall]
  refine h.mono h.aborted (fun _ hold => hold.of_update hi rfl) fun other hrunning hother => ?_
  have hne : other ≠ symbol := by
    rintro rfl
    exact hrunning ⟨i, book, Function.update_self ..⟩
  refine ⟨fun hmem => hother.pending (Finmap.mem_erase.mp hmem).2, fun senders hsenders hlist => ?_⟩
  exact Finmap.mem_erase.mpr ⟨hne, hother.subscribed senders hsenders hlist⟩

/-- A broadcast empties the list of a subscribed symbol. -/
theorem MapsMatched.broadcast (h : s.MapsMatched) (hsymbol : symbol ∈ s.subscribed)
    (senders : List ℕ) (book : ℕ) :
    MapsMatched { s.sendBook senders book with pending := s.pending.insert symbol [] } := by
  refine h.mono h.aborted (fun _ hold => hold) fun other _ hother => ?_
  by_cases heq : other = symbol
  · subst heq
    exact matched_of_mem hsymbol (Finmap.mem_insert.mpr (Or.inl rfl))
  · refine ⟨fun hmem => Finmap.mem_insert.mpr (Or.inr (hother.pending hmem)), ?_⟩
    intro list hlist hne
    rw [Finmap.lookup_insert_of_ne _ heq] at hlist
    exact hother.subscribed list hlist hne

/-- A lost connection clears both maps. -/
theorem MapsMatched.lose (h : s.MapsMatched) :
    MapsMatched (SubClient.onFail { s with ws := s.ws.disconnect }) := by
  refine ⟨h.aborted, fun other _ => ?_⟩
  exact matched_of_notMem Finmap.notMem_empty Finmap.notMem_empty

/-- A step keeps the maps matched exactly if it meets the condition. -/
theorem mapsMatched_step_iff (hsocket : s.Socket) (h : s.MapsMatched)
    (hstep : s.step action = some t) : t.MapsMatched ↔ s.KeepsMatched action := by
  unfold SubClient.step at hstep
  split at hstep
  · cases hstep
  obtain ⟨result, hadvance, rfl⟩ := Option.map_eq_some_iff.mp hstep
  have hentering : s.entering action = result.2 := by rw [entering, hadvance, Option.bind_some]
  have hconnects (hresult : s.Connects result) (haborted : result.1.aborted = s.aborted)
      (hno : ∀ i ok, action ≠ .unsubscribe i ok) :
      (result.2.elim result.1 fun call => result.1.join call.1 call.2).MapsMatched ↔
        s.KeepsMatched action := by
    rw [connects_matched_iff h hresult haborted, KeepsMatched, hentering]
    exact (and_iff_left fun i ok _ _ haction => absurd haction (hno i ok)).symm
  have hquiet (hmatched : result.1.MapsMatched) (hnext : result.2 = none)
      (hno : ∀ i ok, action ≠ .unsubscribe i ok) :
      (result.2.elim result.1 fun call => result.1.join call.1 call.2).MapsMatched ↔
        s.KeepsMatched action := by
    rw [KeepsMatched, hentering, hnext]
    exact iff_of_true hmatched ⟨by simp, fun i ok _ _ haction => absurd haction (hno i ok)⟩
  cases advances_of_advance hadvance with
  | watch hcall =>
    exact hconnects (connects_enter (by simp [hcall, Phase.InClosure]) _ _)
      (aborted_enter _ _ _ _) (by simp)
  | proceed hcall =>
    exact hconnects (connects_proceed (by simp [hcall, Phase.InClosure]) _ _ _)
      (aborted_proceed _ _ _ _ _) (by simp)
  | attempt hcall =>
    exact hconnects (connects_attempt hsocket hcall _) (aborted_enter _ _ _ _) (by simp)
  | resume hcall =>
    exact hconnects (connects_enter (by simp [hcall, Phase.InClosure]) _ _)
      (aborted_enter _ _ _ _) (by simp)
  | refuse hcall => exact hquiet (h.setCall (by simp [hcall]) _) rfl (by simp)
  | subscribe hcall => exact hquiet (h.subscribe hcall _) rfl (by simp)
  | receive hcall => exact hquiet (h.setCall (by simp [hcall]) _) rfl (by simp)
  | closed hcall => exact hquiet (h.setCall (by simp [hcall]) _) rfl (by simp)
  | absent hcall => exact hquiet (h.setCall (by simp [hcall]) _) rfl (by simp)
  | unwatch hcall => exact hquiet (h.unwatch hcall _) rfl (by simp)
  | broadcast hsymbol =>
    exact hquiet (h.broadcast (Finmap.mem_of_lookup_eq_some hsymbol) _ _) rfl (by simp)
  | lose => exact hquiet h.lose rfl (by simp)
  | @unsubscribe i ok symbol book hcall =>
    apply (unsubscribe_matched_iff h hcall ok).trans
    rw [KeepsMatched, hentering]
    refine ⟨fun hkept => ⟨by simp, fun j ok other stored haction hj => ?_⟩, fun hkept => ?_⟩
    · cases haction
      obtain ⟨rfl, rfl⟩ := Phase.unsubscribing.inj (hcall.symm.trans hj)
      exact hkept
    · exact hkept.2 i ok symbol book rfl hcall

/-- In every state of a run, no watch call has found a subscribed symbol without its list and the
maps match outside of unwatch calls, exactly if every step of the run keeps them matched. -/
theorem mapsMatched_iff (actions : List SubAction) :
    GuardedRun.StatesSatisfy step MapsMatched new actions ↔
      GuardedRun.StepsSatisfy step KeepsMatched new actions :=
  GuardedRun.statesSatisfy_iff_stepsSatisfy (I := Socket)
    (fun _ _ _ hsocket _ hstep => hsocket.step hstep)
    (fun _ _ _ hsocket h hstep => mapsMatched_step_iff hsocket h hstep) socket_new mapsMatched_new

/-- A watch call that subscribes a symbol again while its unwatch call is suspended loses its list
when that call goes on, and the next watch call stops the process. -/
theorem resubscribed_symbol_aborts : ∃ s t : SubClient,
    GuardedRun.exec step new [.watch 0 "BTC_USDT", .proceed 0 true, .attempt 0 true,
        .subscribe 0 true, .unwatch 1 "BTC_USDT", .watch 2 "BTC_USDT", .subscribe 2 true,
        .unsubscribe 1 true] = some s ∧
      s.calls 1 = .unwatched true ∧ "BTC_USDT" ∈ s.subscribed ∧ "BTC_USDT" ∉ s.pending ∧
        s.step (.watch 3 "BTC_USDT") = some t ∧ t.aborted = true := by
  have hrun : (GuardedRun.exec step new [.watch 0 "BTC_USDT", .proceed 0 true, .attempt 0 true,
      .subscribe 0 true, .unwatch 1 "BTC_USDT", .watch 2 "BTC_USDT", .subscribe 2 true,
      .unsubscribe 1 true]).map (fun s => (s.calls 1, s.subscribed.lookup "BTC_USDT",
        s.pending.lookup "BTC_USDT", (s.step (.watch 3 "BTC_USDT")).map SubClient.aborted)) =
      some (.unwatched true, some 1, none, some true) := by
    rfl
  obtain ⟨s, hexec, hresult⟩ := Option.map_eq_some_iff.mp hrun
  simp only [Prod.mk.injEq] at hresult
  obtain ⟨hunwatched, hsubscribed, hpending, hnext⟩ := hresult
  obtain ⟨t, ht, haborted⟩ := Option.map_eq_some_iff.mp hnext
  exact ⟨s, t, hexec, hunwatched, Finmap.mem_of_lookup_eq_some hsubscribed,
    Finmap.lookup_eq_none.mp hpending, ht, haborted⟩

end SubClient

end Arbexpert.Base
