import Arbexpert.Base.Socket

/-!
# Calls whose closures do not suspend

The closures of the exchanges build a text and never wait, so a call runs through its
closure without an interruption. Then a call changes the set of subscribed symbols in
one step, by the symbol with which it leaves its loop.
-/

namespace Arbexpert.Base

/-- The watch call that a connecting action runs. -/
def SubAction.watchCall : SubAction → Option ℕ
  | .watch i _ => some i
  | .proceed i _ => some i
  | .attempt i _ => some i
  | .resume i => some i
  | _ => none

namespace SubClient

/-- The subscribed symbols. -/
def symbols (s : SubClient) : Finset String := s.subscribed.keys

/-- A step of a call that runs through its closure; `ok` is the result of the closure. -/
def callStep (s : SubClient) (i : ℕ) (action : SubAction) (ok : Bool) : Option SubClient :=
  (s.step action).bind fun t =>
    match t.calls i with
    | .subscribing _ => t.step (.subscribe i ok)
    | .unsubscribing _ _ => t.step (.unsubscribe i ok)
    | _ => some t

/-- The watch call that leaves its loop in a step, with its symbol. -/
def entering (s : SubClient) (action : SubAction) : Option (ℕ × String) :=
  (s.advance action).bind Prod.snd

variable {s t : SubClient} {i : ℕ} {symbol : String} {action : SubAction} {ok : Bool}

/-- A symbol is subscribed when it is in the set. -/
theorem hasSymbol_iff : s.hasSymbol symbol = true ↔ symbol ∈ s.symbols := by
  rw [hasSymbol, decide_eq_true_iff, symbols, Finmap.mem_keys]

/-- A new sub-client has no symbol. -/
theorem symbols_new : new.symbols = ∅ := rfl

/-- Only the call that ran leaves its loop. -/
theorem enter_next {symbol other : String} {id j : ℕ}
    (h : (s.enter i symbol id).2 = some (j, other)) : j = i := by
  unfold SubClient.enter at h
  split at h
  · cases h
    rfl
  · split at h
    · cases h
    · split at h
      · cases h
        rfl
      · cases h

/-- A call that starts and leaves its loop at once enters its own symbol. -/
theorem entering_watch {other : String} {j : ℕ}
    (h : s.entering (.watch i symbol) = some (j, other)) : other = symbol := by
  obtain ⟨result, hadvance, hnext⟩ := Option.bind_eq_some_iff.mp h
  simp only [advance, Option.ite_none_right_eq_some, Option.some.injEq] at hadvance
  obtain ⟨_, rfl⟩ := hadvance
  unfold SubClient.enter at hnext
  split at hnext
  · cases hnext
    rfl
  · split at hnext
    · cases hnext
    · split at hnext
      · cases hnext
        rfl
      · cases hnext

/-- A connecting action connects, and only the call that it runs leaves its loop. -/
theorem connects_of_advances (h : s.Socket) {result : SubClient × Option (ℕ × String)}
    (hadvances : s.Advances action result) (hcall : action.watchCall = some i) :
    s.Connects result ∧ ¬(s.calls i).InClosure ∧
      ∀ j other, result.2 = some (j, other) → j = i := by
  cases hadvances with
  | @watch j symbol hidle =>
    cases hcall
    have hi : ¬(s.calls i).InClosure := by simp [hidle, Phase.InClosure]
    exact ⟨connects_enter hi _ _, hi, fun _ _ => enter_next⟩
  | @proceed j builds symbol id hlimited =>
    cases hcall
    have hi : ¬(s.calls i).InClosure := by simp [hlimited, Phase.InClosure]
    refine ⟨connects_proceed hi _ _ _, hi, fun k other hnext => ?_⟩
    simp only [SubClient.proceed] at hnext
    split at hnext
    · cases hnext
    · cases hnext
    · exact enter_next hnext
    · exact enter_next hnext
  | @attempt j succeeds symbol id hconnecting =>
    cases hcall
    have hi : ¬(s.calls i).InClosure := by simp [hconnecting, Phase.InClosure]
    exact ⟨connects_attempt h hconnecting _, hi, fun _ _ => enter_next⟩
  | @resume j symbol id hqueued =>
    cases hcall
    have hi : ¬(s.calls i).InClosure := by simp [hqueued, Phase.InClosure]
    exact ⟨connects_enter hi _ _, hi, fun _ _ => enter_next⟩
  | @refuse j symbol id hqueued =>
    cases hcall
    have hi : ¬(s.calls i).InClosure := by simp [hqueued, Phase.InClosure]
    exact ⟨connects_moved hi rfl False.elim rfl rfl fun _ h => h, hi, by simp⟩
  | _ => cases hcall

/-- Entering a symbol adds it to the set. -/
theorem symbols_join (s : SubClient) (i : ℕ) (symbol : String) :
    (s.join i symbol).symbols = insert symbol s.symbols := by
  simp only [SubClient.join]
  split
  · exact keys_insert _ _ _
  · rename_i book hbook
    have hmem : symbol ∈ s.symbols := Finmap.mem_keys.mpr (Finmap.mem_of_lookup_eq_some hbook)
    split
    · exact (Finset.insert_eq_of_mem hmem).symm
    · exact (Finset.insert_eq_of_mem hmem).symm

/-- A call that enters a new symbol goes into its closure. -/
theorem calls_join_of_notMem (hsymbol : symbol ∉ s.symbols) :
    (s.join i symbol).calls i = .subscribing symbol := by
  have hlookup : s.subscribed.lookup symbol = none := by
    rw [Finmap.lookup_eq_none]
    exact fun hmem => hsymbol (Finmap.mem_keys.mpr hmem)
  simp [SubClient.join, hlookup, SubClient.setCall]

/-- A call that joins a subscribed symbol goes into no closure. -/
theorem calls_join_of_mem (hi : ¬(s.calls i).InClosure) (hsymbol : symbol ∈ s.symbols) :
    ¬((s.join i symbol).calls i).InClosure := by
  obtain ⟨book, hbook⟩ := Finmap.mem_iff.mp (Finmap.mem_keys.mp hsymbol)
  simp only [SubClient.join, hbook]
  split
  · exact hi
  · simp [SubClient.setCall, Phase.InClosure]

/-- A frame that is sent leaves the maps alone. -/
theorem maps_send {frame : Frame} (hsend : s.send frame = some t) :
    t.subscribed = s.subscribed ∧ t.pending = s.pending := by
  unfold SubClient.send at hsend
  split at hsend
  · cases hsend
  · obtain ⟨ws, _, rfl⟩ := Option.map_eq_some_iff.mp hsend
    exact ⟨rfl, rfl⟩

/-- The closure of a watch call takes the symbol out of both maps exactly if it fails. -/
theorem maps_subscribe (s : SubClient) (i : ℕ) (symbol : String) (ok : Bool) :
    (s.subscribe i symbol ok).subscribed =
        (if ok then s.subscribed else s.subscribed.erase symbol) ∧
      (s.subscribe i symbol ok).pending = if ok then s.pending else s.pending.erase symbol := by
  unfold SubClient.subscribe
  cases ok with
  | true =>
    simp only [if_true]
    split
    · rename_i u hsend
      obtain ⟨hsubscribed, hpending⟩ := maps_send hsend
      exact ⟨hsubscribed, hpending⟩
    · exact ⟨rfl, rfl⟩
  | false => exact ⟨rfl, rfl⟩

/-- The closure of an unwatch call removes the pending list if it succeeds, and puts the
symbol back if it fails. -/
theorem maps_unsubscribe (s : SubClient) (i : ℕ) (symbol : String) (book : ℕ) (ok : Bool) :
    (s.unsubscribe i symbol book ok).subscribed =
        (if ok then s.subscribed else s.subscribed.insert symbol book) ∧
      (s.unsubscribe i symbol book ok).pending =
        if ok then s.pending.erase symbol else s.pending := by
  unfold SubClient.unsubscribe
  cases ok with
  | true =>
    simp only [if_true]
    split
    · rename_i u hsend
      obtain ⟨hsubscribed, hpending⟩ := maps_send hsend
      exact ⟨hsubscribed, hpending⟩
    · exact ⟨rfl, rfl⟩
  | false => exact ⟨rfl, rfl⟩

/-- The closure of a watch call keeps the symbol exactly if it succeeds. -/
theorem symbols_subscribe (s : SubClient) (i : ℕ) (symbol : String) (ok : Bool) :
    (s.subscribe i symbol ok).symbols = if ok then s.symbols else s.symbols.erase symbol := by
  rw [symbols, (maps_subscribe s i symbol ok).1]
  cases ok with
  | true => rfl
  | false => exact Finmap.keys_erase _ _

/-- The closure of an unwatch call puts the symbol back exactly if it fails. -/
theorem symbols_unsubscribe (s : SubClient) (i : ℕ) (symbol : String) (book : ℕ) (ok : Bool) :
    (s.unsubscribe i symbol book ok).symbols =
      if ok then s.symbols else insert symbol s.symbols := by
  rw [symbols, (maps_unsubscribe s i symbol book ok).1]
  cases ok with
  | true => rfl
  | false => exact keys_insert _ _ _

/-- A call that is in no closure has made its whole step. -/
theorem eq_of_notInClosure (hi : ¬(s.calls i).InClosure)
    (ht : (match s.calls i with
      | .subscribing _ => s.step (.subscribe i ok)
      | .unsubscribing _ _ => s.step (.unsubscribe i ok)
      | _ => some s) = some t) : t = s := by
  split at ht
  · rename_i hphase
    simp [hphase, Phase.InClosure] at hi
  · rename_i hphase
    simp [hphase, Phase.InClosure] at hi
  · cases ht
    rfl

/-- A step of a call keeps the socket with one holder. -/
theorem Socket.callStep (h : s.Socket) (hstep : s.callStep i action ok = some t) : t.Socket := by
  obtain ⟨u, hu, ht⟩ := Option.bind_eq_some_iff.mp hstep
  have hsocket := h.step hu
  split at ht
  · exact hsocket.step ht
  · exact hsocket.step ht
  · cases ht
    exact hsocket

/-- A step of a watch call leaves the maps alone, unless the call leaves its loop. Then it
joins a subscribed symbol, or enters a new one and runs through its closure. -/
theorem callStep_cases (h : s.Socket) (hcall : action.watchCall = some i)
    (hstep : s.callStep i action ok = some t) :
    (s.entering action = none ∧ t.subscribed = s.subscribed ∧ t.pending = s.pending) ∨
      ∃ (v : SubClient) (symbol : String), s.entering action = some (i, symbol) ∧
        v.subscribed = s.subscribed ∧ v.pending = s.pending ∧
          (symbol ∈ v.symbols ∧ t = v.join i symbol ∨
            symbol ∉ v.symbols ∧ t = (v.join i symbol).subscribe i symbol ok) := by
  obtain ⟨u, hu, ht⟩ := Option.bind_eq_some_iff.mp hstep
  unfold SubClient.step at hu
  split at hu
  · cases hu
  obtain ⟨⟨v, next⟩, hadvance, rfl⟩ := Option.map_eq_some_iff.mp hu
  obtain ⟨hconnects, hi, hnext⟩ := connects_of_advances h (advances_of_advance hadvance) hcall
  have hv : ¬(v.calls i).InClosure := fun hcontra => by
    rw [(hconnects.closures i _ hcontra).mp rfl] at hi
    exact hi hcontra
  have hentering : s.entering action = next := by rw [entering, hadvance, Option.bind_some]
  cases next with
  | none =>
    simp only [Option.elim_none] at ht
    rw [eq_of_notInClosure hv ht]
    exact Or.inl ⟨hentering, hconnects.subscribed, hconnects.pending⟩
  | some call =>
    obtain ⟨j, symbol⟩ := call
    obtain rfl := hnext j symbol rfl
    simp only [Option.elim_some] at ht
    refine Or.inr ⟨v, symbol, hentering, hconnects.subscribed, hconnects.pending, ?_⟩
    by_cases hmem : symbol ∈ v.symbols
    · exact Or.inl ⟨hmem, eq_of_notInClosure (calls_join_of_mem hv hmem) ht⟩
    · rw [calls_join_of_notMem hmem] at ht
      obtain ⟨result, hadvances, rfl⟩ := advances_of_step ht
      cases hadvances with
      | @subscribe _ _ other hphase =>
        obtain rfl := Phase.subscribing.inj ((calls_join_of_notMem hmem).symm.trans hphase)
        exact Or.inr ⟨hmem, rfl⟩

/-- A watch call changes the subscribed symbols only when it leaves its loop and its
closure succeeds; then it adds its symbol. -/
theorem callStep_symbols (h : s.Socket) (hcall : action.watchCall = some i)
    (hstep : s.callStep i action ok = some t) :
    t.symbols = (s.entering action).elim s.symbols fun call =>
      if ok then insert call.2 s.symbols else s.symbols := by
  rcases callStep_cases h hcall hstep with ⟨hentering, hsubscribed, _⟩ |
    ⟨v, symbol, hentering, hsubscribed, _, hjoined | hentered⟩
  · rw [hentering, Option.elim_none]
    exact congrArg Finmap.keys hsubscribed
  · obtain ⟨hmem, rfl⟩ := hjoined
    have hsymbols : v.symbols = s.symbols := congrArg Finmap.keys hsubscribed
    rw [hsymbols] at hmem
    rw [hentering, Option.elim_some, symbols_join, hsymbols, Finset.insert_eq_of_mem hmem,
      ite_self]
  · obtain ⟨hmem, rfl⟩ := hentered
    have hsymbols : v.symbols = s.symbols := congrArg Finmap.keys hsubscribed
    rw [hentering, Option.elim_some, symbols_subscribe, symbols_join, Finset.erase_insert hmem,
      hsymbols]

/-- An unwatch call leaves everything but its own phase alone when its symbol is absent;
otherwise it takes the symbol out and runs through its closure. -/
theorem callStep_unwatch_cases (hstep : s.callStep i (.unwatch i symbol) ok = some t) :
    (symbol ∉ s.symbols ∧ t = s.setCall i (.unwatched true)) ∨
      ∃ book, s.subscribed.lookup symbol = some book ∧
        t = SubClient.unsubscribe { s.setCall i (.unsubscribing symbol book) with
          subscribed := s.subscribed.erase symbol } i symbol book ok := by
  obtain ⟨u, hu, ht⟩ := Option.bind_eq_some_iff.mp hstep
  obtain ⟨result, hadvances, rfl⟩ := advances_of_step hu
  cases hadvances with
  | absent hidle hsymbol =>
    simp only [Option.elim_none, SubClient.setCall, Function.update_self, Option.some.injEq] at ht
    refine Or.inl ⟨fun hmem => ?_, ht.symm⟩
    exact Finmap.lookup_eq_none.mp hsymbol (Finmap.mem_keys.mp hmem)
  | @unwatch _ _ book hidle hsymbol =>
    simp only [Option.elim_none, SubClient.setCall, Function.update_self] at ht
    obtain ⟨result, hadvances, rfl⟩ := advances_of_step ht
    cases hadvances with
    | @unsubscribe _ _ other stored hphase =>
      obtain ⟨rfl, rfl⟩ := Phase.unsubscribing.inj ((Function.update_self ..).symm.trans hphase)
      exact Or.inr ⟨book, hsymbol, rfl⟩

/-- An unwatch call adds no symbol. -/
theorem callStep_unwatch_symbols (hstep : s.callStep i (.unwatch i symbol) ok = some t) :
    t.symbols ⊆ s.symbols := by
  rcases callStep_unwatch_cases hstep with ⟨_, rfl⟩ | ⟨book, hlookup, rfl⟩
  · exact Finset.Subset.refl _
  · have hmem : symbol ∈ s.symbols := Finmap.mem_keys.mpr (Finmap.mem_of_lookup_eq_some hlookup)
    have herase : SubClient.symbols { s.setCall i (.unsubscribing symbol book) with
        subscribed := s.subscribed.erase symbol } = s.symbols.erase symbol := Finmap.keys_erase _ _
    rw [symbols_unsubscribe]
    split
    · exact herase.trans_subset (Finset.erase_subset _ _)
    · refine (congrArg (insert symbol) herase).trans_subset ?_
      rw [Finset.insert_erase hmem]

/-- Receiving a book, sending one and losing the connection add no symbol. -/
theorem step_symbols (hstep : s.step action = some t) (hcall : action.watchCall = none)
    (hsubscribe : ∀ j ok, action ≠ .subscribe j ok)
    (hunsubscribe : ∀ j ok, action ≠ .unsubscribe j ok) : t.symbols ⊆ s.symbols := by
  obtain ⟨result, hadvances, rfl⟩ := advances_of_step hstep
  cases hadvances with
  | watch => cases hcall
  | proceed => cases hcall
  | attempt => cases hcall
  | resume => cases hcall
  | refuse => cases hcall
  | subscribe => exact absurd rfl (hsubscribe _ _)
  | unsubscribe => exact absurd rfl (hunsubscribe _ _)
  | unwatch => exact (Finmap.keys_erase _ _).trans_subset (Finset.erase_subset _ _)
  | lose => exact Finset.empty_subset _
  | _ => exact Finset.Subset.refl _

end SubClient

end Arbexpert.Base
