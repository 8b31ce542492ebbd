import Arbexpert.Mexc.Exchange

/-!
# Lost connections of the public client

A listed sub-client whose connection is lost stays in the list without a connection. As it has no
symbols then, it has room, so a new symbol is routed to it before any sub-client behind it. The
first watch call of the symbol fails, but leaves the symbol there; the second one waits for a book
that does not come, and borrows the exchange meanwhile.
-/

namespace Arbexpert.Mexc

open Base

namespace SubClient

variable {D : Type*} {s : SubClient D}

/-- A call has been sent a book, or its sender waits for one. -/
def Knows (s : SubClient D) (id : ℕ) : Prop :=
  (∃ book, (id, book) ∈ s.sent) ∨
    ∃ symbol callers, s.pending.lookup symbol = some callers ∧ id ∈ callers

/-- A watch call enters itself only. -/
theorem Keyed.knows_watch (h : s.Keyed) {symbol : String} {caller id : ℕ}
    (hknows : (s.watch symbol caller).Knows id) : s.Knows id ∨ id = caller := by
  obtain ⟨_, hpending, hsent, _⟩ := h.watch symbol caller
  rw [Knows, hpending, hsent] at hknows
  rcases hknows with hold | ⟨other, callers, hlookup, hmem⟩
  · exact .inl (.inl hold)
  · by_cases hother : other = symbol
    · rw [hother, Finmap.lookup_insert] at hlookup
      cases hlookup
      rcases List.mem_append.mp hmem with hold | hnew
      · cases hcallers : s.pending.lookup symbol with
        | none => simp [hcallers] at hold
        | some callers =>
          exact .inl (.inr ⟨symbol, callers, hcallers, by simpa [hcallers] using hold⟩)
      · exact .inr (List.mem_singleton.mp hnew)
    · rw [Finmap.lookup_insert_of_ne _ hother] at hlookup
      exact .inl (.inr ⟨other, callers, hlookup, hmem⟩)

/-- An unwatch call enters no call. -/
theorem knows_unwatch {symbol : String} {id : ℕ} (hknows : (s.unwatch symbol).Knows id) :
    s.Knows id := by
  unfold unwatch at hknows
  split at hknows
  · rcases hknows with hold | ⟨other, callers, hlookup, hmem⟩
    · exact .inl hold
    · have hother : other ≠ symbol := by
        rintro rfl
        simp at hlookup
      rw [Finmap.lookup_erase_ne hother] at hlookup
      exact .inr ⟨other, callers, hlookup, hmem⟩
  · exact hknows

/-- A lost connection enters no call. -/
theorem knows_onFail {id : ℕ} (hknows : s.onFail.Knows id) : s.Knows id := by
  rcases hknows with hold | ⟨symbol, callers, hlookup, _⟩
  · exact .inl hold
  · simp [onFail] at hlookup

/-- Putting a book back enters no call. -/
theorem knows_store {symbol : String} {oldId id : ℕ} {book : OrderBook D}
    (hknows : (s.store symbol oldId book).Knows id) : s.Knows id := by
  unfold store deliver at hknows
  split at hknows
  · exact hknows
  · dsimp only at hknows
    cases hcallers : s.pending.lookup symbol with
    | none =>
      rw [hcallers] at hknows
      exact hknows
    | some callers =>
      rw [hcallers] at hknows
      rcases hknows with ⟨sent, hsent⟩ | ⟨other, callers', hlookup, hmem⟩
      · rcases List.mem_append.mp hsent with hold | hnew
        · exact .inl ⟨sent, hold⟩
        · obtain ⟨caller, hcaller, heq⟩ := List.mem_map.mp hnew
          cases heq
          exact .inr ⟨symbol, callers, hcallers, hcaller⟩
      · by_cases hother : other = symbol
        · rw [hother, Finmap.lookup_insert] at hlookup
          cases hlookup
          cases hmem
        · rw [Finmap.lookup_insert_of_ne _ hother] at hlookup
          exact .inr ⟨other, callers', hlookup, hmem⟩

variable [LinearOrder D] [Zero D] [DecimalText D]

/-- A message enters no call. -/
theorem knows_handleBinary {data : Option PushDataV3ApiWrapper} {id : ℕ}
    (hknows : (s.handleBinary data).Knows id) : s.Knows id := by
  unfold handleBinary at hknows
  split at hknows
  · exact hknows
  split at hknows
  · dsimp only at hknows
    split at hknows
    · exact hknows
    · split at hknows
      · exact hknows
      · split at hknows
        · exact hknows
        · have hold := knows_store hknows
          exact hold
      · have hold := knows_store hknows
        exact hold
  · exact hknows

end SubClient

namespace MexcExchangePublic

variable {D : Type*}

/-- The calls that the sub-clients know were started. -/
structure Numbered (s : MexcExchangePublic D) : Prop where
  knows : ∀ c id, (s.store c).client.Knows id → id < s.calls
  call : ∀ call, s.borrowed = some call → call.id < s.calls

variable {s t : MexcExchangePublic D} {c : ℕ} {symbol : String}

/-- No call was started at the start. -/
theorem numbered_start : (start : MexcExchangePublic D).Numbered where
  knows := by
    rintro c id (⟨book, hbook⟩ | ⟨symbol, callers, hlookup, _⟩)
    · cases hbook
    · cases hlookup
  call := nofun

/-- Replacing a sub-client by one that knows no other calls. -/
theorem Numbered.setClient (h : s.Numbered) (c : ℕ) (connection : Connection D)
    (hknows : ∀ id, connection.client.Knows id → id < s.calls) :
    (s.setClient c connection).Numbered := by
  refine ⟨fun d id hd => ?_, h.call⟩
  by_cases hdc : d = c
  · refine hknows id ?_
    simpa [MexcExchangePublic.setClient, hdc] using hd
  · refine h.knows d id ?_
    simpa only [MexcExchangePublic.setClient, Function.update_of_ne hdc] using hd

/-- A call returns. -/
theorem Numbered.finish (h : s.Numbered) (id : ℕ) (result : Watched D) :
    (s.finish id result).Numbered :=
  ⟨h.knows, nofun⟩

/-- `watch` of a sub-client by a call that was started. -/
theorem Numbered.watchClient (h : s.Numbered) (hkeyed : (s.store c).client.Keyed) {id : ℕ}
    (hid : id < s.calls) (symbol : String) (listed : Bool) :
    (s.watchClient id c symbol listed).Numbered := by
  have hclient := h.setClient c { s.store c with client := (s.store c).client.watch symbol id }
    fun other hknows => (hkeyed.knows_watch hknows).elim (h.knows c other) fun heq => heq ▸ hid
  unfold MexcExchangePublic.watchClient
  dsimp only
  split
  · exact hclient.finish _ _
  · refine ⟨hclient.knows, fun call hcall => ?_⟩
    cases hcall
    exact hid

/-- `watch_orderbook` starts a call. -/
theorem Numbered.watchOrderbook (h : s.Numbered) (hkeyed : ∀ c, (s.store c).client.Keyed)
    (symbol : String) : (s.watchOrderbook symbol).Numbered := by
  have hnext : ({ s with calls := s.calls + 1 } : MexcExchangePublic D).Numbered :=
    ⟨fun c id hknows => (h.knows c id hknows).trans (Nat.lt_succ_self _),
      fun call hcall => (h.call call hcall).trans (Nat.lt_succ_self _)⟩
  unfold MexcExchangePublic.watchOrderbook
  dsimp only
  split
  · exact hnext.watchClient (hkeyed _) (Nat.lt_succ_self _) _ _
  · split
    · exact hnext.watchClient (hkeyed _) (Nat.lt_succ_self _) _ _
    · refine ⟨hnext.knows, fun call hcall => ?_⟩
      cases hcall
      exact Nat.lt_succ_self _

/-- `unwatch_orderbook` starts no call. -/
theorem Numbered.unwatchOrderbook (h : s.Numbered) (symbol : String) :
    (s.unwatchOrderbook symbol).Numbered := by
  unfold MexcExchangePublic.unwatchOrderbook
  split
  · exact h
  · split
    · exact h
    · rename_i c _
      have hclient := h.setClient c
        { s.store c with client := (s.store c).client.unwatch symbol }
        fun id hknows => h.knows c id (SubClient.knows_unwatch hknows)
      dsimp only
      split
      · exact ⟨hclient.knows, hclient.call⟩
      · exact hclient

/-- A call that returns starts no call. -/
theorem Numbered.poll (h : s.Numbered) {call : WatchCall} {listed : Bool}
    (hpoll : s.poll call listed = some t) : t.Numbered := by
  unfold MexcExchangePublic.poll at hpoll
  dsimp only at hpoll
  split at hpoll
  · cases hpoll
    split
    · exact h.finish _ _
    · exact ⟨h.knows, nofun⟩
  · split at hpoll
    · cases hpoll
    · cases hpoll
      exact h.finish _ _

/-- A listed sub-client whose connection is lost. -/
def Dead (s : MexcExchangePublic D) (c : ℕ) : Prop := c ∈ s.subClients ∧ (s.store c).live = false

/-- The connection of a sub-client and the books that it has sent stay as they are. -/
def Keeps (s t : MexcExchangePublic D) (d : ℕ) : Prop :=
  (t.store d).live = (s.store d).live ∧ (t.store d).client.sent = (s.store d).client.sent

/-- Replacing a sub-client by one with the same connection and books. -/
theorem keeps_setClient {connection : Connection D} {d : ℕ}
    (hsame : d = c → connection.live = (s.store c).live ∧
      connection.client.sent = (s.store c).client.sent) : s.Keeps (s.setClient c connection) d := by
  by_cases hdc : d = c
  · obtain ⟨hlive, hsent⟩ := hsame hdc
    constructor <;> simpa [MexcExchangePublic.setClient, hdc]
  · constructor <;> simp only [MexcExchangePublic.setClient, Function.update_of_ne hdc]

/-- `watch` of a sub-client leaves the list, the connections and the books as they are. -/
theorem keeps_watchClient (hkeyed : (s.store c).client.Keyed) (id : ℕ) (symbol : String)
    (listed : Bool) (d : ℕ) : s.Keeps (s.watchClient id c symbol listed) d ∧
      (s.watchClient id c symbol listed).subClients = s.subClients := by
  obtain ⟨_, _, hsent, _⟩ := (hkeyed.watch symbol id)
  have hclient : s.Keeps
      (s.setClient c { s.store c with client := (s.store c).client.watch symbol id }) d :=
    keeps_setClient fun _ => ⟨rfl, hsent⟩
  unfold watchClient
  dsimp only
  split
  · exact ⟨hclient, rfl⟩
  · exact ⟨hclient, rfl⟩

/-- `watch_orderbook` leaves the list, the connections and the books as they are. -/
theorem keeps_watchOrderbook (hkeyed : ∀ c, (s.store c).client.Keyed) (symbol : String) (d : ℕ) :
    s.Keeps (s.watchOrderbook symbol) d ∧
      (s.watchOrderbook symbol).subClients = s.subClients := by
  have hnext (c : ℕ) :=
    keeps_watchClient (s := { s with calls := s.calls + 1 }) (hkeyed c) s.calls symbol true d
  unfold watchOrderbook
  dsimp only
  split
  · exact hnext _
  · split
    · exact hnext _
    · exact ⟨⟨rfl, rfl⟩, rfl⟩

/-- `unwatch_orderbook` only removes a sub-client from the list whose connection is alive. -/
theorem Dead.unwatchOrderbook (hdead : s.Dead c) (hkeyed : ∀ c, (s.store c).client.Keyed)
    (symbol : String) : s.Keeps (s.unwatchOrderbook symbol) c ∧
      c ∈ (s.unwatchOrderbook symbol).subClients := by
  unfold MexcExchangePublic.unwatchOrderbook
  split
  · exact ⟨⟨rfl, rfl⟩, hdead.1⟩
  · rename_i pos _
    split
    · exact ⟨⟨rfl, rfl⟩, hdead.1⟩
    · rename_i d hd
      obtain ⟨_, _, hsent, _⟩ := (hkeyed d).unwatch symbol
      have hclient : s.Keeps
          (s.setClient d { s.store d with client := (s.store d).client.unwatch symbol }) c :=
        keeps_setClient fun _ => ⟨rfl, hsent⟩
      dsimp only
      split
      · rename_i hremoved
        refine ⟨hclient, ?_⟩
        have hne : d ≠ c := by
          rintro rfl
          simp [hdead.2] at hremoved
        obtain ⟨i, hi⟩ := List.mem_iff_getElem?.mp hdead.1
        refine List.mem_eraseIdx_iff_getElem?.mpr ⟨i, ?_, hi⟩
        rintro rfl
        exact hne (Option.some.inj (hd.symm.trans hi))
      · exact ⟨hclient, hdead.1⟩

/-- A call that returns leaves the connections and the books as they are, and may list its new
sub-client. -/
theorem keeps_poll {call : WatchCall} {listed : Bool} (hpoll : s.poll call listed = some t)
    (d : ℕ) : s.Keeps t d ∧ s.subClients ⊆ t.subClients := by
  unfold MexcExchangePublic.poll at hpoll
  dsimp only at hpoll
  split at hpoll
  · cases hpoll
    split
    · exact ⟨⟨rfl, rfl⟩, List.Subset.refl _⟩
    · exact ⟨⟨rfl, rfl⟩, List.subset_append_left _ _⟩
  · split at hpoll
    · cases hpoll
    · cases hpoll
      exact ⟨⟨rfl, rfl⟩, List.Subset.refl _⟩

/-- A call waits for a book of a sub-client whose connection is lost. -/
structure Blocked (s : MexcExchangePublic D) (call : WatchCall) : Prop where
  borrowed : s.borrowed = some call
  waiting : call.stage = .waiting true
  dead : (s.store call.client).live = false
  unanswered : ∀ book, (call.id, book) ∉ (s.store call.client).client.sent
  pending : call.id ∈ ((s.store call.client).client.pending.lookup call.symbol).getD []

/-- The first watch call of a symbol at a dead sub-client fails, and leaves the symbol there. -/
theorem Sound.first_watch (h : s.Sound) (hnew : ∀ d ∈ s.subClients, s.hasSymbol symbol d = false)
    (hchosen : s.subClients.find? (fun d => s.subscribedCount d < 35) = some c)
    (hdead : (s.store c).live = false) :
    (s.watchOrderbook symbol).returned = s.returned ++ [(s.calls, .error)] ∧
      (s.watchOrderbook symbol).borrowed = none ∧ (s.watchOrderbook symbol).calls = s.calls + 1 ∧
      (s.watchOrderbook symbol).subClients.find? ((s.watchOrderbook symbol).hasSymbol symbol) =
        some c := by
  have hlisted := List.mem_of_find?_eq_some hchosen
  have hfind : s.subClients.find? (s.hasSymbol symbol) = none :=
    List.find?_eq_none.mpr fun d hd => by simp [hnew d hd]
  have hnot : symbol ∉ (s.store c).client.subscribed := by
    simpa [hasSymbol] using hnew c hlisted
  have hwatch : s.watchOrderbook symbol = (({ s with calls := s.calls + 1 } :
      MexcExchangePublic D).setClient c
        { s.store c with client := (s.store c).client.watch symbol s.calls }).finish s.calls
        .error := by
    unfold MexcExchangePublic.watchOrderbook
    dsimp only
    split
    · rename_i d hd
      cases hfind.symm.trans hd
    · split
      · rename_i d hd
        cases hchosen.symm.trans hd
        exact if_pos ⟨hnot, hdead⟩
      · rename_i hd
        cases hchosen.symm.trans hd
  have hhas : ∀ d ∈ s.subClients, (s.watchOrderbook symbol).hasSymbol symbol d = true → d = c := by
    intro d hd hsymbol
    by_contra hne
    have hold : s.hasSymbol symbol d = true := by
      rw [hasSymbol_iff] at hsymbol ⊢
      rw [hwatch] at hsymbol
      simpa [symbols, MexcExchangePublic.finish, MexcExchangePublic.setClient, hne] using hsymbol
    simp [hnew d hd] at hold
  have hsymbol : (s.watchOrderbook symbol).hasSymbol symbol c = true := by
    obtain ⟨hkeys, _⟩ := (h.keyed c).watch symbol s.calls
    rw [hasSymbol_iff, hwatch]
    simp [symbols, MexcExchangePublic.finish, MexcExchangePublic.setClient, hkeys]
  have hlist : (s.watchOrderbook symbol).subClients = s.subClients := by
    rw [hwatch]
    rfl
  refine ⟨by rw [hwatch]; rfl, by rw [hwatch]; rfl, by rw [hwatch]; rfl, ?_⟩
  rw [hlist]
  cases hfound : s.subClients.find? ((s.watchOrderbook symbol).hasSymbol symbol) with
  | none => exact absurd hsymbol (List.find?_eq_none.mp hfound c hlisted)
  | some d => rw [hhas d (List.mem_of_find?_eq_some hfound) (List.find?_some hfound)]

/-- The next watch call of a symbol at a dead sub-client is blocked. -/
theorem Numbered.second_watch (h : s.Numbered) (hkeyed : (s.store c).client.Keyed)
    (hfind : s.subClients.find? (s.hasSymbol symbol) = some c) (hdead : (s.store c).live = false) :
    (s.watchOrderbook symbol).Blocked ⟨s.calls, c, symbol, .waiting true⟩ ∧
      (s.watchOrderbook symbol).returned = s.returned := by
  have hhas : symbol ∈ (s.store c).client.subscribed := by
    simpa [hasSymbol] using List.find?_some hfind
  have hwatch : s.watchOrderbook symbol = { ({ s with calls := s.calls + 1 } :
      MexcExchangePublic D).setClient c
        { s.store c with client := (s.store c).client.watch symbol s.calls } with
      borrowed := some ⟨s.calls, c, symbol, .waiting true⟩ } := by
    unfold MexcExchangePublic.watchOrderbook
    dsimp only
    split
    · rename_i d hd
      cases hfind.symm.trans hd
      exact if_neg fun hfirst => hfirst.1 hhas
    · rename_i hd
      cases hfind.symm.trans hd
  obtain ⟨_, hpending, hsent, _⟩ := hkeyed.watch symbol s.calls
  rw [hwatch]
  refine ⟨⟨rfl, rfl, ?_, fun book hmem => ?_, ?_⟩, rfl⟩
  · simpa [MexcExchangePublic.setClient] using hdead
  · have hold : (s.calls, book) ∈ (s.store c).client.sent := by
      simpa [MexcExchangePublic.setClient, hsent] using hmem
    exact lt_irrefl _ (h.knows c s.calls (.inl ⟨book, hold⟩))
  · simp [MexcExchangePublic.setClient, hpending]

variable [LinearOrder D] [Zero D] [DecimalText D] {action : PublicAction}

/-- Every step keeps the numbers of the calls. -/
theorem Numbered.step (h : s.Numbered) (hsound : s.Sound) (hstep : s.step action = some t) :
    t.Numbered := by
  unfold MexcExchangePublic.step at hstep
  split at hstep
  · cases hstep
  split at hstep
  case h_1 =>
    cases hstep
    exact h.watchOrderbook hsound.keyed _
  case h_2 =>
    cases hstep
    exact h.unwatchOrderbook _
  case h_3 ok id c symbol hborrowed =>
    split at hstep
    · cases hstep
      have hlive := h.setClient c { s.store c with live := true } (h.knows c)
      refine hlive.watchClient ?_ (h.call _ hborrowed) _ _
      simpa [MexcExchangePublic.setClient] using hsound.keyed c
    · cases hstep
      exact h.finish _ _
  case h_4 call hborrowed =>
    split at hstep
    · cases hstep
    · exact h.poll hstep
  case h_5 =>
    cases hstep
    exact ⟨h.knows, by simp⟩
  case h_6 c data =>
    obtain ⟨_, rfl⟩ := GuardedRun.of_enabled hstep
    exact h.setClient c _ fun id hknows => h.knows c id (SubClient.knows_handleBinary hknows)
  case h_7 c =>
    obtain ⟨_, rfl⟩ := GuardedRun.of_enabled hstep
    exact h.setClient c _ fun id hknows => h.knows c id (SubClient.knows_onFail hknows)
  case h_8 => cases hstep

/-- A dead sub-client stays dead and listed, and sends no book. -/
theorem Dead.step (hdead : s.Dead c) (h : s.Sound) (hstep : s.step action = some t) :
    t.Dead c ∧ (t.store c).client.sent = (s.store c).client.sent := by
  suffices hkeeps : s.Keeps t c ∧ c ∈ t.subClients from
    ⟨⟨hkeeps.2, hkeeps.1.1.trans hdead.2⟩, hkeeps.1.2⟩
  have hother (d : ℕ) (hd : (s.store d).live = true) : c ≠ d := by
    rintro rfl
    simp [hdead.2] at hd
  unfold MexcExchangePublic.step at hstep
  split at hstep
  · cases hstep
  split at hstep
  case h_1 symbol _ =>
    cases hstep
    obtain ⟨hkeeps, hlist⟩ := keeps_watchOrderbook h.keyed symbol c
    exact ⟨hkeeps, hlist ▸ hdead.1⟩
  case h_2 symbol _ =>
    cases hstep
    exact hdead.unwatchOrderbook h.keyed symbol
  case h_3 ok id d symbol hborrowed =>
    split at hstep
    · cases hstep
      obtain ⟨_, hlisted, _⟩ := h.owned _ hborrowed (by simp)
      have hne : c ≠ d := fun heq => hlisted (heq ▸ hdead.1)
      have hlive : s.Keeps (s.setClient d { s.store d with live := true }) c :=
        keeps_setClient fun heq => absurd heq hne
      have hkeyed : ((s.setClient d { s.store d with live := true }).store d).client.Keyed := by
        simpa [MexcExchangePublic.setClient] using h.keyed d
      obtain ⟨hkeeps, hlist⟩ := keeps_watchClient hkeyed id symbol false c
      exact ⟨⟨hkeeps.1.trans hlive.1, hkeeps.2.trans hlive.2⟩, hlist ▸ hdead.1⟩
    · cases hstep
      exact ⟨⟨rfl, rfl⟩, hdead.1⟩
  case h_4 call hborrowed =>
    split at hstep
    · cases hstep
    · obtain ⟨hkeeps, hlist⟩ := keeps_poll hstep c
      exact ⟨hkeeps, hlist hdead.1⟩
  case h_5 =>
    cases hstep
    exact ⟨⟨rfl, rfl⟩, hdead.1⟩
  case h_6 d data =>
    obtain ⟨hlive, rfl⟩ := GuardedRun.of_enabled hstep
    exact ⟨keeps_setClient fun heq => absurd heq (hother d hlive), hdead.1⟩
  case h_7 d =>
    obtain ⟨hlive, rfl⟩ := GuardedRun.of_enabled hstep
    exact ⟨keeps_setClient fun heq => absurd heq (hother d hlive), hdead.1⟩
  case h_8 => cases hstep

/-- A call that waits for such a book waits for ever, unless its caller drops it. -/
theorem Blocked.step {call : WatchCall} (hblocked : s.Blocked call) (hkept : action ≠ .drop)
    (hstep : s.step action = some t) : t.Blocked call ∧ t.returned = s.returned := by
  obtain ⟨hborrowed, hwaiting, hdead, hunanswered, hpending⟩ := hblocked
  have hclient {d : ℕ} (connection : Connection D) (hlive : (s.store d).live = true) :
      (s.setClient d connection).Blocked call ∧
        (s.setClient d connection).returned = s.returned := by
    have hne : call.client ≠ d := by
      rintro rfl
      simp [hdead] at hlive
    have hstore : (s.setClient d connection).store call.client = s.store call.client := by
      simp only [MexcExchangePublic.setClient, Function.update_of_ne hne]
    refine ⟨⟨hborrowed, hwaiting, ?_, ?_, ?_⟩, rfl⟩
    · rw [hstore, hdead]
    · rw [hstore]
      exact hunanswered
    · rw [hstore]
      exact hpending
  unfold MexcExchangePublic.step at hstep
  split at hstep
  · cases hstep
  rw [hborrowed] at hstep
  cases action with
  | watch => cases hstep
  | unwatch => cases hstep
  | drop => exact absurd rfl hkept
  | connect ok =>
    obtain ⟨id, c, symbol, stage⟩ := call
    cases hwaiting
    cases hstep
  | poll =>
    have hfind : (s.store call.client).client.sent.find? (fun sent => sent.1 = call.id) = none := by
      rw [List.find?_eq_none]
      rintro ⟨id, book⟩ hmem hid
      exact hunanswered book ((of_decide_eq_true hid : id = call.id) ▸ hmem)
    simp only [hwaiting, MexcExchangePublic.poll, hfind, if_pos hpending] at hstep
    cases hstep
  | message d data =>
    obtain ⟨hlive, rfl⟩ := GuardedRun.of_enabled hstep
    exact hclient _ hlive
  | fail d =>
    obtain ⟨hlive, rfl⟩ := GuardedRun.of_enabled hstep
    exact hclient _ hlive

/-- What holds of every public client. -/
theorem sound_of_reaches {s : MexcExchangePublic D}
    (hrun : GuardedRun.Reaches step (fun _ _ => True) start s) : s.Sound ∧ s.Numbered :=
  hrun.invariant (I := fun s => s.Sound ∧ s.Numbered) ⟨sound_start, numbered_start⟩
    fun _ _ _ h _ hstep => ⟨h.1.step hstep, h.2.step h.1 hstep⟩

/-- A listed sub-client whose connection is lost is never removed and never connected again, and no
call gets a book from it any more. -/
theorem dead_client_stays {s t : MexcExchangePublic D}
    (hrun : GuardedRun.Reaches step (fun _ _ => True) start s) {c : ℕ} (hdead : s.Dead c)
    (hmore : GuardedRun.Reaches step (fun _ _ => True) s t) :
    t.Dead c ∧ (t.store c).client.sent = (s.store c).client.sent := by
  refine (hmore.invariant (I := fun t => t.Sound ∧ t.Dead c ∧
    (t.store c).client.sent = (s.store c).client.sent) ?_ ?_).2
  · exact ⟨(sound_of_reaches hrun).1, hdead, rfl⟩
  · rintro u action v ⟨hsound, hdead, hsent⟩ _ hstep
    obtain ⟨hnext, hsame⟩ := hdead.step hsound hstep
    exact ⟨hsound.step hstep, hnext, hsame.trans hsent⟩

/-- When a new symbol is routed to a sub-client whose connection is lost, its first watch call
fails. The second one never returns and borrows the exchange, so that no other call can start, until
its caller drops it. -/
theorem dead_client_swallows {s : MexcExchangePublic D}
    (hrun : GuardedRun.Reaches step (fun _ _ => True) start s) (hrunning : s.aborted = false)
    (hidle : s.borrowed = none) {symbol : String} {c : ℕ}
    (hnew : ∀ d ∈ s.subClients, s.hasSymbol symbol d = false)
    (hchosen : s.subClients.find? (fun d => s.subscribedCount d < 35) = some c)
    (hdead : (s.store c).live = false) :
    ∃ t u, s.step (.watch symbol) = some t ∧ t.borrowed = none ∧
      t.returned = s.returned ++ [(s.calls, .error)] ∧ t.step (.watch symbol) = some u ∧
      ∀ v, GuardedRun.Reaches step (fun _ action => action ≠ .drop) u v →
        v.borrowed = some ⟨s.calls + 1, c, symbol, .waiting true⟩ ∧ v.returned = t.returned := by
  obtain ⟨hsound, hnumbered⟩ := sound_of_reaches hrun
  obtain ⟨hreturned, hfree, hcalls, hfind⟩ := hsound.first_watch hnew hchosen hdead
  have hfirst : s.step (.watch symbol) = some (s.watchOrderbook symbol) := by
    simp [step, hrunning, hidle]
  have hrunning' := hsound.watchOrderbook_running hrunning symbol
  have hsecond : (s.watchOrderbook symbol).step (.watch symbol) =
      some ((s.watchOrderbook symbol).watchOrderbook symbol) := by
    simp [step, hrunning', hfree]
  have hdead' : ((s.watchOrderbook symbol).store c).live = false :=
    (keeps_watchOrderbook hsound.keyed symbol c).1.1.trans hdead
  obtain ⟨hblocked, hsame⟩ := (hnumbered.watchOrderbook hsound.keyed symbol).second_watch
    ((hsound.watchOrderbook symbol).keyed c) hfind hdead'
  rw [hcalls] at hblocked
  refine ⟨_, _, hfirst, hfree, hreturned, hsecond, fun v hmore => ?_⟩
  obtain ⟨hlast, hresult⟩ := hmore.invariant (I := fun v =>
    v.Blocked ⟨s.calls + 1, c, symbol, .waiting true⟩ ∧
      v.returned = (s.watchOrderbook symbol).returned) ⟨hblocked, hsame⟩ (by
    rintro u action v ⟨hblocked, hsame⟩ hkept hstep
    obtain ⟨hnext, hreturned⟩ := hblocked.step hkept hstep
    exact ⟨hnext, hreturned.trans hsame⟩)
  exact ⟨hlast.borrowed, hresult⟩

/-- The public client after its first sub-client has lost its connection. -/
def lostOnce : MexcExchangePublic ℕ :=
  (GuardedRun.exec step start (watchNew 0 "BTCUSDT" ++ [.fail 0])).getD start

/-- It is a public client. -/
theorem reaches_lostOnce : GuardedRun.Reaches step (fun _ _ => True) start lostOnce :=
  have hrun : GuardedRun.exec step start (watchNew 0 "BTCUSDT" ++ [.fail 0]) = some lostOnce := rfl
  GuardedRun.reaches_of_exec (GuardedRun.stepsSatisfy_of_forall fun _ _ _ => trivial) hrun

/-- The sub-client stays when it is unwatched. -/
theorem lostOnce_stays : lostOnce.Dead 0 ∧
    ∃ t, lostOnce.step (.unwatch "BTCUSDT") = some t ∧ t.Dead 0 := by
  have hdead : lostOnce.Dead 0 := ⟨by decide, rfl⟩
  refine ⟨hdead, _, rfl, ?_⟩
  exact (dead_client_stays reaches_lostOnce hdead (.single ⟨.unwatch "BTCUSDT", trivial, rfl⟩)).1

/-- The second watch call of a new symbol blocks the exchange. -/
theorem lostOnce_swallows : ∃ t u, lostOnce.step (.watch "ETHUSDT") = some t ∧
    t.step (.watch "ETHUSDT") = some u ∧
    ∀ v, GuardedRun.Reaches step (fun _ action => action ≠ .drop) u v →
      v.borrowed = some ⟨2, 0, "ETHUSDT", .waiting true⟩ := by
  have hnew : ∀ d ∈ lostOnce.subClients, lostOnce.hasSymbol "ETHUSDT" d = false := by decide
  have hchosen : lostOnce.subClients.find? (fun d => lostOnce.subscribedCount d < 35) = some 0 := by
    decide
  obtain ⟨t, u, hfirst, _, _, hsecond, hblocked⟩ :=
    dead_client_swallows reaches_lostOnce rfl rfl hnew hchosen rfl
  exact ⟨t, u, hfirst, hsecond, fun v hmore => (hblocked v hmore).1⟩

end MexcExchangePublic

end Arbexpert.Mexc
