import Arbexpert.Foundation.BoundedFamily
import Arbexpert.Mexc.SubClient
import Mathlib.Data.Finmap

/-!
# Watch and unwatch calls of the public client

A watch call borrows the exchange until it returns, so there is one call at a time. It goes to the
first sub-client that has its symbol, else to the first one with fewer than 35 symbols, else to a
new one, which is only listed when the call has got its book. The sub-clients are not connected
again after their connections are lost, and they stay in the list.
-/

namespace Arbexpert.Mexc

open Base

/-- A sub-client and whether its session is alive. -/
structure Connection (D : Type*) where
  client : SubClient D
  live : Bool

/-- Where a call of `watch_orderbook` is suspended. -/
inductive WatchStage
  | connecting
  | waiting (listed : Bool)
  deriving DecidableEq

/-- A call of `watch_orderbook` that has not returned. -/
structure WatchCall where
  id : ℕ
  client : ℕ
  symbol : String
  stage : WatchStage
  deriving DecidableEq

/-- What a call of `watch_orderbook` returns. -/
inductive Watched (D : Type*)
  | book (book : OrderBook D)
  | error

/-- The public client: its sub-clients, the number of those that were made and of the calls that
were started, the call that borrows it, and what has been returned. -/
structure MexcExchangePublic (D : Type*) where
  subClients : List ℕ
  store : ℕ → Connection D
  created : ℕ
  calls : ℕ
  borrowed : Option WatchCall
  returned : List (ℕ × Watched D)
  aborted : Bool

/-- What can happen next. A caller may drop its call. -/
inductive PublicAction
  | watch (symbol : String)
  | unwatch (symbol : String)
  | connect (ok : Bool)
  | poll
  | drop
  | message (c : ℕ) (data : Option PushDataV3ApiWrapper)
  | fail (c : ℕ)

namespace MexcExchangePublic

variable {D : Type*}

/-- A public client without sub-clients. -/
def start : MexcExchangePublic D := ⟨[], fun _ => ⟨.new, false⟩, 0, 0, none, [], false⟩

/-- `has_symbol` of a sub-client. -/
def hasSymbol (s : MexcExchangePublic D) (symbol : String) (c : ℕ) : Bool :=
  symbol ∈ (s.store c).client.subscribed

/-- `subscribed_count` of a sub-client. -/
def subscribedCount (s : MexcExchangePublic D) (c : ℕ) : ℕ :=
  (s.store c).client.subscribed.keys.card

/-- Replace the state of a sub-client. -/
def setClient (s : MexcExchangePublic D) (c : ℕ) (connection : Connection D) :
    MexcExchangePublic D :=
  { s with
    store := Function.update s.store c connection
    aborted := s.aborted || connection.client.aborted }

/-- The call returns. -/
def finish (s : MexcExchangePublic D) (id : ℕ) (result : Watched D) : MexcExchangePublic D :=
  { s with
    borrowed := none
    returned := s.returned ++ [(id, result)] }

/-- `watch` of a sub-client up to its wait. A first call sends a message, which fails when the
session has ended. -/
def watchClient (s : MexcExchangePublic D) (id c : ℕ) (symbol : String) (listed : Bool) :
    MexcExchangePublic D :=
  let connection := s.store c
  let t := s.setClient c { connection with client := connection.client.watch symbol id }
  if symbol ∉ connection.client.subscribed ∧ connection.live = false then t.finish id .error
  else { t with borrowed := some ⟨id, c, symbol, .waiting listed⟩ }

/-- `watch_orderbook` with a normalised symbol up to its first suspension. -/
def watchOrderbook (s : MexcExchangePublic D) (symbol : String) : MexcExchangePublic D :=
  let id := s.calls
  let s := { s with calls := s.calls + 1 }
  match s.subClients.find? (s.hasSymbol symbol) with
  | some c => s.watchClient id c symbol true
  | none =>
    match s.subClients.find? fun c => s.subscribedCount c < 35 with
    | some c => s.watchClient id c symbol true
    | none =>
      { s with
        created := s.created + 1
        borrowed := some ⟨id, s.created, symbol, .connecting⟩ }

/-- `unwatch_orderbook` with a normalised symbol. When its message fails, the sub-client stays. -/
def unwatchOrderbook (s : MexcExchangePublic D) (symbol : String) : MexcExchangePublic D :=
  match s.subClients.findIdx? (s.hasSymbol symbol) with
  | none => s
  | some pos =>
    match s.subClients[pos]? with
    | none => s
    | some c =>
      let connection := s.store c
      let t := s.setClient c { connection with client := connection.client.unwatch symbol }
      if connection.live = true ∧ t.subscribedCount c = 0 then
        { t with subClients := t.subClients.eraseIdx pos }
      else t

/-- The call is polled: it returns the book that it was sent, or an error when its sender is
gone. -/
def poll (s : MexcExchangePublic D) (call : WatchCall) (listed : Bool) :
    Option (MexcExchangePublic D) :=
  let client := (s.store call.client).client
  match client.sent.find? fun sent => sent.1 = call.id with
  | some (_, book) =>
    let t := s.finish call.id (.book book)
    some (if listed then t else { t with subClients := t.subClients ++ [call.client] })
  | none =>
    if call.id ∈ (client.pending.lookup call.symbol).getD [] then none
    else some (s.finish call.id .error)

variable [LinearOrder D] [Zero D] [DecimalText D]

/-- One step; nothing happens after the process was aborted. -/
def step (s : MexcExchangePublic D) (action : PublicAction) : Option (MexcExchangePublic D) :=
  if s.aborted then none
  else
    match action, s.borrowed with
    | .watch symbol, none => some (s.watchOrderbook symbol)
    | .unwatch symbol, none => some (s.unwatchOrderbook symbol)
    | .connect ok, some ⟨id, c, symbol, .connecting⟩ =>
      if ok then
        some ((s.setClient c { s.store c with live := true }).watchClient id c symbol false)
      else some (s.finish id .error)
    | .poll, some call =>
      match call.stage with
      | .connecting => none
      | .waiting listed => s.poll call listed
    | .drop, some _ => some { s with borrowed := none }
    | .message c data, _ =>
      if (s.store c).live then
        some (s.setClient c { s.store c with client := (s.store c).client.handleBinary data })
      else none
    | .fail c, _ =>
      if (s.store c).live then some (s.setClient c ⟨(s.store c).client.onFail, false⟩) else none
    | _, _ => none

end MexcExchangePublic

namespace SubClient

variable {D : Type*}

/-- The symbols of a sub-client have watchers, so that the entry which a watch call unwraps
exists. -/
def Keyed (s : SubClient D) : Prop := s.pending.keys = s.subscribed.keys

variable {s : SubClient D}

/-- A new sub-client has no symbols. -/
theorem keyed_new : (SubClient.new : SubClient D).Keyed := rfl

/-- A sub-client that has lost its connection has no symbols. -/
theorem keyed_onFail : s.onFail.Keyed := rfl

/-- A watch call enters its symbol and its sender, and does not panic. -/
theorem Keyed.watch (h : s.Keyed) (symbol : String) (caller : ℕ) :
    (s.watch symbol caller).subscribed.keys = insert symbol s.subscribed.keys ∧
      (s.watch symbol caller).pending =
        s.pending.insert symbol ((s.pending.lookup symbol).getD [] ++ [caller]) ∧
      (s.watch symbol caller).sent = s.sent ∧ (s.watch symbol caller).aborted = s.aborted := by
  unfold SubClient.watch
  by_cases hmem : symbol ∈ s.subscribed
  · have hpending : symbol ∈ s.pending := by
      rw [← Finmap.mem_keys, h, Finmap.mem_keys]
      exact hmem
    obtain ⟨callers, hcallers⟩ := Finmap.mem_iff.mp hpending
    simp only [if_pos hmem, hcallers, Option.getD_some, and_true]
    exact (Finset.insert_eq_of_mem (Finmap.mem_keys.mpr hmem)).symm
  · simp only [if_neg hmem, Finmap.lookup_insert, Finmap.insert_insert, keys_insert, and_self]

/-- A watch call keeps the symbols with watchers. -/
theorem Keyed.watch_keyed (h : s.Keyed) (symbol : String) (caller : ℕ) :
    (s.watch symbol caller).Keyed := by
  obtain ⟨hkeys, hpending, _⟩ := h.watch symbol caller
  rw [Keyed, hkeys, hpending, keys_insert, h]

/-- An unwatch call removes its symbol. -/
theorem Keyed.unwatch (h : s.Keyed) (symbol : String) :
    (s.unwatch symbol).Keyed ∧
      (s.unwatch symbol).subscribed.keys = s.subscribed.keys.erase symbol ∧
      (s.unwatch symbol).sent = s.sent ∧ (s.unwatch symbol).aborted = s.aborted := by
  unfold SubClient.unwatch
  split
  · exact ⟨by rw [Keyed, Finmap.keys_erase, Finmap.keys_erase, h], Finmap.keys_erase _ _, rfl, rfl⟩
  · rename_i hmem
    exact ⟨h, (Finset.erase_eq_of_notMem (mt Finmap.mem_keys.mp hmem)).symm, rfl, rfl⟩

/-- Putting a book back leaves the symbols as they are. -/
theorem Keyed.store (h : s.Keyed) {symbol : String} (hsymbol : symbol ∈ s.subscribed) (oldId : ℕ)
    (book : OrderBook D) : (s.store symbol oldId book).Keyed ∧
      (s.store symbol oldId book).subscribed.keys = s.subscribed.keys ∧
      (s.store symbol oldId book).aborted = s.aborted := by
  have hkeys : (s.subscribed.insert symbol book).keys = s.subscribed.keys := by
    rw [keys_insert, Finset.insert_eq_of_mem (Finmap.mem_keys.mpr hsymbol)]
  have hput : ({ s with subscribed := s.subscribed.insert symbol book } : SubClient D).Keyed :=
    h.trans hkeys.symm
  unfold SubClient.store SubClient.deliver
  split
  · exact ⟨hput, hkeys, rfl⟩
  · dsimp only
    cases hcallers : s.pending.lookup symbol with
    | none => exact ⟨hput, hkeys, rfl⟩
    | some callers =>
      have hpending : symbol ∈ s.pending := Finmap.mem_iff.mpr ⟨callers, hcallers⟩
      refine ⟨?_, hkeys, rfl⟩
      rw [Keyed, keys_insert, Finset.insert_eq_of_mem (Finmap.mem_keys.mpr hpending)]
      exact hput

variable [LinearOrder D] [Zero D] [DecimalText D]

/-- A message leaves the symbols as they are, and only aborts the process when its batch has a text
that is not a decimal. -/
theorem Keyed.handleBinary (h : s.Keyed) (data : Option PushDataV3ApiWrapper) :
    (s.handleBinary data).Keyed ∧ (s.handleBinary data).subscribed.keys = s.subscribed.keys ∧
      ((s.handleBinary data).aborted = true → s.aborted = true ∨
        ∃ wrapper, data = some wrapper ∧ wrapper.CarriesBatch ∧ ¬wrapper.WellFormed D) := by
  have hsame : s.Keyed ∧ s.subscribed.keys = s.subscribed.keys ∧
      (s.aborted = true → s.aborted = true ∨
        ∃ wrapper, data = some wrapper ∧ wrapper.CarriesBatch ∧ ¬wrapper.WellFormed D) :=
    ⟨h, rfl, .inl⟩
  cases data with
  | none => exact hsame
  | some wrapper =>
    unfold SubClient.handleBinary
    dsimp only
    split
    · cases hbook : s.subscribed.lookup (channelSymbol wrapper.channel) with
      | none => exact hsame
      | some book =>
        have hsymbol : channelSymbol wrapper.channel ∈ s.subscribed :=
          Finmap.mem_iff.mpr ⟨book, hbook⟩
        have hkeys (other : OrderBook D) :
            (s.subscribed.insert (channelSymbol wrapper.channel) other).keys =
              s.subscribed.keys := by
          rw [keys_insert, Finset.insert_eq_of_mem (Finmap.mem_keys.mpr hsymbol)]
        have htaken : ({ s with
            subscribed := s.subscribed.insert (channelSymbol wrapper.channel) OrderBook.empty } :
            SubClient D).Keyed := h.trans (hkeys _).symm
        have hmem : channelSymbol wrapper.channel ∈
            s.subscribed.insert (channelSymbol wrapper.channel) OrderBook.empty :=
          Finmap.mem_insert.mpr (.inl rfl)
        have hstored (other : OrderBook D) := htaken.store hmem book.updateId other
        dsimp only
        split
        · exact ⟨htaken, hkeys _, .inl⟩
        · rename_i items hbody
          split
          · rename_i happly
            refine ⟨htaken, hkeys _, fun _ => .inr ⟨wrapper, rfl, ⟨items, hbody⟩, ?_⟩⟩
            rintro ⟨_, hother, hreadable⟩
            cases hbody.symm.trans hother
            have hsome : (applyItems book items).isSome := applyItems_isSome_iff.mpr hreadable
            simp [happly] at hsome
          · rename_i book' happly
            obtain ⟨hkeyed, hsymbols, haborted⟩ := hstored book'
            exact ⟨hkeyed, hsymbols.trans (hkeys _), fun habort => .inl (haborted ▸ habort)⟩
        · obtain ⟨hkeyed, hsymbols, haborted⟩ := hstored book
          exact ⟨hkeyed, hsymbols.trans (hkeys _), fun habort => .inl (haborted ▸ habort)⟩
    · exact hsame

end SubClient

namespace MexcExchangePublic

variable {D : Type*}

/-- The symbols of a sub-client. -/
def symbols (s : MexcExchangePublic D) (c : ℕ) : Finset String :=
  (s.store c).client.subscribed.keys

/-- No sub-client has more than 35 symbols, and listed ones share no symbol. The new sub-client of a
call that has not returned only has the symbol of the call, which no listed one has. -/
structure Sound (s : MexcExchangePublic D) : Prop where
  keyed : ∀ c, (s.store c).client.Keyed
  running : ∀ c, (s.store c).client.aborted = true → s.aborted = true
  bounded : BoundedFamily.IsBounded 35 s.subClients s.symbols
  made : ∀ c ∈ s.subClients, c < s.created
  fresh : ∀ c, s.created ≤ c → s.store c = ⟨.new, false⟩
  owned : ∀ call, s.borrowed = some call → call.stage ≠ .waiting true →
    call.client < s.created ∧ call.client ∉ s.subClients ∧ s.symbols call.client ⊆ {call.symbol} ∧
      ∀ d ∈ s.subClients, call.symbol ∉ s.symbols d

variable {s t : MexcExchangePublic D} {c : ℕ} {symbol : String}

/-- A sub-client has its symbols. -/
theorem hasSymbol_iff : s.hasSymbol symbol c = true ↔ symbol ∈ s.symbols c := by
  rw [symbols, Finmap.mem_keys, hasSymbol, decide_eq_true_iff]

/-- There are no sub-clients at the start. -/
theorem sound_start : (start : MexcExchangePublic D).Sound where
  keyed _ := SubClient.keyed_new
  running := nofun
  bounded := BoundedFamily.isBounded_empty
  made := nofun
  fresh _ _ := rfl
  owned := nofun

/-- Replacing a sub-client replaces its symbols. -/
theorem symbols_setClient (s : MexcExchangePublic D) (c : ℕ) (connection : Connection D) :
    (s.setClient c connection).symbols =
      Function.update s.symbols c connection.client.subscribed.keys := by
  funext d
  exact Function.apply_update (fun _ connection => connection.client.subscribed.keys) s.store c
    connection d

/-- The process is aborted by a sub-client that panics. -/
@[simp] theorem aborted_setClient (s : MexcExchangePublic D) (c : ℕ) (connection : Connection D) :
    (s.setClient c connection).aborted = (s.aborted || connection.client.aborted) :=
  rfl

/-- A panic of a sub-client aborts the process. -/
theorem Sound.running_setClient (h : s.Sound) (c : ℕ) (connection : Connection D) :
    ∀ d, ((s.setClient c connection).store d).client.aborted = true →
      (s.setClient c connection).aborted = true := by
  intro d haborted
  by_cases hdc : d = c
  · have hclient : connection.client.aborted = true := by
      simpa [MexcExchangePublic.setClient, hdc] using haborted
    simp [hclient]
  · have hother : (s.store d).client.aborted = true := by
      simpa only [MexcExchangePublic.setClient, Function.update_of_ne hdc] using haborted
    simp [h.running d hother]

/-- A sub-client that was made may lose symbols. -/
theorem Sound.setClient (h : s.Sound) (connection : Connection D) (hc : c < s.created)
    (hkeyed : connection.client.Keyed)
    (hsub : connection.client.subscribed.keys ⊆ s.symbols c) :
    (s.setClient c connection).Sound := by
  have hsymbols : ∀ d, (s.setClient c connection).symbols d ⊆ s.symbols d := by
    intro d
    rw [symbols_setClient]
    by_cases hdc : d = c
    · subst hdc
      rwa [Function.update_self]
    · rw [Function.update_of_ne hdc]
  refine ⟨fun d => ?_, h.running_setClient c connection,
    h.bounded.mono (List.Subset.refl _) hsymbols, h.made, fun d hd => ?_,
    fun call hcall hstage => ?_⟩
  · by_cases hdc : d = c
    · simpa [MexcExchangePublic.setClient, hdc] using hkeyed
    · simpa only [MexcExchangePublic.setClient, Function.update_of_ne hdc] using h.keyed d
  · have hdc : d ≠ c := by
      rintro rfl
      exact absurd hc (not_lt.mpr hd)
    simpa only [MexcExchangePublic.setClient, Function.update_of_ne hdc] using h.fresh d hd
  · obtain ⟨hmade, hlisted, honly, hother⟩ := h.owned call hcall hstage
    exact ⟨hmade, hlisted, (hsymbols _).trans honly, fun d hd hmem => hother d hd (hsymbols d hmem)⟩

/-- A watch call enters its symbol at a sub-client that has it, or has room for it. -/
theorem Sound.enter (h : s.Sound) (hc : c < s.created) (hroom : symbol ∈ s.symbols c ∨
      (s.symbols c).card < 35 ∧ (c ∈ s.subClients → ∀ d ∈ s.subClients, symbol ∉ s.symbols d))
    (id : ℕ) {borrowed : Option WatchCall} {returned : List (ℕ × Watched D)}
    (howned : ∀ call, borrowed = some call → call.stage ≠ .waiting true →
      call.client = c ∧ call.symbol = symbol ∧ c ∉ s.subClients ∧ s.symbols c ⊆ {symbol} ∧
        ∀ d ∈ s.subClients, symbol ∉ s.symbols d) :
    ({ s.setClient c { s.store c with client := (s.store c).client.watch symbol id } with
      borrowed := borrowed
      returned := returned } : MexcExchangePublic D).Sound := by
  obtain ⟨hkeys, _⟩ := (h.keyed c).watch symbol id
  have hsymbols := symbols_setClient s c
    { s.store c with client := (s.store c).client.watch symbol id }
  rw [hkeys] at hsymbols
  constructor
  case keyed =>
    intro d
    by_cases hdc : d = c
    · simpa [MexcExchangePublic.setClient, hdc] using (h.keyed c).watch_keyed symbol id
    · simpa only [MexcExchangePublic.setClient, Function.update_of_ne hdc] using h.keyed d
  case running => exact h.running_setClient c _
  case bounded =>
    change BoundedFamily.IsBounded 35 s.subClients (s.setClient c _).symbols
    rw [hsymbols]
    by_cases hmem : symbol ∈ s.symbols c
    · rw [← symbols, BoundedFamily.update_insert_of_mem s.symbols hmem]
      exact h.bounded
    · exact (h.bounded.insert_iff hmem).mpr (hroom.resolve_left hmem)
  case made => exact h.made
  case fresh =>
    intro d hd
    have hdc : d ≠ c := by
      rintro rfl
      exact absurd hc (not_lt.mpr hd)
    simpa only [MexcExchangePublic.setClient, Function.update_of_ne hdc] using h.fresh d hd
  case owned =>
    intro call hcall hstage
    obtain ⟨rfl, rfl, hlisted, honly, hother⟩ := howned call hcall hstage
    change _ ∧ _ ∧ (s.setClient call.client _).symbols call.client ⊆ _ ∧
      ∀ d ∈ s.subClients, call.symbol ∉ (s.setClient call.client _).symbols d
    rw [hsymbols]
    refine ⟨hc, hlisted, ?_, fun d hd => ?_⟩
    · rw [Function.update_self]
      exact Finset.insert_subset (Finset.mem_singleton_self _) honly
    · have hdc : d ≠ call.client := fun heq => hlisted (heq ▸ hd)
      rw [Function.update_of_ne hdc]
      exact hother d hd

/-- `watch` of a listed sub-client. -/
theorem Sound.watchClient_listed (h : s.Sound) (hc : c ∈ s.subClients)
    (hroom : symbol ∈ s.symbols c ∨
      (s.symbols c).card < 35 ∧ ∀ d ∈ s.subClients, symbol ∉ s.symbols d) (id : ℕ) :
    (s.watchClient id c symbol true).Sound := by
  have hroom' : symbol ∈ s.symbols c ∨ (s.symbols c).card < 35 ∧
      (c ∈ s.subClients → ∀ d ∈ s.subClients, symbol ∉ s.symbols d) :=
    hroom.imp_right fun hroom => ⟨hroom.1, fun _ => hroom.2⟩
  unfold watchClient
  dsimp only
  split
  · exact h.enter (h.made c hc) hroom' id nofun
  · refine h.enter (h.made c hc) hroom' id fun call hcall hstage => ?_
    cases hcall
    exact absurd rfl hstage

/-- `watch` of the new sub-client of a call, which is connected. -/
theorem Sound.watchClient_owned (h : s.Sound) (call : WatchCall)
    (hcall : s.borrowed = some call) (hstage : call.stage = .connecting) :
    (s.watchClient call.id call.client call.symbol false).Sound := by
  obtain ⟨hmade, hlisted, honly, hother⟩ := h.owned call hcall (by simp [hstage])
  have hcard : (s.symbols call.client).card < 35 :=
    (Finset.card_le_card honly).trans_lt (by simp)
  have hroom : call.symbol ∈ s.symbols call.client ∨ (s.symbols call.client).card < 35 ∧
      (call.client ∈ s.subClients → ∀ d ∈ s.subClients, call.symbol ∉ s.symbols d) :=
    .inr ⟨hcard, fun _ => hother⟩
  unfold watchClient
  dsimp only
  split
  · exact h.enter hmade hroom call.id nofun
  · refine h.enter hmade hroom call.id fun other hother' _ => ?_
    cases hother'
    exact ⟨rfl, rfl, hlisted, honly, hother⟩

/-- `watch_orderbook` chooses a sub-client that has the symbol or room for it. -/
theorem Sound.watchOrderbook (h : s.Sound) (symbol : String) :
    (s.watchOrderbook symbol).Sound := by
  have hnext : ({ s with calls := s.calls + 1 } : MexcExchangePublic D).Sound :=
    ⟨h.keyed, h.running, h.bounded, h.made, h.fresh, h.owned⟩
  unfold MexcExchangePublic.watchOrderbook
  dsimp only
  split
  · rename_i c hfind
    have hhas := hasSymbol_iff.mp (List.find?_some hfind)
    exact hnext.watchClient_listed (List.mem_of_find?_eq_some hfind) (.inl hhas) _
  · rename_i hfind
    have hnew : ∀ d ∈ s.subClients, symbol ∉ s.symbols d := fun d hd =>
      mt hasSymbol_iff.mpr (List.find?_eq_none.mp hfind d hd)
    split
    · rename_i c hroom
      have hcard : (s.symbols c).card < 35 := by
        have hdecide := List.find?_some hroom
        exact of_decide_eq_true hdecide
      exact hnext.watchClient_listed (List.mem_of_find?_eq_some hroom) (.inr ⟨hcard, hnew⟩) _
    · refine ⟨h.keyed, h.running, h.bounded, fun d hd => (h.made d hd).trans (Nat.lt_succ_self _),
        fun d hd => h.fresh d (Nat.le_of_succ_le hd), fun call hcall _ => ?_⟩
      cases hcall
      have hempty : s.symbols s.created = ∅ := by
        rw [symbols, h.fresh _ le_rfl]
        rfl
      refine ⟨Nat.lt_succ_self _, fun hmem => lt_irrefl _ (h.made _ hmem), ?_, hnew⟩
      exact hempty.subset.trans (Finset.empty_subset _)

/-- `unwatch_orderbook` removes a symbol, and a sub-client that has none left. -/
theorem Sound.unwatchOrderbook (h : s.Sound) (symbol : String) :
    (s.unwatchOrderbook symbol).Sound := by
  unfold MexcExchangePublic.unwatchOrderbook
  split
  · exact h
  · rename_i pos _
    split
    · exact h
    · rename_i c hc
      have hlisted := List.mem_of_getElem? hc
      obtain ⟨hkeyed, hkeys, _⟩ := (h.keyed c).unwatch symbol
      have hsub : ((s.store c).client.unwatch symbol).subscribed.keys ⊆ s.symbols c := by
        rw [hkeys]
        exact Finset.erase_subset _ _
      have hnext := h.setClient { s.store c with client := (s.store c).client.unwatch symbol }
        (h.made c hlisted) hkeyed hsub
      dsimp only
      split
      · have herase := List.eraseIdx_subset (l := s.subClients) (k := pos)
        refine ⟨hnext.keyed, hnext.running, hnext.bounded.mono herase fun _ => Finset.Subset.refl _,
          fun d hd => h.made d (herase hd), hnext.fresh, fun call hcall hstage => ?_⟩
        obtain ⟨hmade, hnot, honly, hother⟩ := hnext.owned call hcall hstage
        exact ⟨hmade, fun hmem => hnot (herase hmem), honly, fun d hd => hother d (herase hd)⟩
      · exact hnext

/-- A sub-client whose session is alive was made. -/
theorem Sound.made_of_live (h : s.Sound) (hlive : (s.store c).live = true) : c < s.created := by
  by_contra hfresh
  rw [h.fresh c (not_lt.mp hfresh)] at hlive
  cases hlive

/-- A call returns. -/
theorem Sound.finish (h : s.Sound) (id : ℕ) (result : Watched D) : (s.finish id result).Sound :=
  ⟨h.keyed, h.running, h.bounded, h.made, h.fresh, nofun⟩

/-- A call is polled: its new sub-client is listed when it returns a book. -/
theorem Sound.poll (h : s.Sound) {call : WatchCall} {listed : Bool} (hcall : s.borrowed = some call)
    (hstage : call.stage = .waiting listed) (hpoll : s.poll call listed = some t) : t.Sound := by
  unfold MexcExchangePublic.poll at hpoll
  dsimp only at hpoll
  split at hpoll
  · cases hpoll
    cases listed with
    | true => exact h.finish _ _
    | false =>
      obtain ⟨hmade, _, honly, hother⟩ := h.owned call hcall (by simp [hstage])
      have hdisjoint : ∀ d ∈ s.subClients, ∀ x ∈ s.symbols call.client, x ∉ s.symbols d := by
        intro d hd x hx
        rw [Finset.mem_singleton.mp (honly hx)]
        exact hother d hd
      refine ⟨h.keyed, h.running, h.bounded.append_of_disjoint hdisjoint, fun d hd => ?_, h.fresh,
        nofun⟩
      rcases List.mem_append.mp hd with hd | hd
      · exact h.made d hd
      · rw [List.mem_singleton.mp hd]
        exact hmade
  · split at hpoll
    · cases hpoll
    · cases hpoll
      exact h.finish _ _

/-- No sub-client has panicked while the process runs. -/
theorem Sound.client_running (h : s.Sound) (hrunning : s.aborted = false) (c : ℕ) :
    (s.store c).client.aborted = false := by
  by_contra haborted
  simp [h.running c (by simpa using haborted)] at hrunning

/-- `watch` of a sub-client does not panic. -/
theorem Sound.watchClient_running (h : s.Sound) (hrunning : s.aborted = false) (id c : ℕ)
    (symbol : String) (listed : Bool) : (s.watchClient id c symbol listed).aborted = false := by
  obtain ⟨_, _, _, hwatch⟩ := (h.keyed c).watch symbol id
  have hclient : (s.setClient c
      { s.store c with client := (s.store c).client.watch symbol id }).aborted = false := by
    rw [aborted_setClient, hrunning, hwatch, h.client_running hrunning]
    rfl
  unfold watchClient
  dsimp only
  split
  · exact hclient
  · exact hclient

/-- `watch_orderbook` does not panic. -/
theorem Sound.watchOrderbook_running (h : s.Sound) (hrunning : s.aborted = false)
    (symbol : String) : (s.watchOrderbook symbol).aborted = false := by
  have hnext : ({ s with calls := s.calls + 1 } : MexcExchangePublic D).Sound :=
    ⟨h.keyed, h.running, h.bounded, h.made, h.fresh, h.owned⟩
  unfold MexcExchangePublic.watchOrderbook
  dsimp only
  split
  · exact hnext.watchClient_running hrunning _ _ _ _
  · split
    · exact hnext.watchClient_running hrunning _ _ _ _
    · exact hrunning

/-- `unwatch_orderbook` does not panic. -/
theorem Sound.unwatchOrderbook_running (h : s.Sound) (hrunning : s.aborted = false)
    (symbol : String) : (s.unwatchOrderbook symbol).aborted = false := by
  unfold MexcExchangePublic.unwatchOrderbook
  split
  · exact hrunning
  · split
    · exact hrunning
    · rename_i c _
      obtain ⟨_, _, _, hunwatch⟩ := (h.keyed c).unwatch symbol
      have hclient : (s.setClient c
          { s.store c with client := (s.store c).client.unwatch symbol }).aborted = false := by
        rw [aborted_setClient, hrunning, hunwatch, h.client_running hrunning]
        rfl
      dsimp only
      split
      · exact hclient
      · exact hclient

/-- A call that returns does not panic. -/
theorem poll_running (hrunning : s.aborted = false) {call : WatchCall} {listed : Bool}
    (hpoll : s.poll call listed = some t) : t.aborted = false := by
  unfold MexcExchangePublic.poll at hpoll
  dsimp only at hpoll
  split at hpoll
  · cases hpoll
    split <;> exact hrunning
  · split at hpoll
    · cases hpoll
    · cases hpoll
      exact hrunning

variable [LinearOrder D] [Zero D] [DecimalText D] {action : PublicAction}

/-- Every step keeps the sub-clients sound. -/
theorem Sound.step (h : s.Sound) (hstep : s.step action = some t) : t.Sound := by
  unfold MexcExchangePublic.step at hstep
  split at hstep
  · cases hstep
  split at hstep
  case h_1 =>
    cases hstep
    exact h.watchOrderbook _
  case h_2 =>
    cases hstep
    exact h.unwatchOrderbook _
  case h_3 ok id c symbol hborrowed =>
    split at hstep
    · cases hstep
      obtain ⟨hmade, _⟩ := h.owned _ hborrowed (by simp)
      have hlive := h.setClient { s.store c with live := true } hmade (h.keyed c)
        (Finset.Subset.refl _)
      exact hlive.watchClient_owned ⟨id, c, symbol, .connecting⟩ hborrowed rfl
    · cases hstep
      exact h.finish _ _
  case h_4 call hborrowed =>
    split at hstep
    · cases hstep
    · rename_i listed hstage
      exact h.poll hborrowed hstage hstep
  case h_5 =>
    cases hstep
    exact ⟨h.keyed, h.running, h.bounded, h.made, h.fresh, nofun⟩
  case h_6 c data =>
    obtain ⟨hlive, rfl⟩ := GuardedRun.of_enabled hstep
    obtain ⟨hkeyed, hkeys, _⟩ := (h.keyed c).handleBinary data
    exact h.setClient _ (h.made_of_live hlive) hkeyed hkeys.subset
  case h_7 c =>
    obtain ⟨hlive, rfl⟩ := GuardedRun.of_enabled hstep
    exact h.setClient _ (h.made_of_live hlive) SubClient.keyed_onFail (Finset.empty_subset _)
  case h_8 => cases hstep

/-- Only a message with a batch that is not well-formed aborts the process. -/
theorem Sound.of_aborted (h : s.Sound) (hstep : s.step action = some t)
    (haborted : t.aborted = true) : ∃ c wrapper, action = .message c (some wrapper) ∧
      wrapper.CarriesBatch ∧ ¬wrapper.WellFormed D := by
  by_contra honly
  suffices hkept : t.aborted = false by simp [hkept] at haborted
  unfold MexcExchangePublic.step at hstep
  split at hstep
  · cases hstep
  rename_i hrunning
  rw [Bool.not_eq_true] at hrunning
  split at hstep
  case h_1 symbol _ =>
    cases hstep
    exact h.watchOrderbook_running hrunning symbol
  case h_2 symbol _ =>
    cases hstep
    exact h.unwatchOrderbook_running hrunning symbol
  case h_3 ok id c symbol hborrowed =>
    split at hstep
    · cases hstep
      obtain ⟨hmade, _⟩ := h.owned _ hborrowed (by simp)
      have hlive := h.setClient { s.store c with live := true } hmade (h.keyed c)
        (Finset.Subset.refl _)
      exact hlive.watchClient_running (by simp [hrunning, h.client_running hrunning]) _ _ _ _
    · cases hstep
      exact hrunning
  case h_4 call hborrowed =>
    split at hstep
    · cases hstep
    · exact poll_running hrunning hstep
  case h_5 =>
    cases hstep
    exact hrunning
  case h_6 c data =>
    obtain ⟨hlive, rfl⟩ := GuardedRun.of_enabled hstep
    obtain ⟨_, _, hpanic⟩ := (h.keyed c).handleBinary data
    have hclient : ((s.store c).client.handleBinary data).aborted = false := by
      by_contra haborted
      rcases hpanic (by simpa using haborted) with hold | ⟨wrapper, rfl, hbatch, hmalformed⟩
      · simp [h.client_running hrunning] at hold
      · exact honly ⟨c, wrapper, rfl, hbatch, hmalformed⟩
    simp [hrunning, hclient]
  case h_7 c =>
    obtain ⟨hlive, rfl⟩ := GuardedRun.of_enabled hstep
    simp [SubClient.onFail, h.client_running hrunning, hrunning]
  case h_8 => cases hstep

/-- Whatever happens, no sub-client has more than 35 symbols, no two listed ones share a symbol, and
calls do not panic: only a batch with a text that is not a decimal aborts the process. -/
theorem sub_clients_sound {s : MexcExchangePublic D}
    (hrun : GuardedRun.Reaches step (fun _ _ => True) start s) :
    (∀ c, s.subscribedCount c ≤ 35) ∧
      (∀ c ∈ s.subClients, ∀ d ∈ s.subClients, ∀ symbol, s.hasSymbol symbol c = true →
        s.hasSymbol symbol d = true → c = d) ∧
      ∀ action t, s.step action = some t → t.aborted = true → ∃ c wrapper,
        action = .message c (some wrapper) ∧ wrapper.CarriesBatch ∧ ¬wrapper.WellFormed D := by
  have hsound : s.Sound := hrun.invariant sound_start fun _ _ _ h _ hstep => h.step hstep
  refine ⟨hsound.bounded.card_le, fun c hc d hd symbol hcs hds => ?_, fun _ _ hstep =>
    hsound.of_aborted hstep⟩
  exact hsound.bounded.disjoint c hc d hd symbol (hasSymbol_iff.mp hcs) (hasSymbol_iff.mp hds)

/-- A watch call that connects the new sub-client `c` and gets a book. -/
def watchNew (c : ℕ) (symbol : String) : List PublicAction :=
  [.watch symbol, .connect true, .message c (some <| SubClient.depthPush symbol <|
    some (.publicIncreaseDepthsBatch [⟨[], [⟨"10", "5"⟩]⟩])), .poll]

/-- The symbol of one of many markets. -/
def coinSymbol (n : ℕ) : String := String.ofList [Char.ofNat (65 + n), 'U', 'S', 'D', 'T']

/-- The first sub-client is filled by calls that are dropped while they wait for their books. The
next call makes a second sub-client, which is left alone by a call for a symbol of the first. -/
def crowdedWatches : List PublicAction :=
  watchNew 0 (coinSymbol 0) ++
    (List.range 34).flatMap (fun n => [.watch (coinSymbol (n + 1)), .drop]) ++
    watchNew 1 (coinSymbol 35) ++ [.watch (coinSymbol 7), .drop]

/-- Both sub-clients are listed, the first with 35 symbols, and share no symbol. -/
theorem crowdedWatches_sound : ∃ s : MexcExchangePublic ℕ,
    GuardedRun.exec step start crowdedWatches = some s ∧ s.subClients = [0, 1] ∧
      s.returned.length = 2 ∧ s.subscribedCount 0 = 35 ∧ (∀ c, s.subscribedCount c ≤ 35) ∧
      ∀ symbol, s.hasSymbol symbol 0 = true → s.hasSymbol symbol 1 = false := by
  have hlast : (GuardedRun.exec step (start : MexcExchangePublic ℕ) crowdedWatches).map
      (fun s => (s.subClients, s.returned.length, s.subscribedCount 0)) = some ([0, 1], 2, 35) := by
    decide +kernel
  obtain ⟨s, hrun, hs⟩ := Option.map_eq_some_iff.mp hlast
  simp only [Prod.mk.injEq] at hs
  obtain ⟨hlisted, hreturned, hcount⟩ := hs
  have hsound := sub_clients_sound (GuardedRun.reaches_of_exec
    (GuardedRun.stepsSatisfy_of_forall fun _ _ _ => trivial) hrun)
  refine ⟨s, hrun, hlisted, hreturned, hcount, hsound.1, fun symbol hfirst => ?_⟩
  rw [Bool.eq_false_iff]
  intro hsecond
  have hsame := hsound.2.1 0 (by simp [hlisted]) 1 (by simp [hlisted]) symbol hfirst hsecond
  exact absurd hsame (by decide)

end MexcExchangePublic

end Arbexpert.Mexc
