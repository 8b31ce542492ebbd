import Arbexpert.Mexc.Private
import Arbexpert.Mexc.Push

/-!
# Pushes about orders

The handler of order pushes looks up the pair of a symbol and the list of the order catches
that listen to it, and an order catch that is dropped looks up the list again. Pairs are kept
for ever; the lists are cleared when the connection is lost. So a push aborts the process when
nobody has named or, since the last loss, caught its symbol, or when one of three texts is not
a decimal; and an order catch that survives its connection aborts it when it is dropped.
-/

namespace Arbexpert.Mexc

open Base

/-- An order catch that has not been dropped. -/
structure CatchHandle where
  symbol : String
  id : ℕ

/-- The exchange with its order catches, and the orders sent to them. The normalised symbols
that operations have named are recorded, and those caught since the connection was lost. -/
structure PrivateOrders (D : Type*) where
  exchange : MexcExchange
  catches : List CatchHandle
  sent : List (ℕ × Order D)
  named : List String
  caught : List String
  aborted : Bool

/-- What can happen next: a call that catches orders, another operation that names a symbol,
an order catch is dropped, a message, where `none` stands for bytes that are not decoded, or
the loss of the connection. -/
inductive OrdersAction
  | catchOrders (symbol : String) (surroundings : Surroundings)
  | normalize (symbol : String)
  | drop (i : ℕ)
  | push (data : Option PushDataV3ApiWrapper)
  | lose

/-- The channel of the order pushes. -/
def ordersChannel : String := "spot@private.orders.v3.api.pb"

/-- The message is on the channel of the order pushes. -/
def PushDataV3ApiWrapper.OnOrdersChannel (wrapper : PushDataV3ApiWrapper) : Prop :=
  ordersChannel.toList <+: wrapper.channel.toList

/-- Whether a message is an order push is computed. -/
instance (wrapper : PushDataV3ApiWrapper) : Decidable wrapper.OnOrdersChannel :=
  inferInstanceAs (Decidable (_ <+: _))

/-- The texts that have to be decimals are decimals. -/
def PrivateOrdersV3Api.Readable (D : Type*) [DecimalText D] (push : PrivateOrdersV3Api) : Prop :=
  (DecimalText.parse push.price : Option D).isSome ∧
    (DecimalText.parse push.remainQuantity : Option D).isSome ∧
      (DecimalText.parse push.cumulativeQuantity : Option D).isSome

/-- The status of an order. -/
def orderStatus (status : ℤ) : String :=
  if status = 1 then "open"
  else if status = 2 then "open"
  else if status = 3 then "filled"
  else if status = 4 then "canceled"
  else "unknown"

/-- The order of a push; `none` when a text is not a decimal that has to be one. -/
def PrivateOrdersV3Api.order {D : Type*} [DecimalText D] [Zero D] (push : PrivateOrdersV3Api)
    (symbol : String) : Option (Order D) :=
  (DecimalText.parse push.price).bind fun price =>
    (DecimalText.parse push.remainQuantity).bind fun filled =>
      (DecimalText.parse push.cumulativeQuantity).map fun remaning =>
        { id := push.id
          symbol
          side := if push.tradeType = 1 then "buy" else "sell"
          amount := (DecimalText.parse push.amount).getD 0
          price
          status := orderStatus push.status
          timestamp := 0
          filled
          remaning }

/-- The order of a push is read exactly if the texts are decimals. -/
theorem order_isSome_iff {D : Type*} [DecimalText D] [Zero D] {push : PrivateOrdersV3Api}
    (symbol : String) : (push.order symbol : Option (Order D)).isSome ↔ push.Readable D := by
  unfold PrivateOrdersV3Api.order PrivateOrdersV3Api.Readable
  cases (DecimalText.parse push.price : Option D) with
  | none => simp
  | some price => cases (DecimalText.parse push.remainQuantity : Option D) <;> simp

namespace MexcExchange

/-- The lists of the order catches. -/
def privatePending (s : MexcExchange) : HashMap String (List ℕ) :=
  s.client.elim ∅ Client.privatePending

/-- Set the lists of the order catches. -/
def setPending (s : MexcExchange) (pending : HashMap String (List ℕ)) : MexcExchange :=
  { s with client := s.client.map fun client => { client with privatePending := pending } }

/-- The lists that are set are those of the client, when there is one. -/
theorem privatePending_setPending {s : MexcExchange} {normalized : String} {ids : List ℕ}
    (hids : s.privatePending.lookup normalized = some ids) (pending : HashMap String (List ℕ)) :
    (s.setPending pending).privatePending = pending := by
  unfold privatePending at hids
  cases hclient : s.client with
  | none => simp [hclient] at hids
  | some client => simp [privatePending, setPending, hclient]

/-- The lists are cleared when the connection is lost. -/
theorem privatePending_lose (s : MexcExchange) : s.lose.privatePending = ∅ := by
  cases hclient : s.client <;> simp [privatePending, lose, hclient]

/-- The pairs and the lists of the order catches are as before. -/
def KeepsMaps (s t : MexcExchange) : Prop :=
  t.pairs = s.pairs ∧ t.privatePending = s.privatePending

variable {toUppercase : String → String} {s t : MexcExchange} {surroundings : Surroundings}

/-- A listen key changes no map. -/
theorem keepsMaps_createListenKey {answer : ListenKeyAnswer} {result : Except String String}
    (h : s.createListenKey answer = some (t, result)) : s.KeepsMaps t := by
  unfold createListenKey at h
  split at h
  · cases h
    exact ⟨rfl, rfl⟩
  · cases h
    exact ⟨rfl, rfl⟩
  · obtain ⟨client, hclient, hnext⟩ := Option.map_eq_some_iff.mp h
    split at hnext <;> cases hnext
    · exact ⟨rfl, rfl⟩
    · exact ⟨rfl, by simp [privatePending, hclient]⟩

/-- A new private connection changes no map. -/
theorem keepsMaps_initPrivateWs {result : Except String Unit}
    (h : s.initPrivateWs surroundings = some (t, result)) : s.KeepsMaps t := by
  obtain ⟨⟨u, created⟩, hu, hrest⟩ := Option.bind_eq_some_iff.mp h
  have hkeeps := keepsMaps_createListenKey hu
  cases created with
  | error error =>
    cases hrest
    exact hkeeps
  | ok listenKey =>
    obtain ⟨client, hclient, hnext⟩ := Option.map_eq_some_iff.mp hrest
    split at hnext <;> cases hnext
    · exact hkeeps
    · refine ⟨hkeeps.1, ?_⟩
      rw [← hkeeps.2]
      simp [privatePending, hclient]

/-- Ensuring the private connection changes no map. -/
theorem keepsMaps_ensurePrivateWs {result : Except String Unit}
    (h : s.ensurePrivateWs surroundings = some (t, result)) : s.KeepsMaps t := by
  unfold ensurePrivateWs at h
  split at h
  · cases h
    exact ⟨rfl, rfl⟩
  · obtain ⟨⟨u, opened⟩, hu, hnext⟩ := Option.map_eq_some_iff.mp h
    have hkeeps := keepsMaps_initPrivateWs hu
    cases opened <;> cases hnext <;> exact hkeeps

/-- Sending the subscription changes no list. -/
theorem privatePending_subscribePrivateOrders (client : Client) (sent : Except String Unit) :
    (s.subscribePrivateOrders client sent).1.pairs = s.pairs ∧
      (s.subscribePrivateOrders client sent).2.1.privatePending = client.privatePending := by
  unfold subscribePrivateOrders
  split
  · exact ⟨rfl, rfl⟩
  · refine ⟨rfl, ?_⟩
    unfold sendPrivate
    split <;> rfl

/-- A call that catches orders changes no map, or it adds a pair and a listener of its symbol. -/
theorem catchOrders_cases {symbol : String} {result : Except String ℕ}
    (h : s.catchOrders toUppercase symbol surroundings = some (t, result)) :
    (∃ error, result = .error error ∧ s.KeepsMaps t) ∨ ∃ id, result = .ok id ∧
      let normalized := normalizeSymbol toUppercase symbol
      t.pairs = s.pairs.insert normalized symbol ∧
      t.privatePending = s.privatePending.insert normalized
        ((s.privatePending.lookup normalized).getD [] ++ [id]) := by
  obtain ⟨⟨u, ensured⟩, hu, hrest⟩ := Option.bind_eq_some_iff.mp h
  have hkeeps := keepsMaps_ensurePrivateWs hu
  cases ensured with
  | error error =>
    cases hrest
    exact Or.inl ⟨error, rfl, hkeeps⟩
  | ok ok =>
    obtain ⟨client, hclient, hnext⟩ := Option.map_eq_some_iff.mp hrest
    obtain ⟨hpairs, hpending⟩ :=
      privatePending_subscribePrivateOrders (s := u) client surroundings.send
    have hlists : client.privatePending = s.privatePending := by
      rw [← hkeeps.2, privatePending, hclient, Option.elim_some]
    generalize u.subscribePrivateOrders client surroundings.send = subscribed at *
    obtain ⟨v, client', outcome⟩ := subscribed
    cases outcome with
    | error error =>
      cases hnext
      exact Or.inl ⟨error, rfl, hpairs.trans hkeeps.1, hpending.trans hlists⟩
    | ok outcome =>
      cases hnext
      refine Or.inr ⟨_, rfl, ?_, ?_⟩
      · rw [← hkeeps.1, ← hpairs]
      · rw [← hlists, ← hpending]
        rfl

end MexcExchange

namespace PrivateOrders

variable {D : Type*}

/-- A new exchange, with or without credentials. -/
def start (apiKey : Option String) : PrivateOrders D :=
  ⟨apiKey.elim .new .withCredentials, [], [], [], [], false⟩

/-- Send an order to the order catches of its symbol, which stay in the list; abort when there
is no list. -/
def sendOrder (s : PrivateOrders D) (normalized : String) (order : Order D) : PrivateOrders D :=
  match s.exchange.privatePending.lookup normalized with
  | none => { s with aborted := true }
  | some ids => { s with sent := s.sent ++ ids.map fun id => (id, order) }

/-- Handle a message of the private connection. -/
def handlePush [DecimalText D] [Zero D] (s : PrivateOrders D)
    (data : Option PushDataV3ApiWrapper) : PrivateOrders D :=
  match data with
  | none => s
  | some wrapper =>
    match wrapper.symbol with
    | none => s
    | some normalized =>
      match s.exchange.pairs.lookup normalized with
      | none => { s with aborted := true }
      | some symbol =>
        if wrapper.OnOrdersChannel then
          match wrapper.body with
          | some (.privateOrders push) =>
            match push.order symbol with
            | none => { s with aborted := true }
            | some order => s.sendOrder normalized order
          | _ => s
        else s

/-- An order catch is dropped: its id is removed from the list of its symbol. -/
def dropCatch (toUppercase : String → String) (s : PrivateOrders D) (i : ℕ)
    (handle : CatchHandle) : PrivateOrders D :=
  let s := { s with catches := s.catches.eraseIdx i }
  let normalized := MexcExchange.normalizeSymbol toUppercase handle.symbol
  match s.exchange.privatePending.lookup normalized with
  | none => { s with aborted := true }
  | some ids =>
    { s with
      exchange := s.exchange.setPending
        (s.exchange.privatePending.insert normalized (ids.erase handle.id)) }

/-- A call that catches orders, up to its return. -/
def catchOrders (toUppercase : String → String) (s : PrivateOrders D) (symbol : String)
    (surroundings : Surroundings) : Option (PrivateOrders D) :=
  (s.exchange.catchOrders toUppercase symbol surroundings).map fun
    | (exchange, .error _) => { s with exchange }
    | (exchange, .ok id) =>
      { s with
        exchange
        catches := s.catches ++ [⟨symbol, id⟩]
        named := MexcExchange.normalizeSymbol toUppercase symbol :: s.named
        caught := MexcExchange.normalizeSymbol toUppercase symbol :: s.caught }

/-- An operation normalises a symbol and keeps the pair. -/
def normalize (toUppercase : String → String) (s : PrivateOrders D) (symbol : String) :
    PrivateOrders D :=
  let normalized := MexcExchange.normalizeSymbol toUppercase symbol
  { s with
    exchange := { s.exchange with pairs := s.exchange.pairs.insert normalized symbol }
    named := normalized :: s.named }

/-- One step; nothing happens after the process was aborted. A message comes while the session
of the private connection runs. -/
def step [DecimalText D] [Zero D] (toUppercase : String → String) (s : PrivateOrders D)
    (action : OrdersAction) : Option (PrivateOrders D) :=
  if s.aborted then none
  else
    match action with
    | .catchOrders symbol surroundings => s.catchOrders toUppercase symbol surroundings
    | .normalize symbol => some (s.normalize toUppercase symbol)
    | .drop i => s.catches[i]?.map (s.dropCatch toUppercase i)
    | .push data => if s.exchange.connected then some (s.handlePush data) else none
    | .lose =>
      if s.exchange.connected then
        some { s with
          exchange := s.exchange.lose
          caught := [] }
      else none

/-- A message names a symbol that an operation has named, and an order push has decimals and a
symbol that has been caught since the connection was last lost; so has the symbol of an order
catch that is dropped. -/
def Safe [DecimalText D] (toUppercase : String → String) (s : PrivateOrders D) :
    OrdersAction → Prop
  | .push (some wrapper) => ∀ normalized, wrapper.symbol = some normalized →
    normalized ∈ s.named ∧ (wrapper.OnOrdersChannel → ∀ push,
      wrapper.body = some (.privateOrders push) → push.Readable D ∧ normalized ∈ s.caught)
  | .drop i => ∀ handle ∈ s.catches[i]?,
    MexcExchange.normalizeSymbol toUppercase handle.symbol ∈ s.caught
  | _ => True

/-- The pairs are those of the symbols named, and the lists those of the symbols caught since
the connection was lost. -/
structure Recorded (s : PrivateOrders D) : Prop where
  named : ∀ normalized, normalized ∈ s.exchange.pairs ↔ normalized ∈ s.named
  caught : ∀ normalized, normalized ∈ s.exchange.privatePending ↔ normalized ∈ s.caught

variable {toUppercase : String → String} {s t : PrivateOrders D}

/-- A new exchange has no pairs and no lists. -/
theorem recorded_start (apiKey : Option String) : (start apiKey : PrivateOrders D).Recorded := by
  have hempty : (start apiKey : PrivateOrders D).exchange.pairs = ∅ ∧
      (start apiKey : PrivateOrders D).exchange.privatePending = ∅ := by
    cases apiKey <;> exact ⟨rfl, rfl⟩
  refine ⟨fun other => ?_, fun other => ?_⟩
  · rw [hempty.1]
    exact iff_of_false Finmap.notMem_empty List.not_mem_nil
  · rw [hempty.2]
    exact iff_of_false Finmap.notMem_empty List.not_mem_nil

/-- Records and maps that are as before agree as before. -/
theorem Recorded.congr (h : s.Recorded) (hmaps : s.exchange.KeepsMaps t.exchange)
    (hnamed : t.named = s.named) (hcaught : t.caught = s.caught) : t.Recorded where
  named normalized := by rw [hmaps.1, hnamed, h.named]
  caught normalized := by rw [hmaps.2, hcaught, h.caught]

/-- Naming a symbol keeps its pair. -/
theorem Recorded.normalize (h : s.Recorded) (symbol : String) :
    (s.normalize toUppercase symbol).Recorded where
  named other := by
    simp only [PrivateOrders.normalize, Finmap.mem_insert, List.mem_cons, h.named]
  caught := h.caught

/-- Catching orders keeps the pair and makes a list, if the call succeeds. -/
theorem Recorded.catchOrders (h : s.Recorded) {symbol : String} {surroundings : Surroundings}
    (hcall : s.catchOrders toUppercase symbol surroundings = some t) : t.Recorded := by
  obtain ⟨⟨exchange, result⟩, hresult, rfl⟩ := Option.map_eq_some_iff.mp hcall
  rcases MexcExchange.catchOrders_cases hresult with ⟨error, rfl, hmaps⟩ | ⟨id, rfl, hpairs, hlists⟩
  · exact h.congr hmaps rfl rfl
  · constructor
    · intro other
      simp only [hpairs, Finmap.mem_insert, List.mem_cons, h.named]
    · intro other
      simp only [hlists, Finmap.mem_insert, List.mem_cons, h.caught]

/-- Dropping an order catch removes no list. -/
theorem Recorded.dropCatch (h : s.Recorded) (i : ℕ) (handle : CatchHandle) :
    (s.dropCatch toUppercase i handle).Recorded := by
  unfold PrivateOrders.dropCatch
  simp only
  split
  · exact h.congr ⟨rfl, rfl⟩ rfl rfl
  · rename_i ids hids
    refine ⟨h.named, fun other => ?_⟩
    have hmem := (h.caught _).mp (Finmap.mem_of_lookup_eq_some hids)
    simp only [MexcExchange.privatePending_setPending hids, Finmap.mem_insert, h.caught]
    constructor
    · rintro (rfl | hother)
      · exact hmem
      · exact hother
    · exact Or.inr

variable [DecimalText D] [Zero D]

/-- A message changes no map. -/
theorem Recorded.handlePush (h : s.Recorded) (data : Option PushDataV3ApiWrapper) :
    (s.handlePush data).Recorded := by
  have hsend (normalized : String) (order : Order D) : (s.sendOrder normalized order).Recorded := by
    unfold sendOrder
    split <;> exact h.congr ⟨rfl, rfl⟩ rfl rfl
  have habort : PrivateOrders.Recorded { s with aborted := true } := h.congr ⟨rfl, rfl⟩ rfl rfl
  unfold PrivateOrders.handlePush
  split
  · exact h
  · split
    · exact h
    · split
      · exact habort
      · split
        · split
          · split
            · exact habort
            · exact hsend _ _
          · exact h
        · exact h

omit [DecimalText D] [Zero D] in
/-- An order is sent without a panic exactly if its symbol has a list. -/
theorem sendOrder_aborted_iff (hrunning : s.aborted = false) (normalized : String)
    (order : Order D) : (s.sendOrder normalized order).aborted = false ↔
      normalized ∈ s.exchange.privatePending := by
  unfold sendOrder
  split
  · rename_i hnone
    exact iff_of_false (by simp) (Finmap.lookup_eq_none.mp hnone)
  · rename_i ids hids
    exact iff_of_true hrunning (Finmap.mem_of_lookup_eq_some hids)

/-- A message is handled without a panic exactly if its symbol is named, and an order push has
decimals and a symbol that is caught. -/
theorem handlePush_aborted_iff (h : s.Recorded) (hrunning : s.aborted = false)
    (data : Option PushDataV3ApiWrapper) :
    (s.handlePush data).aborted = false ↔ s.Safe toUppercase (.push data) := by
  cases data with
  | none => exact iff_of_true hrunning trivial
  | some wrapper =>
    simp only [PrivateOrders.handlePush, Safe]
    cases hsymbol : wrapper.symbol with
    | none => simp [hrunning]
    | some normalized =>
      simp only [Option.some.injEq, forall_eq', ← h.named, ← h.caught]
      cases hpair : s.exchange.pairs.lookup normalized with
      | none => simp [Finmap.lookup_eq_none.mp hpair]
      | some symbol =>
        simp only [Finmap.mem_of_lookup_eq_some hpair, true_and]
        by_cases hchannel : wrapper.OnOrdersChannel
        · simp only [hchannel, true_imp_iff, if_true]
          cases hbody : wrapper.body with
          | none => simp [hrunning]
          | some body =>
            cases body with
            | publicIncreaseDepthsBatch items => simp [hrunning]
            | other => simp [hrunning]
            | privateOrders push =>
              simp only [Option.some.injEq, Body.privateOrders.injEq, forall_eq',
                ← order_isSome_iff symbol]
              cases (push.order symbol : Option (Order D)) with
              | none => simp
              | some order => simpa using sendOrder_aborted_iff hrunning normalized order
        · simp [hchannel, hrunning]

omit [Zero D] in
/-- An order catch is dropped without a panic exactly if its symbol is caught. -/
theorem dropCatch_aborted_iff (h : s.Recorded) (hrunning : s.aborted = false) {i : ℕ}
    {handle : CatchHandle} (hhandle : s.catches[i]? = some handle) :
    (s.dropCatch toUppercase i handle).aborted = false ↔ s.Safe toUppercase (.drop i) := by
  simp only [Safe, hhandle, Option.mem_def, Option.some.injEq, forall_eq', ← h.caught]
  unfold PrivateOrders.dropCatch
  simp only
  split
  · rename_i hnone
    exact iff_of_false (by simp) (Finmap.lookup_eq_none.mp hnone)
  · rename_i ids hids
    exact iff_of_true hrunning (Finmap.mem_of_lookup_eq_some hids)

/-- Every step keeps the records. -/
theorem Recorded.step {action : OrdersAction} (h : s.Recorded)
    (hstep : s.step toUppercase action = some t) : t.Recorded := by
  obtain ⟨_, hstep⟩ := Option.ite_none_left_eq_some.mp hstep
  cases action with
  | catchOrders symbol surroundings => exact h.catchOrders hstep
  | normalize symbol =>
    cases hstep
    exact h.normalize symbol
  | drop i =>
    obtain ⟨handle, _, rfl⟩ := Option.map_eq_some_iff.mp hstep
    exact h.dropCatch i handle
  | push data =>
    obtain ⟨_, rfl⟩ := GuardedRun.of_enabled hstep
    exact h.handlePush data
  | lose =>
    obtain ⟨_, rfl⟩ := GuardedRun.of_enabled hstep
    refine ⟨h.named, fun other => ?_⟩
    simp [MexcExchange.privatePending_lose, Finmap.notMem_empty]

/-- A step does not abort the process exactly if it is safe. -/
theorem step_aborted_iff {action : OrdersAction} (h : s.Recorded)
    (hstep : s.step toUppercase action = some t) :
    t.aborted = false ↔ s.Safe toUppercase action := by
  obtain ⟨hrunning, hstep⟩ := Option.ite_none_left_eq_some.mp hstep
  rw [Bool.not_eq_true] at hrunning
  cases action with
  | catchOrders symbol surroundings =>
    obtain ⟨⟨exchange, result⟩, _, rfl⟩ := Option.map_eq_some_iff.mp hstep
    cases result <;> exact iff_of_true hrunning trivial
  | normalize symbol =>
    cases hstep
    exact iff_of_true hrunning trivial
  | drop i =>
    obtain ⟨handle, hhandle, rfl⟩ := Option.map_eq_some_iff.mp hstep
    exact dropCatch_aborted_iff h hrunning hhandle
  | push data =>
    obtain ⟨_, rfl⟩ := GuardedRun.of_enabled hstep
    exact handlePush_aborted_iff h hrunning data
  | lose =>
    obtain ⟨_, rfl⟩ := GuardedRun.of_enabled hstep
    exact iff_of_true hrunning trivial

/-- In every run, neither the handler of the messages nor the drop of an order catch aborts the
process exactly if all steps are safe. -/
theorem private_orders_safe_iff (toUppercase : String → String) (apiKey : Option String)
    (actions : List OrdersAction) :
    GuardedRun.StatesSatisfy (step toUppercase) (fun s : PrivateOrders D => s.aborted = false)
        (start apiKey) actions ↔
      GuardedRun.StepsSatisfy (step toUppercase) (Safe toUppercase)
        (start apiKey : PrivateOrders D) actions :=
  GuardedRun.statesSatisfy_iff_stepsSatisfy (I := Recorded)
    (fun _ _ _ h _ hstep => h.step hstep) (fun _ _ _ h _ hstep => step_aborted_iff h hstep)
    (recorded_start apiKey) rfl

/-- A push about an order for ten units at a price. -/
def openOrder (price : String) : PrivateOrdersV3Api := ⟨"1", price, "10", 1, "10", "0", 1⟩

/-- A call that catches the orders of a symbol and gets its connection. -/
def catching (symbol : String) : OrdersAction :=
  .catchOrders symbol ⟨.json "" (some "key"), .ok (), .ok ()⟩

/-- The process is aborted by a push for a symbol that nobody has caught, and by the drop of an
order catch whose connection has been lost. -/
theorem uncaught_push_aborts :
    (GuardedRun.exec (step String.toUpper) (start (some "api") : PrivateOrders ℕ)
      [catching "BTC/USDT", .push (some ⟨ordersChannel, some (.privateOrders (openOrder "5")),
        some "ETHUSDT"⟩)]).map PrivateOrders.aborted = some true ∧
    (GuardedRun.exec (step String.toUpper) (start (some "api") : PrivateOrders ℕ)
      [catching "BTC/USDT", .lose, .drop 0]).map PrivateOrders.aborted = some true :=
  ⟨by decide +kernel, by decide +kernel⟩

end PrivateOrders

end Arbexpert.Mexc
