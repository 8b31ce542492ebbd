import Arbexpert.Base.HashMap
import Arbexpert.Foundation.GuardedRun

/-!
# The private connection

A call that catches orders opens the private connection when there is none, and sends the
subscription message when a flag says that none has been sent. The loss of the connection
resets the flag of the connection, but not that of the subscription. So the message is
missing on the second connection, and on every connection whose message was refused.
-/

namespace Arbexpert.Mexc

open Base

/-- A message to the exchange: the method and the parameters of its JSON text. -/
structure Message where
  method : String
  params : List String
  deriving DecidableEq

/-- The subscription to the private orders. -/
def subscription : Message := ⟨"SUBSCRIPTION", ["spot@private.orders.v3.api.pb"]⟩

/-- The private WebSocket client: the messages that the channel of its session accepted, and
whether the session still runs. -/
structure PrivateWs where
  listenKey : String
  messages : List Message
  live : Bool
  deriving DecidableEq

/-- The private client. A symbol has the ids of the order catches that listen to it. -/
structure Client where
  listenKey : Option String
  privateWs : Option PrivateWs
  privateLastId : ℕ
  privatePending : HashMap String (List ℕ)

/-- The private part of the exchange, and the pairs with their normalised names. -/
structure MexcExchange where
  subscribedPrivateOrders : Bool
  initedPrivateWs : Bool
  client : Option Client
  apiKey : Option String
  pairs : HashMap String String

/-- The session of the private client runs and has accepted the subscription. -/
def Client.Subscribed (client : Client) : Prop :=
  ∃ ws, client.privateWs = some ws ∧ ws.live = true ∧ subscription ∈ ws.messages

/-- The answer to the request of a listen key: an error, or a JSON text with its key, if it
has one. -/
inductive ListenKeyAnswer
  | failed (error : String)
  | json (text : String) (listenKey : Option String)

/-- What a call meets outside: the answer to its request, and the results of connecting and
of sending. -/
structure Surroundings where
  request : ListenKeyAnswer
  connect : Except String Unit
  send : Except String Unit

/-- What can happen next: a call, or the loss of the connection. -/
inductive PrivateAction
  | catchOrders (symbol : String) (surroundings : Surroundings)
  | lose

namespace MexcExchange

/-- An exchange without credentials. -/
def new : MexcExchange := ⟨false, false, none, none, ∅⟩

/-- An exchange with credentials. -/
def withCredentials (apiKey : String) : MexcExchange :=
  { new with
    client := some ⟨none, none, 0, ∅⟩
    apiKey := some apiKey }

/-- The listen key of an answer, or the text of the error. -/
def listenKeyOf : ListenKeyAnswer → Except String String
  | .failed error => .error s!"API error: Listen key error: {error}"
  | .json text none => .error s!"API error: Missing listenKey in response: {text}"
  | .json _ (some listenKey) => .ok listenKey

/-- Create a listen key and keep it; `none` when there is no client to keep it in. -/
def createListenKey (s : MexcExchange) (answer : ListenKeyAnswer) :
    Option (MexcExchange × Except String String) :=
  match s.apiKey, answer with
  | none, _ => some (s, .error "Missing credentials")
  | some _, .failed error => some (s, listenKeyOf (.failed error))
  | some _, .json text listenKey => s.client.map fun client =>
    match listenKeyOf (.json text listenKey) with
    | .error error => (s, .error error)
    | .ok listenKey =>
      ({ s with client := some { client with listenKey := some listenKey } }, .ok listenKey)

/-- Open a new private connection. -/
def initPrivateWs (s : MexcExchange) (surroundings : Surroundings) :
    Option (MexcExchange × Except String Unit) :=
  (s.createListenKey surroundings.request).bind fun
    | (s, .error error) => some (s, .error error)
    | (s, .ok listenKey) => s.client.map fun client =>
      match surroundings.connect with
      | .error error => (s, .error error)
      | .ok () =>
        ({ s with client := some { client with privateWs := some ⟨listenKey, [], true⟩ } },
          .ok ())

/-- Open the private connection when the flag says that there is none. -/
def ensurePrivateWs (s : MexcExchange) (surroundings : Surroundings) :
    Option (MexcExchange × Except String Unit) :=
  if s.initedPrivateWs then some (s, .ok ())
  else (s.initPrivateWs surroundings).map fun
    | (s, .error error) => (s, .error error)
    | (s, .ok ()) => ({ s with initedPrivateWs := true }, .ok ())

/-- Send a message to the session of the private connection, if there is one. -/
def sendPrivate (client : Client) (message : Message) (sent : Except String Unit) :
    Client × Except String Unit :=
  match client.privateWs, sent with
  | none, _ => (client, .ok ())
  | some _, .error error => (client, .error error)
  | some ws, .ok () =>
    ({ client with privateWs := some { ws with messages := ws.messages ++ [message] } }, .ok ())

/-- Send the subscription when the flag says that it has not been sent. The flag is set
first. -/
def subscribePrivateOrders (s : MexcExchange) (client : Client) (sent : Except String Unit) :
    MexcExchange × Client × Except String Unit :=
  if s.subscribedPrivateOrders then (s, client, .ok ())
  else ({ s with subscribedPrivateOrders := true }, sendPrivate client subscription sent)

/-- A symbol without its slashes, in upper case. -/
def normalizeSymbol (toUppercase : String → String) (symbol : String) : String :=
  toUppercase (String.ofList (symbol.toList.filter (· ≠ '/')))

/-- A new order catch listens to a symbol, under the next id. -/
def addCatch (s : MexcExchange) (client : Client) (normalized symbol : String) :
    MexcExchange × ℕ :=
  let id := (client.privateLastId + 1) % 2 ^ 32
  let listeners := (client.privatePending.lookup normalized).getD []
  ({ s with
    pairs := s.pairs.insert normalized symbol
    client := some { client with
      privateLastId := id
      privatePending := client.privatePending.insert normalized (listeners ++ [id]) } }, id)

/-- `catch_orders`: the id of a new order catch, or the text of an error; `none` when it
aborts. No session is live while it waits for the connection, so nothing else moves. -/
def catchOrders (toUppercase : String → String) (s : MexcExchange) (symbol : String)
    (surroundings : Surroundings) : Option (MexcExchange × Except String ℕ) :=
  (s.ensurePrivateWs surroundings).bind fun
    | (s, .error error) => some (s, .error error)
    | (s, .ok ()) => s.client.map fun client =>
      match s.subscribePrivateOrders client surroundings.send with
      | (s, client, .error error) => ({ s with client := some client }, .error error)
      | (s, client, .ok ()) =>
        let (s, id) := s.addCatch client (normalizeSymbol toUppercase symbol) symbol
        (s, .ok id)

/-- Whether the session of the private connection runs. -/
def connected (s : MexcExchange) : Bool :=
  s.client.any fun client => client.privateWs.any PrivateWs.live

/-- The callbacks of a session that ends. -/
def lose (s : MexcExchange) : MexcExchange :=
  { s with
    initedPrivateWs := false
    client := s.client.map fun client => { client with
      privateWs := client.privateWs.map fun ws => { ws with live := false }
      privatePending := ∅ } }

/-- One step. A session ends at most once. -/
def step (toUppercase : String → String) (s : MexcExchange) :
    PrivateAction → Option MexcExchange
  | .catchOrders symbol surroundings =>
    (s.catchOrders toUppercase symbol surroundings).map Prod.fst
  | .lose => if s.connected then some s.lose else none

/-- The session of the private connection runs and has accepted the subscription. -/
def Subscribed (s : MexcExchange) : Prop :=
  ∃ client, s.client = some client ∧ client.Subscribed

/-- A call that returns an order catch leaves the private connection subscribed. -/
def CatchesSubscribed (toUppercase : String → String) (s : MexcExchange) :
    PrivateAction → Prop
  | .catchOrders symbol surroundings => ∀ t id,
    s.catchOrders toUppercase symbol surroundings = some (t, .ok id) → t.Subscribed
  | .lose => True

/-- A call that opens a connection is the first that sends the subscription, and the
subscription is accepted. -/
def OpensUnsubscribed (s : MexcExchange) : PrivateAction → Prop
  | .catchOrders _ surroundings => s.initedPrivateWs = false →
    ∀ t, s.initPrivateWs surroundings = some (t, .ok ()) →
      s.subscribedPrivateOrders = false ∧ surroundings.send = .ok ()
  | .lose => True

/-- While the flag says that there is a private connection, it is subscribed. -/
def StaysSubscribed (s : MexcExchange) : Prop := s.initedPrivateWs = true → s.Subscribed

variable {toUppercase : String → String} {s t : MexcExchange} {surroundings : Surroundings}
  {action : PrivateAction}

/-- A listen key changes nothing but the client. -/
theorem of_createListenKey {answer : ListenKeyAnswer} {result : Except String String}
    (h : s.createListenKey answer = some (t, result)) :
    t.initedPrivateWs = s.initedPrivateWs ∧
      t.subscribedPrivateOrders = s.subscribedPrivateOrders := by
  unfold createListenKey at h
  split at h
  · cases h
    exact ⟨rfl, rfl⟩
  · cases h
    exact ⟨rfl, rfl⟩
  · obtain ⟨client, _, hclient⟩ := Option.map_eq_some_iff.mp h
    split at hclient <;> cases hclient <;> exact ⟨rfl, rfl⟩

/-- A new private connection has accepted nothing. Neither flag is changed here. -/
theorem of_initPrivateWs {result : Except String Unit}
    (h : s.initPrivateWs surroundings = some (t, result)) :
    (t.initedPrivateWs = s.initedPrivateWs ∧
      t.subscribedPrivateOrders = s.subscribedPrivateOrders) ∧
      (result = .ok () → ∃ client listenKey,
        t.client = some client ∧ client.privateWs = some ⟨listenKey, [], true⟩) := by
  obtain ⟨⟨u, created⟩, hu, hrest⟩ := Option.bind_eq_some_iff.mp h
  have hflags := of_createListenKey hu
  cases created with
  | error error =>
    cases hrest
    exact ⟨hflags, nofun⟩
  | ok listenKey =>
    obtain ⟨client, _, hclient⟩ := Option.map_eq_some_iff.mp hrest
    split at hclient <;> cases hclient
    · exact ⟨hflags, nofun⟩
    · exact ⟨hflags, fun _ => ⟨_, listenKey, rfl, rfl⟩⟩

/-- The subscription makes a client subscribed when it is accepted by a running session, and
a client that is subscribed stays so. -/
theorem subscribed_sendPrivate {client : Client} {sent : Except String Unit}
    (h : client.Subscribed ∨
      (∃ ws, client.privateWs = some ws ∧ ws.live = true) ∧ sent = .ok ()) :
    (sendPrivate client subscription sent).1.Subscribed := by
  rcases h with ⟨ws, hws, hlive, hmem⟩ | ⟨⟨ws, hws, hlive⟩, rfl⟩
  · cases sent with
    | error error => simpa only [sendPrivate, hws] using ⟨ws, hws, hlive, hmem⟩
    | ok sent =>
      simp only [sendPrivate, hws]
      exact ⟨_, rfl, hlive, List.mem_append_left _ hmem⟩
  · simp only [sendPrivate, hws]
    exact ⟨_, rfl, hlive, List.mem_append_right _ List.mem_cons_self⟩

/-- A client is subscribed after the subscribing part of a call when it was subscribed
before, or when its session runs, nothing has been sent and the message is accepted. -/
theorem subscribed_subscribePrivateOrders {client : Client} {sent : Except String Unit}
    (h : client.Subscribed ∨ (∃ ws, client.privateWs = some ws ∧ ws.live = true) ∧
      s.subscribedPrivateOrders = false ∧ sent = .ok ()) :
    (s.subscribePrivateOrders client sent).2.1.Subscribed := by
  unfold subscribePrivateOrders
  split
  · rename_i hflag
    rcases h with h | ⟨_, hunset, _⟩
    · exact h
    · rw [hunset] at hflag
      cases hflag
  · exact subscribed_sendPrivate (h.imp_right fun ⟨hws, _, hsent⟩ => ⟨hws, hsent⟩)

/-- The part of a call after the private connection is ensured. -/
theorem subscribed_of_catchOrders {symbol : String} {result : Except String ℕ}
    {u : MexcExchange} (hu : s.ensurePrivateWs surroundings = some (u, .ok ()))
    (hclient : ∃ client, u.client = some client ∧ (client.Subscribed ∨
      (∃ ws, client.privateWs = some ws ∧ ws.live = true) ∧
        u.subscribedPrivateOrders = false ∧ surroundings.send = .ok ()))
    (h : s.catchOrders toUppercase symbol surroundings = some (t, result)) : t.Subscribed := by
  obtain ⟨client, hsome, hclient⟩ := hclient
  have hsubscribed := subscribed_subscribePrivateOrders hclient
  simp only [catchOrders, hu, Option.bind_some, hsome, Option.map_some, Option.some.injEq] at h
  generalize u.subscribePrivateOrders client surroundings.send = sent at h hsubscribed
  obtain ⟨v, client', outcome⟩ := sent
  cases outcome with
  | error error =>
    cases h
    exact ⟨client', rfl, hsubscribed⟩
  | ok outcome =>
    cases h
    exact ⟨_, rfl, hsubscribed⟩

/-- A call keeps the private connection subscribed, and opens none that is not. -/
theorem staysSubscribed_catchOrders {symbol : String} {result : Except String ℕ}
    (h : s.StaysSubscribed) (hopens : s.OpensUnsubscribed (.catchOrders symbol surroundings))
    (hcall : s.catchOrders toUppercase symbol surroundings = some (t, result)) :
    t.Subscribed ∨ t.initedPrivateWs = false ∧ ∃ error, result = .error error := by
  cases hinited : s.initedPrivateWs with
  | true =>
    have hensure : s.ensurePrivateWs surroundings = some (s, .ok ()) := by
      rw [ensurePrivateWs, if_pos hinited]
    obtain ⟨client, hclient, hsubscribed⟩ := h hinited
    exact Or.inl (subscribed_of_catchOrders hensure ⟨client, hclient, Or.inl hsubscribed⟩ hcall)
  | false =>
    have hensure : s.ensurePrivateWs surroundings = (s.initPrivateWs surroundings).map fun
        | (u, .error error) => (u, .error error)
        | (u, .ok ()) => ({ u with initedPrivateWs := true }, .ok ()) := by
      rw [ensurePrivateWs, if_neg (by simp [hinited])]
    obtain ⟨⟨u, opened⟩, hu, _⟩ := Option.bind_eq_some_iff.mp hcall
    rw [hensure] at hu
    obtain ⟨⟨v, result'⟩, hv, hopened⟩ := Option.map_eq_some_iff.mp hu
    obtain ⟨⟨hflag, hsent⟩, hnew⟩ := of_initPrivateWs hv
    cases result' with
    | error error =>
      cases hopened
      simp only [catchOrders, hensure, hv, Option.map_some, Option.bind_some,
        Option.some.injEq] at hcall
      cases hcall
      exact Or.inr ⟨hflag.trans hinited, error, rfl⟩
    | ok ok =>
      cases hopened
      obtain ⟨hunset, hsend⟩ := hopens hinited v hv
      obtain ⟨client, listenKey, hclient, hws⟩ := hnew rfl
      refine Or.inl (subscribed_of_catchOrders (u := { v with initedPrivateWs := true })
        (by rw [hensure, hv]; rfl) ⟨client, hclient, Or.inr ⟨⟨_, hws, rfl⟩, ?_, hsend⟩⟩ hcall)
      exact hsent.trans hunset

/-- A step that meets the condition keeps the private connection subscribed. -/
theorem StaysSubscribed.step (h : s.StaysSubscribed) (hopens : s.OpensUnsubscribed action)
    (hstep : s.step toUppercase action = some t) : t.StaysSubscribed := by
  cases action with
  | catchOrders symbol surroundings =>
    obtain ⟨⟨u, result⟩, hcall, rfl⟩ := Option.map_eq_some_iff.mp hstep
    rcases staysSubscribed_catchOrders h hopens hcall with hsubscribed | ⟨hflag, _⟩
    · exact fun _ => hsubscribed
    · intro hinited
      rw [hflag] at hinited
      cases hinited
  | lose =>
    obtain ⟨_, rfl⟩ := GuardedRun.of_enabled hstep
    exact nofun

/-- A step that meets the condition returns an order catch only when the private connection
is subscribed. -/
theorem StaysSubscribed.catches (h : s.StaysSubscribed) (hopens : s.OpensUnsubscribed action) :
    s.CatchesSubscribed toUppercase action := by
  cases action with
  | catchOrders symbol surroundings =>
    intro t id hcall
    rcases staysSubscribed_catchOrders h hopens hcall with hsubscribed | ⟨_, error, hresult⟩
    · exact hsubscribed
    · cases hresult
  | lose => trivial

/-- In every run in which each call that opens a connection is the first that sends the
subscription, and has it accepted, every call that returns an order catch leaves the private
connection subscribed. -/
theorem catches_subscribed {start : MexcExchange}
    (hstart : start = new ∨ ∃ apiKey, start = withCredentials apiKey)
    {actions : List PrivateAction}
    (hopens : GuardedRun.StepsSatisfy (step toUppercase) OpensUnsubscribed start actions) :
    GuardedRun.StepsSatisfy (step toUppercase) (CatchesSubscribed toUppercase) start actions := by
  refine hopens.of_invariant (I := StaysSubscribed)
    (fun _ _ _ h hcondition hstep => h.step hcondition hstep)
    (fun _ _ _ h hcondition _ => h.catches hcondition) ?_
  rcases hstart with rfl | ⟨apiKey, rfl⟩
  · exact nofun
  · exact nofun

/-- The call that opens the first connection, and a call while it lasts. -/
theorem catches_subscribed_twice :
    GuardedRun.StepsSatisfy (step String.toUpper) (CatchesSubscribed String.toUpper)
      (withCredentials "api")
      [.catchOrders "BTC/USDT" ⟨.json "" (some "key"), .ok (), .ok ()⟩,
        .catchOrders "ETH/USDT" ⟨.json "" none, .ok (), .ok ()⟩] := by
  refine catches_subscribed (Or.inr ⟨"api", rfl⟩) fun s hs => ⟨fun _ t _ => ⟨rfl, rfl⟩, ?_⟩
  cases hs
  exact fun t _ => ⟨nofun, trivial⟩

/-- A call that opens a connection when the flag of the subscription is set returns an order
catch, although the new connection has accepted nothing. -/
theorem catches_unsubscribed {symbol : String} (hinited : s.initedPrivateWs = false)
    (hopened : s.initPrivateWs surroundings = some (t, .ok ()))
    (hflag : s.subscribedPrivateOrders = true) :
    ¬s.CatchesSubscribed toUppercase (.catchOrders symbol surroundings) := by
  intro hcatches
  obtain ⟨⟨_, hsent⟩, hnew⟩ := of_initPrivateWs hopened
  obtain ⟨client, listenKey, hclient, hws⟩ := hnew rfl
  obtain ⟨u, hensure, hu, hskipped⟩ : ∃ u : MexcExchange,
      s.ensurePrivateWs surroundings = some (u, .ok ()) ∧ u.client = some client ∧
        u.subscribePrivateOrders client surroundings.send = (u, client, .ok ()) := by
    refine ⟨{ t with initedPrivateWs := true }, ?_, hclient, if_pos (hsent.trans hflag)⟩
    simp only [ensurePrivateWs, hinited, Bool.false_eq_true, if_false, hopened, Option.map_some]
  have hcall : s.catchOrders toUppercase symbol surroundings =
      some ((u.addCatch client (normalizeSymbol toUppercase symbol) symbol).1,
        .ok (u.addCatch client (normalizeSymbol toUppercase symbol) symbol).2) := by
    simp only [catchOrders, hensure, Option.bind_some, hu, Option.map_some, hskipped]
  obtain ⟨_, hadded, ws, hws', _, hmem⟩ := hcatches _ _ hcall
  cases hadded
  cases hws.symm.trans hws'
  cases hmem

/-- After a connection is lost, the next call opens one that is not subscribed. -/
theorem reopened_unsubscribed :
    ∃ s t, GuardedRun.exec (step String.toUpper) (withCredentials "api")
        [.catchOrders "BTC/USDT" ⟨.json "" (some "first"), .ok (), .ok ()⟩, .lose] = some s ∧
      s.catchOrders String.toUpper "BTC/USDT" ⟨.json "" (some "second"), .ok (), .ok ()⟩ =
        some (t, .ok 2) ∧
      t.client.bind Client.privateWs = some ⟨"second", [], true⟩ ∧ ¬t.Subscribed := by
  refine ⟨_, _, rfl, rfl, rfl, ?_⟩
  rintro ⟨client, hclient, ws, hws, _, hmem⟩
  cases hclient
  cases hws
  cases hmem

end MexcExchange

end Arbexpert.Mexc
