import Arbexpert.Base.Calls
import Arbexpert.Base.Feed
import Mathlib.Data.List.TakeWhile

/-!
# Routing of watch and unwatch calls to sub-clients

An exchange keeps one list of sub-clients for each market. A watch call goes to the
first one that has its symbol, else to the first one with fewer than 35 symbols, else
to a new one. It chooses before it connects and enters its symbol after that.
-/

namespace Arbexpert.Exchange

open Arbexpert.Base

/-- The sub-clients of one market. Those that were made stay in the store, as calls
may hold them after they have left the list. -/
structure ClientList where
  listed : List ℕ
  store : ℕ → SubClient
  created : ℕ

/-- What can happen next in a market: a call starts, with the result of its closure, or
something happens at a sub-client. -/
inductive ListAction
  | watch (i : ℕ) (symbol : String) (ok : Bool)
  | unwatch (i : ℕ) (symbol : String) (ok : Bool)
  | client (c : ℕ) (action : SubAction) (ok : Bool)

/-- Actions of a sub-client that start no call and end no closure. -/
def internal : SubAction → Bool
  | .watch _ _ => false
  | .unwatch _ _ => false
  | .subscribe _ _ => false
  | .unsubscribe _ _ => false
  | _ => true

namespace ClientList

/-- A market without sub-clients. -/
def start : ClientList := ⟨[], fun _ => SubClient.new, 0⟩

/-- Replace the state of a sub-client. -/
def setClient (s : ClientList) (c : ℕ) (client : SubClient) : ClientList :=
  { s with store := Function.update s.store c client }

/-- Choose the sub-client of a watch call, making a new one if needed. -/
def choose (s : ClientList) (symbol : String) : ClientList × ℕ :=
  match s.listed.find? fun c => (s.store c).hasSymbol symbol with
  | some c => (s, c)
  | none =>
    match s.listed.find? fun c => (s.store c).subscribedCount < 35 with
    | some c => (s, c)
    | none => ({ s with listed := s.listed ++ [s.created], created := s.created + 1 }, s.created)

/-- `watch_orderbook` with a normalised symbol, up to its first suspension. -/
def watchOrderbook (s : ClientList) (i : ℕ) (symbol : String) (ok : Bool) : Option ClientList :=
  let (s, c) := s.choose symbol
  ((s.store c).callStep i (.watch i symbol) ok).map (s.setClient c)

/-- `unwatch_orderbook` with a normalised symbol. It does not suspend, so that the
position at which the sub-client was found is still its position when it is removed. -/
def unwatchOrderbook (s : ClientList) (i : ℕ) (symbol : String) (ok : Bool) :
    Option ClientList :=
  match s.listed.findIdx? fun c => (s.store c).hasSymbol symbol with
  | none => some s
  | some pos =>
    (s.listed[pos]?).bind fun c =>
      ((s.store c).callStep i (.unwatch i symbol) ok).map fun client =>
        let s := s.setClient c client
        if client.calls i = .unwatched true ∧ client.subscribedCount = 0 then
          { s with listed := s.listed.eraseIdx pos }
        else s

/-- An action at a sub-client; the call that it runs goes through its closure. -/
def clientStep (s : ClientList) (c : ℕ) (action : SubAction) (ok : Bool) : Option ClientList :=
  if internal action then
    match action.watchCall with
    | some i => ((s.store c).callStep i action ok).map (s.setClient c)
    | none => ((s.store c).step action).map (s.setClient c)
  else none

/-- One step of a market. -/
def step (s : ClientList) : ListAction → Option ClientList
  | .watch i symbol ok => s.watchOrderbook i symbol ok
  | .unwatch i symbol ok => s.unwatchOrderbook i symbol ok
  | .client c action ok => s.clientStep c action ok

end ClientList

/-- The two markets of an exchange. -/
structure ExchangePublic where
  spotClients : ClientList
  futureClients : ClientList

/-- What can happen next in an exchange; calls name a symbol such as `BTC/USDT` or
`BTC/USDT:USDT`. -/
inductive ExchangeAction
  | watch (i : ℕ) (symbol : String) (ok : Bool)
  | unwatch (i : ℕ) (symbol : String) (ok : Bool)
  | client (market : MarketType) (c : ℕ) (action : SubAction) (ok : Bool)

/-- The symbol that the venue uses: what stands before a colon, with its slashes
replaced by a separator. -/
def normalizeSymbol (separator : List Char) (symbol : String) : String :=
  String.ofList ((symbol.toList.takeWhile (· ≠ ':')).flatMap fun c =>
    if c = '/' then separator else [c])

/-- `normalize_symbol` of Gate puts an underscore between the two assets. -/
def gateSeparator : List Char := ['_']

/-- `normalize_symbol` of Binance puts nothing between them. -/
def binanceSeparator : List Char := []

example : normalizeSymbol gateSeparator "BTC/USDT:USDT" = "BTC_USDT" := by decide

example : normalizeSymbol binanceSeparator "BTC/USDT:USDT" = "BTCUSDT" := by decide

/-- A text without colons is not cut off. -/
theorem normalizeSymbol_of_not_mem (separator : List Char) {text : String}
    (h : ':' ∉ text.toList) : normalizeSymbol separator text =
      String.ofList (text.toList.flatMap fun c => if c = '/' then separator else [c]) := by
  have htext : ∀ c ∈ text.toList, decide (c ≠ ':') = true :=
    fun c hc => decide_eq_true fun heq => h (heq ▸ hc)
  rw [normalizeSymbol, List.takeWhile_eq_self_iff.mpr htext]

/-- A colon and what follows it are cut off. -/
theorem normalizeSymbol_append_colon (separator : List Char) {text : String}
    (h : ':' ∉ text.toList) (rest : String) :
    normalizeSymbol separator (text ++ ":" ++ rest) = normalizeSymbol separator text := by
  have htext : ∀ c ∈ text.toList, decide (c ≠ ':') = true :=
    fun c hc => decide_eq_true fun heq => h (heq ▸ hc)
  have hcut : (text ++ ":" ++ rest).toList.takeWhile (· ≠ ':') = text.toList := by
    rw [String.toList_append, String.toList_append, List.append_assoc,
      List.takeWhile_append_of_pos htext]
    simp
  rw [normalizeSymbol_of_not_mem separator h, normalizeSymbol, hcut]

/-- A name without slashes is left as it is. -/
theorem flatMap_slash_of_not_mem (separator : List Char) {name : List Char} (h : '/' ∉ name) :
    (name.flatMap fun c => if c = '/' then separator else [c]) = name := by
  induction name with
  | nil => rfl
  | cons c rest ih =>
    obtain ⟨hc, hrest⟩ := not_or.mp (mt List.mem_cons.mpr h)
    rw [List.flatMap_cons, if_neg (Ne.symm hc), ih hrest, List.singleton_append]

/-- The slash between two names without slashes and colons becomes the separator. -/
theorem normalizeSymbol_pair (separator : List Char) {base quote : String}
    (hbase : '/' ∉ base.toList ∧ ':' ∉ base.toList)
    (hquote : '/' ∉ quote.toList ∧ ':' ∉ quote.toList) :
    normalizeSymbol separator (base ++ "/" ++ quote) =
      base ++ String.ofList separator ++ quote := by
  have hcolon : ':' ∉ (base ++ "/" ++ quote).toList := by
    simp [hbase.2, hquote.2]
  rw [normalizeSymbol_of_not_mem separator hcolon]
  apply String.toList_injective
  simp [flatMap_slash_of_not_mem separator hbase.1, flatMap_slash_of_not_mem separator hquote.1]

/-- The market of an action, and what happens there. -/
def ExchangeAction.route (separator : List Char) : ExchangeAction → MarketType × ListAction
  | .watch i symbol ok => (marketOf symbol, .watch i (normalizeSymbol separator symbol) ok)
  | .unwatch i symbol ok => (marketOf symbol, .unwatch i (normalizeSymbol separator symbol) ok)
  | .client market c action ok => (market, .client c action ok)

namespace ExchangePublic

/-- An exchange without sub-clients. -/
def start : ExchangePublic := ⟨ClientList.start, ClientList.start⟩

/-- The sub-clients of a market. -/
def clients (s : ExchangePublic) : MarketType → ClientList
  | .spot => s.spotClients
  | .future => s.futureClients

/-- Replace the sub-clients of a market. -/
def setClients (s : ExchangePublic) (clients : ClientList) : MarketType → ExchangePublic
  | .spot => { s with spotClients := clients }
  | .future => { s with futureClients := clients }

/-- One step of an exchange. -/
def step (separator : List Char) (s : ExchangePublic) (action : ExchangeAction) :
    Option ExchangePublic :=
  ((s.clients (action.route separator).1).step (action.route separator).2).map fun clients =>
    s.setClients clients (action.route separator).1

end ExchangePublic

end Arbexpert.Exchange
