import Arbexpert.Exchange.Routing
import Arbexpert.Foundation.PairText
import Arbexpert.Worker.Monitor

/-!
# The names of the Gate assets

The venue names a pair by its two assets with an underscore between them. A symbol has a slash
there instead, and for a futures contract a colon and the quote again. It is built when the assets
are fetched, and once more by the monitor of an arbitrage; both are turned back into the name
when they are watched.
-/

namespace Arbexpert.Gate

open Arbexpert.Base Arbexpert.Exchange Arbexpert.Worker

variable {D : Type*}

/-- The name of an item of a response when it is traded, empty when it is missing. -/
def tradedName (market : MarketType) (symbol : Value) : Option String :=
  match market with
  | .future =>
    if (symbol.field "status").asStr = some "trading" then
      some ((symbol.field "name").asStr.getD "")
    else none
  | .spot =>
    if (symbol.field "trade_status").asStr = some "tradable" then
      some ((symbol.field "id").asStr.getD "")
    else none

/-- The names of the traded items of a response. -/
def tradedNames (market : MarketType) (json : Value) : List String :=
  (json.asArray.getD []).filterMap (tradedName market)

/-- The asset with a name, which is split at its first underscore. -/
def assetOf (market : MarketType) (name : String) : Asset :=
  let parts := PairText.splitFirst '_' name.toList
  let base := String.ofList parts.1
  let quote := String.ofList parts.2
  let symbol := match market with
    | .spot => base ++ "/" ++ quote
    | .future => base ++ "/" ++ quote ++ ":" ++ quote
  ⟨symbol, base, quote, market, "Gate"⟩

/-- The assets of a response. -/
def fetchAssetsBy (market : MarketType) (json : Value) : List Asset :=
  (tradedNames market json).map (assetOf market)

/-- A name of the venue: one underscore at least, and none of the characters that a symbol has
instead. -/
structure MarketId where
  name : String
  underscore : '_' ∈ name.toList
  slash : '/' ∉ name.toList
  colon : ':' ∉ name.toList

/-- A symbol that stands for an asset: the one that was fetched, or the one that the monitor of an
arbitrage with its two names watches. -/
def StandsFor (D : Type*) (asset : Asset) (symbol : String) : Prop :=
  symbol = asset.symbol ∨ ∃ item : Arbitrage D, (item.leg asset.market).base = asset.base ∧
    (item.leg asset.market).quote = asset.quote ∧ symbol = item.symbol asset.market

/-- A name with an underscore is that of its two assets with an underscore between them. -/
theorem base_append_quote (market : MarketType) (id : MarketId) :
    (assetOf market id.name).base ++ "_" ++ (assetOf market id.name).quote = id.name := by
  apply String.toList_injective
  simpa [assetOf] using PairText.append_cons_splitFirst id.underscore

/-- The two assets of a name have no character that the name does not have. -/
theorem not_mem_assetOf (market : MarketType) {name : String} {c : Char} (h : c ∉ name.toList) :
    c ∉ (assetOf market name).base.toList ∧ c ∉ (assetOf market name).quote.toList := by
  simp only [assetOf, String.toList_ofList]
  exact ⟨fun hbase => h (PairText.mem_of_mem_splitFirst (Or.inl hbase)),
    fun hquote => h (PairText.mem_of_mem_splitFirst (Or.inr hquote))⟩

/-- A symbol of a pair, with or without a colon and more behind it, is turned back into the
name of the pair, and tells the market. -/
theorem normalizeSymbol_assetOf (market : MarketType) (id : MarketId) (rest : String) :
    let pair := (assetOf market id.name).base ++ "/" ++ (assetOf market id.name).quote
    (normalizeSymbol gateSeparator pair = id.name ∧ marketOf pair = .spot) ∧
      normalizeSymbol gateSeparator (pair ++ ":" ++ rest) = id.name ∧
        marketOf (pair ++ ":" ++ rest) = .future := by
  intro pair
  obtain ⟨hbaseSlash, hquoteSlash⟩ := not_mem_assetOf market id.slash
  obtain ⟨hbaseColon, hquoteColon⟩ := not_mem_assetOf market id.colon
  have hpair : normalizeSymbol gateSeparator pair = id.name := by
    rw [normalizeSymbol_pair gateSeparator ⟨hbaseSlash, hbaseColon⟩ ⟨hquoteSlash, hquoteColon⟩]
    exact base_append_quote market id
  have hcolon : ':' ∉ pair.toList := by simp [pair, hbaseColon, hquoteColon]
  refine ⟨⟨hpair, if_neg hcolon⟩, ?_, if_pos (by simp)⟩
  rw [normalizeSymbol_append_colon gateSeparator hcolon, hpair]

/-- A symbol that stands for the asset with a name is turned back into this name, and tells the
market. -/
theorem StandsFor.normalizeSymbol_eq {market : MarketType} {id : MarketId} {symbol : String}
    (h : StandsFor D (assetOf market id.name) symbol) :
    normalizeSymbol gateSeparator symbol = id.name ∧ marketOf symbol = market := by
  rcases h with rfl | ⟨item, hbase, hquote, rfl⟩
  · cases market with
    | spot => exact (normalizeSymbol_assetOf .spot id "").1
    | future => exact (normalizeSymbol_assetOf .future id _).2
  · -- the monitor has the names of the two assets, and puts them together again
    cases market with
    | spot =>
      have hsymbol : item.symbol .spot = (assetOf .spot id.name).base ++ "/" ++
          (assetOf .spot id.name).quote := by
        rw [← hbase, ← hquote]
        rfl
      exact hsymbol ▸ (normalizeSymbol_assetOf .spot id "").1
    | future =>
      have hsymbol : item.symbol .future = (assetOf .future id.name).base ++ "/" ++
          (assetOf .future id.name).quote ++ ":" ++ "USDT" := by
        rw [← hbase, ← hquote, String.append_assoc]
        rfl
      exact hsymbol ▸ (normalizeSymbol_assetOf .future id "USDT").2

/-- In both markets, what is fetched for a traded name with an underscore and without slashes and
colons is an asset whose symbols, the fetched one and the one of a monitor, are turned back into
this name. Two names of this kind never have symbols with the same key. -/
theorem symbols_round_trip (D : Type*) (market : MarketType) (id : MarketId) :
    (∀ json, id.name ∈ tradedNames market json →
      assetOf market id.name ∈ fetchAssetsBy market json) ∧
    (∀ symbol, StandsFor D (assetOf market id.name) symbol →
      normalizeSymbol gateSeparator symbol = id.name ∧ marketOf symbol = market) ∧
    ∀ otherMarket (other : MarketId) symbol otherSymbol,
      StandsFor D (assetOf market id.name) symbol →
      StandsFor D (assetOf otherMarket other.name) otherSymbol →
      normalizeSymbol gateSeparator symbol = normalizeSymbol gateSeparator otherSymbol →
      id.name = other.name := by
  refine ⟨fun json hid => List.mem_map_of_mem hid, fun symbol h => h.normalizeSymbol_eq,
    fun otherMarket other symbol otherSymbol h hother hsame => ?_⟩
  calc
    id.name = normalizeSymbol gateSeparator symbol := h.normalizeSymbol_eq.1.symm
    _ = normalizeSymbol gateSeparator otherSymbol := hsame
    _ = other.name := hother.normalizeSymbol_eq.1

/-- A name with one underscore. -/
def perpetualName : MarketId := ⟨"BTC_USDT", by decide, by decide, by decide⟩

/-- A name with two underscores. -/
def deliveryName : MarketId := ⟨"BTC_USDT_0926", by decide, by decide, by decide⟩

/-- A response that has a contract with the second name. -/
def deliveryResponse : Value :=
  .array [.object [("name", .string "BTC_USDT_0926"), ("status", .string "trading")]]

/-- An arbitrage with this contract, as its monitor receives it. -/
def deliveryArbitrage : Arbitrage ℕ where
  spot := ⟨"", "BTC", "USDT", .spot, "Gate"⟩
  future := ⟨"", "BTC", "USDT_0926", .future, "Gate"⟩
  snapshot := ⟨"", "", 0, 0, 0, 0, 0, 0, 0⟩

/-- The contract is fetched, both of its symbols lead to its name, and the symbol of the first
name does not. -/
theorem deliveryName_round_trip :
    assetOf .future "BTC_USDT_0926" ∈ fetchAssetsBy .future deliveryResponse ∧
      normalizeSymbol gateSeparator "BTC/USDT_0926:USDT_0926" = "BTC_USDT_0926" ∧
      normalizeSymbol gateSeparator "BTC/USDT_0926:USDT" = "BTC_USDT_0926" ∧
      normalizeSymbol gateSeparator "BTC/USDT_0926:USDT_0926" ≠
        normalizeSymbol gateSeparator "BTC/USDT:USDT" := by
  obtain ⟨hfetched, hsymbols, hkeys⟩ := symbols_round_trip ℕ .future deliveryName
  have hsymbol : StandsFor ℕ (assetOf .future deliveryName.name) "BTC/USDT_0926:USDT_0926" :=
    Or.inl (by decide)
  have hmonitored : StandsFor ℕ (assetOf .future deliveryName.name) "BTC/USDT_0926:USDT" :=
    Or.inr ⟨deliveryArbitrage, by decide, by decide, by decide⟩
  have hother : StandsFor ℕ (assetOf .future perpetualName.name) "BTC/USDT:USDT" :=
    Or.inl (by decide)
  exact ⟨hfetched deliveryResponse (by decide), (hsymbols _ hsymbol).1, (hsymbols _ hmonitored).1,
    fun hsame => absurd (hkeys _ _ _ _ hsymbol hother hsame) (by decide)⟩

end Arbexpert.Gate
