import Arbexpert.Base.HashMap
import Arbexpert.Base.SortedMap
import Arbexpert.Foundation.Grouping
import Arbexpert.Worker.Monitor

/-!
# The cross product of the assets of all exchanges

The publishing run groups the assets quoted in USDT by base, pairs the spot assets of a base with
its futures assets, and groups the pairs again by the symbol of the spot asset. The group of a
symbol is a shared list that is only extended while it has one owner.
-/

namespace Arbexpert.Worker

open Arbexpert.Base

/-- The assets of an exchange by symbol. -/
structure Assets where
  spot : BTreeMap String Asset
  future : BTreeMap String Asset

/-- The name of an exchange, and its assets. -/
structure ListedExchange where
  name : String
  assets : Assets

/-- The values of a sorted map in the order of their keys. -/
def values {V : Type*} (map : BTreeMap String V) : List V := (entries map).map Prod.snd

/-- An asset with the market under which it is listed, and the exchange. -/
abbrev SymbolEntry := Asset × MarketType × String

/-- `symbol_map.entry(asset.base).or_default().push(..)`. -/
def pushSymbol (map : BTreeMap String (List SymbolEntry)) (entry : SymbolEntry) :
    BTreeMap String (List SymbolEntry) :=
  map.insert entry.1.base ((map.lookup entry.1.base).getD [] ++ [entry])

/-- Enter the assets of one market of an exchange that are quoted in USDT. -/
def pushAssets (market : MarketType) (name : String) (map : BTreeMap String (List SymbolEntry))
    (assets : List Asset) : BTreeMap String (List SymbolEntry) :=
  assets.foldl (fun map asset =>
    if asset.quote = "USDT" then pushSymbol map (asset, market, name) else map) map

/-- The map from bases to the assets of all exchanges. -/
def symbolMap (exchanges : List ListedExchange) : BTreeMap String (List SymbolEntry) :=
  exchanges.foldl (fun map exchange =>
    pushAssets .future exchange.name
      (pushAssets .spot exchange.name map (values exchange.assets.spot))
      (values exchange.assets.future)) ∅

/-- A shared value with the number of its owners. -/
structure Arc (α : Type*) where
  value : α
  strong : ℕ
  deriving DecidableEq

/-- A value with one owner. -/
def Arc.new {α : Type*} (value : α) : Arc α := ⟨value, 1⟩

/-- `Arc::get_mut`: the value, when nobody else owns it. -/
def Arc.getMut {α : Type*} (arc : Arc α) : Option α :=
  if arc.strong = 1 then some arc.value else none

variable {D : Type*} [DecimalArith D]

/-- A spot asset with a futures asset, and the default snapshot. -/
def Arbitrage.new (spot future : Asset) : Arbitrage D := ⟨spot, future, ArbitrageSnaphot.default⟩

/-- Add an arbitrage to the shared list of its spot symbol; `none` where the `unwrap` of
`Arc::get_mut` panics. -/
def pushArbitrage (map : HashMap String (Arc (List (Arbitrage D)))) (spot future : Asset) :
    Option (HashMap String (Arc (List (Arbitrage D)))) :=
  let vec := (map.lookup spot.symbol).getD (Arc.new [])
  vec.getMut.map fun items =>
    map.insert spot.symbol { vec with value := items ++ [Arbitrage.new spot future] }

/-- The arbitrages by spot symbol: the loops over the bases, over the spot assets of a base and
over its futures assets. -/
def crossArbitrages (exchanges : List ListedExchange) :
    Option (HashMap String (Arc (List (Arbitrage D)))) :=
  (values (symbolMap exchanges)).foldlM (fun map entries =>
    let spotAssets := entries.filter fun entry => entry.2.1 = .spot
    let futureAssets := entries.filter fun entry => entry.2.1 = .future
    spotAssets.foldlM (fun map spot =>
      futureAssets.foldlM (fun map future => pushArbitrage map spot.1 future.1) map) map) ∅

/-- The spot assets of all exchanges that are quoted in USDT. -/
def spotAssets (exchanges : List ListedExchange) : List Asset :=
  exchanges.flatMap fun exchange =>
    (values exchange.assets.spot).filter fun asset => asset.quote = "USDT"

/-- The futures assets of all exchanges that are quoted in USDT. -/
def futureAssets (exchanges : List ListedExchange) : List Asset :=
  exchanges.flatMap fun exchange =>
    (values exchange.assets.future).filter fun asset => asset.quote = "USDT"

/-- Each spot asset with each futures asset of equal base. -/
def assetPairs (exchanges : List ListedExchange) : List (Asset × Asset) :=
  (spotAssets exchanges ×ˢ futureAssets exchanges).filter fun pair => pair.1.base = pair.2.base

/-- One arbitrage for each spot asset and each futures asset of equal base. -/
def crossProduct (exchanges : List ListedExchange) : List (Arbitrage D) :=
  (assetPairs exchanges).map fun pair => Arbitrage.new pair.1 pair.2

/-- The symbols of the spot assets that have a futures asset of equal base. -/
def spotSymbols (exchanges : List ListedExchange) : Finset String :=
  ((assetPairs exchanges).map fun pair => pair.1.symbol).toFinset

/-- The entries of all exchanges, in the order in which they are pushed. -/
def symbolEntries (exchanges : List ListedExchange) : List SymbolEntry :=
  exchanges.flatMap fun exchange =>
    (((values exchange.assets.spot).filter fun asset => asset.quote = "USDT").map fun asset =>
      (asset, .spot, exchange.name)) ++
    ((values exchange.assets.future).filter fun asset => asset.quote = "USDT").map fun asset =>
      (asset, .future, exchange.name)

/-- Pushing an entry extends the group of its base. -/
theorem holds_pushSymbol {l : List SymbolEntry} {map : BTreeMap String (List SymbolEntry)}
    (h : Grouping.Holds (fun entry => entry.1.base) id l map) (entry : SymbolEntry) :
    Grouping.Holds (fun entry => entry.1.base) id (l ++ [entry]) (pushSymbol map entry) := by
  have hgroup := h.getD entry.1.base
  unfold pushSymbol
  rw [show (map.lookup entry.1.base).getD [] = _ from hgroup]
  exact h.insert entry

/-- The assets of one market are pushed in their order. -/
theorem holds_pushAssets (market : MarketType) (name : String) (assets : List Asset)
    {l : List SymbolEntry} {map : BTreeMap String (List SymbolEntry)}
    (h : Grouping.Holds (fun entry => entry.1.base) id l map) :
    Grouping.Holds (fun entry => entry.1.base) id
      (l ++ (assets.filter fun asset => asset.quote = "USDT").map fun asset =>
        (asset, market, name)) (pushAssets market name map assets) := by
  induction assets generalizing l map with
  | nil => simpa [pushAssets] using h
  | cons asset rest ih =>
    by_cases hquote : asset.quote = "USDT"
    · have hrest := ih (holds_pushSymbol h (asset, market, name))
      simpa [pushAssets, hquote] using hrest
    · simpa [pushAssets, hquote] using ih h

/-- The map holds the entries of all exchanges, grouped by base. -/
theorem holds_symbolMap (exchanges : List ListedExchange) :
    Grouping.Holds (fun entry => entry.1.base) id (symbolEntries exchanges)
      (symbolMap exchanges) := by
  suffices hfrom : ∀ (l : List SymbolEntry) (map : BTreeMap String (List SymbolEntry)),
      Grouping.Holds (fun entry => entry.1.base) id l map →
        Grouping.Holds (fun entry => entry.1.base) id (l ++ symbolEntries exchanges)
          (exchanges.foldl (fun map exchange =>
            pushAssets .future exchange.name
              (pushAssets .spot exchange.name map (values exchange.assets.spot))
              (values exchange.assets.future)) map) from
    hfrom [] ∅ Grouping.holds_nil
  induction exchanges with
  | nil =>
    intro l map h
    simpa [symbolEntries] using h
  | cons exchange rest ih =>
    intro l map h
    have hspot := holds_pushAssets .spot exchange.name (values exchange.assets.spot) h
    have hfuture := holds_pushAssets .future exchange.name (values exchange.assets.future) hspot
    have hrest := ih _ _ hfuture
    simpa only [symbolEntries, List.flatMap_cons, List.foldl_cons, List.append_assoc] using hrest

/-- The values of a map of groups are the groups of its keys, in their order. -/
theorem values_of_holds {α : Type*} {key : α → String} {l : List α}
    {map : BTreeMap String (List α)} (h : Grouping.Holds key id l map) :
    values map = (map.keys.sort (· ≤ ·)).map (Grouping.group key l) := by
  have hentry : ∀ k ∈ map.keys.sort (· ≤ ·), ((map.lookup k).map fun value => (k, value)) =
      some (k, Grouping.group key l k) := by
    intro k hk
    rw [h.lookup ((Finset.mem_sort _).mp hk)]
    rfl
  unfold values entries
  rw [List.filterMap_congr hentry, List.map_filterMap]
  exact congrFun List.filterMap_eq_map _

/-- The assets of the entries of one market. -/
def assetsOf (market : MarketType) (entries : List SymbolEntry) : List Asset :=
  (entries.filter fun entry => entry.2.1 = market).map Prod.fst

/-- The spot entries are the spot assets. -/
theorem assetsOf_spot (exchanges : List ListedExchange) :
    assetsOf .spot (symbolEntries exchanges) = spotAssets exchanges := by
  simp [assetsOf, symbolEntries, spotAssets, List.filter_flatMap, List.map_flatMap,
    Function.comp_def, List.filter_map]

/-- The futures entries are the futures assets. -/
theorem assetsOf_future (exchanges : List ListedExchange) :
    assetsOf .future (symbolEntries exchanges) = futureAssets exchanges := by
  simp [assetsOf, symbolEntries, futureAssets, List.filter_flatMap, List.map_flatMap,
    Function.comp_def, List.filter_map]

/-- The assets of one market in a group are the group of the assets of this market. -/
theorem assetsOf_group (market : MarketType) (entries : List SymbolEntry) (base : String) :
    assetsOf market (Grouping.group (fun entry => entry.1.base) entries base) =
      Grouping.group Asset.base (assetsOf market entries) base := by
  unfold assetsOf Grouping.group
  rw [List.filter_filter, List.filter_map, List.filter_filter]
  simp only [Function.comp_def, Bool.and_comm]

/-- The pairs of assets in the order in which their arbitrages are made. -/
def crossPairs (exchanges : List ListedExchange) : List (Asset × Asset) :=
  (values (symbolMap exchanges)).flatMap fun entries =>
    assetsOf .spot entries ×ˢ assetsOf .future entries

/-- The pairs are those of the product with equal base. -/
theorem perm_crossPairs (exchanges : List ListedExchange) :
    (crossPairs exchanges).Perm (assetPairs exchanges) := by
  have hholds := holds_symbolMap exchanges
  unfold crossPairs
  rw [values_of_holds hholds, List.flatMap_map]
  simp only [assetsOf_group, assetsOf_spot, assetsOf_future]
  refine Grouping.perm_flatMap_product _ _ (Finset.sort_nodup _ _) fun asset hasset => ?_
  rw [← assetsOf_spot] at hasset
  obtain ⟨entry, hentry, rfl⟩ := List.mem_map.mp hasset
  rw [Finset.mem_sort, hholds.mem_keys]
  exact ⟨entry, (List.mem_filter.mp hentry).1, rfl⟩

/-- A loop over lists that are made from elements is a loop over the concatenated lists. -/
theorem foldlM_flatMap {α β γ : Type*} (f : α → List β) (g : γ → β → Option γ) (l : List α)
    (init : γ) : (l.flatMap f).foldlM g init = l.foldlM (fun acc x => (f x).foldlM g acc) init := by
  induction l generalizing init with
  | nil => rfl
  | cons x rest ih =>
    rw [List.flatMap_cons, List.foldlM_append, List.foldlM_cons]
    exact congrArg _ (funext ih)

/-- The nested loops push the arbitrages of the pairs one after the other. -/
theorem crossArbitrages_eq_foldlM (exchanges : List ListedExchange) :
    (crossArbitrages exchanges : Option (HashMap String (Arc (List (Arbitrage D))))) =
      (crossPairs exchanges).foldlM (fun map pair => pushArbitrage map pair.1 pair.2) ∅ := by
  unfold crossArbitrages crossPairs
  rw [foldlM_flatMap]
  congr 1
  funext map entries
  change _ = ((assetsOf .spot entries).flatMap fun spot =>
    (assetsOf .future entries).map (Prod.mk spot)).foldlM _ map
  rw [foldlM_flatMap]
  simp only [assetsOf, List.foldlM_map]

/-- The shared list of the arbitrages of some pairs. -/
def sharedArbitrages (pairs : List (Asset × Asset)) : Arc (List (Arbitrage D)) :=
  Arc.new (pairs.map fun pair => Arbitrage.new pair.1 pair.2)

/-- A shared list has one owner when it is extended. -/
theorem pushArbitrage_of_holds {pairs : List (Asset × Asset)}
    {map : HashMap String (Arc (List (Arbitrage D)))}
    (h : Grouping.Holds (fun pair => pair.1.symbol) sharedArbitrages pairs map)
    (pair : Asset × Asset) : ∃ next, pushArbitrage map pair.1 pair.2 = some next ∧
      Grouping.Holds (fun pair => pair.1.symbol) sharedArbitrages (pairs ++ [pair]) next := by
  refine ⟨_, ?_, h.insert pair⟩
  have hgroup : (map.lookup pair.1.symbol).getD (Arc.new []) = _ := h.getD pair.1.symbol
  unfold pushArbitrage
  rw [hgroup]
  simp [sharedArbitrages, Arc.new, Arc.getMut]

/-- The loops never find a shared list with another owner, and end with the arbitrages grouped by
spot symbol. -/
theorem exists_crossArbitrages (exchanges : List ListedExchange) :
    ∃ map : HashMap String (Arc (List (Arbitrage D))), crossArbitrages exchanges = some map ∧
      Grouping.Holds (fun pair => pair.1.symbol) sharedArbitrages (crossPairs exchanges) map := by
  suffices hfrom : ∀ (pairs done : List (Asset × Asset))
      (map : HashMap String (Arc (List (Arbitrage D)))),
      Grouping.Holds (fun pair => pair.1.symbol) sharedArbitrages done map →
        ∃ last, pairs.foldlM (fun map pair => pushArbitrage map pair.1 pair.2) map = some last ∧
          Grouping.Holds (fun pair => pair.1.symbol) sharedArbitrages (done ++ pairs) last by
    rw [crossArbitrages_eq_foldlM]
    exact hfrom (crossPairs exchanges) [] ∅ Grouping.holds_nil
  intro pairs
  induction pairs with
  | nil =>
    intro done map h
    exact ⟨map, rfl, by rwa [List.append_nil]⟩
  | cons pair rest ih =>
    intro done map h
    obtain ⟨next, hnext, hholds⟩ := pushArbitrage_of_holds h pair
    obtain ⟨last, hlast, hend⟩ := ih (done ++ [pair]) next hholds
    refine ⟨last, ?_, by rwa [List.append_assoc] at hend⟩
    rw [List.foldlM_cons, hnext]
    exact hlast

end Arbexpert.Worker
