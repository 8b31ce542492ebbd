import Arbexpert.Worker.Setup
import Arbexpert.Worker.StartMonitor

/-!
# What is published and what is watched

The publishing run and the workers set up the same exchange, whose assets are kept by symbol. One
arbitrage is published for each base whose pair with USDT is traded in both markets. It finds its
exchange when its monitor starts, and the symbols that its two tasks watch are turned back into the
names under which the exchange trades the pair.
-/

namespace Arbexpert.Worker

open Arbexpert.Base Arbexpert.Exchange Arbexpert.Gate

attribute [ext] Asset

section Collected

variable {assets : List Asset} {asset : Asset}

/-- The values of a map are what its lookups find. -/
theorem mem_values_iff {V : Type*} {map : BTreeMap String V} {value : V} :
    value ∈ values map ↔ ∃ key, map.lookup key = some value := by
  rw [values, List.mem_map]
  constructor
  · rintro ⟨⟨key, _⟩, hentry, rfl⟩
    exact ⟨key, mem_entries.mp hentry⟩
  · rintro ⟨key, hkey⟩
    exact ⟨(key, value), mem_entries.mpr hkey, rfl⟩

/-- The last asset with a symbol is kept. -/
theorem lookup_collectAssets (assets : List Asset) (symbol : String) :
    (collectAssets assets).lookup symbol =
      (assets.filter fun asset => asset.symbol = symbol).getLast? := by
  induction assets using List.reverseRecOn with
  | nil => rfl
  | append_singleton rest asset ih =>
    unfold collectAssets at ih ⊢
    rw [List.foldl_append, List.foldl_cons, List.foldl_nil, List.filter_append]
    by_cases hsymbol : asset.symbol = symbol
    · subst hsymbol
      rw [Finmap.lookup_insert, List.filter_cons_of_pos (by simp), List.filter_nil,
        List.getLast?_concat]
    · rw [Finmap.lookup_insert_of_ne _ (Ne.symm hsymbol), ih,
        List.filter_cons_of_neg (by simpa using hsymbol), List.filter_nil, List.append_nil]

/-- Of assets that are told apart by their symbols, all are kept and no other one. -/
theorem mem_collectAssets_iff
    (hsymbols : ∀ asset ∈ assets, ∀ other ∈ assets, asset.symbol = other.symbol → asset = other) :
    asset ∈ values (collectAssets assets) ↔ asset ∈ assets := by
  rw [mem_values_iff]
  simp only [lookup_collectAssets]
  constructor
  · rintro ⟨symbol, hlast⟩
    exact (List.mem_filter.mp (List.mem_of_getLast? hlast)).1
  · intro hmem
    have hgroup : asset ∈ assets.filter fun other => other.symbol = asset.symbol :=
      List.mem_filter.mpr ⟨hmem, by simp⟩
    refine ⟨asset.symbol, ?_⟩
    obtain ⟨last, hlast⟩ := Option.isSome_iff_exists.mp
      (List.getLast?_isSome.mpr (List.ne_nil_of_mem hgroup))
    obtain ⟨hother, hsame⟩ := List.mem_filter.mp (List.mem_of_getLast? hlast)
    rw [hlast, hsymbols last hother asset hmem (of_decide_eq_true hsame)]

end Collected

section Names

variable {market : MarketType} {name base : String}

/-- A name without an underscore has no second asset. -/
theorem underscore_of_quote (h : (assetOf market name).quote = "USDT") : '_' ∈ name.toList := by
  by_contra hnone
  have hdrop : name.toList.dropWhile (· ≠ '_') = [] :=
    List.dropWhile_eq_nil_iff.mpr fun c hc => by
      simpa using ne_of_mem_of_not_mem hc hnone
  have hquote : (assetOf market name).quote = "" := by
    simp only [assetOf, PairText.splitFirst, hdrop]
    rfl
  rw [hquote] at h
  exact absurd h (by decide)

/-- The name of the pair of a base with USDT. -/
theorem assetOf_usdt (market : MarketType) (h : '_' ∉ base.toList) :
    (assetOf market (base ++ "_USDT")).base = base ∧
      (assetOf market (base ++ "_USDT")).quote = "USDT" := by
  have hsplit : PairText.splitFirst '_' (base ++ "_USDT").toList =
      (base.toList, "USDT".toList) := by
    rw [String.toList_append]
    exact PairText.splitFirst_append_cons h _
  simp only [assetOf, hsplit, String.ofList_toList, and_self]

end Names

section Published

/-- The names of the traded markets have neither slashes nor colons. -/
def WellNamed (response : MarketType → Value) : Prop :=
  ∀ market, ∀ name ∈ tradedNames market (response market),
    '/' ∉ name.toList ∧ ':' ∉ name.toList

/-- What `setup_exchanges` returns, when the responses with the assets of the markets have come. -/
def setupExchanges (response : MarketType → Value) : List ListedExchange :=
  [⟨"Gate", ⟨collectAssets (Gate.fetchAssetsBy .spot (response .spot)),
    collectAssets (Gate.fetchAssetsBy .future (response .future))⟩⟩]

/-- An arbitrage is published when it is in the shared list of a spot symbol. -/
def Published {D : Type*} [DecimalArith D] (exchanges : List ListedExchange) (item : Arbitrage D) :
    Prop :=
  ∃ map, crossArbitrages exchanges = some map ∧
    ∃ key arc, map.lookup key = some arc ∧ item ∈ arc.value

variable {D : Type*} [DecimalArith D] {response : MarketType → Value} {item : Arbitrage D}
  {market : MarketType} {name other : String}

/-- The pair of a base with USDT is traded in both markets. -/
def TradedBase (response : MarketType → Value) (base : String) : Prop :=
  '_' ∉ base.toList ∧ ∀ market, base ++ "_USDT" ∈ tradedNames market (response market)

/-- The arbitrage of a base. -/
def baseArbitrage (base : String) : Arbitrage D :=
  Arbitrage.new (assetOf .spot (base ++ "_USDT")) (assetOf .future (base ++ "_USDT"))

/-- The published arbitrages are those of the pairs of assets. -/
theorem published_iff_pair {exchanges : List ListedExchange} :
    Published exchanges item ↔
      ∃ pair ∈ assetPairs exchanges, item = Arbitrage.new pair.1 pair.2 := by
  obtain ⟨map, hmap, hholds⟩ := exists_crossArbitrages (D := D) exchanges
  constructor
  · rintro ⟨other, hother, key, arc, hlookup, hitem⟩
    cases hmap.symm.trans hother
    have hkey : key ∈ map.keys := by
      rw [Finmap.mem_keys, ← Finmap.lookup_isSome, hlookup]
      rfl
    cases (hholds.lookup hkey).symm.trans hlookup
    obtain ⟨pair, hpair, rfl⟩ := List.mem_map.mp hitem
    exact ⟨pair, (perm_crossPairs exchanges).mem_iff.mp (List.mem_filter.mp hpair).1, rfl⟩
  · rintro ⟨pair, hpair, rfl⟩
    have hcross := (perm_crossPairs exchanges).mem_iff.mpr hpair
    have hkey : pair.1.symbol ∈ map.keys := hholds.mem_keys.mpr ⟨pair, hcross, rfl⟩
    refine ⟨map, hmap, pair.1.symbol, _, hholds.lookup hkey, ?_⟩
    exact List.mem_map_of_mem (List.mem_filter.mpr ⟨hcross, by simp⟩)

/-- Assets of names without slashes and colons are told apart by their symbols. -/
theorem assetOf_eq_of_symbol (hname : '/' ∉ name.toList ∧ ':' ∉ name.toList)
    (h : (assetOf market name).symbol = (assetOf market other).symbol) :
    assetOf market name = assetOf market other := by
  obtain ⟨hbaseSlash, hquoteSlash⟩ := not_mem_assetOf market hname.1
  obtain ⟨-, hquoteColon⟩ := not_mem_assetOf market hname.2
  have htext := congrArg String.toList h
  suffices hparts : (assetOf market name).base.toList = (assetOf market other).base.toList ∧
      (assetOf market name).quote.toList = (assetOf market other).quote.toList by
    obtain ⟨hbase, hquote⟩ := hparts
    exact Asset.ext h (String.toList_injective hbase) (String.toList_injective hquote) rfl rfl
  cases market with
  | spot =>
    have hlists : (assetOf .spot name).base.toList ++ '/' :: (assetOf .spot name).quote.toList =
        (assetOf .spot other).base.toList ++ '/' :: (assetOf .spot other).quote.toList := by
      simpa [assetOf] using htext
    obtain ⟨hbase, -, hquote⟩ :=
      (List.append_cons_inj_of_notMem hbaseSlash hquoteSlash).mp hlists
    exact ⟨hbase, hquote⟩
  | future =>
    have hlists : (assetOf .future name).base.toList ++ '/' ::
        ((assetOf .future name).quote.toList ++ ':' :: (assetOf .future name).quote.toList) =
        (assetOf .future other).base.toList ++ '/' ::
        ((assetOf .future other).quote.toList ++ ':' :: (assetOf .future other).quote.toList) := by
      simpa [assetOf] using htext
    have hslash : '/' ∉ (assetOf .future name).quote.toList ++
        ':' :: (assetOf .future name).quote.toList := by
      simp [hquoteSlash]
    obtain ⟨hbase, -, hrest⟩ := (List.append_cons_inj_of_notMem hbaseSlash hslash).mp hlists
    obtain ⟨hquote, -⟩ := (List.append_cons_inj_of_notMem hquoteColon hquoteColon).mp hrest
    exact ⟨hbase, hquote⟩

/-- Every asset that is fetched is kept. -/
theorem WellNamed.mem_values_iff (h : WellNamed response) (asset : Asset) :
    asset ∈ values (collectAssets (Gate.fetchAssetsBy market (response market))) ↔
      ∃ name ∈ tradedNames market (response market), assetOf market name = asset := by
  rw [mem_collectAssets_iff, Gate.fetchAssetsBy, List.mem_map]
  intro first hfirst second hsecond hsymbol
  obtain ⟨name, hname, rfl⟩ := List.mem_map.mp hfirst
  obtain ⟨other, hother, rfl⟩ := List.mem_map.mp hsecond
  exact assetOf_eq_of_symbol (h market name hname) hsymbol

/-- A traded name with the quote USDT is that of its base. -/
theorem WellNamed.base_append (h : WellNamed response)
    (hname : name ∈ tradedNames market (response market))
    (hquote : (assetOf market name).quote = "USDT") :
    (assetOf market name).base ++ "_USDT" = name ∧ '_' ∉ (assetOf market name).base.toList := by
  obtain ⟨hslash, hcolon⟩ := h market name hname
  have hsplit := base_append_quote market ⟨name, underscore_of_quote hquote, hslash, hcolon⟩
  rw [hquote, String.append_assoc] at hsplit
  refine ⟨hsplit, ?_⟩
  simpa [assetOf] using PairText.not_mem_splitFirst_fst '_' name.toList

/-- The assets that are quoted in USDT are those of the bases whose pair with it is traded. -/
theorem WellNamed.mem_quoted_iff (h : WellNamed response) (asset : Asset) :
    (asset ∈ values (collectAssets (Gate.fetchAssetsBy market (response market))) ∧
        asset.quote = "USDT") ↔
      ∃ base, '_' ∉ base.toList ∧ base ++ "_USDT" ∈ tradedNames market (response market) ∧
        asset = assetOf market (base ++ "_USDT") := by
  rw [h.mem_values_iff]
  constructor
  · rintro ⟨⟨name, hname, rfl⟩, hquote⟩
    obtain ⟨happend, hbase⟩ := h.base_append hname hquote
    exact ⟨_, hbase, happend.symm ▸ hname, by rw [happend]⟩
  · rintro ⟨base, hbase, hname, rfl⟩
    exact ⟨⟨_, hname, rfl⟩, (assetOf_usdt market hbase).2⟩

/-- The pairs of assets are those of the bases whose pair with USDT is traded in both markets. -/
theorem WellNamed.mem_assetPairs_iff (h : WellNamed response) (spot future : Asset) :
    (spot, future) ∈ assetPairs (setupExchanges response) ↔
      ∃ base, TradedBase response base ∧
        spot = assetOf .spot (base ++ "_USDT") ∧ future = assetOf .future (base ++ "_USDT") := by
  have hmem : (spot, future) ∈ assetPairs (setupExchanges response) ↔
      ((spot ∈ values (collectAssets (Gate.fetchAssetsBy .spot (response .spot))) ∧
        spot.quote = "USDT") ∧
      (future ∈ values (collectAssets (Gate.fetchAssetsBy .future (response .future))) ∧
        future.quote = "USDT")) ∧ spot.base = future.base := by
    simp [assetPairs, spotAssets, futureAssets, setupExchanges, List.mem_product]
  rw [hmem, h.mem_quoted_iff, h.mem_quoted_iff]
  constructor
  · rintro ⟨⟨⟨base, hbase, hspot, rfl⟩, other, hother, hfuture, rfl⟩, hsame⟩
    rw [(assetOf_usdt .spot hbase).1, (assetOf_usdt .future hother).1] at hsame
    subst hsame
    exact ⟨base, ⟨hbase, fun market => market.casesOn hspot hfuture⟩, rfl, rfl⟩
  · rintro ⟨base, ⟨hbase, htraded⟩, rfl, rfl⟩
    refine ⟨⟨⟨base, hbase, htraded .spot, rfl⟩, base, hbase, htraded .future, rfl⟩, ?_⟩
    rw [(assetOf_usdt .spot hbase).1, (assetOf_usdt .future hbase).1]

/-- A published arbitrage is that of a base. -/
theorem Published.exists_base (h : Published (setupExchanges response) item)
    (hnames : WellNamed response) :
    ∃ base, TradedBase response base ∧ item = baseArbitrage base := by
  obtain ⟨⟨spot, future⟩, hpair, rfl⟩ := published_iff_pair.mp h
  obtain ⟨base, htraded, rfl, rfl⟩ := (hnames.mem_assetPairs_iff spot future).mp hpair
  exact ⟨base, htraded, rfl⟩

/-- The arbitrage of a base is published. -/
theorem WellNamed.published (h : WellNamed response) {base : String}
    (htraded : TradedBase response base) :
    Published (setupExchanges response) (baseArbitrage base : Arbitrage D) :=
  published_iff_pair.mpr
    ⟨(_, _), (h.mem_assetPairs_iff _ _).mpr ⟨base, htraded, rfl, rfl⟩, rfl⟩

/-- One arbitrage is published for each base whose pair with USDT is traded in both markets, and
no other one. -/
theorem published_iff_traded (hnames : WellNamed response) :
    Published (setupExchanges response) item ↔
      ∃ base, TradedBase response base ∧ item = baseArbitrage base := by
  constructor
  · intro hpublished
    exact hpublished.exists_base hnames
  · rintro ⟨base, htraded, rfl⟩
    exact hnames.published htraded

/-- Responses that list bitcoin and ether in both markets, and another base in the spot market. -/
def basesResponse : MarketType → Value
  | .spot => .array
    [.object [("id", .string "BTC_USDT"), ("trade_status", .string "tradable")],
      .object [("id", .string "SOL_USDT"), ("trade_status", .string "tradable")],
      .object [("id", .string "ETH_USDT"), ("trade_status", .string "tradable")]]
  | .future => .array
    [.object [("name", .string "ETH_USDT"), ("status", .string "trading")],
      .object [("name", .string "BTC_USDT"), ("status", .string "trading")],
      .object [("name", .string "SOL_USDT"), ("status", .string "delisting")]]

/-- The names of the responses are well formed. -/
theorem wellNamed_basesResponse : WellNamed basesResponse := by
  intro market
  cases market with
  | spot => decide
  | future => decide

/-- Two of their bases are traded in both markets. -/
theorem tradedBase_basesResponse {base : String} (hbase : base = "BTC" ∨ base = "ETH") :
    TradedBase basesResponse base := by
  obtain rfl | rfl := hbase
  · exact ⟨by decide, fun market => by cases market <;> decide⟩
  · exact ⟨by decide, fun market => by cases market <;> decide⟩

/-- The arbitrages of these two are published, and that of the third base is not. -/
theorem basesResponse_published :
    Published (setupExchanges basesResponse) (baseArbitrage "BTC" : Arbitrage ℚ) ∧
      Published (setupExchanges basesResponse) (baseArbitrage "ETH" : Arbitrage ℚ) ∧
      ¬ Published (setupExchanges basesResponse) (baseArbitrage "SOL" : Arbitrage ℚ) := by
  refine ⟨(published_iff_traded wellNamed_basesResponse).mpr
    ⟨"BTC", tradedBase_basesResponse (.inl rfl), rfl⟩,
    (published_iff_traded wellNamed_basesResponse).mpr
      ⟨"ETH", tradedBase_basesResponse (.inr rfl), rfl⟩, fun hpublished => ?_⟩
  obtain ⟨base, htraded, hbase⟩ := (published_iff_traded wellNamed_basesResponse).mp hpublished
  have hspot : assetOf .spot "SOL_USDT" = assetOf .spot (base ++ "_USDT") :=
    congrArg Arbitrage.spot hbase
  have hsame := congrArg Asset.base hspot
  rw [(assetOf_usdt .spot htraded.1).1] at hsame
  have hsol : base = "SOL" := hsame.symm
  rw [hsol] at htraded
  exact absurd (htraded.2 .future) (by decide)

end Published

section Watched

variable {C D : Type*} [DecimalArith D] {response : MarketType → Value} {base : String}
  {arbitrages : ℕ → Arbitrage D} {item : ℕ}

/-- The symbols that are watched for the arbitrage of a base name its pair and their market. -/
theorem symbol_baseArbitrage (h : TradedBase response base) (hnames : WellNamed response)
    (market : MarketType) :
    normalizeSymbol gateSeparator ((baseArbitrage base : Arbitrage D).symbol market) =
        base ++ "_USDT" ∧ marketOf ((baseArbitrage base : Arbitrage D).symbol market) = market := by
  obtain ⟨hslash, hcolon⟩ := hnames market _ (h.2 market)
  obtain ⟨id, hid⟩ : ∃ id : MarketId, id.name = base ++ "_USDT" :=
    ⟨⟨_, underscore_of_quote (assetOf_usdt market h.1).2, hslash, hcolon⟩, rfl⟩
  have hstands : StandsFor D (assetOf market id.name)
      ((baseArbitrage base : Arbitrage D).symbol market) := by
    refine .inr ⟨baseArbitrage base, ?_, ?_, ?_⟩ <;> cases market <;> rw [hid] <;> rfl
  exact hid ▸ hstands.normalizeSymbol_eq

/-- The exchange of every leg is set up. -/
theorem exchange_leg_baseArbitrage (market : MarketType) :
    ((baseArbitrage base : Arbitrage D).leg market).exchange = "Gate" := by
  cases market <;> rfl

omit [DecimalArith D] in
/-- A monitor finds the exchanges of its arbitrages. -/
theorem startMonitor_isSome {exchanges : List String} (hexchanges : "Gate" ∈ exchanges)
    (hgate : ∀ k market, ((arbitrages k).leg market).exchange = "Gate") (items : List ℕ) :
    (startMonitor exchanges arbitrages items).isSome := by
  have hfound : (exchanges.find? (· = "Gate")).isSome :=
    List.find?_isSome.mpr ⟨"Gate", hexchanges, by simp⟩
  induction items with
  | nil => rfl
  | cons item rest ih =>
    obtain ⟨found, hfound⟩ := Option.isSome_iff_exists.mp hfound
    obtain ⟨more, hmore⟩ := Option.isSome_iff_exists.mp ih
    have hspot : (arbitrages item).spot.exchange = "Gate" := hgate item .spot
    have hfuture : (arbitrages item).future.exchange = "Gate" := hgate item .future
    simp [startMonitor, itemTasks, hspot, hfuture, hfound, hmore]

omit [DecimalArith D] in
/-- Among the tasks of the legs of an arbitrage, one watches in each market. -/
theorem countP_legTasks (hmarket : ∀ k market, marketOf ((arbitrages k).symbol market) = market)
    (items : List ℕ) (market : MarketType) :
    ((items.flatMap (legTasks arbitrages)).countP fun task =>
      task.arbitrage = item ∧ marketOf task.symbol = market) = items.count item := by
  induction items with
  | nil => rfl
  | cons first rest ih =>
    rw [List.flatMap_cons, List.countP_append, ih, List.count_cons, Nat.add_comm]
    congr 1
    by_cases hfirst : first = item
    · cases market <;> simp [legTasks, hmarket, hfirst]
    · simp [legTasks, hfirst]

end Watched

namespace WorkerLoop

variable {C D : Type*} [DecimalArith D] [LinearOrder D] {response : MarketType → Value}
  {arbitrages : ℕ → Arbitrage D} {exchanges : List String} {s t : WorkerLoop C D}

/-- The exchanges of a worker stay as they were set up. -/
theorem exchanges_of_step {action : WorkerAction C D} (hstep : s.step action = some t) :
    t.exchanges = s.exchanges := by
  cases action with
  | send request =>
    cases hstep
    rfl
  | recv =>
    simp only [WorkerLoop.step] at hstep
    split at hstep
    · cases hstep
    · rename_i request channel hchannel
      cases request with
      | startArbitrage command =>
        cases hstep
        rfl
      | startMonitor items =>
        obtain ⟨tasks, _, rfl⟩ := Option.map_eq_some_iff.mp hstep
        rfl
  | finish call i result =>
    obtain ⟨running, task, monitor, _, _, _, rfl⟩ := finish_eq_some hstep
    rfl

/-- A worker that is sent published arbitrages never misses an exchange. Its tasks watch the pair of
a traded base at this exchange, and each call watches each of its arbitrages once in each market. -/
theorem worker_watches_published (hnames : WellNamed response)
    (hpublished : ∀ k, Published (setupExchanges response) (arbitrages k)) {s : WorkerLoop C D}
    (hrun : GuardedRun.Reaches step (fun _ _ => True)
      (start ((setupExchanges response).map ListedExchange.name) arbitrages) s) :
    (s.channel ≠ [] → (s.step .recv).isSome) ∧
    ∀ call ∈ s.calls,
      (∀ task ∈ call.tasks, task.target = "Gate" ∧
        ∃ base, TradedBase response base ∧
          normalizeSymbol gateSeparator task.symbol = base ++ "_USDT") ∧
      ∀ item market, (call.tasks.countP fun task =>
        task.arbitrage = item ∧ marketOf task.symbol = market) = call.items.count item := by
  have hgate (k : ℕ) (market : MarketType) : ((arbitrages k).leg market).exchange = "Gate" := by
    obtain ⟨base, _, hbase⟩ := (hpublished k).exists_base hnames
    rw [hbase, exchange_leg_baseArbitrage]
  have hmarket (k : ℕ) (market : MarketType) :
      marketOf ((arbitrages k).symbol market) = market := by
    obtain ⟨base, htraded, hbase⟩ := (hpublished k).exists_base hnames
    rw [hbase, (symbol_baseArbitrage htraded hnames market).2]
  have hkept : s.Conserved arbitrages ∧ s.exchanges = ["Gate"] :=
    hrun.invariant (I := fun s => s.Conserved arbitrages ∧ s.exchanges = ["Gate"])
      ⟨conserved_start, rfl⟩ fun _ _ _ h _ hstep =>
        ⟨h.1.step hstep, (exchanges_of_step hstep).trans h.2⟩
  obtain ⟨hconserved, hexchanges⟩ := hkept
  constructor
  · intro hchannel
    obtain ⟨request, rest, hcons⟩ := List.exists_cons_of_ne_nil hchannel
    unfold step
    rw [hcons]
    cases request with
    | startArbitrage command => rfl
    | startMonitor items =>
      have hkeep (k : ℕ) (market : MarketType) :
          ((s.arbitrages k).leg market).exchange = "Gate" := by
        rw [← hgate k market]
        obtain ⟨hspot, hfuture⟩ := hconserved.assets k
        cases market with
        | spot => exact congrArg Asset.exchange hspot
        | future => exact congrArg Asset.exchange hfuture
      have hfound : "Gate" ∈ s.exchanges := hexchanges ▸ List.mem_singleton_self _
      exact Option.isSome_map.trans (startMonitor_isSome hfound hkeep items)
  · intro call hcall
    have hperm := hconserved.tasks call hcall
    refine ⟨fun task htask => ?_, fun item market => ?_⟩
    · obtain ⟨item, _, hmem⟩ := List.mem_flatMap.mp (hperm.mem_iff.mp htask)
      obtain ⟨_, htarget⟩ := target_of_mem hmem
      refine ⟨htarget.trans (hgate item _), ?_⟩
      obtain ⟨base, htraded, hbase⟩ := (hpublished item).exists_base hnames
      obtain ⟨market, _, rfl⟩ := List.mem_map.mp hmem
      refine ⟨base, htraded, ?_⟩
      dsimp only
      rw [hbase, (symbol_baseArbitrage htraded hnames market).1]
    · rw [hperm.countP_eq, countP_legTasks hmarket]

/-- The arbitrages of the two bases that are traded in both markets. -/
def basesArbitrages (k : ℕ) : Arbitrage ℚ := baseArbitrage (if k = 0 then "BTC" else "ETH")

/-- The worker is asked to monitor both arbitrages, and later one of them again. -/
def basesRun : List (WorkerAction Unit ℚ) :=
  [.send (.startMonitor [1, 0]), .recv, .finish 0 2 none, .send (.startMonitor [0]), .recv]

/-- The calls watch their bases, each once in each market. -/
theorem basesRun_watches : ∃ s : WorkerLoop Unit ℚ,
    GuardedRun.exec step (start ["Gate"] basesArbitrages) basesRun = some s ∧
      s.calls.map MonitorCall.items = [[1, 0], [0]] ∧
      ∀ call ∈ s.calls, (∀ task ∈ call.tasks, task.target = "Gate" ∧
        ∃ base, TradedBase basesResponse base ∧
          normalizeSymbol gateSeparator task.symbol = base ++ "_USDT") ∧
        ∀ item market, (call.tasks.countP fun task =>
          task.arbitrage = item ∧ marketOf task.symbol = market) = call.items.count item := by
  refine ⟨_, rfl, rfl, ?_⟩
  have hrun := GuardedRun.reaches_of_exec (GuardedRun.stepsSatisfy_of_forall
    (P := fun _ _ => True) fun _ _ _ => trivial)
    (rfl : GuardedRun.exec step (start ["Gate"] basesArbitrages) basesRun = _)
  have hpublished (k : ℕ) : Published (setupExchanges basesResponse) (basesArbitrages k) := by
    unfold basesArbitrages
    split
    · exact wellNamed_basesResponse.published (tradedBase_basesResponse (.inl rfl))
    · exact wellNamed_basesResponse.published (tradedBase_basesResponse (.inr rfl))
  exact (worker_watches_published wellNamed_basesResponse hpublished hrun).2

end WorkerLoop

end Arbexpert.Worker
