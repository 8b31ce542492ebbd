import Arbexpert.Exchange.Routing
import Arbexpert.Foundation.BoundedFamily
import Arbexpert.Foundation.GuardedRun

/-!
# How many symbols the sub-clients hold

A watch call that enters its symbol at once finds the room and the absence that it has
just checked. A call that was suspended while its sub-client connected enters its
symbol without another check, and this is the only way to exceed 35 symbols or to
subscribe a symbol twice.
-/

namespace Arbexpert.Exchange

open Arbexpert.Base

namespace ClientList

/-- No sub-client has more than 35 symbols, and no two listed ones share a symbol. -/
def Bounded (s : ClientList) : Prop :=
  BoundedFamily.IsBounded 35 s.listed fun c => (s.store c).symbols

/-- A step routes soundly: it leaves the market bounded, and a sub-client that leaves
the list has no symbol. -/
def RoutesSoundly (s : ClientList) (action : ListAction) : Prop :=
  ∀ t, s.step action = some t → t.Bounded ∧
    ∀ c ∈ s.listed, c ∉ t.listed → (t.store c).symbols = ∅

/-- A watch call that enters a symbol finds it subscribed at its sub-client, or finds
fewer than 35 symbols there and the symbol at no listed sub-client. -/
def HasRoom (s : ClientList) (c : ℕ) (action : SubAction) : Prop :=
  ∀ i symbol, (s.store c).entering action = some (i, symbol) →
    symbol ∈ (s.store c).symbols ∨
      (s.store c).symbols.card < 35 ∧ (c ∈ s.listed → ∀ d ∈ s.listed, symbol ∉ (s.store d).symbols)

/-- A watch call that was suspended, and whose closure succeeds, has room when it enters
its symbol. -/
def EntersWithRoom (s : ClientList) : ListAction → Prop
  | .client c action true => action.watchCall ≠ none → s.HasRoom c action
  | _ => True

/-- A bounded market whose sub-clients have one socket holder at most, and whose list
has only sub-clients that were made. -/
structure Sound (s : ClientList) : Prop where
  bounded : s.Bounded
  socket : ∀ c, (s.store c).Socket
  listed : ∀ c ∈ s.listed, c < s.created
  fresh : ∀ c, s.created ≤ c → s.store c = SubClient.new

variable {s t : ClientList} {c : ℕ} {client : SubClient} {i : ℕ} {symbol : String} {ok : Bool}
  {action : SubAction}

/-- A market without sub-clients is sound. -/
theorem sound_start : start.Sound where
  bounded := BoundedFamily.isBounded_empty
  socket _ := SubClient.socket_new
  listed := nofun
  fresh _ _ := rfl

/-- Replacing a sub-client replaces its symbols. -/
theorem symbols_setClient (s : ClientList) (c : ℕ) (client : SubClient) :
    (fun d => ((s.setClient c client).store d).symbols) =
      Function.update (fun d => (s.store d).symbols) c client.symbols := by
  funext d
  exact Function.apply_update (fun _ => SubClient.symbols) s.store c client d

/-- A sub-client with fewer symbols leaves the market bounded. -/
theorem Bounded.setClient (h : s.Bounded) (hsub : client.symbols ⊆ (s.store c).symbols) :
    (s.setClient c client).Bounded := by
  rw [Bounded, symbols_setClient]
  refine h.mono (List.Subset.refl _) fun d => ?_
  by_cases hdc : d = c
  · subst hdc
    rwa [Function.update_self]
  · rw [Function.update_of_ne hdc]

/-- A step of a watch call leaves the market bounded exactly if the symbol that it
enters has room there. -/
theorem bounded_callStep_iff (h : s.Sound) (hcall : action.watchCall = some i)
    (hstep : (s.store c).callStep i action ok = some client) :
    (s.setClient c client).Bounded ↔ (ok = true → s.HasRoom c action) := by
  have hsymbols := SubClient.callStep_symbols (h.socket c) hcall hstep
  have hbounded := h.bounded
  rw [Bounded, symbols_setClient, hsymbols]
  cases hentering : (s.store c).entering action with
  | none =>
    simp only [Option.elim_none]
    rw [Function.update_eq_self]
    refine iff_of_true hbounded fun _ j other hother => ?_
    rw [hentering] at hother
    cases hother
  | some call =>
    simp only [Option.elim_some]
    cases ok with
    | false =>
      simp only [Bool.false_eq_true, if_false, false_imp_iff, iff_true]
      rw [Function.update_eq_self]
      exact hbounded
    | true =>
      simp only [if_true, true_imp_iff]
      have hroom : s.HasRoom c action ↔ call.2 ∈ (s.store c).symbols ∨
          (s.store c).symbols.card < 35 ∧
            (c ∈ s.listed → ∀ d ∈ s.listed, call.2 ∉ (s.store d).symbols) := by
        refine ⟨fun hall => hall call.1 call.2 hentering, fun hone j other hother => ?_⟩
        rw [hentering] at hother
        cases hother
        exact hone
      rw [hroom]
      by_cases hmem : call.2 ∈ (s.store c).symbols
      · refine iff_of_true ?_ (Or.inl hmem)
        rw [BoundedFamily.update_insert_of_mem (fun d => (s.store d).symbols) hmem]
        exact hbounded
      · rw [or_iff_right hmem]
        exact hbounded.insert_iff hmem

/-- A sub-client that was made, or is replaced by itself, keeps the market sound. -/
theorem Sound.setClient (h : s.Sound) (hc : c < s.created) (hsocket : client.Socket)
    (hbounded : (s.setClient c client).Bounded) : (s.setClient c client).Sound := by
  refine ⟨hbounded, fun d => ?_, h.listed, fun d hd => ?_⟩
  · by_cases hdc : d = c
    · simpa [ClientList.setClient, hdc] using hsocket
    · simpa only [ClientList.setClient, Function.update_of_ne hdc] using h.socket d
  · have hdc : d ≠ c := by
      rintro rfl
      exact absurd hc (not_lt.mpr hd)
    simpa only [ClientList.setClient, Function.update_of_ne hdc] using h.fresh d hd

/-- The sub-client that is chosen has the symbol, or has room for it. -/
theorem Sound.choose (h : s.Sound) (symbol : String) :
    (s.choose symbol).1.Sound ∧ (s.choose symbol).2 < (s.choose symbol).1.created ∧
      (∀ d ∈ s.listed, d ∈ (s.choose symbol).1.listed) ∧
      (symbol ∈ ((s.choose symbol).1.store (s.choose symbol).2).symbols ∨
        ((s.choose symbol).1.store (s.choose symbol).2).symbols.card < 35 ∧
          ∀ d ∈ (s.choose symbol).1.listed, symbol ∉ ((s.choose symbol).1.store d).symbols) := by
  unfold ClientList.choose
  split
  · rename_i c hfind
    have hc : c ∈ s.listed := List.mem_of_find?_eq_some hfind
    have hhas : (s.store c).hasSymbol symbol = true := by simpa using List.find?_some hfind
    exact ⟨h, h.listed c hc, fun _ hd => hd, Or.inl (SubClient.hasSymbol_iff.mp hhas)⟩
  · rename_i hnone
    have habsent : ∀ d ∈ s.listed, symbol ∉ (s.store d).symbols := fun d hd hmem =>
      List.find?_eq_none.mp hnone d hd (SubClient.hasSymbol_iff.mpr hmem)
    split
    · rename_i c hfind
      have hc : c ∈ s.listed := List.mem_of_find?_eq_some hfind
      have hfree : (s.store c).subscribedCount < 35 := by simpa using List.find?_some hfind
      exact ⟨h, h.listed c hc, fun _ hd => hd, Or.inr ⟨hfree, habsent⟩⟩
    · have hnew : (s.store s.created).symbols = ∅ := by
        rw [h.fresh s.created le_rfl, SubClient.symbols_new]
      refine ⟨⟨h.bounded.append hnew, h.socket, fun d hd => ?_, fun d hd => ?_⟩,
        Nat.lt_succ_self _, fun d hd => List.mem_append_left _ hd, Or.inr ⟨?_, fun d hd => ?_⟩⟩
      · rcases List.mem_append.mp hd with hold | hlast
        · exact (h.listed d hold).trans (Nat.lt_succ_self _)
        · rw [List.mem_singleton.mp hlast]
          exact Nat.lt_succ_self _
      · exact h.fresh d ((Nat.le_succ _).trans hd)
      · simp [hnew]
      · rcases List.mem_append.mp hd with hold | hlast
        · exact habsent d hold
        · simp [List.mem_singleton.mp hlast, hnew]

/-- A watch call that starts leaves the market sound, and no sub-client is removed. -/
theorem Sound.watchOrderbook (h : s.Sound) (hstep : s.watchOrderbook i symbol ok = some t) :
    t.Sound ∧ ∀ d ∈ s.listed, d ∈ t.listed := by
  obtain ⟨hsound, hcreated, hlisted, hroom⟩ := h.choose symbol
  obtain ⟨client, hclient, rfl⟩ := Option.map_eq_some_iff.mp hstep
  refine ⟨hsound.setClient hcreated ((hsound.socket _).callStep hclient) ?_, hlisted⟩
  refine (bounded_callStep_iff hsound rfl hclient).mpr fun _ j other hentering => ?_
  obtain rfl := SubClient.entering_watch hentering
  exact hroom.imp_right fun hfree => ⟨hfree.1, fun _ => hfree.2⟩

/-- An unwatch call leaves the market sound, and a sub-client that it removes has no
symbol. -/
theorem Sound.unwatchOrderbook (h : s.Sound) (hstep : s.unwatchOrderbook i symbol ok = some t) :
    t.Sound ∧ ∀ d ∈ s.listed, d ∉ t.listed → (t.store d).symbols = ∅ := by
  unfold ClientList.unwatchOrderbook at hstep
  split at hstep
  · cases hstep
    exact ⟨h, fun d hd hcontra => absurd hd hcontra⟩
  · rename_i pos _
    obtain ⟨c, hc, hmap⟩ := Option.bind_eq_some_iff.mp hstep
    obtain ⟨client, hclient, rfl⟩ := Option.map_eq_some_iff.mp hmap
    have hmem : c ∈ s.listed := List.mem_of_getElem? hc
    have hset : (s.setClient c client).Sound :=
      h.setClient (h.listed c hmem) ((h.socket c).callStep hclient)
        (h.bounded.setClient (SubClient.callStep_unwatch_symbols hclient))
    simp only
    split
    · rename_i hempty
      refine ⟨⟨hset.bounded.mono (List.eraseIdx_subset ..) fun _ => Finset.Subset.refl _,
        hset.socket, fun d hd => hset.listed d (List.mem_of_mem_eraseIdx hd), hset.fresh⟩,
        fun d hd hgone => ?_⟩
      have hdc : d = c := by
        by_contra hne
        apply hgone
        apply List.mem_eraseIdx_iff_getElem?.mpr
        obtain ⟨k, hk⟩ := List.getElem?_of_mem hd
        refine ⟨k, ?_, hk⟩
        rintro rfl
        exact hne (Option.some.inj (hk.symm.trans hc))
      have hnone : client.symbols = ∅ := Finset.card_eq_zero.mp hempty.2
      simpa [hdc, ClientList.setClient] using hnone
    · exact ⟨hset, fun d hd hgone => absurd hd hgone⟩

/-- A sub-client that was not made does nothing by itself. -/
theorem step_new (hinternal : internal action = true) : SubClient.new.step action = none := by
  cases action with
  | watch | unwatch | subscribe | unsubscribe => cases hinternal
  | _ => rfl

/-- An action at a sub-client removes none, and routes soundly exactly if the call that
it runs enters with room. -/
theorem clientStep_iff (h : s.Sound) (hstep : s.clientStep c action ok = some t) :
    (t.Bounded ↔ s.EntersWithRoom (.client c action ok)) ∧ (t.Bounded → t.Sound) ∧
      t.listed = s.listed := by
  unfold clientStep at hstep
  split at hstep
  · rename_i hinternal
    have hmade {v : SubClient} (hv : (s.store c).step action = some v) : c < s.created := by
      by_contra hfresh
      rw [h.fresh c (not_lt.mp hfresh), step_new hinternal] at hv
      cases hv
    split at hstep
    · rename_i i hcall
      obtain ⟨client, hclient, rfl⟩ := Option.map_eq_some_iff.mp hstep
      obtain ⟨v, hv, _⟩ := Option.bind_eq_some_iff.mp hclient
      refine ⟨(bounded_callStep_iff h hcall hclient).trans ?_,
        h.setClient (hmade hv) ((h.socket c).callStep hclient), rfl⟩
      cases ok with
      | true => exact ⟨fun hroom _ => hroom rfl, fun hroom _ => hroom (by simp [hcall])⟩
      | false => exact iff_of_true nofun trivial
    · rename_i hcall
      obtain ⟨client, hclient, rfl⟩ := Option.map_eq_some_iff.mp hstep
      have hsub := SubClient.step_symbols hclient hcall (by rintro j ok rfl; cases hinternal)
        (by rintro j ok rfl; cases hinternal)
      have hbounded := h.bounded.setClient hsub
      refine ⟨iff_of_true hbounded ?_, h.setClient (hmade hclient) ((h.socket c).step hclient), rfl⟩
      cases ok with
      | true => exact fun hsome => absurd hcall hsome
      | false => trivial
  · cases hstep

/-- A step routes soundly exactly if the watch call that it resumes, if any, enters its
symbol with room. -/
theorem routesSoundly_iff (h : s.Sound) {action : ListAction} (hstep : s.step action = some t) :
    (s.RoutesSoundly action ↔ s.EntersWithRoom action) ∧ (s.RoutesSoundly action → t.Sound) := by
  have hroutes : s.RoutesSoundly action ↔
      t.Bounded ∧ ∀ c ∈ s.listed, c ∉ t.listed → (t.store c).symbols = ∅ := by
    refine ⟨fun hall => hall t hstep, fun hone v hv => ?_⟩
    obtain rfl := Option.some.inj (hstep.symm.trans hv)
    exact hone
  cases action with
  | watch i symbol ok =>
    obtain ⟨hsound, hkept⟩ := h.watchOrderbook hstep
    refine ⟨iff_of_true (hroutes.mpr ⟨hsound.bounded, fun c hc hgone => ?_⟩) trivial,
      fun _ => hsound⟩
    exact absurd (hkept c hc) hgone
  | unwatch i symbol ok =>
    obtain ⟨hsound, hempty⟩ := h.unwatchOrderbook hstep
    exact ⟨iff_of_true (hroutes.mpr ⟨hsound.bounded, hempty⟩) trivial, fun _ => hsound⟩
  | client c action ok =>
    obtain ⟨hiff, hsound, hlisted⟩ := clientStep_iff h hstep
    refine ⟨hroutes.trans (Iff.trans ?_ hiff), fun hall => hsound (hroutes.mp hall).1⟩
    refine ⟨And.left, fun hbounded => ⟨hbounded, fun d hd hgone => ?_⟩⟩
    exact absurd (hlisted ▸ hd) hgone

end ClientList

namespace ExchangePublic

/-- A step of an exchange routes soundly: it leaves both markets bounded, and a
sub-client that leaves the list of its market has no symbol. -/
def RoutesSoundly (separator : List Char) (s : ExchangePublic) (action : ExchangeAction) : Prop :=
  ∀ t, s.step separator action = some t → ∀ market, (t.clients market).Bounded ∧
    ∀ c ∈ (s.clients market).listed, c ∉ (t.clients market).listed →
      ((t.clients market).store c).symbols = ∅

/-- A watch call that was suspended has room when it enters its symbol. -/
def EntersWithRoom (separator : List Char) (s : ExchangePublic) (action : ExchangeAction) : Prop :=
  (s.clients (action.route separator).1).EntersWithRoom (action.route separator).2

/-- Replacing the sub-clients of one market leaves the other market alone. -/
theorem clients_setClients (s : ExchangePublic) (clients : ClientList)
    (market other : MarketType) : (s.setClients clients market).clients other =
      if other = market then clients else s.clients other := by
  cases market <;> cases other <;> rfl

/-- A step of an exchange routes soundly exactly if the watch call that it resumes, if
any, enters its symbol with room. -/
theorem routesSoundly_iff {separator : List Char} {s t : ExchangePublic}
    (h : ∀ market, (s.clients market).Sound) {action : ExchangeAction}
    (hstep : s.step separator action = some t) :
    (s.RoutesSoundly separator action ↔ s.EntersWithRoom separator action) ∧
      (s.RoutesSoundly separator action → ∀ market, (t.clients market).Sound) := by
  obtain ⟨clients, hclients, ht⟩ := Option.map_eq_some_iff.mp hstep
  obtain ⟨hiff, hsound⟩ := ClientList.routesSoundly_iff (h _) hclients
  have hmarkets (market : MarketType) : t.clients market =
      if market = (action.route separator).1 then clients else s.clients market := by
    rw [← ht, clients_setClients]
  have hroutes : s.RoutesSoundly separator action ↔
      (s.clients (action.route separator).1).RoutesSoundly (action.route separator).2 := by
    constructor
    · intro hall v hv
      obtain rfl := Option.some.inj (hclients.symm.trans hv)
      have hmarket := hall t hstep (action.route separator).1
      rwa [hmarkets, if_pos rfl] at hmarket
    · intro hone v hv market
      obtain rfl := Option.some.inj (hstep.symm.trans hv)
      rw [hmarkets]
      split
      · rename_i hmarket
        rw [hmarket]
        exact hone clients hclients
      · exact ⟨(h market).bounded, fun c hc hgone => absurd hc hgone⟩
  refine ⟨hroutes.trans hiff, fun hall market => ?_⟩
  rw [hmarkets]
  split
  · exact hsound (hroutes.mp hall)
  · exact h market

/-- In a run of an exchange every step leaves its sub-clients with at most 35 symbols
each, no symbol twice in a market, and removes only sub-clients without symbols,
exactly if every watch call that was suspended while its sub-client connected finds
fewer than 35 symbols there, and its symbol at no listed sub-client, when it enters a
symbol that is not subscribed there. -/
theorem routing_sound_iff (separator : List Char) (actions : List ExchangeAction) :
    GuardedRun.StepsSatisfy (step separator) (RoutesSoundly separator) start actions ↔
      GuardedRun.StepsSatisfy (step separator) (EntersWithRoom separator) start actions := by
  refine GuardedRun.stepsSatisfy_iff (I := fun s => ∀ market, (s.clients market).Sound)
    (fun s action t hs hstep => routesSoundly_iff hs hstep) fun market => ?_
  cases market <;> exact ClientList.sound_start

/-- Watch calls for 36 symbols of Gate start before the first sub-client is connected, and
are resumed when it is. -/
def crowdedRun : List ExchangeAction :=
  (List.range 36).map (fun n =>
      .watch n (String.ofList [Char.ofNat (65 + n), '/', 'U', 'S', 'D', 'T']) true) ++
    [.client .spot 0 (.proceed 0 true) true, .client .spot 0 (.attempt 0 true) true] ++
    (List.range 35).map fun n => .client .spot 0 (.resume (n + 1)) true

/-- All 36 symbols are subscribed at one sub-client. -/
theorem crowdedRun_exceeds : (GuardedRun.exec (step gateSeparator) start crowdedRun).map
    (fun s => (s.spotClients.listed, (s.spotClients.store 0).subscribedCount)) =
      some ([0], 36) := by
  decide +kernel

end ExchangePublic

end Arbexpert.Exchange
