import Arbexpert.Base.Calls
import Arbexpert.Base.Feed
import Arbexpert.Foundation.GuardedRun

/-!
# The maps of a sub-client, seen by its calls and by its message handlers

The calls of a sub-client and its message handlers share two maps. The handlers are
modelled with calls that take one step, the calls with all their suspensions. When the
closures do not suspend, each step of a call acts on the maps as the handlers' model
says, so what holds of the maps in every run of the handlers holds for the calls.
-/

namespace Arbexpert.Base

variable {D : Type*}

/-- The maps of the handlers are those of the calls: the same symbols are subscribed, and
the same calls wait for each symbol. -/
structure SameMaps (feed : FeedState D) (s : SubClient) : Prop where
  subscribed : Lists (fun _ _ => True) feed.subscribed s.subscribed
  pending : Lists (fun senders calls => senders.map Sender.waiter = calls) feed.pending s.pending

variable {feed : FeedState D} {s t : SubClient} {i : ℕ} {symbol : String} {action : SubAction}
  {ok : Bool}

/-- Both models start with empty maps. -/
theorem sameMaps_start : SameMaps (FeedState.start : FeedState D) SubClient.new :=
  ⟨lists_empty, lists_empty⟩

/-- Sub-clients with equal maps. -/
theorem SameMaps.congr (h : SameMaps feed s) (hsubscribed : t.subscribed = s.subscribed)
    (hpending : t.pending = s.pending) : SameMaps feed t :=
  ⟨by rw [hsubscribed]; exact h.subscribed, by rw [hpending]; exact h.pending⟩

/-- The calls that wait for a symbol, once another one has joined them. -/
theorem SameMaps.senders (h : SameMaps feed s) (symbol : String) (i : ℕ) (listening : Bool) :
    ((feed.pending symbol).getD [] ++ [Sender.mk i listening]).map Sender.waiter =
      (s.pending.lookup symbol).getD [] ++ [i] := by
  have hpending := h.pending symbol
  generalize feed.pending symbol = senders, s.pending.lookup symbol = calls at hpending
  cases hpending with
  | none => rfl
  | some hcalls => simpa using hcalls

/-- A symbol is subscribed in both models or in neither. -/
theorem SameMaps.subscribed_eq_none (h : SameMaps feed s) :
    feed.subscribed symbol = none ↔ s.subscribed.lookup symbol = none := by
  have hsubscribed := h.subscribed symbol
  generalize feed.subscribed symbol = ref, s.subscribed.lookup symbol = book at hsubscribed
  cases hsubscribed <;> simp

/-- A call that joins a subscribed symbol. -/
theorem SameMaps.join (h : SameMaps feed s) (hsymbol : symbol ∈ s.subscribed) (ok sends : Bool) :
    SameMaps (feed.watch symbol i ok sends) (s.join i symbol) := by
  obtain ⟨book, hbook⟩ := Finmap.mem_iff.mp hsymbol
  obtain ⟨ref, href⟩ : ∃ ref, feed.subscribed symbol = some ref := by
    rw [← Option.ne_none_iff_exists', Ne, h.subscribed_eq_none, hbook]
    exact Option.some_ne_none book
  have hpending := h.pending symbol
  have hsenders := h.senders symbol i true
  cases hwaiting : feed.pending symbol <;> cases hcalls : s.pending.lookup symbol <;>
    rw [hwaiting, hcalls] at hpending hsenders <;> cases hpending
  · have hwatch : feed.watch symbol i ok sends = { feed with aborted := true } := by
      simp [FeedState.watch, href, hwaiting]
    rw [hwatch]
    refine SameMaps.congr ⟨h.subscribed, h.pending⟩ ?_ ?_ <;> simp [SubClient.join, hbook, hcalls]
  · constructor
    · simpa [FeedState.watch, SubClient.join, href, hbook, hwaiting, hcalls, SubClient.setCall]
        using h.subscribed
    · simpa [FeedState.watch, SubClient.join, href, hbook, hwaiting, hcalls, SubClient.setCall]
        using h.pending.insert symbol hsenders

/-- A call that enters a new symbol and runs through its closure. -/
theorem SameMaps.enter (h : SameMaps feed s) (hsymbol : symbol ∉ s.subscribed) (ok sends : Bool) :
    SameMaps (feed.watch symbol i ok sends) ((s.join i symbol).subscribe i symbol ok) := by
  have hlookup := Finmap.lookup_eq_none.mpr hsymbol
  have href := h.subscribed_eq_none.mpr hlookup
  obtain ⟨hsubscribed, hpending⟩ := SubClient.maps_subscribe (s.join i symbol) i symbol ok
  have hjoin : (s.join i symbol).subscribed = s.subscribed.insert symbol s.made := by
    simp [SubClient.join, hlookup, SubClient.setCall]
  have hlist : (s.join i symbol).pending =
      s.pending.insert symbol ((s.pending.lookup symbol).getD [] ++ [i]) := by
    simp [SubClient.join, hlookup, SubClient.setCall]
  rw [hjoin] at hsubscribed
  rw [hlist] at hpending
  cases ok with
  | true =>
    refine SameMaps.congr (s := { s with
      subscribed := s.subscribed.insert symbol s.made
      pending := s.pending.insert symbol ((s.pending.lookup symbol).getD [] ++ [i]) })
      ⟨?_, ?_⟩ hsubscribed hpending
    · simpa [FeedState.watch, href] using h.subscribed.insert symbol trivial
    · simpa [FeedState.watch, href] using h.pending.insert symbol (h.senders symbol i sends)
  | false =>
    simp only [Bool.false_eq_true, if_false, erase_insert] at hsubscribed hpending
    constructor
    · rw [hsubscribed]
      simpa [FeedState.watch, href] using h.subscribed.erase_of_none href
    · rw [hpending]
      simpa [FeedState.watch, href] using h.pending.erase symbol

/-- A step of a watch call leaves the maps alone, or it is the step of the handlers' model
for the symbol with which the call leaves its loop. -/
theorem SameMaps.callStep (h : SameMaps feed s) (hsocket : s.Socket)
    (hcall : action.watchCall = some i) (hstep : s.callStep i action ok = some t) (sends : Bool) :
    SameMaps ((s.entering action).elim feed fun call => feed.watch call.2 i ok sends) t := by
  rcases SubClient.callStep_cases hsocket hcall hstep with ⟨hentering, hsubscribed, hpending⟩ |
    ⟨v, symbol, hentering, hsubscribed, hpending, hjoined | hentered⟩
  · rw [hentering, Option.elim_none]
    exact h.congr hsubscribed hpending
  · obtain ⟨hmem, rfl⟩ := hjoined
    rw [hentering, Option.elim_some]
    exact (h.congr hsubscribed hpending).join (Finmap.mem_keys.mp hmem) ok sends
  · obtain ⟨hmem, rfl⟩ := hentered
    rw [hentering, Option.elim_some]
    exact (h.congr hsubscribed hpending).enter (mt Finmap.mem_keys.mpr hmem) ok sends

/-- An unwatch call is the step of the handlers' model. -/
theorem SameMaps.unwatch (h : SameMaps feed s)
    (hstep : s.callStep i (.unwatch i symbol) ok = some t) :
    SameMaps (feed.unwatch symbol ok) t := by
  rcases SubClient.callStep_unwatch_cases hstep with ⟨hsymbol, rfl⟩ | ⟨book, hlookup, rfl⟩
  · have hlookup := Finmap.lookup_eq_none.mpr (mt Finmap.mem_keys.mpr hsymbol)
    have href := h.subscribed_eq_none.mpr hlookup
    have hfeed : feed.unwatch symbol ok = feed := by simp [FeedState.unwatch, href]
    rw [hfeed]
    exact h.congr rfl rfl
  · obtain ⟨ref, href⟩ : ∃ ref, feed.subscribed symbol = some ref := by
      rw [← Option.ne_none_iff_exists', Ne, h.subscribed_eq_none, hlookup]
      exact Option.some_ne_none book
    obtain ⟨hsubscribed, hpending⟩ := SubClient.maps_unsubscribe
      { s.setCall i (.unsubscribing symbol book) with
        subscribed := s.subscribed.erase symbol } i symbol book ok
    cases ok with
    | true =>
      constructor
      · rw [hsubscribed]
        simpa [FeedState.unwatch, href] using h.subscribed.erase symbol
      · rw [hpending]
        simpa [FeedState.unwatch, href, SubClient.setCall] using h.pending.erase symbol
    | false =>
      have hfeed : feed.unwatch symbol false = feed := by simp [FeedState.unwatch, href]
      rw [hfeed]
      exact h.congr (hsubscribed.trans (insert_erase hlookup)) hpending

/-- Sending a book to the watchers of a symbol empties its pending list. -/
theorem SameMaps.broadcast (h : SameMaps feed s) (ref : BookRef)
    (hstep : s.step (.broadcast symbol) = some t) : SameMaps (feed.deliver symbol ref) t := by
  obtain ⟨result, hadvances, rfl⟩ := SubClient.advances_of_step hstep
  cases hadvances with
  | @broadcast _ book calls hsymbol hcalls =>
    have hpending := h.pending symbol
    rw [hcalls] at hpending
    obtain ⟨senders, hsenders⟩ : ∃ senders, feed.pending symbol = some senders := by
      generalize feed.pending symbol = waiting at hpending
      cases hpending with
      | some hwaiting => exact ⟨_, rfl⟩
    constructor
    · simpa [FeedState.deliver, hsenders, SubClient.sendBook] using h.subscribed
    · simpa [FeedState.deliver, hsenders, SubClient.sendBook] using
        h.pending.insert symbol (List.map_nil : ([] : List Sender).map Sender.waiter = [])

/-- The loss of the connection clears the maps. -/
theorem SameMaps.lose (hstep : s.step .lose = some t) : SameMaps feed.onFail t := by
  obtain ⟨result, hadvances, rfl⟩ := SubClient.advances_of_step hstep
  cases hadvances with
  | lose hconnected => exact ⟨lists_empty, lists_empty⟩

/-- A step of a sub-client whose closures do not suspend. -/
inductive CallStep (s : SubClient) : SubClient → Prop
  | watch {call : SubAction} {j : ℕ} {closure : Bool} {next : SubClient}
      (hcall : call.watchCall = some j) (hstep : s.callStep j call closure = some next) :
      CallStep s next
  | unwatch {j : ℕ} {name : String} {closure : Bool} {next : SubClient}
      (hstep : s.callStep j (.unwatch j name) closure = some next) : CallStep s next
  | receive {j : ℕ} {next : SubClient} (hstep : s.step (.receive j) = some next) :
      CallStep s next
  | broadcast {name : String} {next : SubClient} (hstep : s.step (.broadcast name) = some next) :
      CallStep s next
  | lose {next : SubClient} (hstep : s.step .lose = some next) : CallStep s next

/-- What the handlers' model does to the maps in one step. -/
inductive MapStep (feed : FeedState D) : FeedState D → Prop
  | watch (symbol : String) (waiter : ℕ) (subscribes sends : Bool) :
      MapStep feed (feed.watch symbol waiter subscribes sends)
  | unwatch (symbol : String) (unsubscribes : Bool) :
      MapStep feed (feed.unwatch symbol unsubscribes)
  | deliver (symbol : String) (ref : BookRef) : MapStep feed (feed.deliver symbol ref)
  | fail : MapStep feed feed.onFail

/-- Every step of the calls is matched in the handlers' model by one step or by none. -/
theorem SameMaps.step (h : SameMaps feed s) (hsocket : s.Socket) (hstep : CallStep s t) :
    ∃ next, Relation.ReflTransGen MapStep feed next ∧ SameMaps next t := by
  cases hstep with
  | @watch action i ok _ hcall hstep =>
    refine ⟨_, ?_, h.callStep hsocket hcall hstep true⟩
    cases s.entering action with
    | none => exact .refl
    | some call => exact .single (.watch call.2 i ok true)
  | @unwatch i symbol ok _ hstep => exact ⟨_, .single (.unwatch symbol ok), h.unwatch hstep⟩
  | receive hstep =>
    obtain ⟨result, hadvances, rfl⟩ := SubClient.advances_of_step hstep
    cases hadvances <;> exact ⟨feed, .refl, h.congr rfl rfl⟩
  | @broadcast symbol _ hstep =>
    exact ⟨_, .single (.deliver symbol (symbol, 0)), h.broadcast (symbol, 0) hstep⟩
  | lose hstep => exact ⟨_, .single .fail, SameMaps.lose hstep⟩

/-- A step keeps the socket with one holder. -/
theorem CallStep.socket (hsocket : s.Socket) (hstep : CallStep s t) : t.Socket := by
  cases hstep with
  | watch _ hstep => exact hsocket.callStep hstep
  | unwatch hstep => exact hsocket.callStep hstep
  | receive hstep => exact hsocket.step hstep
  | broadcast hstep => exact hsocket.step hstep
  | lose hstep => exact hsocket.step hstep

/-- The maps of every run of the calls are the maps of a run of the handlers' model. -/
theorem exists_feed_of_calls (D : Type*) (hrun : Relation.ReflTransGen CallStep SubClient.new s) :
    ∃ feed : FeedState D, Relation.ReflTransGen MapStep .start feed ∧ SameMaps feed s := by
  have hmatch : ∀ (s t : SubClient) (feed : FeedState D), s.Socket ∧ SameMaps feed s →
      CallStep s t → ∃ next, Relation.ReflTransGen MapStep feed next ∧
        (t.Socket ∧ SameMaps next t) := by
    rintro s t feed ⟨hsocket, hmaps⟩ hstep
    obtain ⟨next, hnext, hrelated⟩ := hmaps.step hsocket hstep
    exact ⟨next, hnext, hstep.socket hsocket, hrelated⟩
  obtain ⟨feed, hfeed, -, hmaps⟩ :=
    GuardedRun.exists_run_of_simulation hmatch ⟨SubClient.socket_new, sameMaps_start⟩ hrun
  exact ⟨feed, hfeed, hmaps⟩

end Arbexpert.Base
