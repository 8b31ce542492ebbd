import Arbexpert.Base.Account
import Arbexpert.Foundation.GuardedRun
import Mathlib.Algebra.Ring.Int.Defs

/-!
# The orders that an account has accepted

All threads insert their orders behind one lock and read a monotonic clock there, so an account
is a machine that takes one call after the other. Its queue is the young part of the log of the
accepted orders, and its actual balance is the total of this log: the queue decides about
every order as if it were the log, although it looks for old orders at its front only.
-/

namespace Arbexpert.Base

/-- An account with the last reading of its clock. The accepted orders are recorded. -/
structure Ledger (D : Type*) where
  account : SharedState D
  clock : ℕ
  accepted : List (TimedOrder D)

/-- A call of one of the threads that use an account. -/
inductive AccountCall (D : Type*)
  | insertOrder (now : ℕ) (order : Order D)
  | simulateOrder (order : OrderRequest D)
  | resetTemporaryBalance

/-- A log of accepted orders, whose ids are not accepted again while they are in the queue. -/
abbrev OrderLog (D : Type*) :=
  ExpiringLog.Log (TimedOrder.insertedAt (D := D)) (fun timed => timed.order.id) orderAge

variable {D : Type*}

/-- An account accepts an order at a time. -/
def SharedState.Accepts (account : SharedState D) (now : ℕ) (order : Order D) : Prop :=
  ¬orderExists (cleanUp now account.orders) order.id

/-- Whether an account accepts an order is computed. -/
instance (account : SharedState D) (now : ℕ) (order : Order D) :
    Decidable (account.Accepts now order) := inferInstanceAs (Decidable ¬_)

variable [Ring D]

namespace Ledger

/-- A new account. -/
def new : Ledger D := ⟨.new, 0, []⟩

/-- A call is carried out. Readings of the clock do not decrease. -/
def step (s : Ledger D) : AccountCall D → Option (Ledger D)
  | .insertOrder now order =>
    if s.clock ≤ now then
      some {
        account := s.account.insertOrder now order
        clock := now
        accepted :=
          if s.account.Accepts now order then s.accepted ++ [⟨order, now⟩] else s.accepted }
    else none
  | .simulateOrder order => some { s with account := s.account.simulateOrder order }
  | .resetTemporaryBalance => some { s with account := s.account.resetTemporaryBalance }

end Ledger

/-- The signed notionals of the orders of a market. -/
def notionals (market : MarketType) (accepted : List (TimedOrder D)) : List D :=
  (accepted.filter fun timed => marketOf timed.order.symbol = market).map fun timed =>
    timed.order.request.signedNotional

/-- The balance of a market that has had some signed notionals: no entry before the first one,
and then their sum. -/
def balanceOf : List D → HashMap String D
  | [] => ∅
  | first :: rest => (∅ : HashMap String D).insert "USDT" (first :: rest).sum

/-- The signed notionals of a market when one more order is accepted. -/
theorem notionals_concat (market : MarketType) (accepted : List (TimedOrder D))
    (timed : TimedOrder D) : notionals market (accepted ++ [timed]) =
      notionals market accepted ++ if marketOf timed.order.symbol = market then
        [timed.order.request.signedNotional] else [] := by
  rw [notionals, List.filter_append, List.map_append, ← notionals]
  by_cases hmarket : marketOf timed.order.symbol = market
  · simp [hmarket]
  · simp [hmarket]

/-- A market has no signed notionals exactly if it has no orders. -/
theorem notionals_eq_nil_iff {market : MarketType} {accepted : List (TimedOrder D)} :
    notionals market accepted = [] ↔ ∀ timed ∈ accepted, marketOf timed.order.symbol ≠ market := by
  simp [notionals]

/-- The balance of signed notionals is their sum. -/
theorem usdt_balanceOf (values : List D) : usdt (balanceOf values) = values.sum := by
  cases values with
  | nil => rfl
  | cons first rest => rw [balanceOf, usdt, Finmap.lookup_insert, Option.getD_some]

/-- One more signed notional is added to the entry. -/
theorem balanceOf_concat (values : List D) (value : D) : balanceOf (values ++ [value]) =
    (balanceOf values).insert "USDT" (usdt (balanceOf values) + value) := by
  rw [usdt_balanceOf]
  cases values with
  | nil => simp [balanceOf]
  | cons first rest =>
    rw [List.cons_append, balanceOf, balanceOf, Finmap.insert_insert, ← List.cons_append,
      List.sum_append, List.sum_singleton]

/-- One more signed notional leaves the balance as it is exactly if it is zero and not the first
one. -/
theorem balanceOf_concat_eq_iff {values : List D} {value : D} :
    balanceOf (values ++ [value]) = balanceOf values ↔ values ≠ [] ∧ value = 0 := by
  rw [balanceOf_concat, usdt_balanceOf]
  cases values with
  | nil =>
    refine iff_of_false (fun hsame => ?_) fun h => h.1 rfl
    have hnone := congrArg (Finmap.lookup "USDT") hsame
    rw [Finmap.lookup_insert, balanceOf, Finmap.lookup_empty] at hnone
    cases hnone
  | cons first rest =>
    constructor
    · intro hsame
      have hentry := congrArg (Finmap.lookup "USDT") hsame
      rw [Finmap.lookup_insert, balanceOf, Finmap.lookup_insert] at hentry
      exact ⟨List.cons_ne_nil _ _, add_eq_left.mp (Option.some.inj hentry)⟩
    · rintro ⟨_, rfl⟩
      apply insert_of_lookup
      rw [balanceOf, Finmap.lookup_insert, add_zero]

namespace Ledger

variable {s t : Ledger D} {now : ℕ} {order : Order D} {call : AccountCall D}

/-- An account and the log of its accepted orders. -/
structure Represents (s : Ledger D) (log : OrderLog D) : Prop where
  accepted : s.accepted = log.entries
  past : ∀ timed ∈ log.entries, timed.insertedAt ≤ s.clock
  orders : s.account.orders =
    ExpiringLog.recent TimedOrder.insertedAt orderAge s.clock log.entries
  balance : ∀ market, s.account.actualBalance.market market =
    balanceOf (notionals market log.entries)

/-- No order with an id has been accepted within the age of orders. -/
def Fresh (s : Ledger D) (now : ℕ) (id : String) : Prop :=
  ∀ timed ∈ s.accepted, timed.order.id = id → orderAge < now - timed.insertedAt

/-- What a call does: an order is accepted, so it joins the queue and changes the balance, or it is
not, or only the temporary balance changes. -/
inductive Steps (s : Ledger D) : AccountCall D → Ledger D → Prop
  | accept {now : ℕ} {order : Order D} (hclock : s.clock ≤ now)
      (haccepts : s.account.Accepts now order) : Steps s (.insertOrder now order)
      { account := {
          actualBalance := applyOrder s.account.actualBalance order.request
          temporaryBalance := s.account.temporaryBalance
          orders := cleanUp now s.account.orders ++ [⟨order, now⟩] }
        clock := now
        accepted := s.accepted ++ [⟨order, now⟩] }
  | reject {now : ℕ} {order : Order D} (hclock : s.clock ≤ now)
      (hrejects : ¬s.account.Accepts now order) : Steps s (.insertOrder now order)
      { s with
        account := { s.account with orders := cleanUp now s.account.orders }
        clock := now }
  | temporary {call : AccountCall D} (balance : Balance D)
      (hcall : ∀ now order, call ≠ .insertOrder now order) : Steps s call
      { s with account := { s.account with temporaryBalance := balance } }

/-- Every call does one of these things. -/
theorem steps_of_step (hstep : s.step call = some t) : s.Steps call t := by
  cases call with
  | insertOrder now order =>
    obtain ⟨hclock, rfl⟩ := GuardedRun.of_enabled hstep
    by_cases haccepts : s.account.Accepts now order
    · rw [if_pos haccepts, SharedState.insertOrder, if_neg haccepts]
      exact .accept hclock haccepts
    · rw [if_neg haccepts, SharedState.insertOrder, if_pos (not_not.mp haccepts)]
      exact .reject hclock haccepts
  | simulateOrder order =>
    cases hstep
    exact .temporary _ nofun
  | resetTemporaryBalance =>
    cases hstep
    exact .temporary _ nofun

/-- The queue without the orders that are old at a later time is the young part of the log. -/
theorem Represents.cleanUp {log : OrderLog D} (h : s.Represents log) (hclock : s.clock ≤ now) :
    cleanUp now s.account.orders =
      ExpiringLog.recent TimedOrder.insertedAt orderAge now log.entries := by
  rw [Base.cleanUp, h.orders, ExpiringLog.evict_eq_recent (log.sorted_recent s.clock),
    ExpiringLog.recent_recent hclock]

/-- An order is accepted exactly if the log has no young order with its id. -/
theorem Represents.accepts_iff {log : OrderLog D} (h : s.Represents log) (hclock : s.clock ≤ now) :
    s.account.Accepts now order ↔ s.Fresh now order.id := by
  rw [SharedState.Accepts, orderExists_iff, h.cleanUp hclock, Fresh, h.accepted]
  constructor
  · intro hnone timed htimed hid
    by_contra hyoung
    exact hnone ⟨timed, ExpiringLog.mem_recent.mpr ⟨htimed, by omega⟩, hid⟩
  · rintro hfresh ⟨timed, htimed, hid⟩
    obtain ⟨hmem, hyoung⟩ := ExpiringLog.mem_recent.mp htimed
    have hold := hfresh timed hmem hid
    omega

/-- The balance of a market when one more order is accepted. -/
theorem market_applyOrder_balanceOf {balance : Balance D} {accepted : List (TimedOrder D)}
    (hbalance : ∀ market, balance.market market = balanceOf (notionals market accepted))
    (timed : TimedOrder D) (market : MarketType) :
    (applyOrder balance timed.order.request).market market =
      balanceOf (notionals market (accepted ++ [timed])) := by
  rw [market_applyOrder, hbalance, notionals_concat]
  by_cases hmarket : marketOf timed.order.symbol = market
  · rw [if_pos hmarket, balanceOf_concat]
    exact if_pos hmarket
  · rw [if_neg hmarket, List.append_nil]
    exact if_neg hmarket

/-- A call leads from a log to the log that it has grown to. -/
theorem Represents.step {log : OrderLog D} (h : s.Represents log) (hstep : s.step call = some t) :
    ∃ log, t.Represents log := by
  cases steps_of_step hstep with
  | @accept now order hclock haccepts =>
    have hpast : ∀ timed ∈ log.entries, timed.insertedAt ≤ now :=
      fun timed htimed => (h.past timed htimed).trans hclock
    have hnew : ∀ timed ∈ ExpiringLog.recent TimedOrder.insertedAt orderAge now log.entries,
        timed.order.id ≠ order.id := by
      rw [← h.cleanUp hclock]
      exact fun timed htimed hid => haccepts (orderExists_iff.mpr ⟨timed, htimed, hid⟩)
    have hjoins : ExpiringLog.recent TimedOrder.insertedAt orderAge now
        (log.entries ++ [⟨order, now⟩]) =
          ExpiringLog.recent TimedOrder.insertedAt orderAge now log.entries ++
            [⟨order, now⟩] := ExpiringLog.recent_concat rfl
    refine ⟨log.add ⟨order, now⟩ hpast hnew, ?_, ?_, ?_, ?_⟩
    · rw [h.accepted]
      rfl
    · intro timed htimed
      rcases List.mem_append.mp htimed with hold | hadded
      · exact hpast timed hold
      · rw [List.mem_singleton.mp hadded]
    · rw [h.cleanUp hclock]
      exact hjoins.symm
    · exact market_applyOrder_balanceOf h.balance ⟨order, now⟩
  | @reject now order hclock hrejects =>
    have hpast : ∀ timed ∈ log.entries, timed.insertedAt ≤ now :=
      fun timed htimed => (h.past timed htimed).trans hclock
    exact ⟨log, h.accepted, hpast, h.cleanUp hclock, h.balance⟩
  | temporary balance hcall => exact ⟨log, h.accepted, h.past, h.orders, h.balance⟩

/-- A new account has an empty log. -/
theorem represents_new : (new : Ledger D).Represents .empty :=
  ⟨rfl, nofun, rfl, fun market => by cases market <;> rfl⟩

/-- Every account that calls lead to has a log. -/
theorem exists_represents {calls : List (AccountCall D)}
    (hrun : GuardedRun.exec step new calls = some s) : ∃ log, s.Represents log :=
  GuardedRun.invariant_of_exec (I := fun s : Ledger D => ∃ log, s.Represents log)
    (fun _ _ _ ⟨_, hlog⟩ hstep => hlog.step hstep) hrun ⟨_, represents_new⟩

/-- The queue holds orders with distinct ids, in the order of their times, none of them old; and
the balances are those of the accepted orders. -/
structure Sound (s : Ledger D) : Prop where
  distinct : (s.account.orders.map fun timed => timed.order.id).Nodup
  sorted : s.account.orders.Pairwise fun first second => first.insertedAt ≤ second.insertedAt
  young : ∀ timed ∈ s.account.orders, s.clock - timed.insertedAt ≤ orderAge
  balance : ∀ market, s.account.actualBalance.market market =
    balanceOf (notionals market s.accepted)

/-- An account with a log is sound. -/
theorem Represents.sound {log : OrderLog D} (h : s.Represents log) : s.Sound where
  distinct := by
    rw [h.orders]
    exact log.nodup_recent h.past
  sorted := by
    rw [h.orders]
    exact log.sorted_recent s.clock
  young := by
    rw [h.orders]
    exact fun timed htimed => (ExpiringLog.mem_recent.mp htimed).2
  balance := by
    rw [h.accepted]
    exact h.balance

/-- An accepted order leaves the balances as they are exactly if its signed notional is zero and
its market has had orders. -/
theorem Represents.applyOrder_eq_iff {log : OrderLog D} (h : s.Represents log)
    (order : OrderRequest D) : applyOrder s.account.actualBalance order = s.account.actualBalance ↔
      order.signedNotional = 0 ∧
        ∃ timed ∈ s.accepted, marketOf timed.order.symbol = marketOf order.symbol := by
  have hmarkets : applyOrder s.account.actualBalance order = s.account.actualBalance ↔
      balanceOf (notionals (marketOf order.symbol) log.entries ++ [order.signedNotional]) =
        balanceOf (notionals (marketOf order.symbol) log.entries) := by
    rw [balanceOf_concat, ← h.balance]
    constructor
    · intro hsame
      have hmarket := congrArg (Balance.market · (marketOf order.symbol)) hsame
      simpa only [market_applyOrder, ↓reduceIte] using hmarket
    · intro hsame
      apply Balance.ext_market
      intro market
      rw [market_applyOrder]
      split
      · subst market
        exact hsame
      · rfl
  rw [hmarkets, balanceOf_concat_eq_iff, and_comm, h.accepted, Ne, notionals_eq_nil_iff]
  push Not
  rfl

/-- Whatever calls the threads make, an account is sound. An order is accepted exactly if none
with its id has been accepted within the age of orders, and its call changes the balances exactly
if, moreover, its signed notional is not zero or it is the first order of its market. -/
theorem ledger_exact {calls : List (AccountCall D)}
    (hrun : GuardedRun.exec step new calls = some s) : s.Sound ∧ ∀ now order t,
      s.step (.insertOrder now order) = some t →
        (t.accepted ≠ s.accepted ↔ s.Fresh now order.id) ∧
          (t.account.actualBalance ≠ s.account.actualBalance ↔ s.Fresh now order.id ∧
            (order.request.signedNotional ≠ 0 ∨
              ∀ timed ∈ s.accepted, marketOf timed.order.symbol ≠ marketOf order.symbol)) := by
  obtain ⟨log, hlog⟩ := exists_represents hrun
  refine ⟨hlog.sound, fun now order t hstep => ?_⟩
  cases steps_of_step hstep with
  | accept hclock haccepts =>
    have hfresh := (hlog.accepts_iff hclock).mp haccepts
    constructor
    · simp [hfresh]
    · rw [Ne, hlog.applyOrder_eq_iff, not_and_or]
      push Not
      exact (and_iff_right hfresh).symm
  | reject hclock hrejects =>
    have hstale := mt (hlog.accepts_iff hclock).mpr hrejects
    simp [hstale]
  | temporary balance hcall => exact absurd rfl (hcall now order)

/-- An order of two units at a price of five. -/
def smallOrder (id side : String) : Order ℤ := ⟨id, "BTC/USDT", side, 2, 5, "filled", 0, 0, 0⟩

/-- An order that is delivered again at the end of its time in the queue and just after it. -/
def redeliveries : List (AccountCall ℤ) :=
  [.insertOrder 0 (smallOrder "1" "sell"), .insertOrder orderAge (smallOrder "1" "sell"),
    .insertOrder (orderAge + 1) (smallOrder "1" "sell")]

/-- The order is accepted the first time and the last time. -/
theorem redeliveries_sound : ∃ s, GuardedRun.exec step new redeliveries = some s ∧
    s.accepted.length = 2 ∧ s.Sound := by
  have hlength : (GuardedRun.exec step new redeliveries).map (·.accepted.length) = some 2 := by
    decide +kernel
  obtain ⟨s, hrun, hs⟩ := Option.map_eq_some_iff.mp hlength
  exact ⟨s, hrun, hs, (ledger_exact hrun).1⟩

/-- An order with an unknown side joins the queue and leaves the balances as they are. -/
theorem unknown_side_keeps_balance : ∃ s t : Ledger ℤ,
    GuardedRun.exec step new [.insertOrder 0 (smallOrder "1" "sell")] = some s ∧
      s.step (.insertOrder 0 (smallOrder "2" "hold")) = some t ∧ s.Fresh 0 "2" ∧
        t.accepted ≠ s.accepted ∧ t.account.actualBalance = s.account.actualBalance := by
  refine ⟨⟨(SharedState.new).insertOrder 0 (smallOrder "1" "sell"), 0,
    [⟨smallOrder "1" "sell", 0⟩]⟩, _, rfl, rfl, ?_, ?_, ?_⟩
  · intro timed htimed hid
    rw [List.mem_singleton.mp htimed] at hid
    exact absurd hid (by decide)
  · exact fun hsame => absurd (congrArg List.length hsame) (by decide +kernel)
  · apply Balance.ext_market
    intro market
    cases market <;> decide +kernel

end Ledger

end Arbexpert.Base
