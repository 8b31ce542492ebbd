import Arbexpert.Base.OrderBook
import Mathlib.Algebra.Order.Ring.Int

/-!
# The algebra of updates

The last occurrence of a price in a side of an update decides about its level. Several updates
that are not full amount to one update with their sides one after the other, so applying the last
of them again changes no level. This is why the handlers may apply an update that overlaps with
what a snapshot has told already.
-/

namespace Arbexpert.Base

variable {D : Type*}

/-- The levels of a side of an update. -/
def OrderBookUpdate.side (update : OrderBookUpdate D) : Side → List (D × D)
  | .bid => update.bids
  | .ask => update.asks

/-- One update with the sides of several updates one after the other, and with some ids. -/
def OrderBookUpdate.concat (firstUpdateId lastUpdateId : ℕ) (updates : List (OrderBookUpdate D)) :
    OrderBookUpdate D where
  bids := updates.flatMap OrderBookUpdate.bids
  asks := updates.flatMap OrderBookUpdate.asks
  firstUpdateId := firstUpdateId
  lastUpdateId := lastUpdateId
  full := false

/-- A side of a concatenated update. -/
theorem side_concat (first last : ℕ) (updates : List (OrderBookUpdate D)) (side : Side) :
    (OrderBookUpdate.concat first last updates).side side =
      updates.flatMap fun update => update.side side := by
  cases side <;> rfl

variable [LinearOrder D] [Zero D]

/-- Apply updates one after the other. -/
def OrderBook.applyUpdates (book : OrderBook D) (updates : List (OrderBookUpdate D)) :
    OrderBook D := updates.foldl OrderBook.applyUpdate book

/-- The writes of the levels of one side, keyed by price. -/
def levelWrites (levels : List (D × D)) : List (D × Option D) :=
  levels.map fun level => (level.1, levelValue level.2)

variable {book : OrderBook D} {update : OrderBookUpdate D}

/-- An update applies the writes of each of its sides to that side of the book, or to no levels
when it is full. -/
theorem level_applyUpdate_side (book : OrderBook D) (update : OrderBookUpdate D) (side : Side)
    (price : D) : (book.applyUpdate update).level (side, price) =
      WriteLog.applyWrites
        (if update.full then fun _ => none else fun other => book.level (side, other))
        (levelWrites (update.side side)) price := by
  have hstart : (fun other => (if update.full then fun _ => none else book.level) (side, other)) =
      if update.full then fun _ => none else fun other => book.level (side, other) := by
    split <;> rfl
  rw [level_applyUpdate, OrderBookUpdate.writes, WriteLog.applyWrites_append, ← hstart]
  cases side with
  | bid =>
    simp only [applyWrites_side, reduceCtorEq, if_false, if_true]
    rfl
  | ask =>
    simp only [applyWrites_side, reduceCtorEq, if_false, if_true]
    rfl

/-- The last occurrence of a price decides about its level. -/
theorem level_of_last {side : Side} {price quantity : D} {earlier later : List (D × D)}
    (hside : update.side side = earlier ++ (price, quantity) :: later)
    (hlater : ∀ level ∈ later, level.1 ≠ price) :
    (book.applyUpdate update).level (side, price) = levelValue quantity := by
  rw [level_applyUpdate_side, hside, levelWrites, List.map_append, List.map_cons]
  apply WriteLog.applyWrites_last
  intro write hwrite
  obtain ⟨level, hlevel, rfl⟩ := List.mem_map.mp hwrite
  exact hlater level hlevel

/-- A price that does not occur keeps its level, unless the update is full. -/
theorem level_of_not_listed {side : Side} {price : D}
    (hnone : ∀ level ∈ update.side side, level.1 ≠ price) :
    (book.applyUpdate update).level (side, price) =
      if update.full then none else book.level (side, price) := by
  rw [level_applyUpdate_side, WriteLog.applyWrites_of_not_listed]
  · split <;> rfl
  · intro write hwrite
    obtain ⟨level, hlevel, rfl⟩ := List.mem_map.mp hwrite
    exact hnone level hlevel

/-- The content of a level is never a quantity of zero. -/
theorem levelValue_ne_zero (quantity : D) : levelValue quantity ≠ some 0 := by
  unfold levelValue
  split
  · exact (Option.some_ne_none 0).symm
  · rename_i hquantity
    exact fun hzero => hquantity (Option.some.inj hzero)

/-- A book without a quantity of zero keeps having none. -/
theorem level_ne_zero (hbook : ∀ key, book.level key ≠ some 0) (key : Side × D) :
    (book.applyUpdate update).level key ≠ some 0 := by
  obtain ⟨side, price⟩ := key
  rw [level_applyUpdate_side]
  apply WriteLog.applyWrites_invariant (I := (· ≠ some 0))
  · intro other
    split
    · exact (Option.some_ne_none 0).symm
    · exact hbook (side, other)
  · intro write hwrite
    obtain ⟨level, _, rfl⟩ := List.mem_map.mp hwrite
    exact levelValue_ne_zero level.2

/-- Updates that are not full apply the writes of all of them. -/
theorem level_applyUpdates {updates : List (OrderBookUpdate D)}
    (hfull : ∀ update ∈ updates, update.full = false) (book : OrderBook D) (side : Side)
    (price : D) : (book.applyUpdates updates).level (side, price) =
      WriteLog.applyWrites (fun other => book.level (side, other))
        (levelWrites (updates.flatMap fun update => update.side side)) price := by
  induction updates generalizing book with
  | nil => rfl
  | cons update rest ih =>
    have hrest : ∀ other ∈ rest, other.full = false :=
      fun other hother => hfull other (List.mem_cons_of_mem _ hother)
    have hstep : (fun other => (book.applyUpdate update).level (side, other)) =
        WriteLog.applyWrites (fun other => book.level (side, other))
          (levelWrites (update.side side)) := by
      funext other
      rw [level_applyUpdate_side, hfull update List.mem_cons_self]
      rfl
    rw [List.flatMap_cons, levelWrites, List.map_append, WriteLog.applyWrites_append,
      ← levelWrites, ← hstep]
    exact ih hrest (book.applyUpdate update)

/-- Updates that are not full amount to one update with their sides one after the other. -/
theorem level_applyUpdates_concat {updates : List (OrderBookUpdate D)}
    (hfull : ∀ update ∈ updates, update.full = false) (book : OrderBook D) (first last : ℕ) :
    (book.applyUpdates updates).level =
      (book.applyUpdate (.concat first last updates)).level := by
  funext ⟨side, price⟩
  rw [level_applyUpdates hfull, level_applyUpdate_side, side_concat]
  rfl

/-- Applying the last ones of some updates that are not full again changes no level. -/
theorem level_applyUpdates_replay {earlier later : List (OrderBookUpdate D)}
    (hfull : ∀ update ∈ earlier ++ later, update.full = false) (book : OrderBook D) :
    ((book.applyUpdates (earlier ++ later)).applyUpdates later).level =
      (book.applyUpdates (earlier ++ later)).level := by
  have hlater : ∀ update ∈ later, update.full = false :=
    fun update hupdate => hfull update (List.mem_append_right _ hupdate)
  funext ⟨side, price⟩
  rw [level_applyUpdates hlater]
  simp only [level_applyUpdates hfull, List.flatMap_append, levelWrites, List.map_append]
  exact congrFun (WriteLog.applyWrites_replay _ _ _) price

/-- An update leaves at each price the quantity of its last occurrence on that side, or no level
when this quantity is zero, and what was there before when the price does not occur and the
update is not full. No level gets a quantity of zero. Updates that are not full lead to the same
levels as one update with their sides one after the other, and applying the last ones of them
again changes no level. -/
theorem last_writer_wins (book : OrderBook D) (update : OrderBookUpdate D) :
    (∀ side price,
      (∀ earlier quantity later, update.side side = earlier ++ (price, quantity) :: later →
        (∀ level ∈ later, level.1 ≠ price) → (book.applyUpdate update).level (side, price) =
          if quantity = 0 then none else some quantity) ∧
      ((∀ level ∈ update.side side, level.1 ≠ price) →
        (book.applyUpdate update).level (side, price) =
          if update.full then none else book.level (side, price))) ∧
    ((∀ key, book.level key ≠ some 0) → ∀ key, (book.applyUpdate update).level key ≠ some 0) ∧
    ∀ earlier later : List (OrderBookUpdate D),
      (∀ update ∈ earlier ++ later, update.full = false) →
        (∀ first last, (book.applyUpdates (earlier ++ later)).level =
          (book.applyUpdate (.concat first last (earlier ++ later))).level) ∧
        ((book.applyUpdates (earlier ++ later)).applyUpdates later).level =
          (book.applyUpdates (earlier ++ later)).level := by
  refine ⟨fun side price => ⟨fun earlier quantity later hside hlater => ?_, fun hnone => ?_⟩,
    level_ne_zero, fun earlier later hfull => ⟨fun first last => ?_, ?_⟩⟩
  · exact level_of_last hside hlater
  · exact level_of_not_listed hnone
  · exact level_applyUpdates_concat hfull book first last
  · exact level_applyUpdates_replay hfull book

/-- An update with a repeated price and the removal of a price that has no level. -/
def repeatedPrice : OrderBookUpdate ℤ := ⟨[(5, 1), (4, 2), (5, 3)], [(6, 0)], 1, 2, false⟩

/-- An update that overlaps with it and removes one of its levels. -/
def removedPrice : OrderBookUpdate ℤ := ⟨[(4, 0)], [(6, 1)], 2, 3, false⟩

/-- The first update keeps the last quantity of the repeated price, and the second one can be
applied again. -/
theorem repeatedPrice_applied :
    (OrderBook.empty.applyUpdate repeatedPrice).level (.bid, 5) = some 3 ∧
      (OrderBook.empty.applyUpdate repeatedPrice).level (.bid, 7) = none ∧
      (∀ key, (OrderBook.empty.applyUpdate repeatedPrice).level key ≠ some 0) ∧
      (OrderBook.empty.applyUpdates [repeatedPrice, removedPrice]).level =
        (OrderBook.empty.applyUpdate (.concat 1 3 [repeatedPrice, removedPrice])).level ∧
      ((OrderBook.empty.applyUpdates [repeatedPrice, removedPrice]).applyUpdates
        [removedPrice]).level =
          (OrderBook.empty.applyUpdates [repeatedPrice, removedPrice]).level := by
  obtain ⟨hlevels, hzero, hupdates⟩ := last_writer_wins OrderBook.empty repeatedPrice
  obtain ⟨hconcat, hreplay⟩ := hupdates [repeatedPrice] [removedPrice] (by decide)
  have hempty : ∀ key, (OrderBook.empty : OrderBook ℤ).level key ≠ some 0 := by
    intro key
    rw [OrderBook.empty, level_empty]
    exact (Option.some_ne_none 0).symm
  exact ⟨(hlevels .bid 5).1 [(5, 1), (4, 2)] 3 [] rfl (by decide),
    (hlevels .bid 7).2 (by decide), hzero hempty, hconcat 1 3, hreplay⟩

end Arbexpert.Base
