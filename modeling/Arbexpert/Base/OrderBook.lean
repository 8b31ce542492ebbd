import Arbexpert.Base.Json
import Arbexpert.Foundation.WriteLog
import Mathlib.Data.Finmap
import Mathlib.Data.Finset.Max
import Mathlib.Order.OrderDual

/-!
# Order books and their updates

A book keeps its bids under reversed prices, so that the first entry of either side
is its best level. A level update with quantity zero removes the price. Read as a
store keyed by side and price, an update is a list of absolute writes.
-/

namespace Arbexpert.Base

open OrderDual (toDual ofDual)

/-- A sorted map. -/
abbrev BTreeMap (K V : Type*) := Finmap fun _ : K => V

/-- The two sides of a book. -/
inductive Side
  | bid
  | ask
  deriving DecidableEq

/-- An order book: quantities by price, with the id of the last update. -/
structure OrderBook (D : Type*) where
  bids : BTreeMap Dᵒᵈ D
  asks : BTreeMap D D
  updateId : ℕ

/-- A parsed update event. -/
structure OrderBookUpdate (D : Type*) where
  bids : List (D × D)
  asks : List (D × D)
  firstUpdateId : ℕ
  lastUpdateId : ℕ
  full : Bool

/-- An order of an account. -/
structure Order (D : Type*) where
  id : String
  symbol : String
  side : String
  amount : D
  price : D
  status : String
  timestamp : ℕ
  filled : D
  remaning : D

/-- A request of an order. -/
structure OrderRequest (D : Type*) where
  symbol : String
  side : String
  amount : D
  price : D

/-- The book without levels and with update id zero. -/
def OrderBook.empty {D : Type*} : OrderBook D := ⟨∅, ∅, 0⟩

/-- The first entry of a side, that is its best level; `none` where the source stops
with "no price". -/
def getPrice {K V : Type*} [LinearOrder K] (side : BTreeMap K V) : Option (K × V) :=
  match side.keys.min with
  | none => none
  | some key => (side.lookup key).map fun value => (key, value)

/-- A side has a best level exactly if it has a level. -/
theorem getPrice_isSome_iff {K V : Type*} [LinearOrder K] {side : BTreeMap K V} :
    (getPrice side).isSome ↔ ∃ key, side.lookup key ≠ none := by
  have hmem {key : K} : key ∈ side.keys ↔ side.lookup key ≠ none := by
    rw [Finmap.mem_keys, ← Finmap.lookup_isSome, Option.isSome_iff_ne_none]
  unfold getPrice
  split
  · rename_i hmin
    have hempty : side.keys = ∅ := Finset.min_eq_top.mp hmin
    refine iff_of_false (by simp) ?_
    rintro ⟨key, hkey⟩
    simpa [hempty] using hmem.mpr hkey
  · rename_i key hmin
    have hkey : side.lookup key ≠ none := hmem.mp (Finset.mem_of_min hmin)
    refine iff_of_true ?_ ⟨key, hkey⟩
    rw [Option.isSome_map]
    exact Option.isSome_iff_ne_none.mpr hkey

/-- The first entry of a side is that of its smallest key. -/
theorem getPrice_eq_some {K V : Type*} [LinearOrder K] {side : BTreeMap K V} {entry : K × V}
    (h : getPrice side = some entry) :
    IsLeast {key | side.lookup key ≠ none} entry.1 ∧ side.lookup entry.1 = some entry.2 := by
  have hmem {key : K} : key ∈ side.keys ↔ side.lookup key ≠ none := by
    rw [Finmap.mem_keys, ← Finmap.lookup_isSome, Option.isSome_iff_ne_none]
  unfold getPrice at h
  split at h
  · cases h
  · rename_i key hmin
    obtain ⟨value, hvalue, rfl⟩ := Option.map_eq_some_iff.mp h
    refine ⟨⟨hmem.mp (Finset.mem_of_min hmin), fun other hother => ?_⟩, hvalue⟩
    exact Finset.min_le_of_eq (hmem.mpr hother) hmin

section Levels

variable {K D : Type*} [DecidableEq K] [DecidableEq D] [Zero D]

/-- Set the quantity at a key, or remove the key when the quantity is zero. -/
def setLevel (side : BTreeMap K D) (key : K) (quantity : D) : BTreeMap K D :=
  if quantity = 0 then side.erase key else side.insert key quantity

/-- Set the levels of one side in the order of the update. -/
def setLevels (key : D → K) (side : BTreeMap K D) (levels : List (D × D)) : BTreeMap K D :=
  levels.foldl (fun current level => setLevel current (key level.1) level.2) side

/-- The content of a level: a quantity, unless it is zero. -/
def levelValue (quantity : D) : Option D := if quantity = 0 then none else some quantity

/-- After a level was set, its key holds its content and other keys are unchanged. -/
theorem lookup_setLevel (side : BTreeMap K D) (key : K) (quantity : D) :
    (fun other => (setLevel side key quantity).lookup other) =
      Function.update (fun other => side.lookup other) key (levelValue quantity) := by
  funext other
  unfold setLevel levelValue
  by_cases hkey : other = key
  · subst hkey
    split
    · simp
    · simp
  · rw [Function.update_of_ne hkey]
    split
    · exact Finmap.lookup_erase_ne hkey
    · exact Finmap.lookup_insert_of_ne _ hkey

/-- Setting the levels of a side applies their writes to its content. -/
theorem lookup_setLevels (key : D → K) (side : BTreeMap K D) (levels : List (D × D)) :
    (fun other => (setLevels key side levels).lookup other) =
      WriteLog.applyWrites (fun other => side.lookup other)
        (levels.map fun level => (key level.1, levelValue level.2)) := by
  induction levels generalizing side with
  | nil => rfl
  | cons level rest ih =>
    rw [List.map_cons, WriteLog.applyWrites_cons, ← lookup_setLevel]
    exact ih _

end Levels

variable {D : Type*} [LinearOrder D]

/-- The quantity of a book at a side and price. -/
def OrderBook.level (book : OrderBook D) : Side × D → Option D
  | (.bid, price) => book.bids.lookup (toDual price)
  | (.ask, price) => book.asks.lookup price

/-- Both sides of a book have a best level exactly if each side has a level. -/
theorem getPrice_isSome_iff_level {book : OrderBook D} :
    (getPrice book.bids).isSome ∧ (getPrice book.asks).isSome ↔
      ∀ side, ∃ price, book.level (side, price) ≠ none := by
  rw [getPrice_isSome_iff, getPrice_isSome_iff]
  constructor
  · rintro ⟨⟨bid, hbid⟩, ⟨ask, hask⟩⟩ side
    cases side with
    | bid => exact ⟨ofDual bid, hbid⟩
    | ask => exact ⟨ask, hask⟩
  · intro h
    obtain ⟨bid, hbid⟩ := h .bid
    obtain ⟨ask, hask⟩ := h .ask
    exact ⟨⟨toDual bid, hbid⟩, ⟨ask, hask⟩⟩

/-- A synchronised book with a best level on both sides. -/
structure OrderBook.Ready (book : OrderBook D) : Prop where
  updateId : 2 ≤ book.updateId
  bids : (getPrice book.bids).isSome
  asks : (getPrice book.asks).isSome

/-- An empty book has no level. -/
theorem level_empty (n : ℕ) : OrderBook.level (D := D) ⟨∅, ∅, n⟩ = fun _ => none := by
  funext ⟨side, price⟩
  cases side <;> exact Finmap.lookup_empty _

/-- The id of a book does not change its levels. -/
@[simp] theorem level_updateId (book : OrderBook D) (n : ℕ) :
    OrderBook.level { book with updateId := n } = book.level := by
  funext ⟨side, price⟩
  cases side <;> rfl

variable [Zero D]

/-- Apply an update: clear the book for a full update, set the levels of both sides,
and advance the id. -/
def OrderBook.applyUpdate (book : OrderBook D) (update : OrderBookUpdate D) : OrderBook D where
  bids := setLevels toDual (if update.full then ∅ else book.bids) update.bids
  asks := setLevels id (if update.full then ∅ else book.asks) update.asks
  updateId :=
    if 0 < update.lastUpdateId then update.lastUpdateId
    else if 0 < update.bids.length ∨ 0 < update.asks.length then succU64 book.updateId
    else book.updateId

/-- The writes of an update, in the order in which they are applied. -/
def OrderBookUpdate.writes (update : OrderBookUpdate D) : List ((Side × D) × Option D) :=
  update.bids.map (fun level => ((.bid, level.1), levelValue level.2)) ++
    update.asks.map fun level => ((.ask, level.1), levelValue level.2)

/-- Writes to one side are seen at that side only. -/
theorem applyWrites_side {side : Side} (store : Side × D → Option D) (levels : List (D × D))
    (other : Side) (price : D) :
    WriteLog.applyWrites store (levels.map fun level => ((side, level.1), levelValue level.2))
      (other, price) =
        if other = side then
          WriteLog.applyWrites (fun p => store (side, p))
            (levels.map fun level => (level.1, levelValue level.2)) price
        else store (other, price) := by
  induction levels generalizing store with
  | nil =>
    split
    · rename_i h
      rw [h]
      rfl
    · rfl
  | cons level rest ih =>
    rw [List.map_cons, WriteLog.applyWrites_cons, ih]
    split
    · rw [List.map_cons, WriteLog.applyWrites_cons]
      congr 1
      funext p
      by_cases hp : p = level.1
      · subst hp
        simp
      · rw [Function.update_of_ne hp, Function.update_of_ne]
        simpa using hp
    · rename_i hne
      rw [Function.update_of_ne]
      simp [hne]

/-- An update applies its writes to the levels of the book, or to no levels when it
is full. -/
theorem level_applyUpdate (book : OrderBook D) (update : OrderBookUpdate D) :
    (book.applyUpdate update).level =
      WriteLog.applyWrites (if update.full then fun _ => none else book.level) update.writes := by
  funext ⟨side, price⟩
  have hstart : (if update.full then fun _ => none else book.level) =
      OrderBook.level ⟨if update.full then ∅ else book.bids,
        if update.full then ∅ else book.asks, 0⟩ := by
    split
    · exact (level_empty 0).symm
    · exact (level_updateId book 0).symm
  rw [hstart, OrderBookUpdate.writes, WriteLog.applyWrites_append]
  cases side with
  | bid =>
    simp only [applyWrites_side, reduceCtorEq, if_false, if_true]
    exact congrFun (lookup_setLevels toDual (if update.full then ∅ else book.bids) update.bids)
      (toDual price)
  | ask =>
    simp only [applyWrites_side, reduceCtorEq, if_false, if_true]
    exact congrFun (lookup_setLevels id (if update.full then ∅ else book.asks) update.asks) price

/-- An update with an id sets the id of the book. -/
theorem updateId_applyUpdate (book : OrderBook D) {update : OrderBookUpdate D}
    (h : 0 < update.lastUpdateId) : (book.applyUpdate update).updateId = update.lastUpdateId :=
  if_pos h

/-- An update keeps a side when its last write of some price there is a quantity, or
it leaves a price of the book alone and is not full. -/
def OrderBookUpdate.Keeps (update : OrderBookUpdate D) (book : OrderBook D) (side : Side) : Prop :=
  (∃ earlier write later, update.writes = earlier ++ write :: later ∧ write.1.1 = side ∧
      write.2 ≠ none ∧ ∀ other ∈ later, other.1 ≠ write.1) ∨
    update.full = false ∧ ∃ price, book.level (side, price) ≠ none ∧
      ∀ write ∈ update.writes, write.1 ≠ (side, price)

/-- A side has a level after an update exactly if the update keeps the side. -/
theorem keeps_iff {update : OrderBookUpdate D} {book : OrderBook D} {side : Side} :
    update.Keeps book side ↔ ∃ price, (book.applyUpdate update).level (side, price) ≠ none := by
  rw [level_applyUpdate]
  constructor
  · rintro (⟨earlier, ⟨⟨_, price⟩, value⟩, later, hwrites, rfl, hvalue, hlater⟩ |
      ⟨hfull, price, hprice, hunlisted⟩)
    · refine ⟨price, ?_⟩
      rw [hwrites, WriteLog.applyWrites_last hlater]
      exact hvalue
    · refine ⟨price, ?_⟩
      rw [WriteLog.applyWrites_of_not_listed hunlisted, hfull]
      exact hprice
  · rintro ⟨price, hprice⟩
    by_cases hlisted : ∃ write ∈ update.writes, write.1 = (side, price)
    · obtain ⟨earlier, write, later, hwrites, hkey, hlater⟩ := WriteLog.exists_last_write hlisted
      rw [← hkey] at hlater
      rw [hwrites, ← hkey, WriteLog.applyWrites_last hlater] at hprice
      exact Or.inl ⟨earlier, write, later, hwrites, congrArg Prod.fst hkey, hprice, hlater⟩
    · have hunlisted : ∀ write ∈ update.writes, write.1 ≠ (side, price) :=
        fun write hwrite heq => hlisted ⟨write, hwrite, heq⟩
      rw [WriteLog.applyWrites_of_not_listed hunlisted] at hprice
      cases hfull : update.full with
      | true => simp [hfull] at hprice
      | false => exact Or.inr ⟨hfull, price, by simpa [hfull] using hprice, hunlisted⟩

/-- An update with the id of a write that keeps both sides leaves a ready book. -/
theorem ready_applyUpdate {update : OrderBookUpdate D} {book : OrderBook D}
    (hlast : 2 ≤ update.lastUpdateId) (hkeeps : ∀ side, update.Keeps book side) :
    (book.applyUpdate update).Ready := by
  obtain ⟨hbids, hasks⟩ := getPrice_isSome_iff_level.mpr fun side => keeps_iff.mp (hkeeps side)
  refine ⟨?_, hbids, hasks⟩
  rw [updateId_applyUpdate book (by omega)]
  exact hlast

end Arbexpert.Base
