import Arbexpert.Base.OrderBook

/-!
# Pushed messages

The decoded messages of the exchange: a channel, a symbol that may be missing, and one of
many bodies, of which the handlers read two. All numbers come as texts.
-/

namespace Arbexpert.Mexc

open Base

/-- A level of a depth push. -/
structure PublicIncreaseDepthV3ApiItem where
  price : String
  quantity : String

/-- The levels of one depth push. -/
structure PublicIncreaseDepthsV3Api where
  asks : List PublicIncreaseDepthV3ApiItem
  bids : List PublicIncreaseDepthV3ApiItem

/-- A push about an order of the account. -/
structure PrivateOrdersV3Api where
  id : String
  price : String
  amount : String
  tradeType : ℤ
  remainQuantity : String
  cumulativeQuantity : String
  status : ℤ

/-- The body of a message; the handlers read nothing of the other bodies. -/
inductive Body
  | publicIncreaseDepthsBatch (items : List PublicIncreaseDepthsV3Api)
  | privateOrders (order : PrivateOrdersV3Api)
  | other

/-- A decoded message. -/
structure PushDataV3ApiWrapper where
  channel : String
  body : Option Body
  symbol : Option String

/-- The part of a channel after its last `@`. -/
def channelSymbol (channel : String) : String :=
  String.ofList (channel.toList.reverse.takeWhile (· ≠ '@')).reverse

variable {D : Type*} [DecimalText D]

/-- The price and the quantity of a level; `none` when one of them is not a decimal. -/
def PublicIncreaseDepthV3ApiItem.level (item : PublicIncreaseDepthV3ApiItem) : Option (D × D) :=
  (DecimalText.parse item.price).bind fun price =>
    (DecimalText.parse item.quantity).map fun quantity => (price, quantity)

/-- The update of a depth push. -/
def PublicIncreaseDepthsV3Api.update (item : PublicIncreaseDepthsV3Api) :
    Option (OrderBookUpdate D) :=
  (item.asks.mapM PublicIncreaseDepthV3ApiItem.level).bind fun asks =>
    (item.bids.mapM PublicIncreaseDepthV3ApiItem.level).map fun bids => ⟨bids, asks, 0, 0, false⟩

/-- The price and the quantity of a level are decimals. -/
def PublicIncreaseDepthV3ApiItem.Readable (D : Type*) [DecimalText D]
    (item : PublicIncreaseDepthV3ApiItem) : Prop :=
  (DecimalText.parse item.price : Option D).isSome ∧
    (DecimalText.parse item.quantity : Option D).isSome

/-- All items of a list are read exactly if each of them is. -/
theorem mapM_isSome_iff {A B : Type*} {f : A → Option B} {items : List A} :
    (items.mapM f).isSome ↔ ∀ item ∈ items, (f item).isSome := by
  induction items with
  | nil => simp
  | cons item rest ih =>
    cases hitem : f item with
    | none => simp [hitem]
    | some value =>
      cases hrest : rest.mapM f with
      | none => simpa [hitem, hrest] using ih
      | some values => simpa [hitem, hrest] using ih

/-- A level is read exactly if its texts are decimals. -/
theorem level_isSome_iff {item : PublicIncreaseDepthV3ApiItem} :
    (item.level : Option (D × D)).isSome ↔ item.Readable D := by
  unfold PublicIncreaseDepthV3ApiItem.level PublicIncreaseDepthV3ApiItem.Readable
  cases (DecimalText.parse item.price : Option D) <;> simp

/-- A depth push is read exactly if the texts of all its levels are decimals. -/
theorem update_isSome_iff {item : PublicIncreaseDepthsV3Api} :
    (item.update : Option (OrderBookUpdate D)).isSome ↔
      ∀ level ∈ item.asks ++ item.bids, level.Readable D := by
  have hside (levels : List PublicIncreaseDepthV3ApiItem) :
      (levels.mapM (PublicIncreaseDepthV3ApiItem.level (D := D))).isSome ↔
        ∀ level ∈ levels, level.Readable D := by
    rw [mapM_isSome_iff]
    exact forall₂_congr fun _ _ => level_isSome_iff
  simp only [List.mem_append, or_imp, forall_and, ← hside]
  unfold PublicIncreaseDepthsV3Api.update
  cases item.asks.mapM (PublicIncreaseDepthV3ApiItem.level (D := D)) <;> simp

end Arbexpert.Mexc
