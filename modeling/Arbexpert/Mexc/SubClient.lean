import Arbexpert.Base.HashMap
import Arbexpert.Foundation.GuardedRun
import Arbexpert.Mexc.Push

/-!
# The public connection

A depth push takes the book of its symbol out of the map, where a default book stays in its
place, and puts it back after its levels have been applied. A push without a body leaves the
handler before that, so the book is lost; a text that is not a decimal aborts the process. So
a push that carries no batch of levels leaves the books alone exactly if its symbol is not
subscribed, or it has another body, or the book that it loses was the default one.
-/

namespace Arbexpert.Mexc

open Base

/-- The sub-client: the books of the subscribed symbols, the calls that wait for the next book
of a symbol, and the books that have been sent to such calls. -/
structure SubClient (D : Type*) where
  subscribed : HashMap String (OrderBook D)
  pending : HashMap String (List ℕ)
  sent : List (ℕ × OrderBook D)
  aborted : Bool

/-- What can happen next: a message, where `none` stands for bytes that are not decoded, a call,
or the loss of the connection. -/
inductive SubAction
  | message (data : Option PushDataV3ApiWrapper)
  | watch (symbol : String) (caller : ℕ)
  | unwatch (symbol : String)
  | fail

/-- The channel of the depth pushes, up to the symbol. -/
def depthChannel : String := "spot@public.increase.depth.batch.v3.api.pb@"

/-- The message is on the channel of the depth pushes. -/
def PushDataV3ApiWrapper.OnDepthChannel (wrapper : PushDataV3ApiWrapper) : Prop :=
  depthChannel.toList <:+: wrapper.channel.toList

/-- Whether a message is a depth push is computed. -/
instance (wrapper : PushDataV3ApiWrapper) : Decidable wrapper.OnDepthChannel :=
  inferInstanceAs (Decidable (_ <:+: _))

/-- The body of the message is a batch. -/
def PushDataV3ApiWrapper.CarriesBatch (wrapper : PushDataV3ApiWrapper) : Prop :=
  ∃ items, wrapper.body = some (.publicIncreaseDepthsBatch items)

/-- The body of the message is a batch in which all prices and quantities are decimals. -/
def PushDataV3ApiWrapper.WellFormed (D : Type*) [DecimalText D] (wrapper : PushDataV3ApiWrapper) :
    Prop :=
  ∃ items, wrapper.body = some (.publicIncreaseDepthsBatch items) ∧
    ∀ item ∈ items, ∀ level ∈ item.asks ++ item.bids, level.Readable D

variable {D : Type*} [LinearOrder D] [Zero D] [DecimalText D]

/-- Apply the updates of a batch one after the other; `none` when a text is not a decimal. -/
def applyItems (book : OrderBook D) (items : List PublicIncreaseDepthsV3Api) :
    Option (OrderBook D) :=
  items.foldlM (fun book item => item.update.map book.applyUpdate) book

/-- A batch is applied exactly if all its texts are decimals. -/
theorem applyItems_isSome_iff {book : OrderBook D} {items : List PublicIncreaseDepthsV3Api} :
    (applyItems book items).isSome ↔
      ∀ item ∈ items, ∀ level ∈ item.asks ++ item.bids, level.Readable D := by
  simp only [← update_isSome_iff]
  induction items generalizing book with
  | nil => simp [applyItems]
  | cons item rest ih =>
    have hcons : applyItems book (item :: rest) =
        (item.update.map book.applyUpdate).bind fun next => applyItems next rest := rfl
    rw [hcons, List.forall_mem_cons]
    cases (item.update : Option (OrderBookUpdate D)) with
    | none => simp
    | some update => simpa using ih

namespace SubClient

/-- A new sub-client. -/
def new : SubClient D := ⟨∅, ∅, [], false⟩

/-- Send a book to the calls that wait for it. -/
def deliver (s : SubClient D) (symbol : String) (book : OrderBook D) : SubClient D :=
  match s.pending.lookup symbol with
  | none => s
  | some callers =>
    { s with
      pending := s.pending.insert symbol []
      sent := s.sent ++ callers.map fun caller => (caller, book) }

/-- Put the book back and send it, if its id has changed. -/
def store (s : SubClient D) (symbol : String) (oldId : ℕ) (book : OrderBook D) : SubClient D :=
  let s := { s with subscribed := s.subscribed.insert symbol book }
  if oldId = book.updateId then s else s.deliver symbol book

/-- Handle a message. The book is taken out of the map before the body is looked at. -/
def handleBinary (s : SubClient D) (data : Option PushDataV3ApiWrapper) : SubClient D :=
  match data with
  | none => s
  | some wrapper =>
    if wrapper.OnDepthChannel then
      let symbol := channelSymbol wrapper.channel
      match s.subscribed.lookup symbol with
      | none => s
      | some book =>
        let s := { s with subscribed := s.subscribed.insert symbol OrderBook.empty }
        match wrapper.body with
        | none => s
        | some (.publicIncreaseDepthsBatch items) =>
          match applyItems book items with
          | none => { s with aborted := true }
          | some book' => s.store symbol book.updateId book'
        | some _ => s.store symbol book.updateId book
    else s

/-- `watch` up to its wait. The call that subscribes a symbol sends a message; when that
fails, the call ends, but the symbol stays. -/
def watch (s : SubClient D) (symbol : String) (caller : ℕ) : SubClient D :=
  let s :=
    if symbol ∈ s.subscribed then s
    else
      { s with
        subscribed := s.subscribed.insert symbol OrderBook.empty
        pending := s.pending.insert symbol ((s.pending.lookup symbol).getD []) }
  match s.pending.lookup symbol with
  | none => { s with aborted := true }
  | some callers => { s with pending := s.pending.insert symbol (callers ++ [caller]) }

/-- `unwatch`, whatever becomes of its message. -/
def unwatch (s : SubClient D) (symbol : String) : SubClient D :=
  if symbol ∈ s.subscribed then
    { s with
      subscribed := s.subscribed.erase symbol
      pending := s.pending.erase symbol }
  else s

/-- The connection is lost. -/
def onFail (s : SubClient D) : SubClient D :=
  { s with
    subscribed := ∅
    pending := ∅ }

/-- One step; nothing happens after the process was aborted. -/
def step (s : SubClient D) (action : SubAction) : Option (SubClient D) :=
  if s.aborted then none
  else
    match action with
    | .message data => some (s.handleBinary data)
    | .watch symbol caller => some (s.watch symbol caller)
    | .unwatch symbol => some (s.unwatch symbol)
    | .fail => some s.onFail

/-- A message on the depth channel without a well-formed batch is handled without a panic, and
all symbols keep their books. -/
def LeavesIntact (s : SubClient D) : SubAction → Prop
  | .message (some wrapper) => wrapper.OnDepthChannel → ¬wrapper.WellFormed D →
    (s.handleBinary (some wrapper)).aborted = false ∧
      ∀ symbol, (s.handleBinary (some wrapper)).subscribed.lookup symbol =
        s.subscribed.lookup symbol
  | _ => True

/-- The symbol of a message on the depth channel without a well-formed batch is not subscribed,
or the message has another body, or it has none and the book of the symbol is the default. -/
def Harmless (s : SubClient D) : SubAction → Prop
  | .message (some wrapper) => wrapper.OnDepthChannel → ¬wrapper.WellFormed D →
    s.subscribed.lookup (channelSymbol wrapper.channel) = none ∨
      (wrapper.body ≠ none ∧ ¬wrapper.CarriesBatch) ∨
      (wrapper.body = none ∧
        s.subscribed.lookup (channelSymbol wrapper.channel) = some OrderBook.empty)
  | _ => True

variable {s : SubClient D} {wrapper : PushDataV3ApiWrapper}

/-- A message without a body leaves the default book in the place of the book. -/
theorem handleBinary_of_bodiless {book : OrderBook D} (hchannel : wrapper.OnDepthChannel)
    (hbook : s.subscribed.lookup (channelSymbol wrapper.channel) = some book)
    (hbody : wrapper.body = none) :
    s.handleBinary (some wrapper) = { s with
      subscribed := s.subscribed.insert (channelSymbol wrapper.channel) OrderBook.empty } := by
  simp only [handleBinary, if_pos hchannel, hbook, hbody]

/-- A message with another body puts the book back as it was. -/
theorem handleBinary_of_other {book : OrderBook D} (hchannel : wrapper.OnDepthChannel)
    (hbook : s.subscribed.lookup (channelSymbol wrapper.channel) = some book)
    (hbody : wrapper.body ≠ none) (hother : ¬wrapper.CarriesBatch) :
    s.handleBinary (some wrapper) = s := by
  obtain ⟨body, hsome⟩ := Option.ne_none_iff_exists'.mp hbody
  have hback : (s.subscribed.insert (channelSymbol wrapper.channel) OrderBook.empty).insert
      (channelSymbol wrapper.channel) book = s.subscribed := by
    rw [Finmap.insert_insert, insert_of_lookup hbook]
  cases body with
  | publicIncreaseDepthsBatch items => exact absurd ⟨items, hsome⟩ hother
  | privateOrders order =>
    simp only [handleBinary, if_pos hchannel, hbook, hsome, store, if_true, hback]
  | other => simp only [handleBinary, if_pos hchannel, hbook, hsome, store, if_true, hback]

/-- A batch in which a text is not a decimal aborts the process. -/
theorem handleBinary_of_malformed {book : OrderBook D} (hchannel : wrapper.OnDepthChannel)
    (hbook : s.subscribed.lookup (channelSymbol wrapper.channel) = some book)
    (hbatch : wrapper.CarriesBatch) (hmalformed : ¬wrapper.WellFormed D) :
    (s.handleBinary (some wrapper)).aborted = true := by
  obtain ⟨items, hsome⟩ := hbatch
  have happly : applyItems book items = none := by
    rw [← Option.not_isSome_iff_eq_none, applyItems_isSome_iff]
    exact fun hreadable => hmalformed ⟨items, hsome, hreadable⟩
  simp only [handleBinary, if_pos hchannel, hbook, hsome, happly]

/-- A message on the depth channel without a well-formed batch leaves the books intact exactly
if it is harmless. -/
theorem leavesIntact_iff {action : SubAction} (hrunning : s.aborted = false) :
    s.LeavesIntact action ↔ s.Harmless action := by
  cases action with
  | watch symbol caller => exact Iff.rfl
  | unwatch symbol => exact Iff.rfl
  | fail => exact Iff.rfl
  | message data =>
    cases data with
    | none => exact Iff.rfl
    | some wrapper =>
      refine forall₂_congr fun hchannel hmalformed => ?_
      cases hbook : s.subscribed.lookup (channelSymbol wrapper.channel) with
      | none =>
        have hignored : s.handleBinary (some wrapper) = s := by
          simp only [handleBinary, if_pos hchannel, hbook]
        rw [hignored]
        exact iff_of_true ⟨hrunning, fun _ => rfl⟩ (Or.inl rfl)
      | some book =>
        by_cases hbody : wrapper.body = none
        · rw [handleBinary_of_bodiless hchannel hbook hbody]
          simp [hrunning, insert_eq_self_iff, hbook, hbody]
        · by_cases hbatch : wrapper.CarriesBatch
          · have haborted := handleBinary_of_malformed hchannel hbook hbatch hmalformed
            simp [haborted, hbody, hbatch]
          · rw [handleBinary_of_other hchannel hbook hbody hbatch]
            exact iff_of_true ⟨hrunning, fun _ => rfl⟩ (Or.inr (Or.inl ⟨hbody, hbatch⟩))

/-- In every run of the sub-client, all messages on the depth channel without a well-formed
batch leave the books intact exactly if each of them is harmless. -/
theorem rejected_intact_iff (actions : List SubAction) :
    GuardedRun.StepsSatisfy step LeavesIntact (new : SubClient D) actions ↔
      GuardedRun.StepsSatisfy step Harmless (new : SubClient D) actions := by
  refine GuardedRun.stepsSatisfy_iff (I := fun _ => True) (fun s action t _ hstep => ?_) trivial
  have hrunning : s.aborted = false := by
    by_contra haborted
    simp [step, haborted] at hstep
  exact ⟨leavesIntact_iff hrunning, fun _ => trivial⟩

/-- A message on the depth channel of a symbol. -/
def depthPush (symbol : String) (body : Option Body) : PushDataV3ApiWrapper :=
  ⟨depthChannel ++ symbol, body, none⟩

/-- A book that has got a level is lost when a message without a body follows. -/
theorem bodiless_message_loses_book : ∃ s : SubClient ℕ,
    GuardedRun.exec step (new : SubClient ℕ) [.watch "BTCUSDT" 0, .message (some <|
      depthPush "BTCUSDT" (some (.publicIncreaseDepthsBatch [⟨[], [⟨"10", "5"⟩]⟩])))] = some s ∧
      (s.subscribed.lookup "BTCUSDT").map OrderBook.updateId = some 1 ∧
      ((s.handleBinary (some (depthPush "BTCUSDT" none))).subscribed.lookup "BTCUSDT").map
        OrderBook.updateId = some 0 ∧
      ¬s.LeavesIntact (.message (some (depthPush "BTCUSDT" none))) := by
  refine ⟨_, rfl, rfl, rfl, fun hintact => ?_⟩
  have hmalformed : ¬(depthPush "BTCUSDT" none).WellFormed ℕ := by
    rintro ⟨items, hbody, _⟩
    cases hbody
  have hsame := (hintact (by decide) hmalformed).2 "BTCUSDT"
  exact absurd (congrArg (Option.map OrderBook.updateId) hsame) (by decide)

end SubClient

end Arbexpert.Mexc
