import Arbexpert.Base.HashMap
import Arbexpert.Base.WsClient

/-!
# Watch and unwatch calls of one sub-client

A call runs until it is suspended and holds no map across a suspension, but the
caller that connects holds the socket until its attempt has ended. Callers that find
the socket held are queued and get the verdict of the attempt through a oneshot
channel; a verdict that is dropped is an error for them. Sending needs the socket.
-/

namespace Arbexpert.Base

/-- Where a call stands. A watch call is asleep in a rate limiter, connecting,
waiting for an attempt of the socket that never ends, queued behind another caller
(with the id that it read and its verdict), in its subscribe closure, or waiting for
a book; an unwatch call is in its unsubscribe closure. -/
inductive Phase
  | idle
  | limited (symbol : String) (id : ℕ)
  | connecting (symbol : String) (id : ℕ)
  | stalled (symbol : String) (id : ℕ)
  | queued (symbol : String) (id : ℕ) (verdict : Option Bool)
  | subscribing (symbol : String)
  | waiting (symbol : String)
  | unsubscribing (symbol : String) (book : ℕ)
  | watched (book : Option ℕ)
  | unwatched (ok : Bool)
  deriving DecidableEq

/-- The receiving end of the channel of a watch call. -/
inductive Inbox
  | empty
  | book (book : ℕ)
  | closed
  deriving DecidableEq

/-- The sub-client and its calls. Books are numbered in the order in which they are
made, and a sender is named by the call that waits for it. -/
structure SubClient where
  ws : WsClient
  borrowed : Bool
  pending : HashMap String (List ℕ)
  subscribed : HashMap String ℕ
  connectingId : ℕ
  connecting : List ℕ
  made : ℕ
  calls : ℕ → Phase
  inbox : ℕ → Inbox
  aborted : Bool

/-- What can happen next: a call starts, a limiter admits the connecting caller, its
attempt ends, a queued caller or a waiting one resumes, a closure completes, a book
is sent to the watchers of a symbol, or the connection is lost. -/
inductive SubAction
  | watch (i : ℕ) (symbol : String)
  | proceed (i : ℕ) (builds : Bool)
  | attempt (i : ℕ) (succeeds : Bool)
  | resume (i : ℕ)
  | subscribe (i : ℕ) (ok : Bool)
  | receive (i : ℕ)
  | unwatch (i : ℕ) (symbol : String)
  | unsubscribe (i : ℕ) (ok : Bool)
  | broadcast (symbol : String)
  | lose

namespace SubClient

/-- A new sub-client. -/
def new : SubClient where
  ws := WsClient.new
  borrowed := false
  pending := ∅
  subscribed := ∅
  connectingId := 2 ^ 32 - 1
  connecting := []
  made := 0
  calls := fun _ => .idle
  inbox := fun _ => .empty
  aborted := false

/-- Whether the symbol is subscribed. -/
def hasSymbol (s : SubClient) (symbol : String) : Bool := symbol ∈ s.subscribed

/-- The number of subscribed symbols. -/
def subscribedCount (s : SubClient) : ℕ := s.subscribed.keys.card

/-- Move a call. -/
def setCall (s : SubClient) (i : ℕ) (phase : Phase) : SubClient :=
  { s with calls := Function.update s.calls i phase }

/-- Drop the senders of some calls. -/
def dropSenders (s : SubClient) (senders : List ℕ) : SubClient :=
  { s with inbox := fun i => if i ∈ senders ∧ s.inbox i = .empty then .closed else s.inbox i }

/-- Send a book to some calls. -/
def sendBook (s : SubClient) (senders : List ℕ) (book : ℕ) : SubClient :=
  { s with
    inbox := fun i => if i ∈ senders ∧ s.inbox i = .empty then .book book else s.inbox i }

/-- Give a verdict to queued callers; dropping their senders is the verdict `false`. -/
def resolve (s : SubClient) (senders : List ℕ) (verdict : Bool) : SubClient :=
  { s with
    calls := fun i =>
      match s.calls i with
      | .queued symbol id none =>
        if i ∈ senders then .queued symbol id (some verdict) else .queued symbol id none
      | phase => phase }

/-- Remove the pending list of a symbol. -/
def removePending (s : SubClient) (symbol : String) : SubClient :=
  { s.dropSenders ((s.pending.lookup symbol).getD []) with pending := s.pending.erase symbol }

/-- `on_fail` of the sub-client: the maps and the queue are cleared. -/
def onFail (s : SubClient) : SubClient :=
  let s := s.resolve s.connecting false
  { s with
    subscribed := ∅
    pending := ∅
    inbox := fun i =>
      if (∃ symbol ∈ s.pending.keys, i ∈ (s.pending.lookup symbol).getD []) ∧ s.inbox i = .empty
      then .closed else s.inbox i
    connecting := [] }

/-- The id of the next attempt. -/
def nextConnectingId (id : ℕ) : ℕ := (if id = 2 ^ 32 - 1 then 0 else id) + 1

/-- The loop of `watch` with the id that the call knows, and the part of `connect` up
to its first suspension. The call and its symbol are named when the loop ends; a
connected socket returns the current id, which ends it. -/
def enter (s : SubClient) (i : ℕ) (symbol : String) (id : ℕ) :
    SubClient × Option (ℕ × String) :=
  if s.connectingId = id then (s, some (i, symbol))
  else if s.borrowed then
    ({ s.setCall i (.queued symbol s.connectingId none) with connecting := s.connecting ++ [i] },
      none)
  else if s.ws.isConnected then (s, some (i, symbol))
  else
    let id := nextConnectingId s.connectingId
    ({ s.setCall i (.limited symbol id) with connectingId := id, borrowed := true }, none)

/-- Release the socket and give the verdict of the attempt to the queued callers. -/
def release (s : SubClient) (i : ℕ) (ok : Bool) : SubClient :=
  { (s.resolve s.connecting ok).setCall i .idle with connecting := [], borrowed := false }

/-- The end of the attempt of a connecting caller. The caller returns its id whether
or not it is connected. -/
def finish (s : SubClient) (i : ℕ) (symbol : String) (id : ℕ) (ok : Bool) :
    SubClient × Option (ℕ × String) :=
  (s.release i ok).enter i symbol id

/-- A connecting caller that the limiters have admitted starts to connect. -/
def proceed (s : SubClient) (i : ℕ) (symbol : String) (id : ℕ) (builds : Bool) :
    SubClient × Option (ℕ × String) :=
  let (ws, start) := s.ws.connect i builds
  let s := { s with ws }
  match start with
  | .attempting => (s.setCall i (.connecting symbol id), none)
  | .queued => (s.setCall i (.stalled symbol id), none)
  | .connected => s.finish i symbol id true
  | .failed => s.finish i symbol id false

/-- The first part of `watch` after its loop: enter the symbol in both maps, or join
the pending list of a subscribed symbol, whose absence stops the process. -/
def join (s : SubClient) (i : ℕ) (symbol : String) : SubClient :=
  let s := { s with inbox := Function.update s.inbox i .empty }
  match s.subscribed.lookup symbol with
  | none =>
    { s.setCall i (.subscribing symbol) with
      subscribed := s.subscribed.insert symbol s.made
      made := s.made + 1
      pending := s.pending.insert symbol ((s.pending.lookup symbol).getD [] ++ [i]) }
  | some _ =>
    match s.pending.lookup symbol with
    | none => { s with aborted := true }
    | some senders =>
      { s.setCall i (.waiting symbol) with
        pending := s.pending.insert symbol (senders ++ [i]) }

/-- `send`: refused while the socket is held, and without a session. -/
def send (s : SubClient) (frame : Frame) : Option SubClient :=
  if s.borrowed then none else (s.ws.send frame).map fun ws => { s with ws }

/-- The rest of `watch` once its closure has completed: send the frame, or take the
symbol out of both maps. A refused frame leaves the symbol where it is. -/
def subscribe (s : SubClient) (i : ℕ) (symbol : String) (ok : Bool) : SubClient :=
  if ok then
    match s.send (.subscribe symbol) with
    | some s => s.setCall i (.waiting symbol)
    | none => s.setCall i (.watched none)
  else
    let s := s.removePending symbol
    { s.setCall i (.watched none) with subscribed := s.subscribed.erase symbol }

/-- The rest of `unwatch` once its closure has completed: drop the watchers and send
the frame, or put the symbol back with its book. -/
def unsubscribe (s : SubClient) (i : ℕ) (symbol : String) (book : ℕ) (ok : Bool) : SubClient :=
  if ok then
    let s := s.removePending symbol
    match s.send (.unsubscribe symbol) with
    | some s => s.setCall i (.unwatched true)
    | none => s.setCall i (.unwatched false)
  else { s.setCall i (.unwatched true) with subscribed := s.subscribed.insert symbol book }

/-- The part of an action that connects, and the watch call that leaves its loop. -/
def advance (s : SubClient) : SubAction → Option (SubClient × Option (ℕ × String))
  | .watch i symbol => if s.calls i = .idle then some (s.enter i symbol 0) else none
  | .proceed i builds =>
    match s.calls i with
    | .limited symbol id => some (s.proceed i symbol id builds)
    | _ => none
  | .attempt i succeeds =>
    match s.calls i with
    | .connecting symbol id =>
      some ({ s with ws := s.ws.finishConnect succeeds }.finish i symbol id succeeds)
    | _ => none
  | .resume i =>
    match s.calls i with
    | .queued symbol id (some true) => some (s.enter i symbol id)
    | .queued _ _ (some false) => some (s.setCall i (.watched none), none)
    | _ => none
  | .subscribe i ok =>
    match s.calls i with
    | .subscribing symbol => some (s.subscribe i symbol ok, none)
    | _ => none
  | .receive i =>
    match s.calls i, s.inbox i with
    | .waiting _, .book book => some (s.setCall i (.watched (some book)), none)
    | .waiting _, .closed => some (s.setCall i (.watched none), none)
    | _, _ => none
  | .unwatch i symbol =>
    if s.calls i = .idle then
      match s.subscribed.lookup symbol with
      | none => some (s.setCall i (.unwatched true), none)
      | some book =>
        some ({ s.setCall i (.unsubscribing symbol book) with
          subscribed := s.subscribed.erase symbol }, none)
    else none
  | .unsubscribe i ok =>
    match s.calls i with
    | .unsubscribing symbol book => some (s.unsubscribe i symbol book ok, none)
    | _ => none
  | .broadcast symbol =>
    match s.subscribed.lookup symbol, s.pending.lookup symbol with
    | some book, some senders =>
      some ({ s.sendBook senders book with pending := s.pending.insert symbol [] }, none)
    | _, _ => none
  | .lose => if s.ws.isConnected then some ({ s with ws := s.ws.disconnect }.onFail, none) else none

/-- One step: nothing happens after the process was aborted, and a call that leaves
its loop goes on without a suspension. -/
def step (s : SubClient) (action : SubAction) : Option SubClient :=
  if s.aborted then none
  else (s.advance action).map fun (s, next) => next.elim s fun call => s.join call.1 call.2

/-- The actions that are enabled, with what they do. -/
inductive Advances (s : SubClient) : SubAction → SubClient × Option (ℕ × String) → Prop
  | watch {i symbol} (hcall : s.calls i = .idle) :
      Advances s (.watch i symbol) (s.enter i symbol 0)
  | proceed {i builds symbol id} (hcall : s.calls i = .limited symbol id) :
      Advances s (.proceed i builds) (s.proceed i symbol id builds)
  | attempt {i succeeds symbol id} (hcall : s.calls i = .connecting symbol id) :
      Advances s (.attempt i succeeds)
        (SubClient.finish { s with ws := s.ws.finishConnect succeeds } i symbol id succeeds)
  | resume {i symbol id} (hcall : s.calls i = .queued symbol id (some true)) :
      Advances s (.resume i) (s.enter i symbol id)
  | refuse {i symbol id} (hcall : s.calls i = .queued symbol id (some false)) :
      Advances s (.resume i) (s.setCall i (.watched none), none)
  | subscribe {i ok symbol} (hcall : s.calls i = .subscribing symbol) :
      Advances s (.subscribe i ok) (s.subscribe i symbol ok, none)
  | receive {i symbol book} (hcall : s.calls i = .waiting symbol)
      (hinbox : s.inbox i = .book book) :
      Advances s (.receive i) (s.setCall i (.watched (some book)), none)
  | closed {i symbol} (hcall : s.calls i = .waiting symbol) (hinbox : s.inbox i = .closed) :
      Advances s (.receive i) (s.setCall i (.watched none), none)
  | absent {i symbol} (hcall : s.calls i = .idle) (hsymbol : s.subscribed.lookup symbol = none) :
      Advances s (.unwatch i symbol) (s.setCall i (.unwatched true), none)
  | unwatch {i symbol book} (hcall : s.calls i = .idle)
      (hsymbol : s.subscribed.lookup symbol = some book) :
      Advances s (.unwatch i symbol)
        ({ s.setCall i (.unsubscribing symbol book) with
          subscribed := s.subscribed.erase symbol }, none)
  | unsubscribe {i ok symbol book} (hcall : s.calls i = .unsubscribing symbol book) :
      Advances s (.unsubscribe i ok) (s.unsubscribe i symbol book ok, none)
  | broadcast {symbol book senders} (hsymbol : s.subscribed.lookup symbol = some book)
      (hpending : s.pending.lookup symbol = some senders) :
      Advances s (.broadcast symbol)
        ({ s.sendBook senders book with pending := s.pending.insert symbol [] }, none)
  | lose (hconnected : s.ws.isConnected = true) :
      Advances s .lose ({ s with ws := s.ws.disconnect }.onFail, none)

/-- Every action does what its name says, when it is enabled. -/
theorem advances_of_advance {s : SubClient} {action : SubAction}
    {result : SubClient × Option (ℕ × String)} (h : s.advance action = some result) :
    s.Advances action result := by
  cases action <;> simp only [advance] at h
  case watch i symbol =>
    split at h
    · rename_i hcall
      cases h
      exact .watch hcall
    · cases h
  case proceed i builds =>
    split at h
    · rename_i hcall
      cases h
      exact .proceed hcall
    · cases h
  case attempt i succeeds =>
    split at h
    · rename_i hcall
      cases h
      exact .attempt hcall
    · cases h
  case resume i =>
    split at h
    · rename_i hcall
      cases h
      exact .resume hcall
    · rename_i hcall
      cases h
      exact .refuse hcall
    · cases h
  case subscribe i ok =>
    split at h
    · rename_i hcall
      cases h
      exact .subscribe hcall
    · cases h
  case receive i =>
    split at h
    · rename_i hcall hinbox
      cases h
      exact .receive hcall hinbox
    · rename_i hcall hinbox
      cases h
      exact .closed hcall hinbox
    · cases h
  case unwatch i symbol =>
    split at h
    · rename_i hcall
      split at h
      · rename_i hsymbol
        cases h
        exact .absent hcall hsymbol
      · rename_i hsymbol
        cases h
        exact .unwatch hcall hsymbol
    · cases h
  case unsubscribe i ok =>
    split at h
    · rename_i hcall
      cases h
      exact .unsubscribe hcall
    · cases h
  case broadcast symbol =>
    split at h
    · rename_i hsymbol hpending
      cases h
      exact .broadcast hsymbol hpending
    · cases h
  case lose =>
    split at h
    · rename_i hconnected
      cases h
      exact .lose hconnected
    · cases h

/-- A step is an enabled action, and the entry of the call that leaves its loop. -/
theorem advances_of_step {s t : SubClient} {action : SubAction} (h : s.step action = some t) :
    ∃ result, s.Advances action result ∧
      t = result.2.elim result.1 fun call => result.1.join call.1 call.2 := by
  unfold step at h
  split at h
  · cases h
  · obtain ⟨result, hadvance, rfl⟩ := Option.map_eq_some_iff.mp h
    exact ⟨result, advances_of_advance hadvance, rfl⟩

end SubClient

end Arbexpert.Base
