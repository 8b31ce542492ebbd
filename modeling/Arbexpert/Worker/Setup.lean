import Arbexpert.Foundation.GuardedRun
import Arbexpert.Gate.Assets
import Arbexpert.Worker.CrossAssets

/-!
# The set-up of the exchanges

A set-up constructs the client of Gate, and in most places that of Binance with it. The
constructors of an exchange share its time offset and its assets through locks that they hold while
they wait for a response. A lock that is taken, be it by the same thread, blocks the whole thread
with all set-ups that it runs.
-/

namespace Arbexpert.Worker

open Arbexpert.Base

/-- The exchanges whose clients are set up. -/
inductive SetupExchange
  | gate
  | binance
  deriving DecidableEq

/-- The locks of an exchange that its constructors hold while they wait. -/
inductive Guard
  | syncTime
  | loadAssets
  deriving DecidableEq

/-- A constructor: the number of its set-up, and its exchange. -/
abbrev Constructor := ℕ × SetupExchange

/-- Where a constructor stands: about to take a lock, waiting for the time of the server, or for the
assets of the markets that have not been answered yet. -/
inductive SetupStage
  | absent
  | entering (guard : Guard)
  | syncing
  | loading (spot future : Option (Option (List Asset)))
  | done
  deriving DecidableEq

/-- What a constructor has written to its client. -/
structure Client where
  timeOffsetMs : Int64
  assets : Option Assets

/-- The static variables of the exchanges, and the constructors. The limiters of an exchange are
told by the server time from which they were built. -/
structure Setup where
  timeOffset : SetupExchange → Int64
  limiter : SetupExchange → Option Int64
  assets : SetupExchange → Assets
  held : SetupExchange × Guard → Option Constructor
  calls : ℕ
  stage : Constructor → SetupStage
  client : Constructor → Client
  blocked : ℕ → Option Constructor
  aborted : Bool

/-- What can happen next: a set-up of one or both exchanges begins, a blocked thread gets the lock,
or a constructor receives a response. -/
inductive SetupAction
  | begin (both : Bool)
  | acquire (thread : ℕ)
  | time (c : Constructor) (response : Option Value) (localTime : Int64)
  | assets (c : Constructor) (market : MarketType) (response : Option Value)

/-- The time in a response. -/
def serverTime (exchange : SetupExchange) (json : Value) : Option Int64 :=
  match exchange with
  | .gate => (json.field "server_time").asI64
  | .binance => (json.field "serverTime").asI64

/-- The assets of a response of Binance. -/
def fetchBinanceAssetsBy (market : MarketType) (json : Value) : List Asset :=
  ((json.field "symbols").asArray.getD []).filterMap fun symbol =>
    if (symbol.field "status").asStr = some "TRADING" then
      let base := (symbol.field "baseAsset").asStr.getD ""
      let quote := (symbol.field "quoteAsset").asStr.getD ""
      let name := match market with
        | .spot => base ++ "/" ++ quote
        | .future => base ++ "/" ++ quote ++ ":" ++ quote
      some ⟨name, base, quote, market, "Binance"⟩
    else none

/-- The assets of a response. -/
def fetchAssetsBy (exchange : SetupExchange) (market : MarketType) (json : Value) : List Asset :=
  match exchange with
  | .gate => Gate.fetchAssetsBy market json
  | .binance => fetchBinanceAssetsBy market json

/-- The assets by symbol. -/
def collectAssets (assets : List Asset) : BTreeMap String Asset :=
  assets.foldl (fun map asset => map.insert asset.symbol asset) ∅

namespace Setup

/-- No set-up has begun. -/
def start : Setup where
  timeOffset _ := Int64.maxValue
  limiter _ := none
  assets _ := ⟨∅, ∅⟩
  held _ := none
  calls := 0
  stage _ := .absent
  client _ := ⟨0, none⟩
  blocked _ := none
  aborted := false

/-- Write where a constructor stands. -/
def setStage (s : Setup) (c : Constructor) (stage : SetupStage) : Setup :=
  { s with stage := Function.update s.stage c stage }

/-- Write who holds a lock of an exchange. -/
def setHeld (s : Setup) (lock : SetupExchange × Guard) (c : Option Constructor) : Setup :=
  { s with held := Function.update s.held lock c }

/-- Write the time offset of a client. -/
def setTimeOffset (s : Setup) (c : Constructor) (timeOffset : Int64) : Setup :=
  { s with
    client := Function.update s.client c { s.client c with timeOffsetMs := timeOffset } }

/-- Write the assets of a client. -/
def setAssets (s : Setup) (c : Constructor) (assets : Assets) : Setup :=
  { s with client := Function.update s.client c { s.client c with assets := some assets } }

variable (thread : ℕ → ℕ)

/-- The thread of a constructor waits for a lock. -/
def block (s : Setup) (c : Constructor) (guard : Guard) : Setup :=
  { s.setStage c (.entering guard) with
    blocked := Function.update s.blocked (thread c.1) (some c) }

/-- `load_assets` up to the requests: the stored assets are used when there are any, else the
limiter is used, which aborts the process when the time was never synchronised. -/
def enterLoad (s : Setup) (c : Constructor) : Setup :=
  match s.held (c.2, .loadAssets) with
  | some _ => s.block thread c .loadAssets
  | none =>
    if (s.assets c.2).spot = ∅ then
      match s.limiter c.2 with
      | none => { s with aborted := true }
      | some _ => (s.setHeld (c.2, .loadAssets) (some c)).setStage c (.loading none none)
    else (s.setAssets c (s.assets c.2)).setStage c .done

/-- A constructor runs up to its next request, or until the thread blocks; nothing happens when it
is not about to take a lock. -/
def enter (s : Setup) (c : Constructor) : Setup :=
  match s.stage c with
  | .entering .syncTime =>
    match s.held (c.2, .syncTime) with
    | some _ => s.block thread c .syncTime
    | none =>
      if s.timeOffset c.2 = Int64.maxValue then
        (s.setHeld (c.2, .syncTime) (some c)).setStage c .syncing
      else enterLoad thread (s.setTimeOffset c (s.timeOffset c.2)) c
  | .entering .loadAssets => enterLoad thread s c
  | _ => s

/-- The constructors of a set-up run, Gate first. -/
def poll (s : Setup) (call : ℕ) : Setup :=
  let s := s.enter thread (call, .gate)
  if s.aborted ∨ s.blocked (thread call) ≠ none then s else s.enter thread (call, .binance)

/-- The rest of `sync_time` after the request. -/
def synced (s : Setup) (c : Constructor) (response : Option Value) (localTime : Int64) : Setup :=
  let s := (s.setHeld (c.2, .syncTime) none).setStage c (.entering .loadAssets)
  match response.bind (serverTime c.2) with
  | none => s
  | some server =>
    { s.setTimeOffset c (server - localTime) with
      timeOffset := Function.update s.timeOffset c.2 (server - localTime)
      limiter := Function.update s.limiter c.2 (some ((s.limiter c.2).getD server)) }

/-- The rest of `load_assets` after the requests for both markets. -/
def loaded (s : Setup) (c : Constructor) (spot future : Option (List Asset)) : Setup :=
  let s := (s.setHeld (c.2, .loadAssets) none).setStage c .done
  match spot, future with
  | some spot, some future =>
    let assets : Assets := ⟨collectAssets spot, collectAssets future⟩
    { s.setAssets c assets with assets := Function.update s.assets c.2 assets }
  | _, _ => s

/-- A response for one market; nothing more happens before the other one has been answered. -/
def fetched (s : Setup) (c : Constructor) (spot future : Option (Option (List Asset))) : Setup :=
  match spot, future with
  | some spot, some future => s.loaded c spot future
  | spot, future => s.setStage c (.loading spot future)

/-- A new set-up of Gate, or of both exchanges. -/
def openCall (s : Setup) (both : Bool) : Setup :=
  let opened := s.setStage (s.calls, .gate) (.entering .syncTime)
  { (if both then opened.setStage (s.calls, .binance) (.entering .syncTime) else opened) with
    calls := s.calls + 1 }

/-- A blocked thread gets its lock. -/
def unblock (s : Setup) (t : ℕ) : Setup := { s with blocked := Function.update s.blocked t none }

/-- One step; nothing happens after the process was aborted, and a blocked thread waits for its
lock only. -/
def step (s : Setup) (action : SetupAction) : Option Setup :=
  if s.aborted then none
  else
    match action with
    | .begin both =>
      if s.blocked (thread s.calls) = none then
        some (poll thread (s.openCall both) s.calls)
      else none
    | .acquire t =>
      (s.blocked t).bind fun c =>
        match s.stage c with
        | .entering guard =>
          if s.held (c.2, guard) = none then some (poll thread (s.unblock t) c.1) else none
        | _ => none
    | .time c response localTime =>
      match s.stage c with
      | .syncing =>
        if s.blocked (thread c.1) = none then
          some (poll thread (s.synced c response localTime) c.1)
        else none
      | _ => none
    | .assets c market response =>
      match s.stage c with
      | .loading spot future =>
        if s.blocked (thread c.1) = none then
          let answer := response.map (fetchAssetsBy c.2 market)
          match market with
          | .spot => if spot = none then some (s.fetched c (some answer) future) else none
          | .future => if future = none then some (s.fetched c spot (some answer)) else none
        else none
      | _ => none

end Setup

end Arbexpert.Worker
