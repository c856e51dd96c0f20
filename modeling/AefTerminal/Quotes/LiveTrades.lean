import AefTerminal.Foundation.Repeats
import AefTerminal.Foundation.RetainedLog
import AefTerminal.Quotes.Cache

/-!
# Live quote trades

The quote session hands over tickers whose `ticks` are those of the last provider update. Their
trade ticks go to one hub under consecutive sequence numbers. The hub compares each with the last
signature of its identity, and forgets both old events and old identities.

An error callback records the tickers that it concerns once more, with the ticks they still carry.

`TradeFeed` is the hub, what the tickers carry and where the readers are; next to it are all trades
that arrived and all events that were ever published.

## Main definitions

* `TradeHub.publishTrade`, `readLiveQuoteTradeEvents`
* `TradeFeed`, `TradeAct`, `tradeStep`
-/

namespace AefTerminal

open Foundation

/-- An entry of `ticker.ticks`: what is left of its fields after they were cleaned. -/
structure ProviderTick where
  tickType : Option ℤ
  price : Option ℚ
  time : Option Time
  deriving DecidableEq, Repr

/-- An entry of `async_quote_ticker_routes`. -/
structure TickerRoute where
  providerSymbol : String
  instrumentId : String
  routeFingerprint : String
  deriving DecidableEq, Repr

structure QuoteTradeEvent where
  symbol : String
  instrumentId : String
  routeFingerprint : String
  ts : Time
  price : ℚ
  deriving DecidableEq, Repr

structure PublishedTrade where
  sequence : ℕ
  event : QuoteTradeEvent
  deriving DecidableEq, Repr

def QuoteTradeEvent.identity (e : QuoteTradeEvent) : QuoteIdentity := (e.instrumentId, e.routeFingerprint)

def QuoteTradeEvent.signature (e : QuoteTradeEvent) : Time × ℚ := (e.ts, e.price)

/-- The trade event of a tick, if it is a valid trade tick. -/
def tradeEvent (route : TickerRoute) (tick : ProviderTick) : Option QuoteTradeEvent := do
  guard (tick.tickType = some 4)
  let price ← tick.price
  let ts ← tick.time
  some ⟨route.providerSymbol, route.instrumentId, route.routeFingerprint, ts, price⟩

/-- The trade events of the ticks that a ticker carries. -/
def tickerEvents (route : Option TickerRoute) (ticks : List ProviderTick) : List QuoteTradeEvent :=
  match route with
  | none => []
  | some route => ticks.filterMap (tradeEvent route)

/-! ### The hub -/

def liveTradeSignatureLimit : ℕ := 1024

def liveTradeEventLimit : ℕ := 8192

structure TradeHub where
  sequence : ℕ
  events : List PublishedTrade
  signatures : Dict QuoteIdentity (Time × ℚ)

/-- The oldest identity goes once there are too many. -/
def trimSignatures (signatures : Dict QuoteIdentity (Time × ℚ)) (identity : QuoteIdentity) :
    Dict QuoteIdentity (Time × ℚ) :=
  if liveTradeSignatureLimit < signatures.size then
    match signatures.keys with
    | staleIdentity :: _ =>
      if staleIdentity ≠ identity then signatures.erase staleIdentity else signatures
    | [] => signatures
  else signatures

namespace TradeHub

def empty : TradeHub := ⟨0, [], Dict.empty⟩

/-- The trade is the one that was published last for its identity. -/
def repeats (h : TradeHub) (e : QuoteTradeEvent) : Prop :=
  h.signatures.get? e.identity = some e.signature

instance (h : TradeHub) (e : QuoteTradeEvent) : Decidable (h.repeats e) :=
  inferInstanceAs (Decidable (_ = _))

def publishTrade (h : TradeHub) (e : QuoteTradeEvent) : TradeHub :=
  if h.repeats e then h
  else
    { sequence := h.sequence + 1
      events := keepLast liveTradeEventLimit (h.events ++ [⟨h.sequence + 1, e⟩])
      signatures := trimSignatures (h.signatures.insert e.identity e.signature) e.identity }

end TradeHub

structure LiveTradeRead where
  sequence : ℕ
  events : List PublishedTrade
  overflowed : Bool

/-- No identities at all stand for every identity. -/
def wantedTrade (routeIdentities : List QuoteIdentity) (e : PublishedTrade) : Bool :=
  routeIdentities.isEmpty || routeIdentities.contains e.event.identity

def readLiveQuoteTradeEvents (h : TradeHub) (afterSequence : ℤ)
    (routeIdentities : List QuoteIdentity) : LiveTradeRead :=
  if afterSequence < 0 then ⟨h.sequence, [], false⟩
  else
    let cursor := afterSequence.toNat
    let oldestSequence := (h.events.head?.map (·.sequence)).getD 0
    let newestFirst := (h.events.reverse.takeWhile fun e => decide (cursor < e.sequence)).filter
      (wantedTrade routeIdentities)
    ⟨h.sequence, newestFirst.reverse, decide (cursor + 1 < oldestSequence)⟩

/-! ### The feed -/

/-- A reader that goes on from the sequence that its last read returned; `since` is where it began,
or what its last overflowed read returned. -/
structure LiveReader where
  wanted : List QuoteIdentity
  cursor : ℤ
  since : ℕ
  delivered : List PublishedTrade

structure TradeFeed where
  hub : TradeHub
  carried : ℕ → List ProviderTick
  readers : ℕ → Option LiveReader
  arrived : List QuoteTradeEvent
  published : List PublishedTrade

inductive TradeAct
  | update (batches : List (ℕ × List ProviderTick))
  | error (tickers : List ℕ)
  | join (reader : ℕ) (wanted : List QuoteIdentity) (afterSequence : ℤ)
  | read (reader : ℕ)

namespace TradeFeed

def empty : TradeFeed := ⟨.empty, fun _ => [], fun _ => none, [], []⟩

/-- One round of the loop over the events of a callback. -/
def publish (s : TradeFeed) (e : QuoteTradeEvent) : TradeFeed where
  hub := s.hub.publishTrade e
  carried := s.carried
  readers := s.readers
  arrived := s.arrived
  published := if s.hub.repeats e then s.published
    else s.published ++ [⟨s.hub.sequence + 1, e⟩]

/-- `_record_live_quote_updates`. -/
def record (routes : ℕ → Option TickerRoute) (s : TradeFeed) (tickers : List ℕ) : TradeFeed :=
  (tickers.flatMap fun t => tickerEvents (routes t) (s.carried t)).foldl publish s

/-- The provider's update: each ticker carries its new ticks. -/
def carry (s : TradeFeed) (batches : List (ℕ × List ProviderTick)) : TradeFeed :=
  { s with carried := fun t => (batches.lookup t).getD (s.carried t) }

/-- The trades that an update brings. -/
def arrivals (routes : ℕ → Option TickerRoute) (batches : List (ℕ × List ProviderTick)) :
    List QuoteTradeEvent :=
  batches.flatMap fun b => tickerEvents (routes b.1) b.2

/-- What a reader makes of a read. -/
def receive (r : LiveReader) (got : LiveTradeRead) : LiveReader where
  wanted := r.wanted
  cursor := got.sequence
  since := if r.cursor < 0 ∨ got.overflowed then got.sequence else min r.since got.sequence
  delivered := r.delivered ++ got.events

end TradeFeed

open TradeFeed in
def tradeStep (routes : ℕ → Option TickerRoute) (s : TradeFeed) : TradeAct → Option TradeFeed
  | .update batches => do
    guard (batches.map Prod.fst).Nodup
    let s := { s with arrived := s.arrived ++ arrivals routes batches }
    some ((s.carry batches).record routes (batches.map Prod.fst))
  | .error tickers => some (s.record routes tickers)
  | .join reader wanted afterSequence =>
    let r : LiveReader := ⟨wanted, afterSequence, afterSequence.toNat, []⟩
    some { s with readers := Function.update s.readers reader (some r) }
  | .read reader => do
    let r ← s.readers reader
    let got := readLiveQuoteTradeEvents s.hub r.cursor r.wanted
    some { s with readers := Function.update s.readers reader (some (receive r got)) }

end AefTerminal
