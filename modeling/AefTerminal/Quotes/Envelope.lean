import AefTerminal.Domain.Bar
import AefTerminal.Domain.Rounding
import AefTerminal.Foundation.Dict

/-!
# Quote envelopes

A quote is a dictionary of JSON values. The envelope of a quote adds what can be said of it at one
moment: how old its observations are, and whether they are fresh, stale or not available. Between two
boundaries only the ages change, and `quote_envelope_next_transition` names the next boundary.

A timestamp is a value of its own here, in microseconds, whether it was a text or a `datetime`.

## Main definitions

* `QuoteValue`, `Quote`
* `marketDataObservationTime`, `currentQuotePrice`
* `quoteEnvelope`
* `quoteEnvelopeNextTransition`: raises when a boundary is not a `datetime`
* `semanticPayload`: what one revision of the cache is about
-/

namespace AefTerminal

open Foundation

inductive QuoteValue
  | null
  | bool (b : Bool)
  | number (x : ℚ)
  | text (s : String)
  | instant (t : Time)
  deriving DecidableEq, Repr

abbrev Quote := Dict String QuoteValue

/-- `row.get(key)`: an absent key reads as `None`. -/
def quoteField (row : Quote) (key : String) : QuoteValue := (row.get? key).getD .null

def exactFiniteNumberOrNone : QuoteValue → Option ℚ
  | .number x => some x
  | _ => none

def exactInstant : QuoteValue → Option Time
  | .instant t => some t
  | _ => none

/-- One timestamp, only from its declared clock basis. -/
def marketDataObservationTime (timeBasis providerTs receivedAt : QuoteValue) :
    Option (Time × String) :=
  if timeBasis = .text "provider_event" then
    (exactInstant providerTs).map fun t => (t, "provider_event")
  else if timeBasis = .text "client_receive" then
    if providerTs ≠ .null then none
    else (exactInstant receivedAt).map fun t => (t, "client_receive")
  else none

def quoteObservationTime (row : Quote) : Option (Time × String) :=
  marketDataObservationTime (quoteField row "time_basis") (quoteField row "provider_ts")
    (quoteField row "received_at")

def marketDataPriceSourceIsCurrent (priceSource : QuoteValue) (timeBasis : Option String) : Bool :=
  (priceSource = .text "last" && timeBasis = some "provider_event") ||
    (priceSource = .text "bid_ask_mid" && timeBasis = some "client_receive")

/-- The price component of `_current_quote_geometry`. -/
def currentQuotePrice (row : Quote) : Option ℚ :=
  let priceSource := quoteField row "price_source"
  if ¬ marketDataPriceSourceIsCurrent priceSource ((quoteObservationTime row).map Prod.snd) then none
  else
    match exactFiniteNumberOrNone (quoteField row "price") with
    | none => none
    | some selected =>
      if priceSource = .text "last" then
        match exactFiniteNumberOrNone (quoteField row "last") with
        | none => none
        | some last => if 1 / 1000000 < |selected - last| then none else some selected
      else
        match exactFiniteNumberOrNone (quoteField row "bid"),
          exactFiniteNumberOrNone (quoteField row "ask") with
        | some bid, some ask =>
          if ask < bid then none
          else if 1 / 1000000 < |selected - (bid + ask) / 2| then none
          else some selected
        | _, _ => none

/-! ### The envelope -/

/-- `max(float(stale_after_seconds), 0.1)`, in microseconds. -/
def freshnessLimit (staleAfter : Time) : Time :=
  if staleAfter < (100000 : ℤ) then (100000 : ℤ) else staleAfter

def isFresh (limit : Time) (age : Option Time) : Bool :=
  match age with
  | none => false
  | some a => -limit ≤ a && a ≤ limit

/-- An age in seconds, not negative, to the millisecond. -/
def ageSeconds (age : Option Time) : QuoteValue :=
  match age with
  | none => .null
  | some a => .number (roundDigits 3 ((if a < 0 then 0 else a : ℤ) / 1000000))

def instantValue : Option Time → QuoteValue
  | none => .null
  | some t => .instant t

/-- The status of one side of the quote, when the side is there. -/
def sideStatus (entitlement : String) (limit : Time) (age : Option Time) : String :=
  if entitlement ≠ "live" then entitlement
  else if age.isNone then "unavailable"
  else if isFresh limit age then "live"
  else "stale"

def quoteEntitlements : List String := ["live", "frozen", "delayed", "delayed_frozen", "unknown"]

def marketDataEntitlement (row : Quote) : String :=
  match quoteField row "market_data_entitlement" with
  | .text s => if s ∈ quoteEntitlements then s else "unknown"
  | _ => "unknown"

/-- `str(row.get("entitlement") or "unknown")`, for texts. -/
def entitlementText (row : Quote) : QuoteValue :=
  match quoteField row "entitlement" with
  | .text s => if s = "" then .text "unknown" else .text s
  | .null => .text "unknown"
  | v => v

def quoteMidpoint (row : Quote) : Option ℚ :=
  match exactFiniteNumberOrNone (quoteField row "bid"),
    exactFiniteNumberOrNone (quoteField row "ask") with
  | some bid, some ask => if bid ≤ ask then some ((bid + ask) / 2) else none
  | _, _ => none

/-- The last trade's own timestamp, else the quote's when the price is that trade's. -/
def lastObservedAt (row : Quote) : Option Time :=
  let raw := quoteField row "last_provider_ts"
  exactInstant
    (if raw = .null ∧ quoteField row "price_source" = .text "last" then quoteField row "provider_ts"
    else raw)

def bidAskObservedAt (row : Quote) : Option Time :=
  let raw := quoteField row "bid_ask_received_at"
  exactInstant
    (if raw = .null ∧ (quoteMidpoint row).isSome then quoteField row "received_at" else raw)

/-- The status of the selected price. -/
def quoteStatus (row : Quote) (delayedFactIsExact isStale : Bool) : String :=
  if (exactFiniteNumberOrNone (quoteField row "price")).isNone then "unavailable"
  else if marketDataEntitlement row ≠ "live" then marketDataEntitlement row
  else if (currentQuotePrice row).isNone ∨ ¬ delayedFactIsExact then "unavailable"
  else if isStale then "stale"
  else "live"

def quoteEnvelope (row : Quote) (now staleAfter : Time) : Quote :=
  let limit := freshnessLimit staleAfter
  let age := fun (t : Option Time) => t.map fun t => (now - t : ℤ)
  let observed := quoteObservationTime row
  let observedAt := observed.map Prod.fst
  let providerTs :=
    if observed.map Prod.snd = some "provider_event" then observedAt else none
  let entitlement := marketDataEntitlement row
  let expectedDelayed := decide (entitlement = "delayed" ∨ entitlement = "delayed_frozen")
  let isDelayed :=
    match quoteField row "is_delayed" with
    | .bool b => b
    | _ => expectedDelayed
  let delayedFactIsExact := decide (quoteField row "is_delayed" = .bool expectedDelayed)
  let isStale := !isFresh limit (age observedAt)
  let lastStatus :=
    if (exactFiniteNumberOrNone (quoteField row "last")).isNone then "unavailable"
    else sideStatus entitlement limit (age (lastObservedAt row))
  let bidAskStatus :=
    if (quoteMidpoint row).isNone then "unavailable"
    else sideStatus entitlement limit (age (bidAskObservedAt row))
  row
    |>.insert "provider_ts" (instantValue providerTs)
    |>.insert "received_at" (instantValue (exactInstant (quoteField row "received_at")))
    |>.insert "time_basis" ((observed.map fun o => QuoteValue.text o.2).getD .null)
    |>.insert "age_seconds" (ageSeconds (age observedAt))
    |>.insert "last_provider_ts" (instantValue (lastObservedAt row))
    |>.insert "last_age_seconds" (ageSeconds (age (lastObservedAt row)))
    |>.insert "last_status" (.text lastStatus)
    |>.insert "bid_ask_received_at" (instantValue (bidAskObservedAt row))
    |>.insert "bid_ask_age_seconds" (ageSeconds (age (bidAskObservedAt row)))
    |>.insert "bid_ask_status" (.text bidAskStatus)
    |>.insert "entitlement" (entitlementText row)
    |>.insert "is_delayed" (.bool isDelayed)
    |>.insert "is_stale" (.bool isStale)
    |>.insert "status" (.text (quoteStatus row delayedFactIsExact isStale))

/-! ### The next transition -/

/-- `datetime.min` and `datetime.max`. -/
@[irreducible] def datetimeMin : Time := (-62135596800000000 : ℤ)
@[irreducible] def datetimeMax : Time := (253402300799999999 : ℤ)

/-- A time that a `datetime` can hold. -/
def IsDatetime (t : Time) : Prop := (datetimeMin : ℤ) ≤ t ∧ (t : ℤ) ≤ datetimeMax

instance (t : Time) : Decidable (IsDatetime t) := inferInstanceAs (Decidable (_ ∧ _))

/-- The three observations of a quote, as the next transition reads them. -/
def quoteObservations (row : Quote) : List Time :=
  [(quoteObservationTime row).map Prod.fst, exactInstant (quoteField row "last_provider_ts"),
    exactInstant (quoteField row "bid_ask_received_at")].filterMap id

/-- The bounds of the time in which an observation is fresh. -/
def freshnessBoundaries (limit t : Time) : List Time := [(t - limit : ℤ), (t + limit + 1 : ℤ)]

/-- The smallest item; none for the infinity of an empty list. -/
def earliest : List Time → Option Time
  | [] => none
  | t :: ts =>
    match earliest ts with
    | none => some t
    | some u => some (if (t : ℤ) ≤ u then t else u)

/-- The arithmetic of `datetime` raises outside its range. -/
def quoteEnvelopeNextTransition (row : Quote) (now staleAfter : Time) : Option (Option Time) :=
  let boundaries := (quoteObservations row).flatMap (freshnessBoundaries (freshnessLimit staleAfter))
  if ∀ t ∈ boundaries, IsDatetime t then
    some (earliest (boundaries.filter fun t => (now : ℤ) < t))
  else none

/-! ### One revision -/

def quoteCacheContinuousAgeFields : List String :=
  ["age_seconds", "last_age_seconds", "bid_ask_age_seconds"]

/-- Python finds `True` and `1` equal. -/
def QuoteValue.canonical : QuoteValue → QuoteValue
  | .bool b => .number (if b then 1 else 0)
  | v => v

/-- `_quote_cache_semantic_payload`, as a function of the key. -/
def semanticPayload (quote : Quote) (key : String) : Option QuoteValue :=
  if key ∈ quoteCacheContinuousAgeFields then none else (quote.get? key).map QuoteValue.canonical

/-- `==` of two semantic payloads. -/
def samePayload (a b : Quote) : Bool :=
  (a.keys ++ b.keys).all fun k => semanticPayload a k = semanticPayload b k

theorem samePayload_iff {a b : Quote} : samePayload a b ↔ semanticPayload a = semanticPayload b := by
  simp only [samePayload, List.all_eq_true, List.mem_append, decide_eq_true_eq]
  constructor
  · intro h
    funext k
    by_cases hk : k ∈ a.keys ∨ k ∈ b.keys
    · exact h k hk
    · push Not at hk
      rw [semanticPayload, semanticPayload, Dict.notMem_keys_iff.mp hk.1,
        Dict.notMem_keys_iff.mp hk.2]
  · intro h k _
    rw [h]

end AefTerminal
