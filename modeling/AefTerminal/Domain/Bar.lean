import Mathlib.Data.Rat.Defs
import Mathlib.Algebra.Order.Ring.Unbundled.Rat

/-!
# Bars and their intervals

The typed bar every layer passes around. A bar is built only through its `__post_init__`, which
rejects a negative volume, impossible OHLC geometry and a `closed` flag that contradicts the
lifecycle state; those checks are fields here, so a malformed bar is not a value of the type.

Prices and volumes are finite doubles in the source. They are only compared and stored, never
computed with, and are modelled by the rationals they denote. A timestamp is a number of
microseconds in UTC.

## Main definitions

* `ChartInterval`, `BarInterval`: what a chart may ask for, and what storage keeps
* `Bar`, `barRevisionSignature`, `barIngressRevisionSignature`
-/

namespace AefTerminal

/-- `CHART_HISTORY_INTERVALS`. -/
inductive ChartInterval
  | m1 | m3 | m5 | m15 | m60
  deriving DecidableEq, Repr

/-- `PERSISTED_BAR_INTERVALS`. -/
inductive BarInterval
  | m1 | m5 | m15 | m60
  deriving DecidableEq, Repr

/-- A timestamp, in microseconds. -/
abbrev Time := ℤ

def ChartInterval.minutes : ChartInterval → ℕ
  | .m1 => 1
  | .m3 => 3
  | .m5 => 5
  | .m15 => 15
  | .m60 => 60

/-- The persisted interval that owns one chart interval: `DERIVED_CHART_INTERVAL_SOURCES`, else
the interval itself. -/
def canonicalBarSourceInterval : ChartInterval → BarInterval
  | .m1 => .m1
  | .m3 => .m1
  | .m5 => .m5
  | .m15 => .m15
  | .m60 => .m60

/-- A chart-only interval is rejected at every canonical write boundary. -/
def requirePersistedBarTimeframe : ChartInterval → Option BarInterval
  | .m1 => some .m1
  | .m3 => none
  | .m5 => some .m5
  | .m15 => some .m15
  | .m60 => some .m60

/-- The text an interval is stored and ordered under. -/
def BarInterval.text : BarInterval → String
  | .m1 => "1m"
  | .m5 => "5m"
  | .m15 => "15m"
  | .m60 => "60m"

/-- A persisted interval read as a chart interval. -/
def BarInterval.toChart : BarInterval → ChartInterval
  | .m1 => .m1
  | .m5 => .m5
  | .m15 => .m15
  | .m60 => .m60

/-- A guard stores the canonical interval and normalises it again on release: the same scope. -/
@[simp] theorem canonicalBarSourceInterval_toChart (i : BarInterval) :
    canonicalBarSourceInterval i.toChart = i := by
  cases i <;> rfl

inductive BarState
  | forming | awaitingProviderConfirmation | confirmed
  deriving DecidableEq, Repr

inductive BarProviderRequest
  | historical | keepUpToDate | deterministicAggregation | canonicalStorage
  deriving DecidableEq, Repr

/-- The provider route that produced or durably owns one bar. -/
structure BarProvenance where
  provider : String
  instrumentId : String
  routeFingerprint : String
  requestType : BarProviderRequest
  providerContractId : String
  providerContractType : String
  dataType : String
  /-- The minutes of the aggregated interval, for a deterministic aggregation. -/
  sourceTimeframe : Option ℕ
  deriving DecidableEq

/-- A bar, with the checks of its constructor as fields. -/
structure Bar where
  symbol : String
  ts : Time
  «open» : ℚ
  high : ℚ
  low : ℚ
  close : ℚ
  volume : ℚ
  timeframe : ChartInterval
  source : String
  closed : Bool
  state : BarState
  provenance : Option BarProvenance
  /-- `BAR_VOLUME_NEGATIVE` -/
  volume_nonneg : 0 ≤ volume
  /-- `BAR_OHLC_GEOMETRY_INVALID` -/
  geometry : max «open» close ≤ high ∧ low ≤ min «open» close
  /-- `BAR_LIFECYCLE_CONTRADICTION` -/
  lifecycle : closed = true ↔ state = .confirmed
  deriving DecidableEq

theorem lifecycle_ite (closed : Bool) :
    closed = true ↔ (if closed then BarState.confirmed else .forming) = .confirmed := by
  cases closed <;> simp

theorem flat_geometry (price : ℚ) : max price price ≤ price ∧ price ≤ min price price := by
  simp

/-- The values of one revision of a bar, as storage compares them. -/
structure BarRevisionSignature where
  ts : Time
  «open» : ℚ
  high : ℚ
  low : ℚ
  close : ℚ
  volume : ℚ
  state : BarState
  source : String
  deriving DecidableEq

def barRevisionSignature (bar : Bar) : BarRevisionSignature where
  ts := bar.ts
  «open» := bar.open
  high := bar.high
  low := bar.low
  close := bar.close
  volume := bar.volume
  state := bar.state
  source := bar.source

/-- One typed producer revision, before canonical storage strips its provenance. -/
def barIngressRevisionSignature (bar : Bar) : BarRevisionSignature × Option BarProvenance :=
  (barRevisionSignature bar, bar.provenance)

/-- A provisional bar is never stored. -/
def isProvisionalBar (bar : Bar) : Bool := !bar.closed || bar.state ≠ .confirmed

theorem isProvisionalBar_eq_false {bar : Bar} :
    isProvisionalBar bar = false ↔ bar.state = .confirmed := by
  unfold isProvisionalBar
  have h := bar.lifecycle
  cases hc : bar.closed <;> simp_all

end AefTerminal
