import Mathlib.Algebra.Order.Field.Rat
import Mathlib.Tactic.Linarith

/-!
# Contracts of option captures

The typed values that producers and readers of option captures share. A value of these types has
passed the checks of its `require_…` function.

## Main definitions

* `GexOptionSeriesIdentity`, `GexComparisonScope`
* `GexValuationRates`, `requireGexValuationRates`
-/

namespace AefTerminal

structure GexOptionSeriesIdentity where
  expiry : String
  tradingClass : String
  exchange : String
  multiplier : ℚ
  deriving DecidableEq

/-- A comparison scope. `gex_comparison_lane_key` is the tuple of its fields. -/
structure GexComparisonScope where
  captureMode : String
  strikeCount : ℕ
  strikeLadder : List ℚ
  contractConIds : List ℕ
  expiries : List String
  futuresOptions : Bool
  series : List GexOptionSeriesIdentity
  riskFreeRate : ℚ
  dividendYield : ℚ
  marketDataEntitlement : String
  deriving DecidableEq

def gexRequestSnapshotSource : String := "gex:ibkr"

def gexLiveSnapshotSource : String := "gex:ibkr-live"

/-- `GEX_CHART_HISTORY_SOURCES` -/
def gexChartHistorySources : List String := [gexRequestSnapshotSource, gexLiveSnapshotSource]

/-- The rates of a valuation, in their bounds. -/
structure GexValuationRates where
  riskFreeRate : ℚ
  dividendYield : ℚ
  riskFreeRate_mem : 0 ≤ riskFreeRate ∧ riskFreeRate ≤ 1 / 4
  dividendYield_mem : 0 ≤ dividendYield ∧ dividendYield ≤ 1 / 4

/-- `require_gex_valuation_rates`; a value that is no finite number is absent. -/
def requireGexValuationRates (riskFreeRate dividendYield : Option ℚ) : Option GexValuationRates := do
  let riskFreeRate ← riskFreeRate
  let dividendYield ← dividendYield
  if h : (0 ≤ riskFreeRate ∧ riskFreeRate ≤ 1 / 4) ∧ (0 ≤ dividendYield ∧ dividendYield ≤ 1 / 4) then
    some ⟨riskFreeRate, dividendYield, h.1, h.2⟩
  else none

end AefTerminal
