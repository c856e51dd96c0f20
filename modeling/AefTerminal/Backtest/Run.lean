import AefTerminal.Backtest.Replay
import AefTerminal.Foundation.Stopping
import Mathlib.Data.String.Basic

/-!
# Single and batch backtests

`run_backtest` walks the confirmed bars of a history, has every window analysed at the clock of
its last bar, and simulates the plan of each new signal on the bars after it.
`run_backtest_variants` does so for several variants of a strategy at once: a window is analysed
once, and each variant that still collects makes its own plan of the snapshot.

The two end differently. The single walk tests `max_signals` after a signal was simulated; the
batch tests it for each variant before a window is analysed.

The analysis is a parameter: a function of the window, the symbol shown and the clock that may
raise. The progress callbacks are left out.

## Main definitions

* `summarizeTrades`
* `runBacktest`, `runBacktestVariants`
-/

namespace AefTerminal

open Foundation

/-! ### The summary of a run -/

structure BucketSummary where
  trades : ℕ
  closed : ℕ
  wins : ℕ
  losses : ℕ
  winRate : Option ℚ
  netPoints : ℚ
  avgPoints : Option ℚ
  expectancyR : Option ℚ
  profitFactor : Option ℚ
  deriving DecidableEq

/-- The mean of some values, to four digits. -/
def meanOf (values : List ℚ) : Option ℚ :=
  if values = [] then none else some (roundDigits 4 (values.sum / values.length))

/-- `_bucket_summary`. -/
def bucketSummary (items : List BacktestTrade) : BucketSummary :=
  let pnl := items.filterMap BacktestTrade.pnlPoints
  let rValues := (items.filter (·.pnlPoints.isSome)).filterMap BacktestTrade.rMultiple
  let wins := pnl.filter (0 < ·)
  let losses := pnl.filter (· < 0)
  let grossLoss := |losses.sum|
  { trades := items.length
    closed := pnl.length
    wins := wins.length
    losses := losses.length
    winRate :=
      if pnl = [] then none else some (roundDigits 4 ((wins.length : ℚ) / pnl.length))
    netPoints := roundDigits 4 pnl.sum
    avgPoints := meanOf pnl
    expectancyR := meanOf rValues
    profitFactor :=
      if 0 < grossLoss then some (roundDigits 4 (wins.sum / grossLoss)) else none }

/-- The larger rows first: more closed trades, then more points. -/
def BucketSummary.AtLeast (a b : BucketSummary) : Prop :=
  b.closed < a.closed ∨ (a.closed = b.closed ∧ b.netPoints ≤ a.netPoints)

instance : DecidableRel BucketSummary.AtLeast := fun a b =>
  inferInstanceAs
    (Decidable (b.closed < a.closed ∨ (a.closed = b.closed ∧ b.netPoints ≤ a.netPoints)))

/-- The trades under each text of a key, an empty text as `unknown`. -/
def groupRows (key : BacktestTrade → String) (trades : List BacktestTrade) :
    List (String × BucketSummary) :=
  (Dict.groupedBy (fun trade => if key trade = "" then "unknown" else key trade)
    trades).entries.map fun entry => (entry.1, bucketSummary entry.2)

/-- `_grouped`. -/
def grouped (key : BacktestTrade → String) (trades : List BacktestTrade) :
    List (String × BucketSummary) :=
  (groupRows key trades).insertionSort fun a b => a.2.AtLeast b.2

def confidenceBucket (trade : BacktestTrade) : String :=
  if trade.confidence ≥ 85 then "85+"
  else if trade.confidence ≥ 70 then "70-84"
  else if trade.confidence ≥ 55 then "55-69"
  else "<55"

/-- `_confidence_buckets`, in the order of the bucket texts. -/
def confidenceBuckets (trades : List BacktestTrade) : List (String × BucketSummary) :=
  (groupRows confidenceBucket trades).insertionSort fun a b => a.1.toList ≤ b.1.toList

/-- The result of a run. `model` is constant up to the execution timeframe. -/
structure BacktestResult where
  executionTimeframe : Option ChartInterval
  summary : BucketSummary
  byUtcDaypart : List (String × BucketSummary)
  bySource : List (String × BucketSummary)
  bySetup : List (String × BucketSummary)
  byConfidence : List (String × BucketSummary)
  trades : List BacktestTrade
  deriving DecidableEq

def summarizeTrades (trades : List BacktestTrade) (executionTimeframe : Option ChartInterval) :
    BacktestResult where
  executionTimeframe := executionTimeframe
  summary := bucketSummary trades
  byUtcDaypart := grouped BacktestTrade.utcDaypart trades
  bySource := grouped BacktestTrade.source trades
  bySetup := grouped BacktestTrade.setup trades
  byConfidence := confidenceBuckets trades
  trades := trades

/-! ### The walk over a history -/

/-- `seq[start:stop]`: a negative bound counts from the end. -/
def pythonSlice {α : Type} (l : List α) (start stop : ℤ) : List α :=
  let bound (i : ℤ) : ℕ := if i < 0 then (i + l.length).toNat else i.toNat
  (l.take (bound stop)).drop (bound start)

/-- What the analysis of a window is given. -/
structure WindowAnalysisRequest where
  window : List Bar
  displaySymbol : String
  analysisAsOf : Time

/-- `analyze_bars`: no snapshot where it raises. -/
abbrev WindowAnalysis := WindowAnalysisRequest → Option Snapshot

/-- The arguments that both functions have. -/
structure BacktestArgs where
  route : ReplayRoute
  displaySymbol : Option String
  warmup : ℤ
  horizon : ℤ
  step : ℤ
  maxSignals : Option ℤ
  analysisLookback : Option ℤ
  tickHistory : Option BacktestTickHistory
  tickProfileHistory : Option BacktestTickHistory

/-- The admitted inputs of a run. -/
structure BacktestInputs where
  closed : List Bar
  fast : List Bar
  executionTimeframe : Option ChartInterval
  tickRows : Dict Time TickSums
  tickLevels : List TickLevel

/-- The tick rows of a run, for bars of the timeframe. -/
def prepareTicks (args : BacktestArgs) (analysisTimeframe : Option ChartInterval) :
    Except BacktestError (Dict Time TickSums × List TickLevel) := do
  let bars ← admitTickHistory args.tickHistory args.route analysisTimeframe .bar "tick_history"
  let tickRows ← tickHistoryByTs bars analysisTimeframe
  let levels ← admitTickHistory args.tickProfileHistory args.route analysisTimeframe .priceProfile
    "tick_profile_history"
  let tickLevels ← tickProfileHistoryByTs levels analysisTimeframe
    (args.tickProfileHistory.bind BacktestTickHistory.priceStep)
  return (tickRows, tickLevels)

/-- The inputs of a run, or what is wrong with them. -/
def prepareBacktest (args : BacktestArgs) (bars : List Bar) (fastEntryBars : Option (List Bar)) :
    Except BacktestError BacktestInputs := do
  let closed ← admitReplayConfirmedBars bars args.route "backtest analysis bars"
  let (fast, executionTimeframe) ← prepareFastEntryBars fastEntryBars closed args.route
  let (tickRows, tickLevels) ← prepareTicks args (closed.head?.map Bar.timeframe)
  return { closed, fast, executionTimeframe, tickRows, tickLevels }

/-- `max(warmup, 2)`. -/
def BacktestArgs.firstIndex (args : BacktestArgs) : ℕ := (max args.warmup 2).toNat

/-- `max(step, 1)`. -/
def BacktestArgs.stride (args : BacktestArgs) : ℕ := (max args.step 1).toNat

/-- `max(0, len(closed) - horizon - 1)`. -/
def BacktestArgs.lastIndex (args : BacktestArgs) (length : ℕ) : ℕ :=
  (length - args.horizon - 1).toNat

/-- `range(max(warmup, 2), last_index + 1, max(step, 1))`. -/
def BacktestArgs.indices (args : BacktestArgs) (length : ℕ) : List ℕ :=
  List.range' args.firstIndex
    ((args.lastIndex length + args.stride - args.firstIndex) / args.stride) args.stride

/-- The window that ends at an index. A lookback of zero is none. -/
def BacktestArgs.window (args : BacktestArgs) (closed : List Bar) (index : ℕ) : List Bar :=
  let start :=
    match args.analysisLookback with
    | none => 0
    | some lookback => if lookback = 0 then 0 else max 0 ((index : ℤ) + 1 - lookback)
  pythonSlice closed start (index + 1)

/-- The parent bars of the horizon after an index. -/
def BacktestArgs.future (args : BacktestArgs) (closed : List Bar) (index : ℕ) : List Bar :=
  pythonSlice closed (index + 1) (index + 1 + args.horizon)

/-- The bars that a signal is executed on. -/
def executionBars (args : BacktestArgs) (p : BacktestInputs) (index : ℕ) (signalBar : Bar) : List Bar :=
  fastExecutionWindow p.fast signalBar (args.future p.closed index)

/-- `_analyze_backtest_window`. -/
def analyzeBacktestWindow (analyze : WindowAnalysis) (args : BacktestArgs) (window : List Bar)
    (signalBar : Bar) : Except BacktestError Snapshot :=
  let symbol :=
    match args.displaySymbol with
    | none | some "" => signalBar.symbol
    | some symbol => symbol
  match analyze ⟨window, symbol, signalBarObservedAt signalBar⟩ with
  | some snapshot => .ok snapshot
  | none => .error (.backtestAnalysisFailed signalBar.ts signalBar.symbol signalBar.timeframe)

/-- The signal bar of an index and the snapshot of its window. -/
def analyzeIndex (analyze : WindowAnalysis) (args : BacktestArgs) (p : BacktestInputs) (index : ℕ) :
    Except BacktestError (Bar × Snapshot) :=
  match p.closed[index]? with
  | none => .error (.signalBarIndex index)
  | some signalBar =>
    (signalBar, ·) <$> analyzeBacktestWindow analyze args (args.window p.closed index) signalBar

/-- The identity of a signal: its setup, its side and the time of its bar. -/
abbrev SignalKey := String × PaperSide × Time

structure BacktestState where
  trades : List BacktestTrade
  seen : List SignalKey
  deriving DecidableEq

def BacktestState.initial : BacktestState := ⟨[], []⟩

/-- `max_signals is not None and len(trades) >= max_signals`. -/
def BacktestArgs.limitReached (args : BacktestArgs) (s : BacktestState) : Bool :=
  match args.maxSignals with
  | none => false
  | some limit => limit ≤ s.trades.length

/-- The size of a plan, as its features show it. -/
def plannedRr (plan : TradePlan) : ℚ :=
  roundDigits 6 (plan.reward / max plan.risk (1 / 1000000000))

/-- `plan.get("target_mode") or target_mode`. -/
def TradePlan.shownTargetMode (plan : TradePlan) (targetMode : String) : String :=
  match plan.targetMode with
  | none | some "" => targetMode
  | some mode => mode

/-- `plan.get("stop_multiplier") or default`. -/
def TradePlan.shownStopMultiplier (plan : TradePlan) (default : ℚ) : ℚ :=
  match plan.stopMultiplier with
  | none => default
  | some multiplier => if multiplier = 0 then default else multiplier

/-! ### One strategy -/

/-- What a run is about: the changes to its plans and its filters. -/
structure BacktestOptions where
  invertSources : List String
  edgeBlocks : List (List String)
  stopMultiplier : ℚ
  targetMode : String
  includeSources : List String

/-- `value.replace(" ", "_")`. -/
def underscored (value : String) : String :=
  String.ofList (value.toList.map fun c => if c = ' ' then '_' else c)

/-- `_normalized_source_set`. -/
def normalizedSourceSet (values : List String) : List String :=
  (values.filter fun value => strip value ≠ "").map fun value => lower (strip (underscored value))

/-- `_normalized_edge_blocks`: the source, the side and the daypart of each block that has them. -/
def normalizedEdgeBlocks (values : List (List String)) : List (String × String × String) :=
  values.filterMap fun item =>
    match item.map fun part => lower (strip part) with
    | source :: side :: daypart :: _ => some (source, side, daypart)
    | _ => none

/-- `_normalized_source_allowlist`, where an empty list allows everything. -/
def normalizedSourceAllowlist (sources : List String) : List String :=
  (sources.filter fun source => strip source ≠ "").map fun source => lower (strip source)

def PaperSide.text : PaperSide → String
  | .long => "long"
  | .short => "short"

/-- `_edge_blocked`. -/
def edgeBlocked (plan : TradePlan) (signalBar : Bar) (blocks : List (String × String × String)) :
    Bool :=
  (lower (strip plan.source), plan.side.text, utcDaypart signalBar.ts) ∈ blocks

/-- The filter of `include_sources`. -/
def excluded (plan : TradePlan) (allowed : List String) : Bool :=
  allowed ≠ [] ∧ lower (strip plan.source) ∉ allowed

/-- The features of a signal in `run_backtest`. -/
def signalFeatures (options : BacktestOptions) (p : BacktestInputs) (plan : TradePlan)
    (signalBar : Bar) : TradeFeatures where
  tick := tickFeaturesForBar p.tickRows signalBar
  tickProfile := tickProfileFeaturesForBar p.tickLevels signalBar
  riskPoints := roundDigits 6 plan.risk
  rewardPoints := roundDigits 6 plan.reward
  plannedRr := plannedRr plan
  inverted := plan.inverted.getD false
  stopMultiplier := plan.shownStopMultiplier options.stopMultiplier
  targetMode := plan.shownTargetMode options.targetMode
  executionTimeframe := p.executionTimeframe.getD signalBar.timeframe

/-- The signal of a plan: nothing, if it was seen before. -/
def recordSignal (s : BacktestState) (plan : TradePlan) (signalBar : Bar)
    (trade : Option BacktestTrade) : Option BacktestState :=
  let key := (plan.setup, plan.side, signalBar.ts)
  if key ∈ s.seen then none else some ⟨s.trades ++ trade.toList, key :: s.seen⟩

/-- One window of `run_backtest`; no state where the loop continues with the next. -/
def backtestPass (analyze : WindowAnalysis) (args : BacktestArgs) (options : BacktestOptions)
    (p : BacktestInputs) (s : BacktestState) (index : ℕ) :
    Except BacktestError (Option BacktestState) := do
  let (signalBar, snapshot) ← analyzeIndex analyze args p index
  match ← tradePlanFromSnapshot snapshot (normalizedSourceSet options.invertSources)
      options.stopMultiplier options.targetMode with
  | none => return none
  | some plan =>
    if edgeBlocked plan signalBar (normalizedEdgeBlocks options.edgeBlocks) then return none
    else if excluded plan (normalizedSourceAllowlist options.includeSources) then return none
    else
      let trade := simulateTrade plan signalBar (executionBars args p index signalBar)
        (signalFeatures options p plan signalBar)
      return recordSignal s plan signalBar trade

def runBacktest (analyze : WindowAnalysis) (args : BacktestArgs) (options : BacktestOptions)
    (bars : List Bar) (fastEntryBars : Option (List Bar)) : Except BacktestError BacktestResult := do
  let p ← prepareBacktest args bars fastEntryBars
  let s ← runAfter args.limitReached (backtestPass analyze args options p)
    (args.indices p.closed.length) .initial
  return summarizeTrades s.trades p.executionTimeframe

/-! ### Several variants -/

/-- One variant of a strategy. -/
structure BacktestVariant where
  variantId : String
  invertSources : List String
  stopMultiplier : Option ℚ
  targetMode : Option String

/-- `float(variant.get("stop_multiplier") or 1.0)`. -/
def BacktestVariant.multiplier (variant : BacktestVariant) : ℚ :=
  match variant.stopMultiplier with
  | none => 1
  | some multiplier => if multiplier = 0 then 1 else multiplier

/-- `str(variant.get("target_mode") or "keep")`. -/
def BacktestVariant.mode (variant : BacktestVariant) : String :=
  match variant.targetMode with
  | none | some "" => "keep"
  | some mode => mode

/-- `_variant_feature_payload`, over the features of the bar. -/
def variantFeaturePayload (p : BacktestInputs) (plan : TradePlan) (signalBar : Bar)
    (targetMode : String) : TradeFeatures where
  tick := tickFeaturesForBar p.tickRows signalBar
  tickProfile := tickProfileFeaturesForBar p.tickLevels signalBar
  riskPoints := roundDigits 6 plan.risk
  rewardPoints := roundDigits 6 plan.reward
  plannedRr := plannedRr plan
  inverted := plan.inverted.getD false
  stopMultiplier := plan.shownStopMultiplier 1
  targetMode := plan.shownTargetMode targetMode
  executionTimeframe := p.executionTimeframe.getD signalBar.timeframe

/-- One window of one variant of `run_backtest_variants`. -/
def variantPass (args : BacktestArgs) (p : BacktestInputs) (variant : BacktestVariant)
    (analysed : Bar × Snapshot) (index : ℕ) (s : BacktestState) :
    Except BacktestError BacktestState := do
  let (signalBar, snapshot) := analysed
  match ← tradePlanFromSnapshot snapshot (normalizedSourceSet variant.invertSources)
      variant.multiplier variant.mode with
  | none => return s
  | some plan =>
    let trade := simulateTrade plan signalBar (executionBars args p index signalBar)
      (variantFeaturePayload p plan signalBar variant.mode)
    return (recordSignal s plan signalBar trade).getD s

/-- `states`: a later variant takes the place of an earlier one with its id. -/
def variantStates (variants : List BacktestVariant) : Dict String BacktestVariant :=
  variants.foldl (fun states variant =>
    if variant.variantId = "" then states else states.insert variant.variantId variant) Dict.empty

def runBacktestVariants (analyze : WindowAnalysis) (args : BacktestArgs)
    (variants : List BacktestVariant) (bars : List Bar) (fastEntryBars : Option (List Bar)) :
    Except BacktestError (List (String × BacktestResult)) := do
  let p ← prepareBacktest args bars fastEntryBars
  let states ← runTogether args.limitReached (analyzeIndex analyze args p)
    (fun variant : String × BacktestVariant => variantPass args p variant.2)
    (args.indices p.closed.length)
    ((variantStates variants).entries.map fun variant => (variant, .initial))
  return states.map fun state =>
    (state.1.1, summarizeTrades state.2.trades p.executionTimeframe)

end AefTerminal
