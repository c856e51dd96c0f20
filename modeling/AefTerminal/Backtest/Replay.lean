import AefTerminal.Backtest.Plan
import AefTerminal.Foundation.Grouping

/-!
# The inputs of an offline replay and one simulated trade

What `run_backtest` and `run_backtest_variants` share: the admission of a bar series and of the
tick histories that go with it, the bars that a signal is executed on, and the simulation of one
plan over those bars.

A replay observes confirmed bars only. A signal bar is observed at the end of its interval; the
bars it is executed on are the parent bars of the horizon after it or, where lower-timeframe bars
are given, those of them that start no earlier than that clock and are observed by the end of the
horizon.

## Main definitions

* `admitReplayConfirmedBars`, `prepareFastEntryBars`
* `BacktestTickHistory`, `tickHistoryByTs`, `tickProfileHistoryByTs`
* `fastExecutionWindow`, `simulateTrade`

## Main results

* `admitReplayConfirmedBars_spec`: an admitted series is the confirmed part of an ordered one
* `simulateTrade_opened`, `simulateTrade_closed`: a trade opens and closes on the bars it is given
-/

namespace AefTerminal

open Foundation

/-! ### Clocks -/

def ChartInterval.duration (interval : ChartInterval) : Time :=
  interval.minutes * microsecondsPerMinute

/-- `signal_bar_observed_at`: the first clock at which a confirmed bar exists. -/
def signalBarObservedAt (bar : Bar) : Time := bar.ts + bar.timeframe.duration

theorem ChartInterval.duration_pos (interval : ChartInterval) : 0 < interval.duration := by
  cases interval <;> decide

theorem ts_lt_observed (bar : Bar) : bar.ts < signalBarObservedAt bar :=
  lt_add_of_pos_right bar.ts bar.timeframe.duration_pos

/-- `utc_daypart`. -/
def utcDaypart (ts : Time) : String :=
  let hour := ts / (60 * microsecondsPerMinute) % 24
  if hour < 7 then "utc_00_07"
  else if hour < 13 then "utc_07_13"
  else if hour < 21 then "utc_13_21"
  else "utc_21_24"

/-! ### Admission -/

/-- What `route_instrument` says of the instrument of a replay. -/
structure ReplayRoute where
  provider : String
  instrumentId : String
  routeFingerprint : String
  priceIncrement : Option ℚ

def ReplayRoute.expectation (route : ReplayRoute) : BarExpectation where
  provider := route.provider
  instrumentId := some route.instrumentId
  routeFingerprint := some route.routeFingerprint
  allowedRequestTypes := none
  providerContractId := none
  providerContractType := none
  dataType := none

/-- `require_ordered_bar_list`, after the bar at `previous`. -/
def requireOrderedBarList (field : String) (timeframe : ChartInterval) :
    Option Time → List Bar → Except BacktestError Unit
  | _, [] => .ok ()
  | previous, bar :: rest =>
    if bar.timeframe ≠ timeframe then .error (.barListTimeframeMismatch field bar.timeframe)
    else if ∃ ts ∈ previous, bar.ts ≤ ts then .error (.barListNotOrdered field)
    else requireOrderedBarList field timeframe (some bar.ts) rest

/-- The loop of the admission. Once a provisional bar was seen, only provisional ones may follow. -/
def confirmedBars (route : ReplayRoute) (field : String) (provisionalTailStarted : Bool) :
    ℕ → List Bar → Except BacktestError (List Bar)
  | _, [] => .ok []
  | index, bar :: rest =>
    if isProvisionalBar bar then confirmedBars route field true (index + 1) rest
    else if provisionalTailStarted then
      .error (.replayConfirmedAfterProvisional field index bar.ts)
    else
      match authoritativeBarRejectReason route.expectation bar with
      | some reason => .error (.replayBarAdmissionRejected field index bar.ts reason)
      | none => (bar :: ·) <$> confirmedBars route field false (index + 1) rest

def admitReplayConfirmedBars (bars : List Bar) (route : ReplayRoute) (field : String) :
    Except BacktestError (List Bar) :=
  match bars with
  | [] => .ok []
  | first :: _ => do
    requireOrderedBarList field first.timeframe none bars
    confirmedBars route field false 0 bars

/-- `_prepare_fast_entry_bars`. -/
def prepareFastEntryBars (bars : Option (List Bar)) (parentBars : List Bar) (route : ReplayRoute) :
    Except BacktestError (List Bar × Option ChartInterval) :=
  match bars with
  | none | some [] => .ok ([], none)
  | some bars =>
    match parentBars with
    | [] => .error .fastEntryBarsRequireParentBars
    | parent :: _ => do
      match ← admitReplayConfirmedBars bars route "backtest fast entry bars" with
      | [] => .error .fastEntryBarsRequireConfirmedBars
      | first :: rest =>
        -- one timeframe was already required of the series
        if first.timeframe.minutes ≥ parent.timeframe.minutes then
          .error .fastEntryBarsNotLowerTimeframe
        else .ok (first :: rest, some first.timeframe)

/-! ### Tick histories -/

inductive TickHistoryKind
  | bar | priceProfile
  deriving DecidableEq

/-- One row of a tick history; a value of another type is absent. -/
structure TickHistoryRow where
  ts : Option Time
  price : Option ℚ
  totalVolume : Option ℤ
  netDelta : Option ℤ
  tradeCount : Option ℤ

/-- `BacktestTickHistory`, with the check of its price step as a field. -/
structure BacktestTickHistory where
  kind : TickHistoryKind
  provider : String
  instrumentId : String
  routeFingerprint : String
  timeframe : ChartInterval
  rows : List TickHistoryRow
  priceStep : Option ℚ
  priceStep_valid :
    match kind with
    | .bar => priceStep = none
    | .priceProfile => ∃ step ∈ priceStep, 0 < step

/-- `_is_exact_multiple`, of a step other than zero. -/
def isExactMultiple (value step : ℚ) : Bool := (value / step).den = 1

/-- A profile is on the price grid of its route. -/
def requireRouteAligned (history : BacktestTickHistory) (route : ReplayRoute) :
    Except BacktestError Unit :=
  match history.kind, history.priceStep, route.priceIncrement with
  | .bar, _, _ => .ok ()
  | .priceProfile, _, none => .error .tickProfileRouteIncrementRequired
  | .priceProfile, none, some _ => .error .tickProfilePriceStepNotRouteAligned
  | .priceProfile, some step, some increment =>
    require (0 < increment ∧ 0 < step ∧ isExactMultiple step increment)
      .tickProfilePriceStepNotRouteAligned

/-- `_admit_tick_history`. -/
def admitTickHistory (history : Option BacktestTickHistory) (route : ReplayRoute)
    (timeframe : Option ChartInterval) (expectedKind : TickHistoryKind) (field : String) :
    Except BacktestError (List TickHistoryRow) :=
  match history with
  | none => .ok []
  | some history => do
    require (history.kind = expectedKind) (.tickHistoryKindMismatch field)
    require
      (history.provider = route.provider ∧ history.instrumentId = route.instrumentId ∧
        history.routeFingerprint = route.routeFingerprint)
      (.tickHistoryRouteMismatch field)
    require (timeframe = some history.timeframe)
      (.tickHistoryTimeframeMismatch field timeframe history.timeframe)
    requireRouteAligned history route
    return history.rows

/-- `_require_tick_ts`. -/
def requireTickTs (ts : Option Time) (timeframe : ChartInterval) (field : String) (index : ℕ) :
    Except BacktestError Time :=
  match ts with
  | none => .error (.tickTimestampInvalid field index)
  | some ts =>
    if ts % timeframe.duration = 0 then .ok ts else .error (.tickTimestampNotAligned field index ts)

/-- The sums of one admitted row. -/
structure TickSums where
  totalVolume : ℤ
  netDelta : ℤ
  tradeCount : ℤ
  deriving DecidableEq

/-- The sums of a row that are there and consistent. -/
def TickHistoryRow.sums (row : TickHistoryRow) : Option TickSums :=
  match row.totalVolume, row.netDelta, row.tradeCount with
  | some totalVolume, some netDelta, some tradeCount =>
    if totalVolume < 0 ∨ tradeCount < 0 ∨ |netDelta| > totalVolume then none
    else some ⟨totalVolume, netDelta, tradeCount⟩
  | _, _, _ => none

/-- One row of `_tick_history_by_ts`. -/
def addTickRow (timeframe : ChartInterval) (rows : Dict Time TickSums)
    (entry : TickHistoryRow × ℕ) : Except BacktestError (Dict Time TickSums) := do
  let ts ← requireTickTs entry.1.ts timeframe "bar" entry.2
  require (ts ∉ rows.keys) (.tickHistoryDuplicateTimestamp ts)
  match entry.1.sums with
  | none => .error (.tickBarRowInvalid entry.2)
  | some sums => return rows.insert ts sums

/-- `_tick_history_by_ts`. Without a timeframe there are no rows. -/
def tickHistoryByTs (rows : List TickHistoryRow) (timeframe : Option ChartInterval) :
    Except BacktestError (Dict Time TickSums) :=
  match timeframe with
  | none => .ok Dict.empty
  | some timeframe => rows.zipIdx.foldlM (addTickRow timeframe) Dict.empty

/-- One price level of a bar. -/
structure TickLevel where
  ts : Time
  price : ℚ
  sums : TickSums
  deriving DecidableEq

/-- One row of `_tick_profile_history_by_ts`. -/
def addProfileRow (timeframe : ChartInterval) (priceStep : ℚ) (levels : List TickLevel)
    (entry : TickHistoryRow × ℕ) : Except BacktestError (List TickLevel) := do
  let ts ← requireTickTs entry.1.ts timeframe "profile" entry.2
  match entry.1.price, entry.1.sums with
  | some price, some sums =>
    require (isExactMultiple price priceStep) (.tickProfilePriceNotStepAligned entry.2)
    require (∀ level ∈ levels, ¬ (level.ts = ts ∧ level.price = price))
      (.tickProfileDuplicateLevel ts price)
    return levels ++ [⟨ts, price, sums⟩]
  | _, _ => .error (.tickProfileRowInvalid entry.2)

/-- The levels of one bar, lowest price first. -/
def levelsAt (levels : List TickLevel) (ts : Time) : List TickLevel :=
  (levels.filter fun level => level.ts = ts).insertionSort fun a b => a.price ≤ b.price

/-- `_tick_profile_history_by_ts`, as the levels of all bars. -/
def tickProfileHistoryByTs (rows : List TickHistoryRow) (timeframe : Option ChartInterval)
    (priceStep : Option ℚ) : Except BacktestError (List TickLevel) :=
  match timeframe, priceStep with
  | some timeframe, some priceStep => rows.zipIdx.foldlM (addProfileRow timeframe priceStep) []
  | _, _ => .ok []

/-- The share of the volume that the delta is. -/
def deltaRatio (netDelta totalVolume : ℤ) : ℚ :=
  if totalVolume = 0 then 0 else roundDigits 6 ((netDelta : ℚ) / (totalVolume : ℚ))

structure TickFeatures where
  totalVolume : ℤ
  netDelta : ℤ
  tradeCount : ℤ
  deltaRatio : ℚ
  deriving DecidableEq

/-- `_tick_features_for_bar`. -/
def tickFeaturesForBar (rows : Dict Time TickSums) (bar : Bar) : Option TickFeatures :=
  (rows.get? bar.ts).map fun row =>
    { totalVolume := row.totalVolume
      netDelta := row.netDelta
      tradeCount := row.tradeCount
      deltaRatio := deltaRatio row.netDelta row.totalVolume }

structure TickProfileFeatures where
  levels : ℕ
  totalVolume : ℤ
  netDelta : ℤ
  tradeCount : ℤ
  deltaRatio : ℚ
  poc : ℚ
  pocVolume : ℤ
  pocDelta : ℤ
  deriving DecidableEq

/-- The level with the largest volume, the lowest of them: the point of control. -/
def pointOfControl : TickLevel → List TickLevel → TickLevel
  | best, [] => best
  | best, level :: rest =>
    if level.sums.totalVolume > best.sums.totalVolume ∨
        (level.sums.totalVolume = best.sums.totalVolume ∧ level.price < best.price) then
      pointOfControl level rest
    else pointOfControl best rest

/-- `_tick_profile_features_for_bar`. -/
def tickProfileFeaturesForBar (levels : List TickLevel) (bar : Bar) :
    Option TickProfileFeatures :=
  match levelsAt levels bar.ts with
  | [] => none
  | first :: rest =>
    let rows := first :: rest
    let totalVolume := (rows.map fun level => level.sums.totalVolume).sum
    let netDelta := (rows.map fun level => level.sums.netDelta).sum
    let poc := pointOfControl first rest
    if totalVolume = 0 then none
    else some
      { levels := rows.length
        totalVolume := totalVolume
        netDelta := netDelta
        tradeCount := (rows.map fun level => level.sums.tradeCount).sum
        deltaRatio := deltaRatio netDelta totalVolume
        poc := roundDigits 6 poc.price
        pocVolume := poc.sums.totalVolume
        pocDelta := poc.sums.netDelta }

/-! ### One trade -/

/-- `_fast_execution_window`. -/
def fastExecutionWindow (fastEntryBars : List Bar) (signalBar : Bar)
    (parentFutureBars : List Bar) : List Bar :=
  match fastEntryBars, parentFutureBars.getLast? with
  | [], _ => parentFutureBars
  | _, none => parentFutureBars
  | bars, some last => bars.filter fun bar =>
      decide (signalBarObservedAt signalBar ≤ bar.ts) &&
        decide (signalBarObservedAt bar ≤ signalBarObservedAt last)

theorem fastExecutionWindow_nil {fast : List Bar} {signalBar : Bar} :
    fastExecutionWindow fast signalBar [] = [] := by
  cases fast <;> rfl

theorem fastExecutionWindow_of_last {fast future : List Bar} {signalBar last : Bar}
    (hfast : fast ≠ []) (hlast : future.getLast? = some last) :
    fastExecutionWindow fast signalBar future = fast.filter fun bar =>
      decide (signalBarObservedAt signalBar ≤ bar.ts) &&
        decide (signalBarObservedAt bar ≤ signalBarObservedAt last) := by
  cases fast with
  | nil => exact absurd rfl hfast
  | cons bar rest => simp only [fastExecutionWindow, hlast]

structure TradeFeatures where
  tick : Option TickFeatures
  tickProfile : Option TickProfileFeatures
  riskPoints : ℚ
  rewardPoints : ℚ
  plannedRr : ℚ
  inverted : Bool
  stopMultiplier : ℚ
  targetMode : String
  executionTimeframe : ChartInterval
  deriving DecidableEq

inductive ExitReason
  | timeout | stop | target
  deriving DecidableEq

structure BacktestTrade where
  openedAt : Time
  closedAt : Option Time
  symbol : String
  timeframe : ChartInterval
  source : String
  setup : String
  side : PaperSide
  confidence : ℚ
  entry : ℚ
  stop : ℚ
  target : ℚ
  exitPrice : Option ℚ
  exitReason : ExitReason
  pnlPoints : Option ℚ
  mfePoints : ℚ
  maePoints : ℚ
  rMultiple : Option ℚ
  holdBars : ℕ
  utcDaypart : String
  features : TradeFeatures
  deriving DecidableEq

/-- `_entry_hit`, the same for both sides. -/
def entryHit (bar : Bar) (entry : ℚ) : Bool := bar.low ≤ entry ∧ entry ≤ bar.high

/-- The variables of the loop of `_simulate_trade`, once the entry was hit. -/
structure OpenTrade where
  openedAt : Time
  closedAt : Option Time
  exitPrice : Option ℚ
  exitReason : ExitReason
  mfe : ℚ
  mae : ℚ
  holdBars : ℕ

/-- One bar of an open trade: its excursions, then the stop before the target. -/
def OpenTrade.bar (plan : TradePlan) (s : OpenTrade) (bar : Bar) : OpenTrade :=
  let (best, worst, stopHit, targetHit) :=
    match plan.side with
    | .long => (bar.high - plan.entry, bar.low - plan.entry,
        decide (bar.low ≤ plan.stop), decide (plan.target ≤ bar.high))
    | .short => (plan.entry - bar.low, plan.entry - bar.high,
        decide (plan.stop ≤ bar.high), decide (bar.low ≤ plan.target))
  let held := { s with mfe := max s.mfe best, mae := min s.mae worst, holdBars := s.holdBars + 1 }
  if stopHit then
    { held with exitPrice := some plan.stop, exitReason := .stop, closedAt := some bar.ts }
  else if targetHit then
    { held with exitPrice := some plan.target, exitReason := .target, closedAt := some bar.ts }
  else held

/-- The bars after the entry, up to the one that closes the trade. -/
def holdTrade (plan : TradePlan) : OpenTrade → List Bar → OpenTrade
  | s, [] => s
  | s, bar :: rest =>
    let s := s.bar plan bar
    if s.exitPrice.isSome then s else holdTrade plan s rest

def OpenTrade.start (ts : Time) : OpenTrade := ⟨ts, none, none, .timeout, 0, 0, 0⟩

/-- The loop of `_simulate_trade`: bars are passed over until one hits the entry. -/
def simulateBars (plan : TradePlan) : List Bar → Option OpenTrade
  | [] => none
  | bar :: rest =>
    if entryHit bar plan.entry then some (holdTrade plan (.start bar.ts) (bar :: rest))
    else simulateBars plan rest

/-- A trade that nothing closed is closed by the last bar. -/
def OpenTrade.timeout (s : OpenTrade) (bars : List Bar) : OpenTrade :=
  match s.exitPrice, bars.getLast? with
  | none, some last => { s with exitPrice := some last.close, closedAt := some last.ts }
  | _, _ => s

def TradePlan.pnl (plan : TradePlan) (exitPrice : ℚ) : ℚ :=
  match plan.side with
  | .long => exitPrice - plan.entry
  | .short => plan.entry - exitPrice

/-- `_simulate_trade`. -/
def simulateTrade (plan : TradePlan) (signalBar : Bar) (futureBars : List Bar)
    (features : TradeFeatures) : Option BacktestTrade :=
  if plan.risk ≤ 0 then none
  else (simulateBars plan futureBars).map fun s =>
    let s := s.timeout futureBars
    let pnl := s.exitPrice.map plan.pnl
    { openedAt := s.openedAt
      closedAt := s.closedAt
      symbol := signalBar.symbol
      timeframe := signalBar.timeframe
      source := if plan.source = "" then "trade_setup" else plan.source
      setup := plan.setup
      side := plan.side
      confidence := roundDigits 2 plan.confidence
      entry := plan.entry
      stop := plan.stop
      target := plan.target
      exitPrice := s.exitPrice
      exitReason := s.exitReason
      pnlPoints := pnl.map (roundDigits 4)
      mfePoints := roundDigits 4 s.mfe
      maePoints := roundDigits 4 s.mae
      rMultiple := pnl.map fun pnl => roundDigits 4 (pnl / plan.risk)
      holdBars := s.holdBars
      utcDaypart := utcDaypart s.openedAt
      features := features }

/-! ### What admission says of a series -/

theorem requireOrderedBarList_spec {field : String} {timeframe : ChartInterval}
    {previous : Option Time} {bars : List Bar}
    (h : requireOrderedBarList field timeframe previous bars = .ok ()) :
    (∀ bar ∈ bars, bar.timeframe = timeframe) ∧ (∀ ts ∈ previous, ∀ bar ∈ bars, ts < bar.ts) ∧
      bars.Pairwise (·.ts < ·.ts) := by
  induction bars generalizing previous with
  | nil => exact ⟨by simp, by simp, .nil⟩
  | cons bar rest ih =>
    rw [requireOrderedBarList] at h
    split at h
    case isTrue => exact absurd h nofun
    case isFalse htimeframe =>
      split at h
      case isTrue => exact absurd h nofun
      case isFalse hlater =>
        obtain ⟨hrest, hafter, hsorted⟩ := ih h
        have hbar : ∀ later ∈ rest, bar.ts < later.ts := hafter bar.ts rfl
        refine ⟨?_, ?_, List.pairwise_cons.mpr ⟨hbar, hsorted⟩⟩
        · intro b hb
          obtain rfl | hb := List.mem_cons.mp hb
          · exact not_not.mp htimeframe
          · exact hrest b hb
        · intro ts hts b hb
          have hts' : ts < bar.ts := lt_of_not_ge fun hle => hlater ⟨ts, hts, hle⟩
          obtain rfl | hb := List.mem_cons.mp hb
          · exact hts'
          · exact hts'.trans (hbar b hb)

theorem confirmedBars_eq_filter {route : ReplayRoute} {field : String} {started : Bool} {index : ℕ}
    {bars closed : List Bar} (h : confirmedBars route field started index bars = .ok closed) :
    closed = bars.filter (!isProvisionalBar ·) := by
  induction bars generalizing started index closed with
  | nil => exact (Except.ok.inj h).symm
  | cons bar rest ih =>
    rw [confirmedBars] at h
    split at h
    case isTrue hprovisional =>
      rw [List.filter_cons_of_neg (by simp [hprovisional])]
      exact ih h
    case isFalse hconfirmed =>
      split at h
      case isTrue => exact absurd h nofun
      case isFalse =>
        split at h
        case h_1 => exact absurd h nofun
        case h_2 =>
          obtain ⟨tail, htail, rfl⟩ := map_eq_ok.mp h
          rw [List.filter_cons_of_pos (by simp [hconfirmed]), ih htail]

/-- A series of one timeframe, oldest bar first. -/
structure Series (bars : List Bar) : Prop where
  sorted : bars.Pairwise (·.ts < ·.ts)
  timeframe : ∀ a ∈ bars, ∀ b ∈ bars, a.timeframe = b.timeframe

theorem Series.sublist {bars bars' : List Bar} (h : Series bars) (hsub : bars'.Sublist bars) :
    Series bars' where
  sorted := h.sorted.sublist hsub
  timeframe a ha b hb := h.timeframe a (hsub.subset ha) b (hsub.subset hb)

/-- A later bar of a series is observed later. -/
theorem Series.observed_le {bars : List Bar} (h : Series bars) {a b : Bar} (ha : a ∈ bars)
    (hb : b ∈ bars) (hle : a.ts ≤ b.ts) : signalBarObservedAt a ≤ signalBarObservedAt b := by
  rw [signalBarObservedAt, signalBarObservedAt, h.timeframe a ha b hb]
  exact Int.add_le_add_right hle _

/-- An admitted series is the confirmed part of an ordered one. -/
theorem admitReplayConfirmedBars_spec {bars closed : List Bar} {route : ReplayRoute}
    {field : String} (h : admitReplayConfirmedBars bars route field = .ok closed) :
    closed = bars.filter (!isProvisionalBar ·) ∧ Series closed := by
  cases bars with
  | nil =>
    cases h
    exact ⟨rfl, .nil, by simp⟩
  | cons first rest =>
    obtain ⟨⟨⟩, hordered, hconfirmed⟩ := bind_eq_ok.mp h
    obtain ⟨htimeframe, -, hsorted⟩ := requireOrderedBarList_spec hordered
    have hclosed := confirmedBars_eq_filter hconfirmed
    have hseries : Series (first :: rest) :=
      ⟨hsorted, fun a ha b hb => (htimeframe a ha).trans (htimeframe b hb).symm⟩
    exact ⟨hclosed, hseries.sublist (hclosed ▸ List.filter_sublist)⟩

/-- Lower-timeframe bars are the confirmed part of what was given; none are prepared exactly when
none were given. -/
theorem prepareFastEntryBars_spec {bars : Option (List Bar)} {parentBars fast : List Bar}
    {route : ReplayRoute} {timeframe : Option ChartInterval}
    (h : prepareFastEntryBars bars parentBars route = .ok (fast, timeframe)) :
    fast = (bars.getD []).filter (!isProvisionalBar ·) ∧ Series fast ∧
      (fast = [] ↔ bars.getD [] = []) ∧ timeframe = fast.head?.map Bar.timeframe := by
  have hnone : (([] : List Bar), (none : Option ChartInterval)) = (fast, timeframe) →
      fast = [] ∧ timeframe = none := fun hpair => by simpa [eq_comm] using hpair
  rcases bars with - | ⟨- | ⟨bar, bars⟩⟩
  · obtain ⟨rfl, rfl⟩ := hnone (Except.ok.inj h)
    exact ⟨rfl, ⟨.nil, by simp⟩, by simp, rfl⟩
  · obtain ⟨rfl, rfl⟩ := hnone (Except.ok.inj h)
    exact ⟨rfl, ⟨.nil, by simp⟩, by simp, rfl⟩
  · rcases parentBars with _ | ⟨parent, parentRest⟩
    · cases h
    · simp only [prepareFastEntryBars] at h
      obtain ⟨closed, hadmitted, h⟩ := bind_eq_ok.mp h
      obtain ⟨hclosed, hseries⟩ := admitReplayConfirmedBars_spec hadmitted
      split at h
      case h_1 => cases h
      case h_2 first rest =>
        split at h
        case isTrue => cases h
        case isFalse =>
          cases (Except.ok.inj h)
          exact ⟨hclosed, hseries, by simp, rfl⟩

/-! ### Where a trade opens and closes -/

/-- A bar leaves the entry as it is, and leaves the trade open or closes it there. -/
theorem openTrade_bar_spec (plan : TradePlan) {s : OpenTrade} (bar : Bar)
    (hopen : s.exitPrice = none) :
    (s.bar plan bar).openedAt = s.openedAt ∧
      ((s.bar plan bar).exitPrice = none ∨ (s.bar plan bar).closedAt = some bar.ts) := by
  rw [OpenTrade.bar]
  split
  split
  · exact ⟨rfl, .inr rfl⟩
  · split
    · exact ⟨rfl, .inr rfl⟩
    · exact ⟨rfl, .inl hopen⟩

theorem holdTrade_spec {plan : TradePlan} {s : OpenTrade} {bars : List Bar}
    (hopen : s.exitPrice = none) :
    (holdTrade plan s bars).openedAt = s.openedAt ∧
      ((holdTrade plan s bars).exitPrice = none ∨
        ∃ bar ∈ bars, (holdTrade plan s bars).closedAt = some bar.ts) := by
  induction bars generalizing s with
  | nil => exact ⟨rfl, .inl hopen⟩
  | cons bar rest ih =>
    obtain ⟨hopened, hclosed⟩ := openTrade_bar_spec plan bar hopen
    simp only [holdTrade]
    cases hexit : (s.bar plan bar).exitPrice with
    | some exitPrice =>
      rw [hexit] at hclosed
      exact ⟨hopened, .inr ⟨bar, List.mem_cons_self .., hclosed.resolve_left nofun⟩⟩
    | none =>
      obtain ⟨hrest, hclosed⟩ := ih hexit
      refine ⟨hrest.trans hopened, hclosed.imp_right ?_⟩
      rintro ⟨b, hb, hts⟩
      exact ⟨b, List.mem_cons_of_mem _ hb, hts⟩

/-- A trade is opened by one of the bars; what closed it was one of them. -/
theorem simulateBars_spec {plan : TradePlan} {bars : List Bar} {s : OpenTrade}
    (h : simulateBars plan bars = some s) :
    (∃ bar ∈ bars, s.openedAt = bar.ts) ∧
      (s.exitPrice = none ∨ ∃ bar ∈ bars, s.closedAt = some bar.ts) := by
  induction bars with
  | nil => exact absurd h nofun
  | cons bar rest ih =>
    rw [simulateBars] at h
    split at h
    case isTrue =>
      cases h
      obtain ⟨hopened, hclosed⟩ :=
        @holdTrade_spec plan (.start bar.ts) (bar :: rest) rfl
      exact ⟨⟨bar, List.mem_cons_self .., hopened⟩, hclosed⟩
    case isFalse =>
      obtain ⟨⟨b, hb, hopened⟩, hclosed⟩ := ih h
      refine ⟨⟨b, List.mem_cons_of_mem _ hb, hopened⟩, hclosed.imp_right ?_⟩
      rintro ⟨b, hb, hts⟩
      exact ⟨b, List.mem_cons_of_mem _ hb, hts⟩

/-- A trade opens and closes on the bars it is simulated over. -/
theorem simulateTrade_spec {plan : TradePlan} {signalBar : Bar} {bars : List Bar}
    {features : TradeFeatures} {trade : BacktestTrade}
    (h : simulateTrade plan signalBar bars features = some trade) :
    (∃ bar ∈ bars, trade.openedAt = bar.ts) ∧ ∃ bar ∈ bars, trade.closedAt = some bar.ts := by
  rw [simulateTrade] at h
  split at h
  case isTrue => exact absurd h nofun
  case isFalse =>
    obtain ⟨s, hs, rfl⟩ := Option.map_eq_some_iff.mp h
    obtain ⟨⟨bar, hbar, hopened⟩, hclosed⟩ := simulateBars_spec hs
    cases hexit : s.exitPrice with
    | some exitPrice =>
      rw [hexit] at hclosed
      simp only [OpenTrade.timeout, hexit]
      exact ⟨⟨bar, hbar, hopened⟩, hclosed.resolve_left nofun⟩
    | none =>
      -- nothing closed it: the last bar does
      have hne : bars ≠ [] := List.ne_nil_of_mem hbar
      have hlast : bars.getLast? = some (bars.getLast hne) := List.getLast?_eq_some_getLast hne
      simp only [OpenTrade.timeout, hexit, hlast]
      exact ⟨⟨bar, hbar, hopened⟩, bars.getLast hne, List.getLast_mem hne, rfl⟩

/-- Without bars there is no trade. -/
@[simp] theorem simulateTrade_nil {plan : TradePlan} {signalBar : Bar} {features : TradeFeatures} :
    simulateTrade plan signalBar [] features = none := by
  rw [simulateTrade]
  split <;> rfl

end AefTerminal
