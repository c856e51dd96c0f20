import AefTerminal.Bars.Storage
import AefTerminal.Paper.Execution
import AefTerminal.Quotes.Envelope

/-!
# The plan a backtest trades

An analysis snapshot carries a trade setup. `trade_plan_projection_from_trade_setup` projects an
eligible one to a plan; a backtest may then trade the plan the other way round, or with a wider
stop, to compare variants of one strategy.

The projection accepts only a plan whose stop and target bracket the entry. Trading the other way
round exchanges the two levels with the side, and a wider stop moves them away from the entry, so
the plan brackets its entry throughout. That is the field `brackets` here. It decides what a wider
stop can do: with a multiplier other than one it always changes the plan.

## Main definitions

* `TradeSetup`, `tradePlanProjectionFromTradeSetup`
* `TradePlan`, `invertedTradePlan`, `widenedTradePlan`, `tradePlanFromSnapshot`

## Main results

* `widenedTradePlan_stopMultiplier`: which plans name the multiplier they were widened by
-/

namespace AefTerminal

open Foundation

/-! ### What a backtest raises -/

/-- The raises of the offline replay, with the values their texts show. -/
inductive BacktestError
  | barListTimeframeMismatch (field : String) (actual : ChartInterval)
  | barListNotOrdered (field : String)
  | replayConfirmedAfterProvisional (field : String) (index : ℕ) (ts : Time)
  | replayBarAdmissionRejected (field : String) (index : ℕ) (ts : Time) (reason : BarRejectReason)
  | fastEntryBarsRequireParentBars
  | fastEntryBarsRequireConfirmedBars
  | fastEntryBarsNotLowerTimeframe
  | tickHistoryKindMismatch (field : String)
  | tickHistoryRouteMismatch (field : String)
  | tickHistoryTimeframeMismatch (field : String) (expected : Option ChartInterval)
      (actual : ChartInterval)
  | tickProfileRouteIncrementRequired
  | tickProfilePriceStepNotRouteAligned
  | tickTimestampInvalid (field : String) (index : ℕ)
  | tickTimestampNotAligned (field : String) (index : ℕ) (ts : Time)
  | tickHistoryDuplicateTimestamp (ts : Time)
  | tickBarRowInvalid (index : ℕ)
  | tickProfileRowInvalid (index : ℕ)
  | tickProfilePriceNotStepAligned (index : ℕ)
  | tickProfileDuplicateLevel (ts : Time) (price : ℚ)
  /-- `closed[index]` past the end -/
  | signalBarIndex (index : ℕ)
  | backtestAnalysisFailed (signalTs : Time) (symbol : String) (timeframe : ChartInterval)
  | stopMultiplierNotPositive
  | targetModeInvalid
  deriving DecidableEq

/-! ### The trade setup of a snapshot -/

structure ExecutionAuthority where
  contract : Option String
  state : Option String
  ready : Bool
  providerId : Option String
  providerIds : Option (List String)
  reasonCode : Option String
  deriving DecidableEq

def tradeSetupAuthorityContract : String := "trade-setup-authority-v1"

/-- `trade_setup_execution_authority_ready`: the authority of one named provider. -/
def tradeSetupExecutionAuthorityReady : Option ExecutionAuthority → Bool
  | none => false
  | some value =>
    match value.providerId, value.providerIds with
    | some providerId, some providerIds =>
      value.contract = some tradeSetupAuthorityContract ∧ value.state = some "ready" ∧
        value.ready ∧ providerId ≠ "" ∧ providerIds = [providerId] ∧
        value.reasonCode = some "trade_setup_authority_ready"
    | _, _ => false

/-- The levels of a setup. A value that is absent reads as `None`. -/
structure SetupPlan where
  entry : QuoteValue
  trigger : QuoteValue
  stop : QuoteValue
  target : QuoteValue
  deriving DecidableEq

structure ConfluenceItem where
  source : Option String
  score : QuoteValue
  level : QuoteValue
  direction : Option String
  deriving DecidableEq

/-- The `trade_setup` of a snapshot. -/
structure TradeSetup where
  executionAuthority : Option ExecutionAuthority
  ok : Bool
  action : Option String
  side : Option String
  kind : Option String
  plan : SetupPlan
  signalSource : Option String
  /-- `DomainFact.from_mapping` accepts `trigger_event` -/
  triggerEventValid : Bool
  quality : QuoteValue
  confluence : List ConfluenceItem
  deriving DecidableEq

/-- `_EXECUTABLE_SETUP_KINDS`. -/
def executableSetupKinds : List String := ["fade", "transit"]

/-- The side that a setup names. -/
def setupSide : Option String → Option PaperSide
  | some "long" => some .long
  | some "short" => some .short
  | _ => none

/-- An item without a source is passed over; the others must be readable. -/
def ConfluenceItem.readable (item : ConfluenceItem) : Bool :=
  match item.source with
  | none => true
  | some source =>
    source = "" ∨
      (exactFiniteNumberOrNone item.score).isSome ∧
        (item.level = .null ∨ (exactFiniteNumberOrNone item.level).isSome) ∧
        item.direction.all (· ∈ ["long", "short", "flat"])

/-- The levels are on their sides of the entry. -/
def Brackets (side : PaperSide) (entry stop target : ℚ) : Prop :=
  side.StopBehind stop entry ∧ side.TargetAhead target entry

/-- The part of the projection that a backtest reads. -/
structure TradeSetupPlanProjection where
  side : PaperSide
  setup : String
  quality : ℚ
  entry : ℚ
  stop : ℚ
  target : ℚ
  signalSource : String
  brackets : Brackets side entry stop target

/-- The plan of a setup whose levels are executable. -/
def TradeSetup.project (setup : TradeSetup) (side : PaperSide) (kind : String)
    (entry stop target : ℚ) : Option TradeSetupPlanProjection :=
  if hplan : executionPlanRejection side.direction (some entry) (some stop) (some target) none =
      none then
    match setup.signalSource, exactFiniteNumberOrNone setup.quality with
    | some signalSource, some quality =>
      if signalSource ≠ "" ∧ signalSource = strip signalSource ∧ setup.triggerEventValid ∧
          setup.confluence.all ConfluenceItem.readable then
        some
          { side, setup := kind, quality, entry, stop, target, signalSource
            brackets := executionPlanRejection_eq_none hplan }
      else none
    | _, _ => none
  else none

/-- `trade_plan_projection_from_trade_setup`. -/
def tradePlanProjectionFromTradeSetup (setup : TradeSetup) : Option TradeSetupPlanProjection :=
  if tradeSetupExecutionAuthorityReady setup.executionAuthority ∧ setup.ok ∧
      setup.action = some "GO" then do
    let side ← setupSide setup.side
    let kind ← setup.kind
    guard (kind ∈ executableSetupKinds)
    let entry ← exactFiniteNumberOrNone
      (if setup.plan.entry ≠ .null then setup.plan.entry else setup.plan.trigger)
    let stop ← exactFiniteNumberOrNone setup.plan.stop
    let target ← exactFiniteNumberOrNone setup.plan.target
    setup.project side kind entry stop target
  else none

/-! ### The plan of a backtest -/

/-- A backtest plan. The last three entries are absent until the plan is changed. -/
structure TradePlan where
  source : String
  setup : String
  side : PaperSide
  confidence : ℚ
  entry : ℚ
  stop : ℚ
  target : ℚ
  inverted : Option Bool
  stopMultiplier : Option ℚ
  targetMode : Option String
  brackets : Brackets side entry stop target

/-- `as_backtest_plan`. -/
def TradeSetupPlanProjection.asBacktestPlan (projection : TradeSetupPlanProjection) :
    TradePlan where
  source := projection.signalSource
  setup := projection.setup
  side := projection.side
  confidence := projection.quality
  entry := projection.entry
  stop := projection.stop
  target := projection.target
  inverted := none
  stopMultiplier := none
  targetMode := none
  brackets := projection.brackets

def PaperSide.opposite : PaperSide → PaperSide
  | .long => .short
  | .short => .long

variable {entry multiplier : ℚ} {side : PaperSide}

/-- The levels of a plan bracket its entry for the other side, exchanged. -/
theorem Brackets.opposite {stop target : ℚ}
    (h : Brackets side entry stop target) : Brackets side.opposite entry target stop := by
  cases side
  · exact ⟨h.2, h.1⟩
  · exact ⟨h.2, h.1⟩

/-- `_inverted_trade_plan`. -/
def invertedTradePlan (plan : TradePlan) : TradePlan :=
  { plan with
    side := plan.side.opposite
    stop := plan.target
    target := plan.stop
    inverted := some true
    brackets := plan.brackets.opposite }

/-- A level at a distance from the entry, on the losing side of it. -/
def PaperSide.behind (side : PaperSide) (entry distance : ℚ) : ℚ :=
  match side with
  | .long => entry - distance
  | .short => entry + distance

theorem PaperSide.stopBehind_behind {distance : ℚ} (h : 0 < distance) :
    side.StopBehind (side.behind entry distance) entry := by
  cases side
  · exact sub_lt_self entry h
  · exact lt_add_of_pos_right entry h

theorem PaperSide.targetAhead_behind {distance : ℚ} (h : 0 < distance) :
    side.TargetAhead (side.opposite.behind entry distance) entry := by
  cases side
  · exact lt_add_of_pos_right entry h
  · exact sub_lt_self entry h

/-- The risk and the reward of a plan. -/
def TradePlan.risk (plan : TradePlan) : ℚ := |plan.entry - plan.stop|

def TradePlan.reward (plan : TradePlan) : ℚ := |plan.target - plan.entry|

theorem TradePlan.risk_pos (plan : TradePlan) : 0 < plan.risk := by
  have h := plan.brackets.1
  rw [TradePlan.risk, abs_pos, sub_ne_zero]
  cases hside : plan.side with
  | long =>
    rw [hside] at h
    exact ne_of_gt h
  | short =>
    rw [hside] at h
    exact ne_of_lt h

theorem TradePlan.reward_pos (plan : TradePlan) : 0 < plan.reward := by
  have h := plan.brackets.2
  rw [TradePlan.reward, abs_pos, sub_ne_zero]
  cases hside : plan.side with
  | long =>
    rw [hside] at h
    exact ne_of_gt h
  | short =>
    rw [hside] at h
    exact ne_of_lt h

/-- The modes of `target_mode`. -/
inductive TargetMode
  | keep | preserveRr
  deriving DecidableEq

def TargetMode.text : TargetMode → String
  | .keep => "keep"
  | .preserveRr => "preserve-rr"

def targetModeOfText (targetMode : String) : Except BacktestError TargetMode :=
  let mode := lower (strip (if targetMode = "" then "keep" else targetMode))
  if mode = "keep" then .ok .keep
  else if mode = "preserve-rr" then .ok .preserveRr
  else .error .targetModeInvalid

/-- The levels with the multiplier, where there is a risk and a reward to multiply. -/
def TradePlan.widen (plan : TradePlan) (multiplier : ℚ) (mode : TargetMode)
    (hmultiplier : 0 < multiplier) : TradePlan :=
  if hnone : plan.risk ≤ 0 ∨ plan.reward ≤ 0 then plan
  else
    { plan with
      stop := plan.side.behind plan.entry (plan.risk * multiplier)
      target :=
        match mode with
        | .keep => plan.target
        | .preserveRr => plan.side.opposite.behind plan.entry (plan.reward * multiplier)
      stopMultiplier := some multiplier
      targetMode := some mode.text
      brackets := by
        refine ⟨PaperSide.stopBehind_behind (mul_pos plan.risk_pos hmultiplier), ?_⟩
        cases mode
        · exact plan.brackets.2
        · exact PaperSide.targetAhead_behind (mul_pos plan.reward_pos hmultiplier) }

/-- `_widened_trade_plan`. -/
def widenedTradePlan (plan : TradePlan) (stopMultiplier : ℚ) (targetMode : String) :
    Except BacktestError TradePlan :=
  if hmultiplier : stopMultiplier ≤ 0 then .error .stopMultiplierNotPositive
  else do
    let mode ← targetModeOfText targetMode
    if stopMultiplier = 1 then return plan
    else return plan.widen stopMultiplier mode (lt_of_not_ge hmultiplier)

/-- A snapshot, as far as a backtest reads it. -/
structure Snapshot where
  tradeSetup : Option TradeSetup

/-- `_trade_plan_from_snapshot`. -/
def tradePlanFromSnapshot (snapshot : Snapshot) (invertSources : List String)
    (stopMultiplier : ℚ) (targetMode : String) : Except BacktestError (Option TradePlan) :=
  match snapshot.tradeSetup.bind tradePlanProjectionFromTradeSetup with
  | none => .ok none
  | some projection =>
    let plan := projection.asBacktestPlan
    let plan := if plan.source ∈ invertSources then invertedTradePlan plan else plan
    some <$> widenedTradePlan plan stopMultiplier targetMode

/-! ### What a widened plan says of itself -/

variable {plan : TradePlan}

theorem widen_stopMultiplier {mode : TargetMode} {hmultiplier : 0 < multiplier} :
    (plan.widen multiplier mode hmultiplier).stopMultiplier = some multiplier := by
  have hpos : ¬ (plan.risk ≤ 0 ∨ plan.reward ≤ 0) := by
    rw [not_or, not_le, not_le]
    exact ⟨plan.risk_pos, plan.reward_pos⟩
  simp only [TradePlan.widen, dif_neg hpos]

/-- A plan names the multiplier it was widened by; a multiplier of one widens nothing. -/
theorem widenedTradePlan_stopMultiplier {plan' : TradePlan} {mode : String}
    (hplan : plan.stopMultiplier = none) (h : widenedTradePlan plan multiplier mode = .ok plan') :
    plan'.stopMultiplier = if multiplier = 1 then none else some multiplier := by
  rw [widenedTradePlan] at h
  split at h
  case isTrue => exact absurd h nofun
  case isFalse =>
    obtain ⟨m, -, h⟩ := bind_eq_ok.mp h
    split at h
    case isTrue hone =>
      obtain rfl := pure_eq_ok.mp h
      rw [hplan, if_pos hone]
    case isFalse hone =>
      obtain rfl := pure_eq_ok.mp h
      rw [if_neg hone, widen_stopMultiplier]

theorem tradePlanFromSnapshot_stopMultiplier {snapshot : Snapshot} {sources : List String}
    {mode : String} (h : tradePlanFromSnapshot snapshot sources multiplier mode = .ok (some plan)) :
    plan.stopMultiplier = if multiplier = 1 then none else some multiplier := by
  rw [tradePlanFromSnapshot] at h
  split at h
  case h_1 => exact absurd h nofun
  case h_2 projection _ =>
    obtain ⟨plan', hplan', hsome⟩ := map_eq_ok.mp h
    cases hsome
    refine widenedTradePlan_stopMultiplier ?_ hplan'
    split
    · rfl
    · rfl

end AefTerminal
