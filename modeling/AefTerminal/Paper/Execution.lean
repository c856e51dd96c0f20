import AefTerminal.Paper.Submission
import AefTerminal.Signals.Lifecycle

/-!
# Resolving a pending order against a price

`paper_order_execution_transition` decides what one price snapshot makes of a pending order. It
stores nothing: the submission around it rejects or fills.

A snapshot speaks for one price, or, when it is a bar, for all prices from its low to its high. An
order that the snapshot touches is filled at the price shown, if that price is already through the
order, and else at the order's own price, which only a bar can have reached. Levels that are
distances from the fill are then moved to the fill, and the plan is judged at the fill price.

The texts of an order's payload and of its execution configuration are read by a
`PaperOrderReader`; so are the two number formats of a rejection text.

## Main definitions

* `normalizeExecutionSnapshot`, `paperOrderTouch`
* `paperManualProtectiveLevels`, `paperOrderAtFill`
* `executionPlanRejection`, `paperFillPlanRejection`
* `paperOrderExecutionTransition`

## Main results

* `touchAt_isSome_iff`: an order is touched exactly by a snapshot that reaches its price
* `execution_transition_sound`: what a fill establishes
-/

namespace AefTerminal

open Foundation

/-! ### Snapshots -/

/-- A price snapshot as a chart or a quote hands it over. What is no finite number is absent. -/
structure PriceSnapshot where
  price : Option ℚ
  low : Option ℚ
  high : Option ℚ
  rangeKind : Option String
  ts : Option Time
  source : Option String
  /-- `bar_slot`, or else `barSlot`. -/
  barSlot : Option ℚ

structure ExecutionSnapshot where
  price : ℚ
  low : ℚ
  high : ℚ
  rangeKind : String
  ts : Option Time
  source : String
  barSlot : Option ℚ
  deriving DecidableEq

/-- `normalize_execution_snapshot`. -/
def normalizeExecutionSnapshot (snapshot : Option PriceSnapshot) : Option ExecutionSnapshot := do
  let snapshot ← snapshot
  let price ← snapshot.price
  return {
    price
    low := snapshot.low.getD price
    high := snapshot.high.getD price
    rangeKind := textOr snapshot.rangeKind "price"
    ts := snapshot.ts
    source := textOr snapshot.source "screen"
    barSlot := snapshot.barSlot }

namespace ExecutionSnapshot

/-- A normalised snapshot is itself a snapshot. -/
def toPrice (s : ExecutionSnapshot) : PriceSnapshot :=
  ⟨some s.price, some s.low, some s.high, some s.rangeKind, s.ts, some s.source, s.barSlot⟩

/-- A bar speaks for its whole range. -/
def IsBar (s : ExecutionSnapshot) : Prop := s.rangeKind = "bar"

instance (s : ExecutionSnapshot) : Decidable s.IsBar := inferInstanceAs (Decidable (_ = _))

def IsQuote (s : ExecutionSnapshot) : Prop := s.rangeKind = "quote"

instance (s : ExecutionSnapshot) : Decidable s.IsQuote := inferInstanceAs (Decidable (_ = _))

end ExecutionSnapshot

variable {s : ExecutionSnapshot}

/-- Normalising twice is normalising once. -/
theorem normalizeExecutionSnapshot_toPrice {snapshot : Option PriceSnapshot}
    (h : normalizeExecutionSnapshot snapshot = some s) :
    normalizeExecutionSnapshot (some s.toPrice) = some s := by
  obtain ⟨raw, -, hraw⟩ := Option.bind_eq_some_iff.mp h
  obtain ⟨price, -, hs⟩ := Option.bind_eq_some_iff.mp hraw
  cases hs
  simp [normalizeExecutionSnapshot, ExecutionSnapshot.toPrice]

/-! ### The touch -/

structure PaperExecutionTouch where
  fillPrice : ℚ
  authorityTs : Option Time
  deriving DecidableEq

/-- An order that waits for the price to fall to its entry. -/
def touchBelow (s : ExecutionSnapshot) (entry : ℚ) : Option PaperExecutionTouch :=
  if s.price ≤ entry then some ⟨s.price, s.ts⟩
  else if s.IsBar ∧ s.low ≤ entry then some ⟨entry, s.ts⟩
  else none

/-- An order that waits for the price to rise to its entry. -/
def touchAbove (s : ExecutionSnapshot) (entry : ℚ) : Option PaperExecutionTouch :=
  if entry ≤ s.price then some ⟨s.price, s.ts⟩
  else if s.IsBar ∧ entry ≤ s.high then some ⟨entry, s.ts⟩
  else none

/-- Where the snapshot fills an order of the type, side and entry. -/
def touchAt (s : ExecutionSnapshot) (orderType : PaperOrderType) (side : PaperSide) (entry : ℚ) :
    Option PaperExecutionTouch :=
  match orderType, side with
  | .market, _ => if s.IsQuote then some ⟨s.price, s.ts⟩ else none
  | .limit, .long => touchBelow s entry
  | .stop, .long => touchAbove s entry
  | .limit, .short => touchAbove s entry
  | .stop, .short => touchBelow s entry

/-- `_paper_order_touch`. -/
def paperOrderTouch (o : PaperOrder) (snapshot : Option PriceSnapshot) :
    Option PaperExecutionTouch := do
  let s ← normalizeExecutionSnapshot snapshot
  let entry ← o.entry
  let side ← o.side
  touchAt s o.orderType side entry

/-! ### Levels at the fill -/

/-- What protective levels are computed from. -/
structure PaperProtectionRequest where
  entry : Option ℚ
  side : Option PaperSide
  stopPoints : Option ℚ
  targetPoints : Option ℚ
  useStopLoss : Option Bool
  useTarget : Option Bool
  stopLoss : Option ℚ
  target : Option ℚ

structure PaperLevels where
  stop : Option ℚ
  target : Option ℚ
  deriving DecidableEq

/-- The level at a positive distance from the entry, above it or below. -/
def levelAt (use : Bool) (points : Option ℚ) (entry sign : ℚ) : Option ℚ :=
  match points with
  | none => none
  | some points => if use ∧ 0 < points then some (entry + sign * points) else none

/-- A stop is below a long entry and above a short one; a target is on the other side. -/
def PaperSide.sign : PaperSide → ℚ
  | .long => 1
  | .short => -1

/-- `paper_manual_protective_levels`. -/
def paperManualProtectiveLevels (r : PaperProtectionRequest) : Option PaperLevels :=
  let useStop := r.useStopLoss.getD r.stopPoints.isSome
  let useTarget := r.useTarget.getD r.targetPoints.isSome
  if r.stopLoss.isSome ∨ r.target.isSome then none
  else match r.entry, r.side with
    | some entry, some side =>
      if useStop ∨ useTarget then
        some ⟨levelAt useStop r.stopPoints entry (-side.sign),
          levelAt useTarget r.targetPoints entry side.sign⟩
      else none
    | _, _ => none

/-- `order.get(flag) is True`. -/
def flagSet (flag : Option Bool) : Bool := decide (flag = some true)

/-- The distances of an enabled level are there and positive. -/
def DistanceMissing (use : Bool) (points : Option ℚ) : Prop := use ∧ ∀ p, points = some p → p ≤ 0

instance (use : Bool) (points : Option ℚ) : Decidable (DistanceMissing use points) :=
  match points with
  | none => decidable_of_iff (use = true) (by simp [DistanceMissing])
  | some p => decidable_of_iff (use = true ∧ p ≤ 0) (by simp [DistanceMissing])

/-- `_paper_order_at_fill`: the order with its levels at the fill, or a text against it. -/
def paperOrderAtFill (o : PaperOrder) (fillPrice : ℚ) : Except PaperError PaperOrder := do
  let payload ← o.protection
  if payload.protectionBasis = some .absoluteStructure then return o
  else
    let stopPoints := payload.protectionIntent.bind PaperProtectionIntent.stopPoints
    let targetPoints := payload.protectionIntent.bind PaperProtectionIntent.targetPoints
    let useStopLoss := flagSet o.useStopLoss
    let useTarget := flagSet o.useTarget
    if DistanceMissing useStopLoss stopPoints ∨ DistanceMissing useTarget targetPoints then
      .error ⟨"incomplete fill-distance protection intent"⟩
    else
      match paperManualProtectiveLevels
          ⟨some fillPrice, o.side, stopPoints, targetPoints, some useStopLoss, some useTarget,
            none, none⟩ with
      | none => .error ⟨"invalid fill-distance protection intent"⟩
      | some levels => return { o with
          stopLoss := if useStopLoss then levels.stop else none
          target := if useTarget then levels.target else none
          useStopLoss := some useStopLoss
          useTarget := some useTarget }

/-! ### The plan at the fill -/

/-- Why a plan is not executed, with the values its text shows. -/
inductive PlanRejection
  | flatDirection
  | incompleteTradePlan
  | stopThroughFill (stop fillPrice : ℚ)
  | targetThroughFill (target fillPrice : ℚ)
  | incoherentTradePlanAtFill
  | executionRrBelowMinimum (rr minimum : ℚ)
  | invalidTradePlanRisk
  | unrealisticStopDistanceAtFill (risk reward : ℚ)
  deriving DecidableEq

/-- `direction_from_any` of a side. -/
def PaperSide.direction : PaperSide → Direction
  | .long => .long
  | .short => .short

/-- `plan_stop_breached_at_price`. -/
def planStopBreachedAtPrice (direction : Direction) (stop price : Option ℚ) : Bool :=
  match stop, price with
  | some stop, some price =>
    match direction with
    | .short => decide (stop ≤ price)
    | .long => decide (price ≤ stop)
    | .flat => false
  | _, _ => false

/-- The mirror of it for a target. -/
def targetReachedAtPrice (direction : Direction) (target price : ℚ) : Bool :=
  match direction with
  | .long => decide (target ≤ price)
  | .short => decide (price ≤ target)
  | .flat => false

/-- `reward_risk`. -/
def rewardRisk (direction : Direction) (trigger stop target : ℚ) : Option ℚ :=
  if coherentTradePlan direction (some trigger) (some stop) (some target) then
    if |trigger - stop| ≤ 0 then none else some (|target - trigger| / |trigger - stop|)
  else none

/-- `_rr_below_minimum`: roundoff of a target that was derived from the ratio does not count. -/
def rrBelowMinimum (rr minimum : ℚ) : Bool :=
  decide (rr < minimum) &&
    decide (¬ |rr - minimum| ≤ 1 / 1000000000000 * max |rr| |minimum|)

/-- The ratio is there and below the minimum that is asked for. -/
def rrRejection (rr minRr : Option ℚ) : Option PlanRejection :=
  match rr, minRr with
  | some rr, some minimum =>
    if rrBelowMinimum rr (max minimum 0) then some (.executionRrBelowMinimum rr minimum) else none
  | _, _ => none

/-- The distances of a coherent plan are of a plausible size. -/
def riskRejection (entry stop target : ℚ) : Option PlanRejection :=
  let risk := |entry - stop|
  let reward := |target - entry|
  if risk ≤ 0 ∨ reward ≤ 0 then some .invalidTradePlanRisk
  else if risk > max (|entry| * (1 / 5)) (reward * 25) then
    some (.unrealisticStopDistanceAtFill risk reward)
  else none

/-- `execution_plan_rejection`. -/
def executionPlanRejection (direction : Direction) (fillPrice stop target minRr : Option ℚ) :
    Option PlanRejection :=
  match fillPrice, stop, target with
  | some entry, some stop, some target =>
    if planStopBreachedAtPrice direction (some stop) (some entry) then
      some (.stopThroughFill stop entry)
    else if coherentTradePlan direction (some entry) (some stop) (some target) then
      rrRejection (rewardRisk direction entry stop target) minRr <|>
        riskRejection entry stop target
    else some .incoherentTradePlanAtFill
  | _, _, _ => some .incompleteTradePlan

def paperAllowedMinRr : List ℚ := [3 / 4, 5 / 4, 3 / 2, 2]

/-- A validated execution configuration. -/
structure PaperConfig where
  minRr : ℚ
  edgeGate : Bool
  minRr_mem : minRr ∈ paperAllowedMinRr

/-- `paper_execution_plan_rejection`. A side that is no side is flat. -/
def paperExecutionPlanRejection (side : Option PaperSide) (fillPrice stop target : Option ℚ)
    (config : PaperConfig) : Option PlanRejection :=
  match side with
  | none => some .flatDirection
  | some side => executionPlanRejection side.direction fillPrice stop target (some config.minRr)

/-- A plan that has no target enabled is judged by its stop. -/
def stopRejection (side : PaperSide) (stop : Option ℚ) (fillPrice : ℚ) : Option PlanRejection :=
  match stop with
  | none => some .incompleteTradePlan
  | some stop =>
    if planStopBreachedAtPrice side.direction (some stop) (some fillPrice) then
      some (.stopThroughFill stop fillPrice)
    else none

/-- A plan that has no stop enabled is judged by its target. -/
def targetRejection (side : PaperSide) (target : Option ℚ) (fillPrice : ℚ) :
    Option PlanRejection :=
  match target with
  | none => some .incompleteTradePlan
  | some target =>
    if targetReachedAtPrice side.direction target fillPrice then
      some (.targetThroughFill target fillPrice)
    else none

/-- `_paper_fill_plan_rejection`. -/
def paperFillPlanRejection (o : PaperOrder) (fillPrice : ℚ) (config : PaperConfig) :
    Option PlanRejection :=
  let useStopLoss := flagSet o.useStopLoss
  let useTarget := flagSet o.useTarget
  if useStopLoss = false ∧ useTarget = false then none
  else match o.side with
    | none => some .flatDirection
    | some side =>
      match useStopLoss, useTarget with
      | true, false => stopRejection side o.stopLoss fillPrice
      | false, true => targetRejection side o.target fillPrice
      | _, _ =>
        -- an enabled level that is missing makes the plan incomplete
        paperExecutionPlanRejection (some side) (some fillPrice) o.stopLoss o.target config

/-! ### The transition -/

/-- The analysis bar a plan was made on: its text may be absent, or no time. -/
inductive AnalysisBar
  | absent
  | invalid (text : String)
  | known (ts : Time)
  deriving DecidableEq

/-- How the texts of an order are read: `utc_datetime`, finite numbers, `paper_config` of a stored
configuration, and the formats `:g` and `:.2f` of a rejection text. -/
structure PaperOrderReader where
  utcDatetime : String → Option Time
  number : String → Option ℚ
  config : String → Except PaperError PaperConfig
  general : ℚ → String
  fixed : ℚ → String

namespace PaperOrderReader

variable (read : PaperOrderReader)

def plannedEntry (p : PaperOrderPayload) : Option ℚ := (p.key "planned_entry").bind read.number

def analysisBar (p : PaperOrderPayload) : AnalysisBar :=
  match p.key "analysis_bar_ts" with
  | none => .absent
  | some text =>
    if strip text = "" then .absent
    else match read.utcDatetime text with
      | none => .invalid (strip text)
      | some ts => .known ts

/-- `_paper_execution_config`. -/
def executionConfig (o : PaperOrder) : Except PaperError PaperConfig :=
  match o.payload.bind PaperOrderPayload.executionConfig with
  | none => .error ⟨"PAPER_EXECUTION_CONFIG_REQUIRED"⟩
  | some stored => read.config stored

/-- `trade_plan_rejection_text`. -/
def rejectionText : PlanRejection → String
  | .stopThroughFill stop fillPrice =>
    "stop " ++ read.general stop ++ " through fill " ++ read.general fillPrice
  | .targetThroughFill target fillPrice =>
    "target " ++ read.general target ++ " through fill " ++ read.general fillPrice
  | .executionRrBelowMinimum rr minimum =>
    "RR " ++ read.fixed rr ++ " below min " ++ read.fixed minimum ++ " at fill"
  | .flatDirection => "flat direction"
  | .incompleteTradePlan => "incomplete trade plan"
  | .incoherentTradePlanAtFill => "trade plan incoherent at execution price"
  | .invalidTradePlanRisk => "invalid trade plan risk"
  | .unrealisticStopDistanceAtFill _ _ => "unrealistic stop distance at fill"

end PaperOrderReader

/-- `str(plan_payload.get("analysis_generation") or "").strip() or None`. -/
def PaperOrderPayload.analysisGeneration (p : PaperOrderPayload) : Option String :=
  ((p.key "analysis_generation").map strip).bind fun text => if text = "" then none else some text

/-- The facts an execution is reported with. -/
structure PaperExecutionMetadata where
  fillPrice : Option ℚ
  source : String
  ts : Option Time
  barSlot : Option ℚ
  plannedEntry : Option ℚ
  analysisBarTs : AnalysisBar
  analysisGeneration : Option String

inductive PaperExecutionOutcome
  | pending | filled | rejected | priceUnavailable
  deriving DecidableEq, Repr

/-- What a snapshot makes of an order. -/
structure PaperOrderTransition where
  outcome : PaperExecutionOutcome
  order : PaperOrder
  code : String
  message : String
  execution : PaperExecutionMetadata

/-- The order is left as it is. -/
def PaperOrderTransition.kept (o : PaperOrder) (execution : PaperExecutionMetadata)
    (outcome : PaperExecutionOutcome) (code message : String) : PaperOrderTransition :=
  ⟨outcome, o, code, message, execution⟩

/-- An order that nothing touched: a market order has no price, any other waits. -/
def PaperOrderTransition.untouched (o : PaperOrder) (execution : PaperExecutionMetadata)
    (message : String) : PaperOrderTransition :=
  if o.orderType = .market then
    .kept o execution .priceUnavailable "PAPER_EXECUTION_PRICE_UNAVAILABLE" message
  else .kept o execution .pending "" ""

/-- Why a snapshot of time `ts` may not execute a plan that was made on `bar`. -/
def analysisRejection (bar : AnalysisBar) (ts : Option Time) :
    Option (PaperExecutionOutcome × String × String) :=
  match bar, ts with
  | .absent, _ => none
  | .invalid _, _ =>
    some (.rejected, "PAPER_EXECUTION_PLAN_GENERATION_INVALID", "analysis bar timestamp is invalid")
  | .known _, none =>
    some (.priceUnavailable, "PAPER_EXECUTION_SNAPSHOT_TIMESTAMP_UNAVAILABLE",
      "execution snapshot timestamp is not available")
  | .known barTs, some ts =>
    if ts < barTs then
      some (.rejected, "PAPER_EXECUTION_SNAPSHOT_STALE",
        "execution snapshot predates the analysis bar")
    else none

/-- The time of the touch is checked again. -/
def authorityStale (bar : AnalysisBar) (ts : Option Time) : Bool :=
  match bar, ts with
  | .absent, _ => false
  | .known barTs, some ts => decide (ts < barTs)
  | _, _ => true

/-- `mark_order_filled`. -/
def markOrderFilled (o : PaperOrder) (filledAt : Time) (fillPrice : ℚ) : PaperOrder :=
  { o with
    status := some .filled
    filledAt := some filledAt
    fillPrice := some fillPrice
    updatedAt := some filledAt }

section Transition

variable (read : PaperOrderReader) (o : PaperOrder) (filledAt : Option Time) (now : Time)

/-- The facts before anything was touched. -/
def executionMetadata (snap : Option ExecutionSnapshot) : PaperExecutionMetadata where
  fillPrice := none
  source := (snap.map ExecutionSnapshot.source).getD ""
  ts := snap.bind ExecutionSnapshot.ts
  barSlot := snap.bind ExecutionSnapshot.barSlot
  plannedEntry := read.plannedEntry (o.payload.getD .empty)
  analysisBarTs := read.analysisBar (o.payload.getD .empty)
  analysisGeneration := (o.payload.getD .empty).analysisGeneration

/-- From the touch on. -/
def touchedTransition (snap : ExecutionSnapshot) (touch : PaperExecutionTouch) :
    Except PaperError PaperOrderTransition :=
  let execution : PaperExecutionMetadata :=
    { executionMetadata read o (some snap) with
      fillPrice := some touch.fillPrice
      ts := touch.authorityTs <|> snap.ts }
  if authorityStale execution.analysisBarTs touch.authorityTs then
    .ok (.kept o execution .rejected "PAPER_EXECUTION_SNAPSHOT_STALE"
      "execution authority predates the analysis bar")
  else
    match paperOrderAtFill o touch.fillPrice with
    | .error e => .ok (.kept o execution .rejected "PAPER_EXECUTION_PLAN_REJECTED" e.code)
    | .ok ready => do
      let config ← read.executionConfig o
      match paperFillPlanRejection ready touch.fillPrice config with
      | some rejection =>
        return .kept o execution .rejected "PAPER_EXECUTION_PLAN_REJECTED"
          (read.rejectionText rejection)
      | none =>
        -- a stored order has its create command; the source adds the execution facts to the order
        return ⟨.filled,
          markOrderFilled ready ((filledAt <|> snap.ts).getD now) touch.fillPrice, "", "", execution⟩

/-- `paper_order_execution_transition`. -/
def paperOrderExecutionTransition (snapshot : Option PriceSnapshot) :
    Except PaperError PaperOrderTransition :=
  match normalizeExecutionSnapshot snapshot with
  | none =>
    .ok (.untouched o (executionMetadata read o none) "screen execution price is not available")
  | some snap =>
    let execution := executionMetadata read o (some snap)
    match analysisRejection execution.analysisBarTs snap.ts with
    | some (outcome, code, message) => .ok (.kept o execution outcome code message)
    | none =>
      match paperOrderTouch o (some snap.toPrice) with
      | none => .ok (.untouched o execution "current paper reference price is not available")
      | some touch => touchedTransition read o filledAt now snap touch

end Transition

/-! ### What a touch establishes -/

namespace ExecutionSnapshot

/-- The lowest price that the snapshot speaks for. -/
def reachLow (s : ExecutionSnapshot) : ℚ := if s.IsBar then s.low else s.price

def reachHigh (s : ExecutionSnapshot) : ℚ := if s.IsBar then s.high else s.price

/-- The price shown is in the range shown. -/
structure InRange (s : ExecutionSnapshot) : Prop where
  low_le : s.low ≤ s.price
  le_high : s.price ≤ s.high

/-- The snapshot reaches the price of the order from the side the order waits on. A market order
takes the price of any quote, and of nothing else. -/
def Touches (s : ExecutionSnapshot) (orderType : PaperOrderType) (side : PaperSide) (entry : ℚ) :
    Prop :=
  match orderType, side with
  | .market, _ => s.IsQuote
  | .limit, .long | .stop, .short => s.reachLow ≤ entry
  | .limit, .short | .stop, .long => entry ≤ s.reachHigh

theorem InRange.reachLow_le {s : ExecutionSnapshot} (h : s.InRange) : s.reachLow ≤ s.price := by
  unfold reachLow
  split
  · exact h.low_le
  · exact le_refl _

theorem InRange.le_reachHigh {s : ExecutionSnapshot} (h : s.InRange) : s.price ≤ s.reachHigh := by
  unfold reachHigh
  split
  · exact h.le_high
  · exact le_refl _

end ExecutionSnapshot

/-- A fill on the order's own side of its price. A market order has no price to keep. -/
def FillsInDirection (orderType : PaperOrderType) (side : PaperSide) (entry fillPrice : ℚ) : Prop :=
  match orderType, side with
  | .market, _ => True
  | .limit, .long | .stop, .short => fillPrice ≤ entry
  | .limit, .short | .stop, .long => entry ≤ fillPrice

/-- A fill at a price and a time of the snapshot. -/
structure PaperExecutionTouch.Shown (touch : PaperExecutionTouch) (s : ExecutionSnapshot) :
    Prop where
  low_le : s.reachLow ≤ touch.fillPrice
  le_high : touch.fillPrice ≤ s.reachHigh
  authorityTs : touch.authorityTs = s.ts

section Touch

variable {s : ExecutionSnapshot} {entry : ℚ} {touch : PaperExecutionTouch}

theorem touchBelow_isSome_iff (h : s.InRange) :
    (touchBelow s entry).isSome ↔ s.reachLow ≤ entry := by
  unfold touchBelow
  constructor
  · intro htouch
    split at htouch
    case isTrue hle => exact h.reachLow_le.trans hle
    case isFalse =>
      split at htouch
      case isTrue hbar =>
        rw [ExecutionSnapshot.reachLow, if_pos hbar.1]
        exact hbar.2
      case isFalse => exact absurd htouch (by simp)
  · intro hle
    split
    case isTrue => rfl
    case isFalse hprice =>
      -- what lies below the price shown was reached by a bar
      have hbar : s.IsBar := by
        by_contra hbar
        rw [ExecutionSnapshot.reachLow, if_neg hbar] at hle
        exact hprice hle
      rw [ExecutionSnapshot.reachLow, if_pos hbar] at hle
      rw [if_pos ⟨hbar, hle⟩]
      rfl

theorem touchAbove_isSome_iff (h : s.InRange) :
    (touchAbove s entry).isSome ↔ entry ≤ s.reachHigh := by
  unfold touchAbove
  constructor
  · intro htouch
    split at htouch
    case isTrue hle => exact hle.trans h.le_reachHigh
    case isFalse =>
      split at htouch
      case isTrue hbar =>
        rw [ExecutionSnapshot.reachHigh, if_pos hbar.1]
        exact hbar.2
      case isFalse => exact absurd htouch (by simp)
  · intro hle
    split
    case isTrue => rfl
    case isFalse hprice =>
      have hbar : s.IsBar := by
        by_contra hbar
        rw [ExecutionSnapshot.reachHigh, if_neg hbar] at hle
        exact hprice hle
      rw [ExecutionSnapshot.reachHigh, if_pos hbar] at hle
      rw [if_pos ⟨hbar, hle⟩]
      rfl

/-- The price shown is a price shown. -/
theorem shown_price (h : s.InRange) : PaperExecutionTouch.Shown ⟨s.price, s.ts⟩ s :=
  ⟨h.reachLow_le, h.le_reachHigh, rfl⟩

theorem touchBelow_shown (h : s.InRange) (htouch : touchBelow s entry = some touch) :
    touch.Shown s ∧ touch.fillPrice ≤ entry := by
  unfold touchBelow at htouch
  split at htouch
  case isTrue hle =>
    cases htouch
    exact ⟨shown_price h, hle⟩
  case isFalse hprice =>
    split at htouch
    case isTrue hbar =>
      cases htouch
      refine ⟨⟨?_, ?_, rfl⟩, le_refl _⟩
      · rw [ExecutionSnapshot.reachLow, if_pos hbar.1]
        exact hbar.2
      · exact (not_le.mp hprice).le.trans h.le_reachHigh
    case isFalse => exact absurd htouch (by simp)

theorem touchAbove_shown (h : s.InRange) (htouch : touchAbove s entry = some touch) :
    touch.Shown s ∧ entry ≤ touch.fillPrice := by
  unfold touchAbove at htouch
  split at htouch
  case isTrue hle =>
    cases htouch
    exact ⟨shown_price h, hle⟩
  case isFalse hprice =>
    split at htouch
    case isTrue hbar =>
      cases htouch
      refine ⟨⟨?_, ?_, rfl⟩, le_refl _⟩
      · exact h.reachLow_le.trans (not_le.mp hprice).le
      · rw [ExecutionSnapshot.reachHigh, if_pos hbar.1]
        exact hbar.2
    case isFalse => exact absurd htouch (by simp)

end Touch

/-- **An order is touched** exactly by a snapshot that reaches its price. -/
theorem touchAt_isSome_iff (h : s.InRange) (orderType : PaperOrderType)
    (side : PaperSide) (entry : ℚ) :
    (touchAt s orderType side entry).isSome ↔ s.Touches orderType side entry := by
  cases orderType <;> cases side
  case limit.long | stop.short => exact touchBelow_isSome_iff h
  case stop.long | limit.short => exact touchAbove_isSome_iff h
  case market.long | market.short => simp [touchAt, ExecutionSnapshot.Touches]

variable {side : PaperSide}

/-- A touch is at a price shown, on the order's side of its entry. -/
theorem touchAt_shown (h : s.InRange) {orderType : PaperOrderType}
    {entry : ℚ} {touch : PaperExecutionTouch}
    (htouch : touchAt s orderType side entry = some touch) :
    touch.Shown s ∧ FillsInDirection orderType side entry touch.fillPrice := by
  cases orderType <;> cases side
  case limit.long | stop.short => exact touchBelow_shown h htouch
  case stop.long | limit.short => exact touchAbove_shown h htouch
  case market.long | market.short =>
    simp only [touchAt, Option.ite_none_right_eq_some, Option.some.injEq] at htouch
    obtain ⟨-, rfl⟩ := htouch
    exact ⟨shown_price h, trivial⟩

theorem paperOrderTouch_eq_some {o : PaperOrder} {snapshot : Option PriceSnapshot}
    {touch : PaperExecutionTouch} :
    paperOrderTouch o snapshot = some touch ↔
      ∃ s entry side, normalizeExecutionSnapshot snapshot = some s ∧ o.entry = some entry ∧
        o.side = some side ∧ touchAt s o.orderType side entry = some touch := by
  simp only [paperOrderTouch, Option.bind_eq_bind, Option.bind_eq_some_iff]
  constructor
  · rintro ⟨s, hs, entry, hentry, side, hside, htouch⟩
    exact ⟨s, entry, side, hs, hentry, hside, htouch⟩
  · rintro ⟨s, entry, side, hs, hentry, hside, htouch⟩
    exact ⟨s, hs, entry, hentry, side, hside, htouch⟩

/-! ### What an accepted plan establishes -/

/-- The stop is on the losing side of the fill. -/
def PaperSide.StopBehind (side : PaperSide) (stop fillPrice : ℚ) : Prop :=
  match side with
  | .long => stop < fillPrice
  | .short => fillPrice < stop

/-- The target is on the winning side of the fill. -/
def PaperSide.TargetAhead (side : PaperSide) (target fillPrice : ℚ) : Prop :=
  match side with
  | .long => fillPrice < target
  | .short => target < fillPrice

/-- Every enabled level is there and strictly on its side of the fill. -/
structure PaperOrder.Bracketed (o : PaperOrder) (side : PaperSide) (fillPrice : ℚ) : Prop where
  stop : o.useStopLoss = some true → ∃ stop, o.stopLoss = some stop ∧
    side.StopBehind stop fillPrice
  target : o.useTarget = some true → ∃ target, o.target = some target ∧
    side.TargetAhead target fillPrice

variable {stop target fillPrice : ℚ}

theorem planStopBreachedAtPrice_eq_false {price : ℚ} :
    planStopBreachedAtPrice side.direction (some stop) (some price) = false ↔ side.StopBehind stop price := by
  cases side <;> simp [planStopBreachedAtPrice, PaperSide.direction, PaperSide.StopBehind]

theorem targetReachedAtPrice_eq_false {price : ℚ} :
    targetReachedAtPrice side.direction target price = false ↔ side.TargetAhead target price := by
  cases side <;> simp [targetReachedAtPrice, PaperSide.direction, PaperSide.TargetAhead]

theorem coherentTradePlan_iff {trigger : ℚ} :
    coherentTradePlan side.direction (some trigger) (some stop) (some target) ↔
      side.StopBehind stop trigger ∧ side.TargetAhead target trigger := by
  cases side
  · simp [coherentTradePlan, PaperSide.direction, PaperSide.StopBehind, PaperSide.TargetAhead]
  · simp [coherentTradePlan, PaperSide.direction, PaperSide.StopBehind, PaperSide.TargetAhead,
      and_comm]

/-- A plan with both levels is executed only when they bracket the fill. -/
theorem executionPlanRejection_eq_none {entry : ℚ} {minRr : Option ℚ}
    (h : executionPlanRejection side.direction (some entry) (some stop) (some target) minRr =
      none) :
    side.StopBehind stop entry ∧ side.TargetAhead target entry := by
  simp only [executionPlanRejection] at h
  split at h
  case isTrue => exact absurd h (by simp)
  case isFalse =>
    split at h
    case isTrue hcoherent => exact coherentTradePlan_iff.mp hcoherent
    case isFalse => exact absurd h (by simp)

theorem flagSet_eq_true {flag : Option Bool} : flagSet flag = true ↔ flag = some true := by
  simp [flagSet]

theorem stopRejection_eq_none {stop : Option ℚ} :
    stopRejection side stop fillPrice = none ↔
      ∃ level, stop = some level ∧ side.StopBehind level fillPrice := by
  cases stop with
  | none => simp [stopRejection]
  | some level => simp [stopRejection, ← planStopBreachedAtPrice_eq_false]

theorem targetRejection_eq_none {target : Option ℚ} :
    targetRejection side target fillPrice = none ↔
      ∃ level, target = some level ∧ side.TargetAhead level fillPrice := by
  cases target with
  | none => simp [targetRejection]
  | some level => simp [targetRejection, ← targetReachedAtPrice_eq_false]

/-- **An accepted plan** brackets the fill with the levels it has enabled. -/
theorem paperFillPlanRejection_eq_none {o : PaperOrder}
    {config : PaperConfig} (hside : o.side = some side)
    (h : paperFillPlanRejection o fillPrice config = none) : o.Bracketed side fillPrice := by
  simp only [paperFillPlanRejection, hside] at h
  cases hstop : flagSet o.useStopLoss <;> cases htarget : flagSet o.useTarget <;>
    simp only [hstop, htarget] at h
  case false.false =>
    exact ⟨fun hs => absurd (flagSet_eq_true.mpr hs) (by simp [hstop]),
      fun ht => absurd (flagSet_eq_true.mpr ht) (by simp [htarget])⟩
  case false.true =>
    exact ⟨fun hs => absurd (flagSet_eq_true.mpr hs) (by simp [hstop]),
      fun _ => targetRejection_eq_none.mp (by simpa using h)⟩
  case true.false =>
    exact ⟨fun _ => stopRejection_eq_none.mp (by simpa using h),
      fun ht => absurd (flagSet_eq_true.mpr ht) (by simp [htarget])⟩
  case true.true =>
    have hplan : executionPlanRejection side.direction (some fillPrice) o.stopLoss o.target
        (some config.minRr) = none := by simpa [paperExecutionPlanRejection] using h
    cases hs : o.stopLoss with
    | none =>
      rw [hs] at hplan
      exact absurd hplan (by simp [executionPlanRejection])
    | some stop =>
      cases ht : o.target with
      | none =>
        rw [hs, ht] at hplan
        exact absurd hplan (by simp [executionPlanRejection])
      | some target =>
        rw [hs, ht] at hplan
        obtain ⟨hbehind, hahead⟩ := executionPlanRejection_eq_none hplan
        exact ⟨fun _ => ⟨stop, hs, hbehind⟩, fun _ => ⟨target, ht, hahead⟩⟩

/-! ### What a fill establishes -/

/-- How a transition came to fill its order. -/
structure PaperOrderTransition.FilledBy (x : PaperOrderTransition) (read : PaperOrderReader)
    (o : PaperOrder) (filledAt : Time) (s : ExecutionSnapshot) (touch : PaperExecutionTouch)
    (ready : PaperOrder) (config : PaperConfig) : Prop where
  fresh : analysisRejection (read.analysisBar (o.payload.getD .empty)) s.ts = none
  touch_eq : paperOrderTouch o (some s.toPrice) = some touch
  atFill : paperOrderAtFill o touch.fillPrice = .ok ready
  config_eq : read.executionConfig o = .ok config
  accepted : paperFillPlanRejection ready touch.fillPrice config = none
  order_eq : x.order = markOrderFilled ready filledAt touch.fillPrice

section Filled

variable {read : PaperOrderReader} {o : PaperOrder} {filledAt : Option Time} {now : Time}
  {snapshot : Option PriceSnapshot} {x : PaperOrderTransition}

theorem PaperOrderTransition.untouched_outcome {execution : PaperExecutionMetadata}
    {message : String} : (untouched o execution message).outcome ≠ .filled := by
  unfold untouched
  split <;> simp [kept]

theorem analysisRejection_outcome {bar : AnalysisBar} {ts : Option Time}
    {outcome : PaperExecutionOutcome} {code message : String}
    (h : analysisRejection bar ts = some (outcome, code, message)) : outcome ≠ .filled := by
  cases bar <;> cases ts <;> simp only [analysisRejection] at h
  case known.some =>
    split at h
    case isTrue =>
      obtain ⟨rfl, -⟩ := Option.some.inj h
      decide
    case isFalse => exact absurd h (by simp)
  case absent.none | absent.some => exact absurd h (by simp)
  case invalid.none | invalid.some | known.none =>
    obtain ⟨rfl, -⟩ := Option.some.inj h
    decide

theorem touchedTransition_filled {s : ExecutionSnapshot} {touch : PaperExecutionTouch}
    (h : touchedTransition read o filledAt now s touch = .ok x) (hfilled : x.outcome = .filled) :
    ∃ ready config, paperOrderAtFill o touch.fillPrice = .ok ready ∧
      read.executionConfig o = .ok config ∧
      paperFillPlanRejection ready touch.fillPrice config = none ∧
      x.order = markOrderFilled ready ((filledAt <|> s.ts).getD now) touch.fillPrice := by
  unfold touchedTransition at h
  simp only at h
  split at h
  case isTrue =>
    cases h
    exact absurd hfilled (by simp [PaperOrderTransition.kept])
  case isFalse =>
    cases hatFill : paperOrderAtFill o touch.fillPrice with
    | error e =>
      rw [hatFill] at h
      cases h
      exact absurd hfilled (by simp [PaperOrderTransition.kept])
    | ok ready =>
      rw [hatFill] at h
      obtain ⟨config, hconfig, hplan⟩ := bind_eq_ok.mp h
      cases hrejection : paperFillPlanRejection ready touch.fillPrice config with
      | some rejection =>
        rw [hrejection] at hplan
        cases hplan
        exact absurd hfilled (by simp [PaperOrderTransition.kept])
      | none =>
        rw [hrejection] at hplan
        cases hplan
        exact ⟨ready, config, rfl, hconfig, hrejection, rfl⟩

/-- **A transition that fills** passed every check on the way. -/
theorem paperOrderExecutionTransition_filled
    (h : paperOrderExecutionTransition read o filledAt now snapshot = .ok x)
    (hfilled : x.outcome = .filled) :
    ∃ s touch ready config, normalizeExecutionSnapshot snapshot = some s ∧
      x.FilledBy read o ((filledAt <|> s.ts).getD now) s touch ready config := by
  unfold paperOrderExecutionTransition at h
  cases hs : normalizeExecutionSnapshot snapshot with
  | none =>
    rw [hs] at h
    cases h
    exact absurd hfilled PaperOrderTransition.untouched_outcome
  | some s =>
    rw [hs] at h
    simp only at h
    split at h
    case h_1 outcome code message hrejection =>
      cases h
      exact absurd hfilled (analysisRejection_outcome hrejection)
    case h_2 hfresh =>
      cases htouch : paperOrderTouch o (some s.toPrice) with
      | none =>
        rw [htouch] at h
        cases h
        exact absurd hfilled PaperOrderTransition.untouched_outcome
      | some touch =>
        rw [htouch] at h
        obtain ⟨ready, config, hatFill, hconfig, haccepted, horder⟩ :=
          touchedTransition_filled h hfilled
        exact ⟨s, touch, ready, config, rfl, hfresh, htouch, hatFill, hconfig, haccepted, horder⟩

/-- The snapshot of a plan is not older than the bar the plan was made on. -/
def AnalysisBar.NotAfter (bar : AnalysisBar) (ts : Option Time) : Prop :=
  match bar with
  | .absent => True
  | .invalid _ => False
  | .known barTs => ∃ t, ts = some t ∧ barTs ≤ t

theorem analysisRejection_eq_none {bar : AnalysisBar} {ts : Option Time} :
    analysisRejection bar ts = none ↔ bar.NotAfter ts := by
  cases bar <;> cases ts <;> simp [analysisRejection, AnalysisBar.NotAfter]

/-- Only the levels and their flags are moved to the fill. -/
theorem paperOrderAtFill_side {ready : PaperOrder} {fillPrice : ℚ}
    (h : paperOrderAtFill o fillPrice = .ok ready) : ready.side = o.side := by
  obtain ⟨payload, -, hrest⟩ := bind_eq_ok.mp h
  split at hrest
  case isTrue =>
    cases hrest
    rfl
  case isFalse =>
    simp only at hrest
    split at hrest
    case isTrue => exact nomatch hrest
    case isFalse =>
      split at hrest
      case h_1 => exact nomatch hrest
      case h_2 =>
        cases hrest
        rfl

/-- What holds of an order that a transition filled. -/
structure SoundFill (read : PaperOrderReader) (o : PaperOrder) (s : ExecutionSnapshot)
    (filled : PaperOrder) (side : PaperSide) (entry fillPrice : ℚ) : Prop where
  side_eq : o.side = some side
  entry_eq : o.entry = some entry
  fillPrice_eq : filled.fillPrice = some fillPrice
  touches : s.Touches o.orderType side entry
  direction : FillsInDirection o.orderType side entry fillPrice
  inBar : s.IsBar → s.low ≤ fillPrice ∧ fillPrice ≤ s.high
  fresh : (read.analysisBar (o.payload.getD .empty)).NotAfter s.ts
  bracketed : filled.Bracketed side fillPrice

/-- **Execution transition soundness.** Of any order and any snapshot that shows a price in its
range, the order is filled only if the snapshot touches it: at a price on its own side of the
entry, inside the bar if the snapshot is one, not before the bar of its plan, and with every
enabled level strictly on its side of the fill. -/
theorem execution_transition_sound
    (hrange : ∀ s, normalizeExecutionSnapshot snapshot = some s → s.InRange)
    (h : paperOrderExecutionTransition read o filledAt now snapshot = .ok x)
    (hfilled : x.outcome = .filled) :
    ∃ s side entry fillPrice, normalizeExecutionSnapshot snapshot = some s ∧
      SoundFill read o s x.order side entry fillPrice := by
  obtain ⟨s, touch, ready, config, hs, hx⟩ := paperOrderExecutionTransition_filled h hfilled
  have hin : s.InRange := hrange s hs
  obtain ⟨s', entry, side, hs', hentry, hside, htouch⟩ := paperOrderTouch_eq_some.mp hx.touch_eq
  cases ((normalizeExecutionSnapshot_toPrice hs).symm.trans hs')
  obtain ⟨hshown, hdirection⟩ := touchAt_shown hin htouch
  have htouches : (touchAt s o.orderType side entry).isSome := by rw [htouch]; rfl
  have hready : ready.side = some side := (paperOrderAtFill_side hx.atFill).trans hside
  have hbrackets := paperFillPlanRejection_eq_none hready hx.accepted
  refine ⟨s, side, entry, touch.fillPrice, hs, hside, hentry, ?_,
    (touchAt_isSome_iff hin _ _ _).mp htouches, hdirection, fun hbar => ⟨?_, ?_⟩,
    analysisRejection_eq_none.mp hx.fresh, ?_⟩
  · rw [hx.order_eq]
    rfl
  · have hlow := hshown.low_le
    rwa [ExecutionSnapshot.reachLow, if_pos hbar] at hlow
  · have hhigh := hshown.le_high
    rwa [ExecutionSnapshot.reachHigh, if_pos hbar] at hhigh
  · rw [hx.order_eq]
    exact ⟨hbrackets.stop, hbrackets.target⟩

end Filled

/-- A reader of the few texts of the orders below. -/
def plainReader : PaperOrderReader where
  utcDatetime text := if text = "2024-01-02T15:30:00+00:00" then some 1704209400 else none
  number _ := none
  config text :=
    if text = "min_rr 1.25" then .ok ⟨5 / 4, false, by simp [paperAllowedMinRr]⟩
    else .error ⟨"PAPER_CONFIG_FIELDS_INVALID"⟩
  general q := toString q
  fixed q := toString q

/-- A limit buy at 100 with its levels at 90 and 120, planned on a bar. -/
def plannedEntry : PaperOrder :=
  { entryOrder "e" .long 2 100 with
    orderType := .limit
    stopLoss := some 90
    target := some 120
    useStopLoss := some true
    useTarget := some true
    payload := some ⟨false, some .absoluteStructure, none, some "min_rr 1.25", none,
      [("analysis_bar_ts", "2024-01-02T15:30:00+00:00")]⟩ }

/-- A bar that closed at 105 and came down to 99. -/
def barAt105 : PriceSnapshot :=
  ⟨some 105, some 99, some 106, some "bar", some 1704209460, some "chart", some 0⟩

/-- The bar fills the order at its entry. -/
theorem execution_transition_sound_bar :
    ∃ x, paperOrderExecutionTransition plainReader plannedEntry none 0 (some barAt105) = .ok x ∧
      x.order.fillPrice = some 100 ∧
      ∃ s side entry fillPrice, normalizeExecutionSnapshot (some barAt105) = some s ∧
        SoundFill plainReader plannedEntry s x.order side entry fillPrice := by
  have hfill : ((paperOrderExecutionTransition plainReader plannedEntry none 0
      (some barAt105)).toOption.map fun x => (x.outcome, x.order.fillPrice)) =
      some (.filled, some 100) := by decide +kernel
  cases hx : paperOrderExecutionTransition plainReader plannedEntry none 0 (some barAt105) with
  | error e =>
    rw [hx] at hfill
    exact absurd hfill (by simp [Except.toOption])
  | ok x =>
    rw [hx] at hfill
    obtain ⟨hfilled, hprice⟩ := Prod.mk.inj (Option.some.inj hfill)
    have hrange : ∀ s, normalizeExecutionSnapshot (some barAt105) = some s → s.InRange := by
      intro s hs
      cases hs
      exact ⟨by decide +kernel, by decide +kernel⟩
    exact ⟨x, rfl, hprice, execution_transition_sound hrange hx hfilled⟩

end AefTerminal
