import AefTerminal.Alerts.Delivery
import AefTerminal.Foundation.Text

/-!
# The alert monitor

What the monitor computes from the snapshot of an active alert and the market: whether a price
crossed its level, where a dynamic alert stands, which fuel event a volume alert reports, and the
patch it stores in each case. Every patch goes through the compare-and-set of the generation the
snapshot was read in.

The indicators are not modelled: a dynamic alert reads the projection of its moving average, a
volume alert the confirmed events of its context.

## Main definitions

* `alertCrossHit`, `alertFreezeActive`, `alertMonitorPayload`
* `crossDecision`, `crossFiredPatch`
* `emaTouchGuideState`, `publishDynamicAlertState`
* `serverVsaFuelAlertState`, `publishVsaAlertState`
-/

namespace AefTerminal

open Foundation

/-! ### Rules -/

def alertCrossHit (previous current level : ℚ) (direction : PriceAlertDirection) : Bool :=
  let crossedUp : Bool := previous < level ∧ level ≤ current
  let crossedDown : Bool := level < previous ∧ current ≤ level
  match direction with
  | .above => crossedUp
  | .below => crossedDown
  | .cross => crossedUp || crossedDown

/-- The number the digits `cs` name. -/
def decimal (cs : List Char) : Option ℕ :=
  if cs.all Char.isDigit then some (cs.foldl (fun n c => 10 * n + (c.toNat - '0'.toNat)) 0) else none

/-- `interval_minutes`, for the digits an interval is written with: a text that names no minutes
counts as five. -/
def intervalMinutes (interval : String) : ℕ :=
  match (strip (lower interval)).toList.reverse with
  | 'm' :: [] => 1
  | 'm' :: digits => (decimal digits.reverse).elim 5 (max · 1)
  | _ => 5

def serverAlertFreezeMs (timeframe : String) : ℕ :=
  let barMs := max (intervalMinutes timeframe) 1 * 60000
  max (15 * 60000) (3 * barMs)

def alertHysteresisWidth (level current : ℚ) : ℚ :=
  max (1 / 100) (max (max |level| |current|) 1 * (2 / 100000)) * (12 / 10)

def alertFreezeActive (a : PriceAlert) (currentPrice level : ℚ) (now : ℕ) : Bool :=
  if a.cooldownUntil ≤ now then false
  else
    let firedLevel := a.lastFiredLevel.getD level
    |currentPrice - firedLevel| ≤ alertHysteresisWidth firedLevel currentPrice

/-- `alert_monitor_payload`, with the wall clock `ts` of the message. -/
def alertMonitorPayload (a : PriceAlert) (currentPrice : ℚ) (triggerEventAt : ℕ) (ts : Time) :
    TelegramPayload :=
  let gexLabel := strip (a.levelSource.snapshot.elim "" fun facts =>
    if facts.label = "" then facts.levelKind else facts.label)
  { alertId := a.id
    instrumentId := a.instrumentId
    routeFingerprint := a.routeFingerprint
    symbol := a.symbol
    timeframe := a.timeframe
    kind :=
      match a.kind with
      | .ema233Touch => "EMA 233 touch"
      | .vsaFuel => "VSA fuel candle"
      | .price =>
        if a.levelSource.type = .gexSnapshot ∧ gexLabel ≠ "" then "GEX " ++ gexLabel
        else "Price alert"
    label := a.label
    levelSource := a.levelSource
    direction := a.direction
    price := a.price
    currentPrice := currentPrice
    source := "MartinCall backend"
    ts := ts
    triggerEventAt := triggerEventAt
    message := "fired" }

/-! ### Storing what was evaluated -/

def evaluationGuard (snapshot : PriceAlert) : PayloadGuard where
  expectedRearmedAt := some snapshot.rearmedAt
  requireActive := true

/-- `_persist_alert_evaluation_state`: nothing is stored where the snapshot has it already. -/
def persistAlertEvaluationState (t : PriceAlertTable) (snapshot : PriceAlert)
    (statePatch : PriceAlert → PriceAlert) : Except AlertError AlertCommit :=
  if statePatch snapshot = snapshot then pure (.unchanged t none)
  else updatePriceAlertPayloadExact t snapshot.id snapshot.instrumentId snapshot.routeFingerprint
    (evaluationGuard snapshot) statePatch

/-! ### Fixed prices -/

/-- The last observation a crossing is formed with. -/
structure AlertCrossingBaseline where
  timeframe : String
  rearmedAt : ℕ
  price : ℚ
  deriving DecidableEq

/-- What an observation does: it becomes the baseline, is ignored, or hits the level. -/
inductive CrossDecision
  | observed (baseline : AlertCrossingBaseline)
  | frozen
  | hit
  deriving DecidableEq

/-- `_process_cross_alert` before it stores anything, under the baseline of the alert's key. -/
def crossDecision (baseline : Option AlertCrossingBaseline) (a : PriceAlert) (current : ℚ)
    (now : ℕ) : CrossDecision :=
  let fresh : AlertCrossingBaseline := ⟨a.timeframe, a.rearmedAt, current⟩
  match baseline with
  | none => .observed fresh
  | some b =>
    if b.timeframe ≠ a.timeframe ∨ b.rearmedAt ≠ a.rearmedAt then .observed fresh
    else if alertFreezeActive a current a.price now then .frozen
    else if alertCrossHit b.price current a.price a.direction then .hit
    else .observed fresh

def crossFiredPatch (snapshot : PriceAlert) (current : ℚ) (now : ℕ) (a : PriceAlert) : PriceAlert :=
  { a with
    armed := false
    fired := true
    cooldownUntil := now + serverAlertFreezeMs snapshot.timeframe
    lastFiredAt := some now
    lastFiredLevel := some snapshot.price
    lastSeenPrice := some current }

/-! ### Dynamic levels -/

/-- What the moving average and its range say, from the indicator code. -/
structure EmaTouchGuideProjection where
  level : ℚ
  atr : ℚ
  latestLow : ℚ
  latestHigh : ℚ
  emaLength : ℕ
  atrLength : ℕ
  deriving DecidableEq

structure EmaTouchGuideState where
  level : ℚ
  tolerance : ℚ
  touching : Bool
  emaLength : ℕ
  atrLength : ℕ
  deriving DecidableEq

/-- `ema_touch_guide_state_from_projection` -/
def emaTouchGuideState (p : EmaTouchGuideProjection) (currentPrice toleranceAtr tolerancePoints : ℚ) :
    EmaTouchGuideState :=
  let tolerance := max (max tolerancePoints (p.atr * toleranceAtr))
    (max (|currentPrice| * (15 / 1000000)) (1 / 100))
  let low := min p.latestLow currentPrice
  let high := max p.latestHigh currentPrice
  { level := p.level
    tolerance := tolerance
    touching := low ≤ p.level + tolerance ∧ p.level - tolerance ≤ high
    emaLength := p.emaLength
    atrLength := p.atrLength }

def serverEmaTouchDirection (a : PriceAlert) (s : EmaTouchGuideState) (currentPrice : ℚ) :
    TouchDirection :=
  if !s.touching ∧ s.level + s.tolerance < currentPrice then .fromAbove
  else if !s.touching ∧ currentPrice < s.level - s.tolerance then .fromBelow
  else
    match a.touchDirection with
    | some previous => previous
    | none =>
      if s.level < currentPrice then .fromAbove
      else if currentPrice < s.level then .fromBelow
      else .touch

def emaTouchRearmMs (a : PriceAlert) : Except AlertError ℕ := do
  require (a.rearmMinutes ∈ [15, 30, 60]) ⟨"PRICE_ALERT_REARM_MINUTES_INVALID"⟩
  pure (a.rearmMinutes * 60000)

/-- `persistent_state` -/
def dynamicStatePatch (s : EmaTouchGuideState) (direction : TouchDirection) (a : PriceAlert) :
    PriceAlert :=
  { a with
    price := s.level
    lastSeenLevel := some s.level
    lastTolerance := some s.tolerance
    emaLength := some s.emaLength
    atrLength := some s.atrLength
    wasTouching := some s.touching
    touchDirection := some direction }

def dynamicFiredPatch (s : EmaTouchGuideState) (direction : TouchDirection) (rearmMs now : ℕ)
    (a : PriceAlert) : PriceAlert :=
  { dynamicStatePatch s direction a with
    armed := true
    fired := true
    cooldownUntil := now + rearmMs
    lastFiredAt := some now
    lastFiredLevel := some s.level }

/-- The dynamic alert fires: it touches now and did not touch when it was last seen. -/
def dynamicHit (a : PriceAlert) (s : EmaTouchGuideState) : Bool :=
  a.wasTouching = some false && s.touching

/-- The payload of a dynamic alert carries the level it touched. -/
def dynamicPayload (a : PriceAlert) (s : EmaTouchGuideState) (current : ℚ) (now : ℕ) (ts : Time) :
    TelegramPayload :=
  alertMonitorPayload
    { a with
      price := s.level
      kind := .ema233Touch
      emaLength := some s.emaLength
      atrLength := some s.atrLength } current now ts

/-- `_publish_dynamic_alert_state` -/
def publishDynamicAlertState (t : PriceAlertTable) (snapshot : PriceAlert) (s : EmaTouchGuideState)
    (current : ℚ) (now : ℕ) (ts : Time) : Except AlertError AlertCommit := do
  require (0 < s.emaLength ∧ 0 < s.atrLength) ⟨"SERVER_ALERT_DYNAMIC_STATE_INVALID"⟩
  let direction := serverEmaTouchDirection snapshot s current
  if alertFreezeActive snapshot current s.level now then pure (.unchanged t none)
  else if dynamicHit snapshot s then do
    let rearmMs ← emaTouchRearmMs snapshot
    persistPriceAlertDelivery t snapshot (dynamicPayload snapshot s current now ts)
      (dynamicFiredPatch s direction rearmMs now) now
  else persistAlertEvaluationState t snapshot (dynamicStatePatch s direction)

/-! ### Fuel events -/

structure VsaEvent where
  ts : Time
  fuel : Bool
  terminalClimax : Bool
  deriving DecidableEq, Repr

inductive VsaState
  | ready | degraded | blocked | error
  deriving DecidableEq, Repr

/-- The confirmed events of the volume context, oldest first. -/
structure VsaVolumeContext where
  state : VsaState
  events : List VsaEvent
  deriving DecidableEq, Repr

/-- `_require_vsa_fuel_events`: the events an alert may report, newest first. -/
def requireVsaFuelEvents (c : VsaVolumeContext) : Except AlertError (Option (List VsaEvent)) := do
  require (c.events.Pairwise fun e e' => e.ts < e'.ts) ⟨"SERVER_ALERT_VSA_EVENT_ORDER_INVALID"⟩
  if c.state = .blocked ∨ c.state = .error then do
    require (c.events = []) ⟨"SERVER_ALERT_VSA_STATUS_EVENTS_MISMATCH"⟩
    pure (if c.state = .error then none else some [])
  else pure (some (c.events.filter fun e => e.fuel || e.terminalClimax).reverse)

/-- `_is_touchable_event`: after the creation of the alert, and not the event it consumed. -/
def isTouchableEvent (a : PriceAlert) (e : VsaEvent) : Bool :=
  some e.ts ≠ a.lastEventTs && (a.createdAt : ℤ) * 1000 < e.ts

structure VsaFuelAlertState where
  touching : Bool
  eventTs : Option Time
  level : ℚ
  deriving DecidableEq

/-- The event an alert reports: the newest touchable one, else the newest. -/
def reportedFuelEvent (a : PriceAlert) (fuelEvents : List VsaEvent) : Option VsaEvent :=
  (fuelEvents.find? (isTouchableEvent a)).or fuelEvents.head?

/-- `server_vsa_fuel_alert_state`, from the events newest first. -/
def serverVsaFuelAlertState (a : PriceAlert) (fuelEvents : List VsaEvent) (currentPrice : ℚ) :
    VsaFuelAlertState :=
  match reportedFuelEvent a fuelEvents with
  | none => ⟨false, none, currentPrice⟩
  | some e => ⟨isTouchableEvent a e, some e.ts, currentPrice⟩

def vsaStatePatch (eventTs : Option Time) (a : PriceAlert) : PriceAlert :=
  { a with lastEventTs := eventTs.or a.lastEventTs }

def vsaFiredPatch (eventTs : Time) (level : ℚ) (now : ℕ) (a : PriceAlert) : PriceAlert :=
  { a with
    armed := true
    fired := true
    cooldownUntil := now + 30000
    lastFiredAt := some now
    lastFiredLevel := some level
    lastEventTs := some eventTs
    lastFiredEventTs := some eventTs }

/-- `_publish_vsa_alert_state` -/
def publishVsaAlertState (t : PriceAlertTable) (snapshot : PriceAlert) (s : VsaFuelAlertState)
    (current : ℚ) (now : ℕ) (ts : Time) : Except AlertError AlertCommit :=
  match s.touching, s.eventTs with
  | true, some eventTs =>
    persistPriceAlertDelivery t snapshot
      (alertMonitorPayload { snapshot with price := s.level } current now ts)
      (vsaFiredPatch eventTs s.level now) now
  | _, eventTs => persistAlertEvaluationState t snapshot (vsaStatePatch eventTs)

end AefTerminal
