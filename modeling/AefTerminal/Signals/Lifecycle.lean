import AefTerminal.Domain.Bar
import AefTerminal.Domain.Rounding

/-!
# The lifecycle of a trade plan

A trade plan waits for its entry, is followed bar by bar behind a trail, and ends. Two evaluators
say where it stands. `lifecycle_from_signals` goes through bars and signals from the oldest on and
keeps the plan, its fill and its trail. `expire_lifecycle_payload` has only the wire payload of a
lifecycle and the bars: it scans the bars after the opening for the first that ends the plan, from
stop and target alone. Prices are rational, timestamps instants.

## Main definitions

* `resolvePlanBarCloseEvent`, `nextPlanTrail`
* `PlanLifecycle`, `PlanLifecycle.asDict`, `planLifecycleFromWire`
* `lifecycleFromSignals`, `expireLifecyclePayload`
-/

namespace AefTerminal

inductive Direction
  | long | short | flat
  deriving DecidableEq, Repr

inductive ActionPhase
  | wait | watch | candidate | arm | go | inside | trail | targetHit | stopHit | block
  deriving DecidableEq, Repr

inductive LifecycleState
  | wait | waitEntry | follow | ride | targetHit | stopHit | targetAndStopHit | trailStop | reversed
  | expired
  deriving DecidableEq, Repr

namespace LifecycleState

def active (state : LifecycleState) : Bool := state ∈ [waitEntry, follow, ride]

def terminal (state : LifecycleState) : Bool :=
  state ∈ [targetHit, stopHit, targetAndStopHit, trailStop, reversed, expired]

/-- The plan ended at its target, its stop or its trail, or was reversed. -/
def hit (state : LifecycleState) : Bool :=
  state ∈ [targetHit, stopHit, targetAndStopHit, trailStop, reversed]

end LifecycleState

/-- `_round`, for a price that may be missing. -/
def roundPrice (price : Option ℚ) : Option ℚ := price.map (roundDigits 4)

/-- `coherent_trade_plan`. -/
def coherentTradePlan (direction : Direction) (trigger stop target : Option ℚ) : Bool :=
  match trigger, stop, target with
  | some trigger, some stop, some target =>
    match direction with
    | .long => stop < trigger ∧ trigger < target
    | .short => target < trigger ∧ trigger < stop
    | .flat => false
  | _, _, _ => false

/-! ### One bar -/

/-- The terminal fact of one bar. -/
structure LifecycleCloseEvent where
  state : LifecycleState
  exitPrice : Option ℚ
  closedTs : Time
  terminal : state.terminal = true
  deriving DecidableEq

/-- `_touched`. -/
def touched (bar : Bar) (price : ℚ) : Bool := bar.low ≤ price ∧ price ≤ bar.high

/-- The protective level of a bar and what it means to reach it: the trail where it is stricter
than the stop, and the stop otherwise. -/
def protectiveOf (direction : Direction) (stop target trail : Option ℚ) :
    Option ℚ × { state : LifecycleState // state.terminal = true } :=
  match trail with
  | none => (stop, ⟨.stopHit, rfl⟩)
  | some value =>
    let stricter : Bool := match direction with
      | .long => (∀ s ∈ stop, s < value) ∧ ∀ t ∈ target, value < t
      | .short => (∀ s ∈ stop, value < s) ∧ ∀ t ∈ target, t < value
      | .flat => false
    if stricter then (some value, ⟨.trailStop, rfl⟩) else (stop, ⟨.stopHit, rfl⟩)

/-- A price is beyond the target, or on the far side of the protective level. -/
def beyond (direction : Direction) (price : ℚ) (target protective : Option ℚ) : Bool × Bool :=
  match direction with
  | .long => (target.any (· < price), protective.any (price < ·))
  | .short => (target.any (price < ·), protective.any (· < price))
  | .flat => (false, false)

/-- A close has reached the target, or the protective level. -/
def closedBeyond (direction : Direction) (close : ℚ) (target protective : Option ℚ) :
    Bool × Bool :=
  match direction with
  | .long => (target.any (· ≤ close), protective.any (close ≤ ·))
  | .short => (target.any (close ≤ ·), protective.any (· ≤ close))
  | .flat => (false, false)

/-- The event of what was reached: both is ambiguous, and the protective level comes first. -/
def closeEventOf (bar : Bar) (reached : Bool × Bool) (targetPrice protectivePrice : Option ℚ)
    (protective : { state : LifecycleState // state.terminal = true }) :
    Option LifecycleCloseEvent :=
  match reached with
  | (true, true) => some ⟨.targetAndStopHit, none, bar.ts, rfl⟩
  | (false, true) => some ⟨protective.1, protectivePrice, bar.ts, protective.2⟩
  | (true, false) => some ⟨.targetHit, targetPrice, bar.ts, rfl⟩
  | (false, false) => none

/-- `resolve_plan_bar_close_event`. -/
def resolvePlanBarCloseEvent (direction : Direction) (stop target trail : Option ℚ) (bar : Bar)
    (barStartedAfterPlan : Bool) : Option LifecycleCloseEvent :=
  if direction = .flat then none
  else
    let (level, state) := protectiveOf direction stop target trail
    if !barStartedAfterPlan then
      closeEventOf bar (closedBeyond direction bar.close target level) none none state
    else
      (closeEventOf bar (beyond direction bar.open target level) none none state).or
        (closeEventOf bar (target.any (touched bar ·), level.any (touched bar ·)) target level state)

/-- `next_plan_trail`. -/
def nextPlanTrail (direction : Direction) (carriedTrail stop : Option ℚ) (close atr : ℚ)
    (trailAtr : Option ℚ) : Option ℚ :=
  if direction = .flat then none
  else trailAtr.map fun multiplier =>
    let base := (carriedTrail.or stop).getD close
    let distance := max atr 0 * max multiplier 0
    if direction = .long then max base (close - distance) else min base (close + distance)

/-! ### A lifecycle and its wire payload -/

/-- The fields of `PlanLifecycle`. -/
structure LifecycleFields where
  source : String
  state : LifecycleState
  direction : Direction
  entry : Option ℚ
  stop : Option ℚ
  target : Option ℚ
  trail : Option ℚ
  openedTs : Option Time
  filledTs : Option Time
  closedTs : Option Time
  exitPrice : Option ℚ
  exitReason : Option LifecycleState
  ageBars : ℕ
  filled : Bool
  deriving DecidableEq

/-- The checks of its constructor. -/
structure LifecycleFields.Admitted (l : LifecycleFields) : Prop where
  direction : l.direction = .flat → l.state = .wait
  exitReason : l.exitReason = if l.state.terminal then some l.state else none
  «open» : l.state.terminal = false → l.exitPrice = none ∧ l.closedTs = none
  waits : l.state ∈ [.wait, .waitEntry] → l.filled = false
  follows : l.state ∈ [.follow, .ride] → l.filled = true
  filledTs : l.filled = false → l.filledTs = none

theorem LifecycleState.not_waits {state : LifecycleState} (h : state.terminal = true) :
    state ∉ [wait, waitEntry] := by
  revert h
  cases state <;> decide

theorem LifecycleState.not_follows {state : LifecycleState} (h : state.terminal = true) :
    state ∉ [follow, ride] := by
  revert h
  cases state <;> decide

theorem LifecycleFields.admitted_of_terminal {l : LifecycleFields} (h : l.state.terminal = true)
    (hdirection : l.direction ≠ .flat) (hreason : l.exitReason = some l.state)
    (hfilled : l.filled = false → l.filledTs = none) : l.Admitted :=
  ⟨fun hflat => absurd hflat hdirection, hreason.trans (if_pos h).symm,
    fun hno => absurd (hno.symm.trans h) (by simp), fun hno => absurd hno (LifecycleState.not_waits h),
    fun hno => absurd hno (LifecycleState.not_follows h), hfilled⟩

instance (l : LifecycleFields) : Decidable l.Admitted :=
  decidable_of_iff ((l.direction = .flat → l.state = .wait) ∧
    (l.exitReason = if l.state.terminal then some l.state else none) ∧
    (l.state.terminal = false → l.exitPrice = none ∧ l.closedTs = none) ∧
    (l.state ∈ [.wait, .waitEntry] → l.filled = false) ∧
    (l.state ∈ [.follow, .ride] → l.filled = true) ∧ (l.filled = false → l.filledTs = none))
    ⟨fun ⟨a, b, c, d, e, f⟩ => ⟨a, b, c, d, e, f⟩, fun ⟨a, b, c, d, e, f⟩ => ⟨a, b, c, d, e, f⟩⟩

structure PlanLifecycle extends LifecycleFields where
  admitted : toLifecycleFields.Admitted
  deriving DecidableEq

/-- A field of a payload: what the reader of the field makes of its value. A key that is not there
is missing, and so is a value that the reader takes for one. -/
inductive WireField (α : Type)
  | missing
  | invalid
  | value (a : α)
  deriving DecidableEq

namespace WireField

variable {α : Type}

def ofOption : Option α → WireField α
  | none => missing
  | some a => value a

/-- A field with a default. -/
def getD (default : α) : WireField α → Option α
  | missing => some default
  | invalid => none
  | value a => some a

/-- A field that may be missing. -/
def optional : WireField α → Option (Option α)
  | missing => some none
  | invalid => none
  | value a => some (some a)

/-- A field that has to be there. -/
def required : WireField α → Option α
  | value a => some a
  | _ => none

end WireField

structure LifecyclePayload where
  contractInvalid : WireField Bool
  obsolete : WireField Bool
  source : WireField String
  state : WireField LifecycleState
  direction : WireField Direction
  entry : WireField ℚ
  stop : WireField ℚ
  target : WireField ℚ
  trail : WireField ℚ
  openedTs : WireField Time
  filledTs : WireField Time
  closedTs : WireField Time
  exitPrice : WireField ℚ
  exitReason : WireField LifecycleState
  ageBars : WireField ℕ
  filled : WireField Bool
  active : WireField Bool
  deriving DecidableEq

namespace PlanLifecycle

/-- What `as_dict` writes into a payload. -/
def writeTo (l : PlanLifecycle) (payload : LifecyclePayload) : LifecyclePayload :=
  { payload with
    source := .value l.source
    state := .value l.state
    direction := .value l.direction
    entry := .ofOption (roundPrice l.entry)
    stop := .ofOption (roundPrice l.stop)
    target := .ofOption (roundPrice l.target)
    trail := .ofOption (roundPrice l.trail)
    openedTs := .ofOption l.openedTs
    filledTs := .ofOption l.filledTs
    closedTs := .ofOption l.closedTs
    exitPrice := .ofOption (roundPrice l.exitPrice)
    exitReason := .ofOption l.exitReason
    ageBars := .value l.ageBars
    filled := .value l.filled
    active := .value l.state.active }

/-- `as_dict`. -/
def asDict (l : PlanLifecycle) : LifecyclePayload :=
  l.writeTo ⟨.missing, .missing, .missing, .missing, .missing, .missing, .missing, .missing,
    .missing, .missing, .missing, .missing, .missing, .missing, .missing, .missing, .missing⟩

end PlanLifecycle

/-- The constructor. -/
def LifecycleFields.construct (l : LifecycleFields) : Option PlanLifecycle :=
  if h : l.Admitted then some ⟨l, h⟩ else none

/-- `plan_lifecycle_from_wire`. -/
def planLifecycleFromWire (payload : LifecyclePayload) : Option PlanLifecycle := do
  let contractInvalid ← payload.contractInvalid.getD false
  guard (contractInvalid = false)
  let state ← payload.state.required
  let active ← payload.active.required
  guard (active = state.active)
  -- a reason that is no state is none
  let exitReason := payload.exitReason.required
  guard (exitReason = if state.terminal then some state else none)
  let obsolete ← payload.obsolete.getD false
  guard (obsolete = true → state.terminal = true)
  let direction ← payload.direction.getD .flat
  guard (direction = .flat → state = .wait)
  let entry ← payload.entry.optional
  let stop ← payload.stop.optional
  let target ← payload.target.optional
  let trail ← payload.trail.optional
  let exitPrice ← payload.exitPrice.optional
  let openedTs ← payload.openedTs.optional
  let filledTs ← payload.filledTs.optional
  let closedTs ← payload.closedTs.optional
  guard (state.terminal = false → exitPrice = none ∧ closedTs = none)
  let ageBars ← payload.ageBars.getD 0
  let filled ← payload.filled.getD false
  guard (state ∈ [.wait, .waitEntry] → filled = false)
  guard (state ∈ [.follow, .ride] → filled = true)
  guard (filled = false → filledTs = none)
  let source ← payload.source.getD "lifecycle"
  LifecycleFields.construct ⟨source, state, direction, entry, stop, target, trail, openedTs, filledTs,
    closedTs, exitPrice, exitReason, ageBars, filled⟩

/-! ### The evaluator of bars and signals -/

/-- The part of a signal that makes a plan. -/
structure SignalState where
  action : ActionPhase
  direction : Direction
  trigger : Option ℚ
  stop : Option ℚ
  target : Option ℚ
  invalidation : Option ℚ

/-- The plan that is followed. `filledIndex` is not in the program: the number of the bar that
filled the plan. -/
structure ActivePlan where
  direction : Direction
  entry : ℚ
  stop : ℚ
  target : ℚ
  trail : Option ℚ
  openedIndex : ℕ
  openedTs : Time
  filled : Bool
  filledTs : Option Time
  filledIndex : Option ℕ
  ageBars : ℕ
  coherent : coherentTradePlan direction (some entry) (some stop) (some target) = true
  filledTs_none : filled = false → filledTs = none

theorem ActivePlan.direction_ne (plan : ActivePlan) : plan.direction ≠ .flat := by
  intro h
  have hcoherent := plan.coherent
  rw [h] at hcoherent
  exact absurd hcoherent (by simp [coherentTradePlan])

/-- The arguments that stay the same over the bars. No ATR values are an empty list of them. -/
structure LifecycleParams where
  source : String
  atrValues : List (Option ℚ)
  maxAgeBars : ℤ
  trailAtr : Option ℚ

structure Evaluation where
  active : Option ActivePlan
  lastClosed : Option PlanLifecycle

namespace ActivePlan

variable (plan : ActivePlan)

/-- The lifecycle of a plan that ends. -/
def close (source : String) (state : LifecycleState) (hterminal : state.terminal = true)
    (exitPrice : Option ℚ) (closedTs : Time) : PlanLifecycle where
  source := source
  state := state
  direction := plan.direction
  entry := some plan.entry
  stop := some plan.stop
  target := some plan.target
  trail := plan.trail
  openedTs := some plan.openedTs
  filledTs := plan.filledTs
  closedTs := some closedTs
  exitPrice := exitPrice
  exitReason := some state
  ageBars := plan.ageBars
  filled := plan.filled
  admitted := LifecycleFields.admitted_of_terminal hterminal plan.direction_ne rfl plan.filledTs_none

/-- The lifecycle of a plan that goes on. -/
def lifecycle (source : String) : PlanLifecycle where
  source := source
  state := if plan.filled then .follow else .waitEntry
  direction := plan.direction
  entry := some plan.entry
  stop := some plan.stop
  target := some plan.target
  trail := plan.trail
  openedTs := some plan.openedTs
  filledTs := plan.filledTs
  closedTs := none
  exitPrice := none
  exitReason := none
  ageBars := plan.ageBars
  filled := plan.filled
  admitted := by
    refine ⟨fun h => absurd h plan.direction_ne, ?_, fun _ => ⟨rfl, rfl⟩, ?_, ?_,
      plan.filledTs_none⟩
    · cases plan.filled <;> rfl
    · cases plan.filled <;> simp
    · cases plan.filled <;> simp

/-- The entry is touched. -/
def fill (index : ℕ) (bar : Bar) : ActivePlan :=
  { plan with
    filled := true
    filledTs := some bar.ts
    filledIndex := some index
    trail := some plan.stop
    filledTs_none := fun h => absurd h (by simp) }

end ActivePlan

/-- The ATR of a bar, or its range where there is none. -/
def LifecycleParams.atr (p : LifecycleParams) (index : ℕ) (bar : Bar) : ℚ :=
  match p.atrValues[index]? with
  | some (some atr) => if 0 < atr then atr else max (bar.high - bar.low) (1 / 1000000)
  | _ => max (bar.high - bar.low) (1 / 1000000)

/-- A signal of the other direction. -/
def SignalState.opposite (signal : SignalState) (direction : Direction) : Bool :=
  signal.action ∈ [.go, .arm] ∧ signal.direction ≠ .flat ∧ signal.direction ≠ direction

/-- How a filled plan ends with a bar: by its levels, or by a signal of the other direction. -/
def ActivePlan.exit (plan : ActivePlan) (bar : Bar) (signal : SignalState) :
    Option LifecycleCloseEvent :=
  (resolvePlanBarCloseEvent plan.direction (some plan.stop) (some plan.target) plan.trail bar
    true).or (if signal.opposite plan.direction then some ⟨.reversed, some bar.close, bar.ts, rfl⟩
      else none)

/-- The plan that a signal opens; only a `GO` fills it at once. -/
def SignalState.plan (signal : SignalState) (index : ℕ) (bar : Bar) {entry stop target : ℚ}
    (h : coherentTradePlan signal.direction (some entry) (some stop) (some target) = true) :
    ActivePlan where
  direction := signal.direction
  entry := entry
  stop := stop
  target := target
  trail := some stop
  openedIndex := index
  openedTs := bar.ts
  filled := signal.action = .go
  filledTs := if signal.action = .go then some bar.ts else none
  filledIndex := if signal.action = .go then some index else none
  ageBars := 0
  coherent := h
  filledTs_none := fun hno => if_neg (of_decide_eq_false hno)

namespace Evaluation

variable (e : Evaluation)

/-- A plan that was not filled in time expires. -/
def expireUnfilled (p : LifecycleParams) (index : ℕ) (bar : Bar) : Evaluation :=
  match e.active with
  | none => e
  | some plan =>
    let plan := { plan with ageBars := index - plan.openedIndex }
    if plan.filled = false ∧ p.maxAgeBars < plan.ageBars then
      ⟨none, some (plan.close p.source .expired rfl none bar.ts)⟩
    else { e with active := some plan }

/-- The plan meets the bar. What fills it does not end it. -/
def follow (p : LifecycleParams) (index : ℕ) (bar : Bar) (signal : SignalState) : Evaluation :=
  match e.active with
  | none => e
  | some plan =>
    if plan.filled = true ∧ 0 < plan.ageBars then
      match plan.exit bar signal with
      | some event =>
        ⟨none, some (plan.close p.source event.state event.terminal event.exitPrice bar.ts)⟩
      | none => { e with active := some { plan with
          trail := nextPlanTrail plan.direction plan.trail (some plan.stop) bar.close
            (p.atr index bar) p.trailAtr } }
    else if plan.filled = false ∧ 0 < plan.ageBars ∧ touched bar plan.entry then
      { e with active := some (plan.fill index bar) }
    else e

/-- A signal opens a plan. -/
def openPlan (index : ℕ) (bar : Bar) (signal : SignalState) : Evaluation :=
  if e.active.isNone ∧ signal.action ∈ [.go, .arm] ∧ signal.direction ≠ .flat then
    match signal.trigger.or (some bar.close), signal.stop.or signal.invalidation, signal.target with
    | some entry, some stop, some target =>
      if h : coherentTradePlan signal.direction (some entry) (some stop) (some target) = true then
        { e with active := some (signal.plan index bar h) }
      else e
    | _, _, _ => e
  else e

/-- One bar with its signal. -/
def step (p : LifecycleParams) (index : ℕ) (bar : Bar) (signal : SignalState) : Evaluation :=
  ((e.expireUnfilled p index bar).follow p index bar signal).openPlan index bar signal

def result (source : String) : Option PlanLifecycle :=
  match e.active with
  | some plan => some (plan.lifecycle source)
  | none => e.lastClosed

end Evaluation

/-- The signals belong to the last bars. -/
def evaluate (p : LifecycleParams) (bars : List Bar) (signals : List SignalState) : Evaluation :=
  let offset := bars.length - signals.length
  (((bars.drop offset).zip signals).zipIdx offset).foldl
    (fun e entry => e.step p entry.2 entry.1.1 entry.1.2) ⟨none, none⟩

/-- `lifecycle_from_signals`. -/
def lifecycleFromSignals (p : LifecycleParams) (bars : List Bar) (signals : List SignalState) :
    Option PlanLifecycle :=
  if bars = [] ∨ signals = [] then none else (evaluate p bars signals).result p.source

/-! ### The evaluator of payloads -/

/-- `_bars_after_signal`. -/
def barsAfterSignal (bars : List Bar) (openedTs : Option Time) : List Bar :=
  match openedTs with
  | none => []
  | some openedTs => bars.filter fun bar => openedTs < bar.ts

/-- `trade_plan_close_event`. -/
def tradePlanCloseEvent (direction : Direction) (entry stop target : Option ℚ) (bars : List Bar)
    (openedTs : Option Time) : Option LifecycleCloseEvent :=
  match bars.getLast? with
  | none => none
  | some last =>
    if coherentTradePlan direction entry stop target = false then none
    else
      match barsAfterSignal bars openedTs with
      | [] => resolvePlanBarCloseEvent direction stop target none last false
      | scanBars =>
        scanBars.findSome? fun bar => resolvePlanBarCloseEvent direction stop target none bar true

/-- An active lifecycle that a bar ended. -/
def PlanLifecycle.expire (l : PlanLifecycle) (hactive : l.state.active = true)
    (event : LifecycleCloseEvent) : PlanLifecycle where
  toLifecycleFields := { l.toLifecycleFields with
    state := event.state
    closedTs := some event.closedTs
    exitPrice := event.exitPrice
    exitReason := some event.state }
  admitted := by
    refine LifecycleFields.admitted_of_terminal event.terminal (fun h => ?_) rfl l.admitted.filledTs
    rw [l.admitted.direction h] at hactive
    exact absurd hactive (by decide)

/-- The payload that takes the place of one that is not admitted. -/
def quarantined (payload : LifecyclePayload) : LifecyclePayload :=
  let waiting : PlanLifecycle :=
    ⟨⟨(payload.source.required).getD "lifecycle", .wait, (payload.direction.required).getD .flat,
      none, none, none, none, none, none, none, none, none, 0, false⟩,
      ⟨fun _ => rfl, rfl, fun _ => ⟨rfl, rfl⟩, fun _ => rfl, by simp, fun _ => rfl⟩⟩
  { waiting.writeTo payload with obsolete := .value true, contractInvalid := .value true }

/-- `expire_lifecycle_payload`. -/
def expireLifecyclePayload (payload : LifecyclePayload) (bars : List Bar) : LifecyclePayload :=
  match planLifecycleFromWire payload with
  | none => quarantined payload
  | some l =>
    let canonical := l.writeTo payload
    if hactive : l.state.active = true then
      if bars = [] then canonical
      else
        match tradePlanCloseEvent l.direction l.entry l.stop l.target bars l.openedTs with
        | none => canonical
        | some event => { (l.expire hactive event).writeTo canonical with obsolete := .value true }
    else if l.state.terminal then { canonical with obsolete := .value true }
    else canonical

end AefTerminal
