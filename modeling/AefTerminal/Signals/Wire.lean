import AefTerminal.Signals.Agreement

/-!
# Lifecycles on the wire

The constructor of `PlanLifecycle`, the encoder `as_dict` and the decoder `plan_lifecycle_from_wire`
each state the rules of a lifecycle. Here a payload is what `get` answers, before any reading, and a
lifecycle keeps its timestamps as texts. A timestamp that cannot be moved to UTC raises in the program
and is refused here. Numbers are rational.

The decoder takes no reason of an open lifecycle for none: there it lets pass what it cannot read.

## Main definitions

* `LifecycleRecord.postInit`, `LifecycleRecord.asDict`, `Wire.planLifecycleFromWire`
* `Wire.Reads`: a payload says the fields of a lifecycle

## Main results

* `Wire.planLifecycleFromWire_eq_some`: what the decoder accepts
* `Wire.lifecycle_round_trip`: what comes back from the wire
-/

namespace AefTerminal

open Foundation

/-! ### Values -/

/-- A text: a timestamp with an offset from UTC, in one of the spellings that are read as it, or any
other. The spelling of `isoformat` is empty here. -/
inductive WireText
  | timestamp (instant : Time) (utcOffset : ℤ) (spelling : String)
  | plain (text : String)
  deriving DecidableEq, Repr

def parseAwareUtcTs : WireText → Option Time
  | .timestamp instant _ _ => some instant
  | .plain _ => none

/-- `isoformat` of a time in UTC. -/
def isoformat (t : Time) : WireText := .timestamp t 0 ""

/-- A value in a payload. `nonFinite` is a float without a value, `other` any list or object. -/
inductive WireValue
  | null
  | bool (b : Bool)
  | int (n : ℤ)
  | float (x : ℚ)
  | nonFinite
  | text (t : WireText)
  | other
  deriving DecidableEq

namespace WireValue

def bool? : WireValue → Option Bool
  | bool b => some b
  | _ => none

def int? : WireValue → Option ℤ
  | int n => some n
  | _ => none

def text? : WireValue → Option WireText
  | text t => some t
  | _ => none

/-- Integers from here on have no double. -/
def doubleBound : ℕ := 2 ^ 1024 - 2 ^ 970

/-- `exact_finite_number_or_none`. -/
def finite? : WireValue → Option ℚ
  | int n => if n.natAbs < doubleBound then some n else none
  | float x => some x
  | _ => none

/-- A field that is `None` or a number. -/
def price? (raw : WireValue) : Option (Option ℚ) :=
  if raw ≠ null ∧ raw.finite? = none then none else some raw.finite?

/-- A field that is `None` or a timestamp, which is moved to UTC. -/
def timestamp? (raw : WireValue) : Option (Option WireText) :=
  let parsed := raw.text?.bind parseAwareUtcTs
  if raw ≠ null ∧ parsed = none then none else some (parsed.map isoformat)

end WireValue

/-! ### Enumerations -/

def LifecycleState.value : LifecycleState → String
  | wait => "WAIT"
  | waitEntry => "WAIT_ENTRY"
  | follow => "FOLLOW"
  | ride => "RIDE"
  | targetHit => "TP"
  | stopHit => "STOP"
  | targetAndStopHit => "TP/SL"
  | trailStop => "TRAIL"
  | reversed => "REV"
  | expired => "EXPIRED"

def LifecycleState.all : List LifecycleState :=
  [wait, waitEntry, follow, ride, targetHit, stopHit, targetAndStopHit, trailStop, reversed, expired]

def lifecycleStateFromValue : WireValue → Option LifecycleState
  | .text (.plain text) => LifecycleState.all.find? fun state => state.value = text
  | _ => none

def Direction.value : Direction → String
  | long => "long"
  | short => "short"
  | flat => "flat"

def directionOfValue : WireValue → Option Direction
  | .text (.plain text) => [Direction.long, .short, .flat].find? fun d => d.value = text
  | _ => none

/-! ### The constructor -/

/-- The fields of a `PlanLifecycle`. -/
structure LifecycleRecord where
  source : WireText
  state : LifecycleState
  direction : Direction
  entry : Option ℚ
  stop : Option ℚ
  target : Option ℚ
  trail : Option ℚ
  openedTs : Option WireText
  filledTs : Option WireText
  closedTs : Option WireText
  exitPrice : Option ℚ
  exitReason : Option LifecycleState
  ageBars : ℤ
  filled : Bool
  deriving DecidableEq

/-- A timestamp that is set is read as one. -/
def AwareOrNone (ts : Option WireText) : Prop := ∀ t ∈ ts, parseAwareUtcTs t ≠ none

instance (ts : Option WireText) : Decidable (AwareOrNone ts) := by
  cases ts with
  | none => exact isTrue (by simp [AwareOrNone])
  | some t => exact decidable_of_iff (parseAwareUtcTs t ≠ none) (by simp [AwareOrNone])

/-- The reason of a terminal state is the state, and no other has one. -/
def checkExitReason (state : LifecycleState) : Option LifecycleState → Except String PUnit
  | some reason =>
    require (reason.terminal = true ∧ reason = state)
      "PlanLifecycle.exit_reason must match its terminal state"
  | none => require (state.terminal = false) "Terminal PlanLifecycle state requires exit_reason"

/-- `__post_init__`. -/
def LifecycleRecord.postInit (l : LifecycleRecord) : Except String PUnit := do
  require (l.direction = .flat → l.state = .wait)
    "Only WAIT PlanLifecycle may have a flat direction"
  require (0 ≤ l.ageBars) "PlanLifecycle.age_bars must be a non-negative integer"
  require (AwareOrNone l.openedTs ∧ AwareOrNone l.filledTs ∧ AwareOrNone l.closedTs)
    "PlanLifecycle timestamps must be aware ISO strings or None"
  checkExitReason l.state l.exitReason
  require (l.state.terminal = false → l.exitPrice = none ∧ l.closedTs = none)
    "Non-terminal PlanLifecycle cannot carry close fields"
  require (l.state ∈ [.wait, .waitEntry] → l.filled = false)
    "WAIT/WAIT_ENTRY PlanLifecycle cannot be filled"
  require (l.state ∈ [.follow, .ride] → l.filled = true) "FOLLOW/RIDE PlanLifecycle must be filled"
  require (l.filled = false → l.filledTs = none) "Unfilled PlanLifecycle cannot carry filled_ts"

/-- A call of the constructor in a `try`. -/
def LifecycleRecord.construct (l : LifecycleRecord) : Option LifecycleRecord :=
  match l.postInit with
  | .ok _ => some l
  | .error _ => none

/-! ### Encoder and decoder -/

/-- A payload: what `get` answers for a key that it has. -/
abbrev WireMapping := String → Option WireValue

/-- `value.get(key)`. -/
def WireMapping.get (value : WireMapping) (key : String) : WireValue := (value key).getD .null

/-- `_round` of a price, on the wire. -/
def wirePrice (price : Option ℚ) : WireValue := ((roundPrice price).map .float).getD .null

def wireTimestamp (ts : Option WireText) : WireValue := (ts.map .text).getD .null

/-- `as_dict`. -/
def LifecycleRecord.asDict (l : LifecycleRecord) : WireMapping
  | "source" => some (.text l.source)
  | "state" => some (.text (.plain l.state.value))
  | "direction" => some (.text (.plain l.direction.value))
  | "entry" => some (wirePrice l.entry)
  | "stop" => some (wirePrice l.stop)
  | "target" => some (wirePrice l.target)
  | "trail" => some (wirePrice l.trail)
  | "opened_ts" => some (wireTimestamp l.openedTs)
  | "filled_ts" => some (wireTimestamp l.filledTs)
  | "closed_ts" => some (wireTimestamp l.closedTs)
  | "exit_price" => some (wirePrice l.exitPrice)
  | "exit_reason" => some (.text (.plain ((l.exitReason.map LifecycleState.value).getD "")))
  | "age_bars" => some (.int l.ageBars)
  | "filled" => some (.bool l.filled)
  | "active" => some (.bool l.state.active)
  | "trade_plan" => some .other
  | _ => none

namespace Wire

/-- The reason that the decoder finds. -/
def exitReasonOf (raw : WireValue) : Option LifecycleState :=
  if raw = .null ∨ raw = .text (.plain "") then none else lifecycleStateFromValue raw

/-- `plan_lifecycle_from_wire`. -/
def planLifecycleFromWire (value : WireMapping) : Option LifecycleRecord := do
  let contractInvalid ← ((value "contract_invalid").getD (.bool false)).bool?
  guard (contractInvalid = false)
  let state ← lifecycleStateFromValue (value.get "state")
  let active ← (value.get "active").bool?
  guard (active = state.active)
  let exitReason := exitReasonOf (value.get "exit_reason")
  guard (exitReason = if state.terminal then some state else none)
  let obsolete ← ((value "obsolete").getD (.bool false)).bool?
  guard (obsolete = true → state.terminal = true)
  let direction ← directionOfValue ((value "direction").getD (.text (.plain "flat")))
  guard (direction = .flat → state = .wait)
  let entry ← (value.get "entry").price?
  let stop ← (value.get "stop").price?
  let target ← (value.get "target").price?
  let trail ← (value.get "trail").price?
  let exitPrice ← (value.get "exit_price").price?
  let openedTs ← (value.get "opened_ts").timestamp?
  let filledTs ← (value.get "filled_ts").timestamp?
  let closedTs ← (value.get "closed_ts").timestamp?
  guard (state.terminal = false → exitPrice = none ∧ closedTs = none)
  let ageBars ← ((value "age_bars").getD (.int 0)).int?
  guard (0 ≤ ageBars)
  let filled ← ((value "filled").getD (.bool false)).bool?
  guard (state ∈ [.wait, .waitEntry] → filled = false)
  guard (state ∈ [.follow, .ride] → filled = true)
  guard (filled = false → filledTs = none)
  let source ← ((value "source").getD (.text (.plain "lifecycle"))).text?
  LifecycleRecord.construct ⟨source, state, direction, entry, stop, target, trail, openedTs, filledTs,
    closedTs, exitPrice, exitReason, ageBars, filled⟩

end Wire

/-! ### What the constructor admits -/

/-- The rules of the constructor. -/
structure LifecycleRecord.Admissible (l : LifecycleRecord) : Prop where
  direction : l.direction = .flat → l.state = .wait
  ageBars : 0 ≤ l.ageBars
  timestamps : AwareOrNone l.openedTs ∧ AwareOrNone l.filledTs ∧ AwareOrNone l.closedTs
  exitReason : l.exitReason = if l.state.terminal then some l.state else none
  «open» : l.state.terminal = false → l.exitPrice = none ∧ l.closedTs = none
  waits : l.state ∈ [.wait, .waitEntry] → l.filled = false
  follows : l.state ∈ [.follow, .ride] → l.filled = true
  filledTs : l.filled = false → l.filledTs = none

section Constructor

variable {l : LifecycleRecord} {state : LifecycleState} {reason : Option LifecycleState}

theorem checkExitReason_eq_ok {u : PUnit} : checkExitReason state reason = .ok u ↔
    reason = if state.terminal then some state else none := by
  cases reason with
  | none =>
    rw [checkExitReason, require_eq_ok]
    cases state.terminal <;> simp
  | some reason =>
    rw [checkExitReason, require_eq_ok]
    constructor
    · rintro ⟨hterminal, rfl⟩
      rw [if_pos hterminal]
    · intro h
      by_cases hterminal : state.terminal = true
      · rw [if_pos hterminal] at h
        cases h
        exact ⟨hterminal, rfl⟩
      · rw [if_neg hterminal] at h
        exact nomatch h

theorem LifecycleRecord.postInit_eq_ok {u : PUnit} : l.postInit = .ok u ↔ l.Admissible := by
  simp only [postInit, bind_eq_ok, require_eq_ok, checkExitReason_eq_ok, exists_const]
  constructor
  · rintro ⟨hdirection, hage, htimes, hreason, hopen, hwaits, hfollows, hfilled⟩
    exact ⟨hdirection, hage, htimes, hreason, hopen, hwaits, hfollows, hfilled⟩
  · rintro ⟨hdirection, hage, htimes, hreason, hopen, hwaits, hfollows, hfilled⟩
    exact ⟨hdirection, hage, htimes, hreason, hopen, hwaits, hfollows, hfilled⟩

theorem LifecycleRecord.construct_eq_some {l' : LifecycleRecord} :
    l.construct = some l' ↔ l.Admissible ∧ l = l' := by
  rw [construct]
  cases hinit : l.postInit with
  | ok u => simp [postInit_eq_ok.mp hinit]
  | error e =>
    have hnot : ¬ l.Admissible := fun h =>
      absurd (hinit.symm.trans (postInit_eq_ok.mpr h : l.postInit = .ok ⟨⟩)) nofun
    simp [hnot]

end Constructor

/-! ### What the decoder accepts -/

namespace Wire

/-- The payload says the fields of the lifecycle, and its flags agree with the state. -/
structure Reads (value : WireMapping) (l : LifecycleRecord) : Prop where
  contractInvalid : ((value "contract_invalid").getD (.bool false)).bool? = some false
  state : lifecycleStateFromValue (value.get "state") = some l.state
  active : (value.get "active").bool? = some l.state.active
  exitReason : exitReasonOf (value.get "exit_reason") = l.exitReason
  obsolete : ∃ obsolete, ((value "obsolete").getD (.bool false)).bool? = some obsolete ∧
    (obsolete = true → l.state.terminal = true)
  direction : directionOfValue ((value "direction").getD (.text (.plain "flat"))) = some l.direction
  entry : (value.get "entry").price? = some l.entry
  stop : (value.get "stop").price? = some l.stop
  target : (value.get "target").price? = some l.target
  trail : (value.get "trail").price? = some l.trail
  exitPrice : (value.get "exit_price").price? = some l.exitPrice
  openedTs : (value.get "opened_ts").timestamp? = some l.openedTs
  filledTs : (value.get "filled_ts").timestamp? = some l.filledTs
  closedTs : (value.get "closed_ts").timestamp? = some l.closedTs
  ageBars : ((value "age_bars").getD (.int 0)).int? = some l.ageBars
  filled : ((value "filled").getD (.bool false)).bool? = some l.filled
  source : ((value "source").getD (.text (.plain "lifecycle"))).text? = some l.source

variable {value : WireMapping} {l : LifecycleRecord}

theorem Reads.decode (h : Reads value l) (hadmissible : l.Admissible) :
    planLifecycleFromWire value = some l := by
  obtain ⟨obsolete, hobsolete, hobsoletes⟩ := h.obsolete
  unfold planLifecycleFromWire
  simp only [h.contractInvalid, h.state, h.active, h.exitReason, hobsolete, h.direction, h.entry,
    h.stop, h.target, h.trail, h.exitPrice, h.openedTs, h.filledTs, h.closedTs, h.ageBars, h.filled,
    h.source, Option.bind_eq_bind, Option.bind_some, guard_of trivial,
    guard_of hadmissible.exitReason, guard_of hobsoletes, guard_of hadmissible.direction,
    guard_of hadmissible.open, guard_of hadmissible.ageBars, guard_of hadmissible.waits,
    guard_of hadmissible.follows, guard_of hadmissible.filledTs]
  exact LifecycleRecord.construct_eq_some.mpr ⟨hadmissible, rfl⟩

/-- What the decoder accepts is what the payload says, and admissible. -/
theorem reads_of_decode (h : planLifecycleFromWire value = some l) : Reads value l ∧ l.Admissible := by
  unfold planLifecycleFromWire at h
  obtain ⟨contractInvalid, hinvalid, h⟩ := Option.bind_eq_some_iff.mp h
  obtain ⟨hvalid, h⟩ := guard_bind_eq_some.mp h
  obtain ⟨state, hstate, h⟩ := Option.bind_eq_some_iff.mp h
  obtain ⟨active, hactive, h⟩ := Option.bind_eq_some_iff.mp h
  obtain ⟨hsame, h⟩ := guard_bind_eq_some.mp h
  obtain ⟨-, h⟩ := guard_bind_eq_some.mp h
  obtain ⟨obsolete, hobsolete, h⟩ := Option.bind_eq_some_iff.mp h
  obtain ⟨hobsoletes, h⟩ := guard_bind_eq_some.mp h
  obtain ⟨direction, hdirection, h⟩ := Option.bind_eq_some_iff.mp h
  obtain ⟨-, h⟩ := guard_bind_eq_some.mp h
  obtain ⟨entry, hentry, h⟩ := Option.bind_eq_some_iff.mp h
  obtain ⟨stop, hstop, h⟩ := Option.bind_eq_some_iff.mp h
  obtain ⟨target, htarget, h⟩ := Option.bind_eq_some_iff.mp h
  obtain ⟨trail, htrail, h⟩ := Option.bind_eq_some_iff.mp h
  obtain ⟨exitPrice, hexitPrice, h⟩ := Option.bind_eq_some_iff.mp h
  obtain ⟨openedTs, hopened, h⟩ := Option.bind_eq_some_iff.mp h
  obtain ⟨filledTs, hfilledTs, h⟩ := Option.bind_eq_some_iff.mp h
  obtain ⟨closedTs, hclosed, h⟩ := Option.bind_eq_some_iff.mp h
  obtain ⟨-, h⟩ := guard_bind_eq_some.mp h
  obtain ⟨ageBars, hage, h⟩ := Option.bind_eq_some_iff.mp h
  obtain ⟨-, h⟩ := guard_bind_eq_some.mp h
  obtain ⟨filled, hfilled, h⟩ := Option.bind_eq_some_iff.mp h
  obtain ⟨-, h⟩ := guard_bind_eq_some.mp h
  obtain ⟨-, h⟩ := guard_bind_eq_some.mp h
  obtain ⟨-, h⟩ := guard_bind_eq_some.mp h
  obtain ⟨source, hsource, h⟩ := Option.bind_eq_some_iff.mp h
  obtain ⟨hadmissible, rfl⟩ := LifecycleRecord.construct_eq_some.mp h
  exact ⟨⟨hvalid ▸ hinvalid, hstate, hsame ▸ hactive, rfl, ⟨obsolete, hobsolete, hobsoletes⟩, hdirection, hentry,
    hstop, htarget, htrail, hexitPrice, hopened, hfilledTs, hclosed, hage, hfilled, hsource⟩,
    hadmissible⟩

/-- The decoder accepts what says an admissible lifecycle, and nothing else. -/
theorem planLifecycleFromWire_eq_some :
    planLifecycleFromWire value = some l ↔ Reads value l ∧ l.Admissible :=
  ⟨reads_of_decode, fun h => h.1.decode h.2⟩

end Wire

/-! ### Round trips -/

/-- A timestamp in UTC. -/
def normalizeTs (ts : Option WireText) : Option WireText :=
  ts.bind fun t => (parseAwareUtcTs t).map isoformat

namespace LifecycleRecord

def rounded (l : LifecycleRecord) : LifecycleRecord :=
  { l with
    entry := roundPrice l.entry
    stop := roundPrice l.stop
    target := roundPrice l.target
    trail := roundPrice l.trail
    exitPrice := roundPrice l.exitPrice }

/-- The lifecycle with its prices rounded and its timestamps in UTC. -/
def normalized (l : LifecycleRecord) : LifecycleRecord :=
  { l.rounded with
    openedTs := normalizeTs l.openedTs
    filledTs := normalizeTs l.filledTs
    closedTs := normalizeTs l.closedTs }

end LifecycleRecord

section RoundTrip

variable {value : WireMapping} {raw : WireValue} {l : LifecycleRecord} {ts : Option WireText}

theorem awareOrNone_normalizeTs (ts : Option WireText) : AwareOrNone (normalizeTs ts) := by
  intro t ht
  obtain ⟨t', -, ht'⟩ := Option.bind_eq_some_iff.mp ht
  obtain ⟨instant, -, rfl⟩ := Option.map_eq_some_iff.mp ht'
  exact nofun

theorem LifecycleRecord.Admissible.normalized (h : l.Admissible) : l.normalized.Admissible where
  direction := h.direction
  ageBars := h.ageBars
  timestamps := ⟨awareOrNone_normalizeTs _, awareOrNone_normalizeTs _, awareOrNone_normalizeTs _⟩
  exitReason := h.exitReason
  «open» := by
    intro hopen
    obtain ⟨hprice, hclosed⟩ := h.open hopen
    exact ⟨congrArg roundPrice hprice, congrArg normalizeTs hclosed⟩
  waits := h.waits
  follows := h.follows
  filledTs := fun hfilled => congrArg normalizeTs (h.filledTs hfilled)

@[simp] theorem price?_wirePrice (price : Option ℚ) :
    (wirePrice price).price? = some (roundPrice price) := by
  cases price with
  | none => rfl
  | some x => rfl

theorem timestamp?_wireTimestamp (h : AwareOrNone ts) :
    (wireTimestamp ts).timestamp? = some (normalizeTs ts) := by
  cases ts with
  | none => rfl
  | some t =>
    obtain ⟨instant, hinstant⟩ := Option.ne_none_iff_exists'.mp (h t rfl)
    simp [wireTimestamp, WireValue.timestamp?, WireValue.text?, normalizeTs, hinstant]

theorem lifecycleStateFromValue_value (state : LifecycleState) :
    lifecycleStateFromValue (.text (.plain state.value)) = some state := by
  cases state <;> rfl

theorem directionOfValue_value (direction : Direction) :
    directionOfValue (.text (.plain direction.value)) = some direction := by
  cases direction <;> rfl

theorem exitReasonOf_value (reason : Option LifecycleState) :
    Wire.exitReasonOf (.text (.plain ((reason.map LifecycleState.value).getD ""))) = reason := by
  cases reason with
  | none => rfl
  | some state => cases state <;> rfl

/-- What the encoder writes is read back. -/
theorem reads_asDict (h : l.Admissible) : Wire.Reads l.asDict l.normalized where
  contractInvalid := rfl
  state := lifecycleStateFromValue_value l.state
  active := rfl
  exitReason := exitReasonOf_value l.exitReason
  obsolete := ⟨false, rfl, nofun⟩
  direction := directionOfValue_value l.direction
  entry := price?_wirePrice l.entry
  stop := price?_wirePrice l.stop
  target := price?_wirePrice l.target
  trail := price?_wirePrice l.trail
  exitPrice := price?_wirePrice l.exitPrice
  openedTs := timestamp?_wireTimestamp h.timestamps.1
  filledTs := timestamp?_wireTimestamp h.timestamps.2.1
  closedTs := timestamp?_wireTimestamp h.timestamps.2.2
  ageBars := rfl
  filled := rfl
  source := rfl

/-- A timestamp that was read is in UTC already. -/
theorem normalizeTs_of_timestamp? (h : raw.timestamp? = some ts) : normalizeTs ts = ts := by
  simp only [WireValue.timestamp?] at h
  split at h
  · exact nomatch h
  · cases h
    cases raw.text?.bind parseAwareUtcTs <;> rfl

theorem normalized_of_reads (h : Wire.Reads value l) : l.normalized = l.rounded := by
  rw [LifecycleRecord.normalized, normalizeTs_of_timestamp? h.openedTs,
    normalizeTs_of_timestamp? h.filledTs, normalizeTs_of_timestamp? h.closedTs]
  rfl

/-- What a reason says: nothing where it is missing or empty, and a state otherwise. -/
def exitReason? (raw : WireValue) : Option (Option LifecycleState) :=
  if raw = .null ∨ raw = .text (.plain "") then some none
  else (lifecycleStateFromValue raw).map some

/-- The payload says the lifecycle, its reason included. -/
structure Wire.Says (value : WireMapping) (l : LifecycleRecord) : Prop extends Wire.Reads value l where
  reason : exitReason? (value.get "exit_reason") = some l.exitReason

theorem exitReason?_eq_some (h : exitReason? raw ≠ none) :
    exitReason? raw = some (Wire.exitReasonOf raw) := by
  rw [exitReason?] at h ⊢
  rw [Wire.exitReasonOf]
  split at h
  · rename_i hempty
    rw [if_pos hempty, if_pos hempty]
  · rename_i hset
    rw [if_neg hset, if_neg hset]
    cases hstate : lifecycleStateFromValue raw with
    | none => rw [hstate] at h; exact absurd rfl h
    | some state => rfl

/-- **The wire form of a lifecycle.** What the constructor admits comes back from the wire, rounded and
in UTC; what the decoder accepts is admissible and comes back rounded; and where the reason is
readable, the decoder accepts what says a lifecycle that the constructor admits, and nothing else. -/
theorem Wire.lifecycle_round_trip :
    (∀ l : LifecycleRecord, l.postInit = .ok ⟨⟩ →
      Wire.planLifecycleFromWire l.asDict = some l.normalized) ∧
    (∀ (value : WireMapping) (l : LifecycleRecord), Wire.planLifecycleFromWire value = some l →
      l.postInit = .ok ⟨⟩ ∧ Wire.planLifecycleFromWire l.asDict = some l.rounded) ∧
    ∀ (value : WireMapping) (l : LifecycleRecord), exitReason? (value.get "exit_reason") ≠ none →
      (Wire.planLifecycleFromWire value = some l ↔ Wire.Says value l ∧ l.postInit = .ok ⟨⟩) := by
  have hencoded : ∀ l : LifecycleRecord, l.Admissible →
      Wire.planLifecycleFromWire l.asDict = some l.normalized := fun l h =>
    (reads_asDict h).decode h.normalized
  refine ⟨fun l h => hencoded l (LifecycleRecord.postInit_eq_ok.mp h), fun value l h => ?_,
    fun value l hreadable => ?_⟩
  · obtain ⟨hreads, hadmissible⟩ := Wire.planLifecycleFromWire_eq_some.mp h
    rw [← normalized_of_reads hreads]
    exact ⟨LifecycleRecord.postInit_eq_ok.mpr hadmissible, hencoded l hadmissible⟩
  · rw [Wire.planLifecycleFromWire_eq_some, LifecycleRecord.postInit_eq_ok]
    refine and_congr_left fun _ => ⟨fun h => ⟨h, ?_⟩, fun h => h.toReads⟩
    rw [exitReason?_eq_some hreadable, h.exitReason]

/-- A followed plan whose entry has five decimals. -/
def fineEntry : WireMapping
  | "state" => some (.text (.plain "FOLLOW"))
  | "active" => some (.bool true)
  | "direction" => some (.text (.plain "long"))
  | "entry" => some (.float (100001 / 100000))
  | "filled" => some (.bool true)
  | _ => none

/-- It is accepted, and its encoding says another entry. -/
theorem fineEntry_moves :
    (Wire.planLifecycleFromWire fineEntry).map (fun l => l.entry) = some (some (100001 / 100000)) ∧
      ((Wire.planLifecycleFromWire fineEntry).bind fun l =>
        (Wire.planLifecycleFromWire l.asDict).map fun l => l.entry) = some (some 1) := by
  decide +kernel

end RoundTrip

/-! ### Payloads by their readers -/

namespace WireField

variable {α : Type}

/-- A field that may be missing. -/
def ofOptional : Option (Option α) → WireField α
  | none => invalid
  | some none => missing
  | some (some a) => value a

/-- A field that is read where it is there. -/
def ofRead (read : WireValue → Option α) : Option WireValue → WireField α
  | none => missing
  | some raw => ((read raw).map value).getD invalid

@[simp] theorem optional_ofOptional (a : Option (Option α)) : (ofOptional a).optional = a := by
  rcases a with _ | _ | a <;> rfl

theorem getD_ofRead (read : WireValue → Option α) (defaultRaw : WireValue) {default : α}
    {field : Option WireValue} (hdefault : read defaultRaw = some default) :
    (ofRead read field).getD default = read (field.getD defaultRaw) := by
  cases field with
  | none => exact hdefault.symm
  | some raw => cases h : read raw <;> simp [ofRead, h, getD]

theorem required_ofRead {read : WireValue → Option α} {field : Option WireValue} {a : α}
    (hnull : read .null = none) (h : read (field.getD .null) = some a) :
    (ofRead read field).required = some a := by
  cases field with
  | none => exact absurd (hnull.symm.trans h) nofun
  | some raw =>
    have hraw : read raw = some a := h
    simp [ofRead, hraw, required]

end WireField

/-- The text, a timestamp by its spelling. -/
def WireText.spelling : WireText → String
  | .timestamp _ _ spelling => spelling
  | .plain text => text

/-- The instants of a lifecycle's timestamps. -/
def LifecycleRecord.fields (l : LifecycleRecord) : LifecycleFields where
  source := l.source.spelling
  state := l.state
  direction := l.direction
  entry := l.entry
  stop := l.stop
  target := l.target
  trail := l.trail
  openedTs := l.openedTs.bind parseAwareUtcTs
  filledTs := l.filledTs.bind parseAwareUtcTs
  closedTs := l.closedTs.bind parseAwareUtcTs
  exitPrice := l.exitPrice
  exitReason := l.exitReason
  ageBars := l.ageBars.toNat
  filled := l.filled

def WireValue.instant? (raw : WireValue) : Option (Option Time) :=
  raw.timestamp?.map fun ts => ts.bind parseAwareUtcTs

/-- A timestamp that may be missing reads as the instant it spells. -/
theorem WireField.optional_instant {raw : WireValue} {ts : Option WireText}
    (h : raw.timestamp? = some ts) :
    (ofOptional raw.instant?).optional = some (ts.bind parseAwareUtcTs) := by
  rw [optional_ofOptional, WireValue.instant?, h]
  rfl

def WireValue.age? (raw : WireValue) : Option ℕ :=
  raw.int?.bind fun n => if 0 ≤ n then some n.toNat else none

/-- What the readers of the fields make of a payload. -/
def WireMapping.payload (value : WireMapping) : LifecyclePayload where
  contractInvalid := .ofRead WireValue.bool? (value "contract_invalid")
  obsolete := .ofRead WireValue.bool? (value "obsolete")
  source := .ofRead (fun raw => raw.text?.map WireText.spelling) (value "source")
  state := .ofRead lifecycleStateFromValue (value "state")
  direction := .ofRead directionOfValue (value "direction")
  entry := .ofOptional (value.get "entry").price?
  stop := .ofOptional (value.get "stop").price?
  target := .ofOptional (value.get "target").price?
  trail := .ofOptional (value.get "trail").price?
  openedTs := .ofOptional (value.get "opened_ts").instant?
  filledTs := .ofOptional (value.get "filled_ts").instant?
  closedTs := .ofOptional (value.get "closed_ts").instant?
  exitPrice := .ofOptional (value.get "exit_price").price?
  exitReason := .ofOption (Wire.exitReasonOf (value.get "exit_reason"))
  ageBars := .ofRead WireValue.age? (value "age_bars")
  filled := .ofRead WireValue.bool? (value "filled")
  active := .ofRead WireValue.bool? (value "active")

theorem LifecycleRecord.Admissible.fields {l : LifecycleRecord} (h : l.Admissible) :
    l.fields.Admitted where
  direction := h.direction
  exitReason := h.exitReason
  «open» := by
    intro hopen
    obtain ⟨hprice, hclosed⟩ := h.open hopen
    exact ⟨hprice, by rw [LifecycleRecord.fields, hclosed]; rfl⟩
  waits := h.waits
  follows := h.follows
  filledTs := fun hfilled => by
    rw [LifecycleRecord.fields, h.filledTs hfilled]
    rfl

/-- What the decoder accepts is what the decoder of read fields makes of it. -/
theorem decode_payload {value : WireMapping} {l : LifecycleRecord}
    (h : Wire.planLifecycleFromWire value = some l) :
    (planLifecycleFromWire value.payload).map (fun plan => plan.toLifecycleFields) =
      some l.fields := by
  obtain ⟨hreads, hadmissible⟩ := Wire.planLifecycleFromWire_eq_some.mp h
  obtain ⟨obsolete, hobsolete, hobsoletes⟩ := hreads.obsolete
  have hfields := hadmissible.fields
  have hcontract : value.payload.contractInvalid.getD false = some false :=
    (WireField.getD_ofRead WireValue.bool? (.bool false) rfl).trans hreads.contractInvalid
  have hobsolete' : value.payload.obsolete.getD false = some obsolete :=
    (WireField.getD_ofRead WireValue.bool? (.bool false) rfl).trans hobsolete
  have hfilled : value.payload.filled.getD false = some l.filled :=
    (WireField.getD_ofRead WireValue.bool? (.bool false) rfl).trans hreads.filled
  have hdirection : value.payload.direction.getD .flat = some l.direction :=
    (WireField.getD_ofRead directionOfValue (.text (.plain "flat")) rfl).trans hreads.direction
  have hsource : value.payload.source.getD "lifecycle" = some l.source.spelling := by
    refine (WireField.getD_ofRead (fun raw => raw.text?.map WireText.spelling)
      (.text (.plain "lifecycle")) rfl).trans ?_
    rw [hreads.source]
    rfl
  have hage : value.payload.ageBars.getD 0 = some l.ageBars.toNat := by
    refine (WireField.getD_ofRead WireValue.age? (.int 0) rfl).trans ?_
    rw [WireValue.age?, hreads.ageBars]
    exact if_pos hadmissible.ageBars
  have hstate : value.payload.state.required = some l.state :=
    WireField.required_ofRead rfl hreads.state
  have hactive : value.payload.active.required = some l.state.active :=
    WireField.required_ofRead rfl hreads.active
  have hreason : value.payload.exitReason.required = l.exitReason := by
    rw [WireMapping.payload, WireField.required_ofOption, hreads.exitReason]
  have hopened : value.payload.openedTs.optional = some (l.openedTs.bind parseAwareUtcTs) :=
    WireField.optional_instant hreads.openedTs
  have hfilledTs : value.payload.filledTs.optional = some (l.filledTs.bind parseAwareUtcTs) :=
    WireField.optional_instant hreads.filledTs
  have hclosed : value.payload.closedTs.optional = some (l.closedTs.bind parseAwareUtcTs) :=
    WireField.optional_instant hreads.closedTs
  have hentry : value.payload.entry.optional = some l.entry :=
    (WireField.optional_ofOptional _).trans hreads.entry
  have hstop : value.payload.stop.optional = some l.stop :=
    (WireField.optional_ofOptional _).trans hreads.stop
  have htarget : value.payload.target.optional = some l.target :=
    (WireField.optional_ofOptional _).trans hreads.target
  have htrail : value.payload.trail.optional = some l.trail :=
    (WireField.optional_ofOptional _).trans hreads.trail
  have hexit : value.payload.exitPrice.optional = some l.exitPrice :=
    (WireField.optional_ofOptional _).trans hreads.exitPrice
  have hopen : l.state.terminal = false →
      l.exitPrice = none ∧ (l.closedTs.bind parseAwareUtcTs) = none := hfields.open
  have hunfilled : l.filled = false → (l.filledTs.bind parseAwareUtcTs) = none := hfields.filledTs
  unfold planLifecycleFromWire
  simp only [hcontract, hobsolete', hfilled, hdirection, hsource, hage, hstate, hactive, hreason,
    hopened, hfilledTs, hclosed, hentry, hstop, htarget, htrail, hexit, Option.bind_eq_bind,
    Option.bind_some, guard_of trivial, guard_of hadmissible.exitReason, guard_of hobsoletes,
    guard_of hadmissible.direction, guard_of hopen, guard_of hadmissible.waits,
    guard_of hadmissible.follows, guard_of hunfilled]
  have hconstruct : l.fields.construct = some ⟨l.fields, hfields⟩ := dif_pos hfields
  exact congrArg (Option.map fun plan => plan.toLifecycleFields) hconstruct

end AefTerminal
