import AefTerminal.Domain.Bar
import AefTerminal.Foundation.Fallible
import AefTerminal.Foundation.Run
import AefTerminal.Foundation.Span
import AefTerminal.Foundation.Text
import Mathlib.Data.List.Sort
import Mathlib.Data.Prod.Lex

/-!
# Schedules of a provider

A provider declares the trading hours of a route as a snapshot: the time it covers, and sessions
within that time. Storage keeps every snapshot and materialises their sessions: a new snapshot
replaces the stored sessions of a type that its own sessions of the type reach.

The tables are those of one route, and its identity columns are left out. What a payload says
beside the fields that are read, the spelling of its timestamps included, is `other`.

## Main definitions

* `normalizeTradingSessionIntervals`: the sessions of an admitted snapshot
* `tradingSessionIntervalReplacementHorizons`: what they replace
* `upsertTradingHours`, `deleteTradingHours`
* `readTradingSessionIntervals`, `readTradingSessionOpenState`
-/

namespace AefTerminal

open Foundation

inductive SessionType
  | liquid | trading
  deriving DecidableEq, Repr

inductive SessionStatus
  | opened | closed
  deriving DecidableEq, Repr

/-- The text of a type or a status, as it is stored. -/
def SessionType.text : SessionType → String
  | .liquid => "liquid"
  | .trading => "trading"

def SessionStatus.text : SessionStatus → String
  | .opened => "open"
  | .closed => "closed"

/-! ### Payloads -/

/-- A timestamp as a payload has it. -/
inductive ScheduleTimestamp
  /-- Not an ISO timestamp. -/
  | invalid
  /-- Without a time zone. -/
  | naive
  | aware (t : Time)
  deriving DecidableEq, Repr

/-- A session date as a payload has it; a day is counted from a fixed one. -/
inductive ScheduleDate
  /-- Not a text. -/
  | missing
  /-- Not the ISO text of a date. -/
  | invalid
  | day (d : ℤ)
  deriving DecidableEq, Repr

inductive ScheduleMetadata
  | missing
  /-- Not an object. -/
  | invalid
  | object (text : String)
  deriving DecidableEq, Repr

/-- A session of a payload. -/
structure ScheduleItem where
  sessionType : String
  status : String
  opensAt : ScheduleTimestamp
  closesAt : ScheduleTimestamp
  sessionDate : ScheduleDate
  metadata : ScheduleMetadata := .missing
  deriving DecidableEq, Repr

structure SchedulePayload where
  providerContractId : String
  scheduleFormat : String
  scheduleCoverageStart : ScheduleTimestamp
  scheduleCoverageEnd : ScheduleTimestamp
  /-- `none` where it is not a list; in the list, `none` for what is not an object. -/
  tradingIntervals : Option (List (Option ScheduleItem))
  other : String
  deriving DecidableEq, Repr

/-- A row of `trading_session_intervals`. -/
structure SessionInterval where
  sessionDate : ℤ
  sessionType : SessionType
  opensAt : Time
  closesAt : Time
  status : SessionStatus
  sourceFetchedAt : Time
  metadata : String
  deriving DecidableEq, Repr

namespace SessionInterval

def span (r : SessionInterval) : Span Time := ⟨r.opensAt, r.closesAt⟩

/-- The columns of the unique index. -/
def bounds (r : SessionInterval) : SessionType × Time × Time :=
  (r.sessionType, r.opensAt, r.closesAt)

/-- `ORDER BY opens_at, closes_at`. -/
def opensBefore (r r' : SessionInterval) : Prop :=
  r.opensAt < r'.opensAt ∨ r.opensAt = r'.opensAt ∧ r.closesAt ≤ r'.closesAt

instance : DecidableRel opensBefore := fun _ _ => inferInstanceAs (Decidable (_ ∨ _ ∧ _))

end SessionInterval

/-! ### Admission -/

def providerScheduleTimestamp (value : ScheduleTimestamp) (field : String) : Except String Time :=
  match value with
  | .invalid => .error ("PROVIDER_SCHEDULE_" ++ field ++ "_INVALID")
  | .naive => .error ("PROVIDER_SCHEDULE_" ++ field ++ "_TIMEZONE_REQUIRED")
  | .aware t => .ok t

/-- The value that a text names, up to white space and case. -/
def scheduleKey {α : Type} (values : List α) (text : α → String) (raw : String) : Option α :=
  values.find? fun value => text value = lower (strip raw)

def scheduleSessionType (raw : String) : Except String SessionType :=
  match scheduleKey [.liquid, .trading] SessionType.text raw with
  | none => .error "PROVIDER_SCHEDULE_SESSION_TYPE_INVALID"
  | some type => .ok type

def scheduleStatus (raw : String) : Except String SessionStatus :=
  match scheduleKey [.opened, .closed] SessionStatus.text raw with
  | none => .error "PROVIDER_SCHEDULE_STATUS_INVALID"
  | some status => .ok status

def scheduleSessionDate : ScheduleDate → Except String ℤ
  | .missing => .error "PROVIDER_SCHEDULE_SESSION_DATE_REQUIRED"
  | .invalid => .error "PROVIDER_SCHEDULE_SESSION_DATE_INVALID"
  | .day d => .ok d

def scheduleMetadata : ScheduleMetadata → Except String String
  | .missing => .ok "{}"
  | .invalid => .error "PROVIDER_SCHEDULE_INTERVAL_METADATA_INVALID"
  | .object text => .ok text

/-- One pass of the loop over the declared sessions, after those in `rows`. -/
def normalizeScheduleItem (coverage : Span Time) (fetchedAt : Time) (rows : List SessionInterval)
    (item : Option ScheduleItem) : Except String (List SessionInterval) := do
  match item with
  | none => .error "PROVIDER_SCHEDULE_INTERVAL_INVALID"
  | some item =>
    let sessionType ← scheduleSessionType item.sessionType
    let status ← scheduleStatus item.status
    let opensAt ← providerScheduleTimestamp item.opensAt "OPENS_AT"
    let closesAt ← providerScheduleTimestamp item.closesAt "CLOSES_AT"
    require (opensAt < closesAt ∧ coverage.starts ≤ opensAt ∧ closesAt ≤ coverage.ends)
      "PROVIDER_SCHEDULE_INTERVAL_RANGE_INVALID"
    require ((sessionType, opensAt, closesAt) ∉ rows.map SessionInterval.bounds)
      "PROVIDER_SCHEDULE_INTERVAL_DUPLICATE"
    let sessionDate ← scheduleSessionDate item.sessionDate
    let metadata ← scheduleMetadata item.metadata
    return rows ++ [⟨sessionDate, sessionType, opensAt, closesAt, status, fetchedAt, metadata⟩]

/-- The rows of a type. -/
def ofType (type : SessionType) (rows : List SessionInterval) : List SessionInterval :=
  rows.filter fun r => r.sessionType = type

/-- Sorted, each row ends before the next opens. -/
def Unoverlapped (rows : List SessionInterval) : Prop :=
  ((rows.insertionSort SessionInterval.opensBefore).map SessionInterval.span).IsChain Span.Before

instance (rows : List SessionInterval) : Decidable (Unoverlapped rows) :=
  inferInstanceAs (Decidable (List.IsChain (fun s s' : Span Time => s.ends ≤ s'.starts) _))

def scheduleCoverage (payload : SchedulePayload) : Except String (Span Time) := do
  require (payload.scheduleFormat = "provider_declared_intervals")
    "PROVIDER_SCHEDULE_FORMAT_INVALID"
  let coverageStart ← providerScheduleTimestamp payload.scheduleCoverageStart "COVERAGE_START"
  let coverageEnd ← providerScheduleTimestamp payload.scheduleCoverageEnd "COVERAGE_END"
  require (coverageStart < coverageEnd) "PROVIDER_SCHEDULE_COVERAGE_RANGE_INVALID"
  return ⟨coverageStart, coverageEnd⟩

def normalizeTradingSessionIntervals (payload : SchedulePayload) (fetchedAt : Time) :
    Except String (List SessionInterval) := do
  let coverage ← scheduleCoverage payload
  match payload.tradingIntervals with
  | none | some [] => .error "PROVIDER_SCHEDULE_INTERVALS_REQUIRED"
  | some items =>
    let rows ← items.foldlM (normalizeScheduleItem coverage fetchedAt) []
    require (∀ type ∈ [SessionType.liquid, .trading], Unoverlapped (ofType type rows))
      "PROVIDER_SCHEDULE_INTERVAL_OVERLAP"
    return rows

/-! ### Storage -/

/-- A row of `trading_schedule_snapshots`. -/
structure ScheduleSnapshot where
  timezone : String
  tradingHours : String
  liquidHours : String
  rawPayload : SchedulePayload
  fetchedAt : Time
  deriving DecidableEq, Repr

/-- The tables of a route. The row of `trading_hours` has the columns of a snapshot. -/
structure ScheduleTables where
  hours : Option ScheduleSnapshot
  snapshots : List ScheduleSnapshot
  intervals : List SessionInterval
  deriving Repr

namespace ScheduleTables

def empty : ScheduleTables := ⟨none, [], []⟩

end ScheduleTables

structure TradingSessionIntervalReplacement where
  sessionType : SessionType
  startsAt : Time
  endsAt : Time
  rows : List SessionInterval
  deriving DecidableEq, Repr

def TradingSessionIntervalReplacement.horizon (r : TradingSessionIntervalReplacement) :
    Span Time :=
  ⟨r.startsAt, r.endsAt⟩

/-- What the rows of a type replace, where there are any. -/
def replacementOfType (rows : List SessionInterval) (type : SessionType) :
    Option TradingSessionIntervalReplacement := do
  let replacements := ofType type rows
  let startsAt ← (replacements.map SessionInterval.opensAt).min?
  let endsAt ← (replacements.map SessionInterval.closesAt).max?
  return ⟨type, startsAt, endsAt, replacements⟩

def tradingSessionIntervalReplacementHorizons (rows : List SessionInterval) :
    List TradingSessionIntervalReplacement :=
  [SessionType.liquid, .trading].filterMap (replacementOfType rows)

/-- The rows of the type that meet the horizon are deleted. -/
def deleteHorizon (intervals : List SessionInterval) (r : TradingSessionIntervalReplacement) :
    List SessionInterval :=
  intervals.filter fun row => ¬ (row.sessionType = r.sessionType ∧ row.span.Meets r.horizon)

/-- A row is inserted, in place of the row with its bounds where there is one. -/
def insertInterval (intervals : List SessionInterval) (row : SessionInterval) :
    List SessionInterval :=
  if row.bounds ∈ intervals.map SessionInterval.bounds then
    intervals.map fun r => if r.bounds = row.bounds then row else r
  else intervals ++ [row]

/-- The sessions of a snapshot replace the stored ones. -/
def replaceIntervals (intervals rows : List SessionInterval) : List SessionInterval :=
  let replacements := tradingSessionIntervalReplacementHorizons rows
  (replacements.flatMap TradingSessionIntervalReplacement.rows).foldl insertInterval
    (replacements.foldl deleteHorizon intervals)

/-- What a provider says of its trading hours. -/
structure ScheduleUpdate where
  timezone : String
  tradingHours : String
  liquidHours : String
  payload : SchedulePayload
  deriving DecidableEq, Repr

def ScheduleUpdate.snapshot (u : ScheduleUpdate) (fetchedAt : Time) : ScheduleSnapshot :=
  ⟨u.timezone, u.tradingHours, u.liquidHours, u.payload, fetchedAt⟩

def ScheduleSnapshot.update (s : ScheduleSnapshot) : ScheduleUpdate :=
  ⟨s.timezone, s.tradingHours, s.liquidHours, s.rawPayload⟩

def laterSnapshot (latest : Option ScheduleSnapshot) (s : ScheduleSnapshot) :
    Option ScheduleSnapshot :=
  match latest with
  | none => some s
  | some s' => if s'.fetchedAt < s.fetchedAt then some s else some s'

namespace ScheduleTables

/-- `ORDER BY fetched_at DESC LIMIT 1` -/
def latestSnapshot (t : ScheduleTables) : Option ScheduleSnapshot :=
  t.snapshots.foldl laterSnapshot none

def scheduleChanged (t : ScheduleTables) (u : ScheduleUpdate) : Prop :=
  t.latestSnapshot.map ScheduleSnapshot.update ≠ some u

instance (t : ScheduleTables) (u : ScheduleUpdate) : Decidable (t.scheduleChanged u) :=
  inferInstanceAs (Decidable (_ ≠ _))

/-- `ON CONFLICT (instrument_id, route_fingerprint, fetched_at) DO NOTHING` -/
def insertSnapshot (snapshots : List ScheduleSnapshot) (s : ScheduleSnapshot) :
    List ScheduleSnapshot :=
  if s.fetchedAt ∈ snapshots.map ScheduleSnapshot.fetchedAt then snapshots else snapshots ++ [s]

def upsertTradingHours (t : ScheduleTables) (u : ScheduleUpdate) (fetchedAt : Time) :
    Except String ScheduleTables := do
  let rows ← normalizeTradingSessionIntervals u.payload fetchedAt
  let hours := some (u.snapshot fetchedAt)
  if t.scheduleChanged u then
    return ⟨hours, insertSnapshot t.snapshots (u.snapshot fetchedAt),
      replaceIntervals t.intervals rows⟩
  else
    return { t with hours }

def deleteTradingHours (_ : ScheduleTables) : ScheduleTables := .empty

end ScheduleTables

inductive ScheduleAct
  /-- `upsert_trading_hours`, which reads the clock. -/
  | upsert (u : ScheduleUpdate) (fetchedAt : Time)
  | delete
  deriving DecidableEq, Repr

namespace ScheduleTables

/-- A call that raises leaves the tables. -/
def step (t : ScheduleTables) : ScheduleAct → ScheduleTables
  | .upsert u fetchedAt =>
    match t.upsertTradingHours u fetchedAt with
    | .ok t' => t'
    | .error _ => t
  | .delete => t.deleteTradingHours

end ScheduleTables

def ScheduleStep (t : ScheduleTables) (act : ScheduleAct) (t' : ScheduleTables) : Prop :=
  t.step act = t'

/-! ### Readers -/

/-- A row as `read_trading_session_intervals` returns it. -/
structure SessionIntervalRead where
  interval : SessionInterval
  sourceCoverage : Option (Span Time)
  deriving DecidableEq, Repr

/-- The payload declares sessions of the type, spelled as it is stored. -/
def SchedulePayload.declares (p : SchedulePayload) (type : SessionType) : Prop :=
  p.scheduleFormat = "provider_declared_intervals" ∧
    ∃ item ∈ (p.tradingIntervals.getD []).reduceOption, item.sessionType = type.text

instance (p : SchedulePayload) (type : SessionType) : Decidable (p.declares type) :=
  inferInstanceAs (Decidable (_ ∧ ∃ item ∈ _, _))

/-- The declared coverage of a snapshot, where its timestamps can be read. -/
def SchedulePayload.snapshotCoverage (p : SchedulePayload) : Option (Span Time) :=
  match p.scheduleCoverageStart, p.scheduleCoverageEnd with
  | .aware starts, .aware ends => if starts < ends then some ⟨starts, ends⟩ else none
  | _, _ => none

/-- The least span that holds two others. -/
def spanUnion (s s' : Span Time) : Span Time := ⟨min s.starts s'.starts, max s.ends s'.ends⟩

namespace ScheduleTables

variable (t : ScheduleTables)

/-- The rows of the type that one snapshot left in the table, from the first opening to the last
close. -/
def materializedCoverage (r : SessionInterval) : Span Time :=
  ((ofType r.sessionType t.intervals).filter fun r' =>
    r'.sourceFetchedAt = r.sourceFetchedAt).foldl (fun s r' => spanUnion s r'.span) r.span

/-- The coverage of the snapshot that a row is from. -/
def sourceCoverage (r : SessionInterval) : Option (Span Time) := do
  let snapshot ← t.snapshots.find? fun s => s.fetchedAt = r.sourceFetchedAt
  guard (snapshot.rawPayload.declares r.sessionType)
  match snapshot.rawPayload.snapshotCoverage with
  | none => return t.materializedCoverage r
  | some declared => return spanUnion (t.materializedCoverage r) declared

/-- `max(1, min(int(limit), 4096))` -/
def rowLimit (limit : ℤ) : ℕ := (max 1 (min limit 4096)).toNat

/-- The rows of the type, in the order in which they are read. -/
def sortedIntervals (type : SessionType) : List SessionInterval :=
  (ofType type t.intervals).insertionSort SessionInterval.opensBefore

/-- The rows of the type that meet a range. -/
def nearby (type : SessionType) (range : Span Time) : List SessionInterval :=
  (t.sortedIntervals type).filter fun r => r.span.Meets range

/-- `read_trading_session_intervals`, of a range where one is given, else of the latest rows. -/
def readTradingSessionIntervals (type : SessionType) (range : Option (Span Time)) (limit : ℤ) :
    List SessionIntervalRead :=
  let rows :=
    match range with
    | some range =>
      if range.ends ≤ range.starts then [] else (t.nearby type range).take (rowLimit limit)
    | none => ((t.sortedIntervals type).reverse.take (rowLimit limit)).reverse
  rows.map fun r => ⟨r, t.sourceCoverage r⟩

end ScheduleTables

/-- A day, in microseconds. -/
def oneDay : Time := 86400000000

/-- Two days around an instant. -/
def openStateRange (ts : Time) : Span Time := ⟨ts - 2 * oneDay, ts + 2 * oneDay⟩

/-- A row of the status holds the instant. -/
def holdsAs (status : SessionStatus) (ts : Time) (rows : List SessionIntervalRead) : Prop :=
  ∃ r ∈ rows, r.interval.status = status ∧ r.interval.span.Holds ts

instance (status : SessionStatus) (ts : Time) (rows : List SessionIntervalRead) :
    Decidable (holdsAs status ts rows) :=
  inferInstanceAs (Decidable (∃ r ∈ rows, _))

/-- The source coverage of a row holds the instant. -/
def coversAt (ts : Time) (rows : List SessionIntervalRead) : Prop :=
  ∃ r ∈ rows, ∃ s ∈ r.sourceCoverage, s.Holds ts

instance (ts : Time) (rows : List SessionIntervalRead) : Decidable (coversAt ts rows) :=
  inferInstanceAs (Decidable (∃ r ∈ rows, _))

/-- `read_trading_session_open_state` -/
def ScheduleTables.readTradingSessionOpenState (t : ScheduleTables) (ts : Time)
    (type : SessionType) : Option Bool :=
  let rows := t.readTradingSessionIntervals type (some (openStateRange ts)) 4096
  if holdsAs .opened ts rows then some true
  else if holdsAs .closed ts rows then some false
  else if coversAt ts rows then some false
  else none

/-! ### What the readers see -/

/-- The rows have an open session of the type that holds the instant. -/
def OpenIn (rows : List SessionInterval) (type : SessionType) (ts : Time) : Prop :=
  ∃ r ∈ rows, r.sessionType = type ∧ r.status = .opened ∧ r.span.Holds ts

/-- The stored open state. -/
def ScheduleTables.OpenAt (t : ScheduleTables) (type : SessionType) (ts : Time) : Prop :=
  OpenIn t.intervals type ts

namespace ScheduleTables

variable {t : ScheduleTables} {type : SessionType} {range : Span Time} {ts : Time}

theorem mem_nearby {r : SessionInterval} :
    r ∈ t.nearby type range ↔ r ∈ t.intervals ∧ r.sessionType = type ∧ r.span.Meets range := by
  simp [nearby, sortedIntervals, ofType, and_assoc]

/-- The rows of a range, up to the limit. -/
theorem mem_readTradingSessionIntervals {limit : ℤ} {r : SessionIntervalRead}
    (hrange : range.Proper) :
    r ∈ t.readTradingSessionIntervals type (some range) limit ↔
      r.interval ∈ (t.nearby type range).take (rowLimit limit) ∧
        r.sourceCoverage = t.sourceCoverage r.interval := by
  simp only [readTradingSessionIntervals, if_neg (not_le.mpr hrange), List.mem_map]
  constructor
  · rintro ⟨r', hr', rfl⟩
    exact ⟨hr', rfl⟩
  · rintro ⟨hr, hcoverage⟩
    exact ⟨r.interval, hr, by rw [← hcoverage]⟩

theorem openStateRange_proper (ts : Time) : (openStateRange ts).Proper := by
  have h (t : ℤ) : t - 2 * 86400000000 < t + 2 * 86400000000 := by omega
  exact h ts

theorem openStateRange_holds (ts : Time) : (openStateRange ts).Holds ts := by
  have h (t : ℤ) : t - 2 * 86400000000 ≤ t ∧ t < t + 2 * 86400000000 := by omega
  exact h ts

/-- The rows that the open state is read from. -/
def visible (t : ScheduleTables) (type : SessionType) (ts : Time) : List SessionInterval :=
  (t.nearby type (openStateRange ts)).take 4096

theorem mem_visible_of_few {r : SessionInterval}
    (hfew : (t.nearby type (openStateRange ts)).length ≤ 4096) :
    r ∈ t.visible type ts ↔
      r ∈ t.intervals ∧ r.sessionType = type ∧ r.span.Meets (openStateRange ts) := by
  rw [visible, List.take_of_length_le hfew, mem_nearby]

theorem holdsAs_iff {status : SessionStatus} :
    holdsAs status ts (t.readTradingSessionIntervals type (some (openStateRange ts)) 4096) ↔
      ∃ r ∈ t.visible type ts, r.status = status ∧ r.span.Holds ts := by
  have hlimit : rowLimit 4096 = 4096 := rfl
  simp only [holdsAs, mem_readTradingSessionIntervals (openStateRange_proper ts), hlimit]
  exact ⟨fun ⟨r, ⟨hr, _⟩, h⟩ => ⟨r.interval, hr, h⟩, fun ⟨r, hr, h⟩ => ⟨⟨r, t.sourceCoverage r⟩, ⟨hr, rfl⟩, h⟩⟩

theorem coversAt_iff :
    coversAt ts (t.readTradingSessionIntervals type (some (openStateRange ts)) 4096) ↔
      ∃ r ∈ t.visible type ts, ∃ s ∈ t.sourceCoverage r, s.Holds ts := by
  have hlimit : rowLimit 4096 = 4096 := rfl
  simp only [coversAt, mem_readTradingSessionIntervals (openStateRange_proper ts), hlimit]
  exact ⟨fun ⟨r, ⟨hr, hcoverage⟩, h⟩ => ⟨r.interval, hr, hcoverage ▸ h⟩,
    fun ⟨r, hr, h⟩ => ⟨⟨r, t.sourceCoverage r⟩, ⟨hr, rfl⟩, h⟩⟩

/-- The reader reports an instant open where a visible open row holds it. -/
theorem readOpenState_eq_true_iff :
    t.readTradingSessionOpenState ts type = some true ↔
      ∃ r ∈ t.visible type ts, r.status = .opened ∧ r.span.Holds ts := by
  rw [← holdsAs_iff]
  simp only [readTradingSessionOpenState]
  split
  · rename_i h
    exact iff_of_true rfl h
  · rename_i h
    refine iff_of_false ?_ h
    split
    · simp
    · split <;> simp

end ScheduleTables

end AefTerminal
