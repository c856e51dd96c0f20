import AefTerminal.Sessions.Schedule

/-!
# Bar slots within a schedule

`provider_session_bar_slot_coverage_between` tells which bars a window should have, and whether the
schedule of the provider is known for all of it: the coverage of the sessions around the window
holds every instant of it. `read_trading_session_open_state` answers for one instant, from the
sessions within two days and the coverage of these.

Coverage can come from a session that is further away. So a window can be verified while no state
is read for an instant in the middle of a long closure.

## Main definitions

* `SessionSource`: what the coverage of slots takes from a provider, beside the sessions
* `providerSessionBarSlotCoverageBetween`
* `InSight`: the condition

## Main results

* `readers_agree_iff`: in a verified window both readers agree on an instant exactly where the
  sessions around it tell its state
* `closure_unread`: a long closure
-/

namespace AefTerminal

open Foundation

inductive ScheduleState
  | continuous | verified | unknown
  deriving DecidableEq, Repr

structure ProviderSessionBarSlotCoverage where
  scheduleState : ScheduleState
  expectedSlots : List Time
  truncated : Bool
  pendingCursor : Option Time
  verifiedUntil : Option Time
  scheduleRevision : ℤ
  deriving DecidableEq, Repr

structure ProviderBarBucket where
  startsAt : Time
  closesAt : Time
  deriving DecidableEq, Repr

/-- A time zone: the date of an instant, and the instant at which a date begins. -/
structure SessionZone where
  date : Time → ℤ
  midnight : ℤ → Time

/-- What a provider and its adapter say of a route, and the stored sessions where there is a
store. -/
structure SessionSource where
  continuousSession : Bool
  store : Option ScheduleTables
  /-- `_cached_provider_trading_hours` -/
  hours : Option ScheduleSnapshot
  /-- `ZoneInfo`, `none` where the name is not one. -/
  zone : String → Option SessionZone
  historySessionScope : String
  /-- `provider_session_bar_buckets`, with `none` for what is not a bucket. -/
  buckets : Time → Time → List (Option ProviderBarBucket)

/-! ### The slots of a session -/

/-- One session: the buckets up to the first that is none, within the window. Past the limit the
loop stops. -/
def collectBuckets (limit : ℕ) (window : Span Time) :
    List (Option ProviderBarBucket) → List Time → List Time
  | [], collected => collected
  | none :: _, collected => collected
  | some b :: buckets, collected =>
    if b.closesAt ≤ b.startsAt then collected
    else if window.starts ≤ b.startsAt ∧ b.closesAt ≤ window.ends then
      let collected := collected.insert b.startsAt
      if limit < collected.length then collected
      else collectBuckets limit window buckets collected
    else collectBuckets limit window buckets collected

def collectSlots (limit : ℕ) (window : Span Time)
    (buckets : Time → Time → List (Option ProviderBarBucket)) :
    List (Span Time) → List Time → List Time
  | [], collected => collected
  | s :: sessions, collected =>
    let collected := collectBuckets limit window (buckets s.starts s.ends) collected
    if limit < collected.length then collected
    else collectSlots limit window buckets sessions collected

/-! ### The coverage of a window -/

@[irreducible] def sessionCoverageIntervalLimit : ℕ := 2048

/-- `_provider_schedule_revision` -/
def providerScheduleRevision (values : List Time) : ℤ := values.max?.getD 0

/-- The source coverage of a row that lies in it. -/
def SessionIntervalRead.authority (r : SessionIntervalRead) : Option (Span Time) :=
  r.sourceCoverage.filter fun s => r.interval.span.Proper ∧ s.Proper ∧ r.interval.span.Within s

def spanSorted (spans : List (Span Time)) : List (Span Time) :=
  spans.insertionSort fun s s' => s.starts < s'.starts ∨ s.starts = s'.starts ∧ s.ends ≤ s'.ends

/-- How far the rows cover the window from its start, where every row has an authority. -/
def coverageContract (rows : List SessionIntervalRead) (window : Span Time) : Option Time :=
  if rows = [] ∨ ∃ r ∈ rows, r.authority = none then none
  else some (coveredUntil window.ends window.starts
    (spanSorted (rows.filterMap SessionIntervalRead.authority)))

def openSessions (rows : List SessionIntervalRead) : List (Span Time) :=
  spanSorted <| (rows.filter fun r => r.interval.status = .opened ∧ r.authority.isSome).map
    fun r => r.interval.span

/-- The window, cut to whole local days. -/
def localDays (zone : SessionZone) (window : Span Time) : Span Time :=
  ⟨zone.midnight (zone.date window.starts), zone.midnight (zone.date (window.ends - 1) + 1)⟩

/-- From the rows of the window's days. -/
def verifiedSlotCoverage (rawRows : List SessionIntervalRead) (window : Span Time) (limit : ℕ)
    (buckets : Time → Time → List (Option ProviderBarBucket)) (hoursRevision : ℤ) :
    ProviderSessionBarSlotCoverage :=
  let rowsTruncated : Bool := sessionCoverageIntervalLimit < rawRows.length
  let rows := rawRows.take sessionCoverageIntervalLimit
  let covered := if rowsTruncated then none else coverageContract rows window
  let slots := (collectSlots limit window buckets (openSessions rows) []).insertionSort (· ≤ ·)
  { scheduleState :=
      match covered with
      | some mark => if window.ends ≤ mark then .verified else .unknown
      | none => .unknown
    expectedSlots := slots.take limit
    truncated := limit < slots.length ∨ rowsTruncated
    pendingCursor :=
      match slots[limit]?, rowsTruncated, rows.getLast? with
      | some slot, _, _ => some slot
      | none, true, some last => some (min last.interval.closesAt window.ends)
      | none, _, _ => none
    verifiedUntil := covered.bind fun mark =>
      if window.starts < mark then some (min mark window.ends) else none
    scheduleRevision :=
      max hoursRevision (providerScheduleRevision (rows.map fun r => r.interval.sourceFetchedAt)) }

/-- The first slot at or after an instant, and how many whole slots follow it until another. -/
def firstSlot (step : Time) (starts : Time) : Time := -((-starts) / step) * step

def totalSlots (step first ends : Time) : ℕ := ((ends - first) / step).toNat

/-- A session that never closes. -/
def continuousSlotCoverage (step : Time) (window : Span Time) (limit : ℕ) :
    ProviderSessionBarSlotCoverage :=
  let first := firstSlot step window.starts
  let total := totalSlots step first window.ends
  let returned := min total limit
  { scheduleState := .continuous
    expectedSlots := (List.range returned).map fun index => first + index * step
    truncated := returned < total
    pendingCursor := if returned < total then some (first + returned * step) else none
    verifiedUntil := some window.ends
    scheduleRevision := 0 }

def unknownSlotCoverage (scheduleRevision : ℤ) : ProviderSessionBarSlotCoverage :=
  ⟨.unknown, [], false, none, none, scheduleRevision⟩

/-- `session_scope or provider_history_session_scope(adapter, resolved)` -/
def resolveScope (source : SessionSource) (sessionScope : Option String) :
    Except String SessionType :=
  let scope := (sessionScope.filter fun s => s ≠ "").getD source.historySessionScope
  match [SessionType.liquid, .trading].find? fun type => type.text = scope with
  | some type => .ok type
  | none => .error ("PROVIDER_HISTORY_SESSION_SCOPE_INVALID scope='" ++ scope ++ "'")

def providerSessionBarSlotCoverageBetween (source : SessionSource) (window : Span Time)
    (interval : ChartInterval) (sessionScope : Option String) (limit : ℤ) :
    Except String ProviderSessionBarSlotCoverage := do
  let slotLimit := (max limit 1).toNat
  let step : Time := (max interval.minutes 1 : ℕ) * 60 * 1000000
  if source.continuousSession then
    return continuousSlotCoverage step window slotLimit
  match source.store with
  | none => return unknownSlotCoverage 0
  | some store =>
    let revision := providerScheduleRevision (source.hours.toList.map ScheduleSnapshot.fetchedAt)
    match source.hours.bind fun hours =>
      if hours.rawPayload.providerContractId = "" ∨ strip hours.timezone = "" then none
      else source.zone (strip hours.timezone) with
    | none => return unknownSlotCoverage revision
    | some zone =>
      if window.ends ≤ window.starts then
        return ⟨.verified, [], false, none, some window.ends, revision⟩
      let scope ← resolveScope source sessionScope
      let rawRows := store.readTradingSessionIntervals scope (some (localDays zone window))
        (sessionCoverageIntervalLimit + 1)
      return verifiedSlotCoverage rawRows window slotLimit source.buckets revision

/-! ### What a verified window says -/

/-- The reader knows the state of the instant, and reports it open where it is stored open. -/
def ScheduleTables.Reads (t : ScheduleTables) (type : SessionType) (ts : Time) : Prop :=
  t.readTradingSessionOpenState ts type ≠ none ∧
    (t.readTradingSessionOpenState ts type = some true ↔ t.OpenAt type ts)

/-- Of the first rows within two days, one holds the instant or comes from a snapshot that covers
it; and where a stored open row holds it, one of the first does. -/
def ScheduleTables.InSight (t : ScheduleTables) (type : SessionType) (ts : Time) : Prop :=
  (∃ r ∈ t.visible type ts, r.span.Holds ts ∨ ∃ s ∈ t.sourceCoverage r, s.Holds ts) ∧
    (t.OpenAt type ts → ∃ r ∈ t.visible type ts, r.status = .opened ∧ r.span.Holds ts)

namespace ScheduleTables

variable {t : ScheduleTables} {type : SessionType} {ts : Time}

theorem mem_of_visible {r : SessionInterval} (hr : r ∈ t.visible type ts) :
    r ∈ t.intervals ∧ r.sessionType = type :=
  have hnearby := mem_nearby.mp (List.mem_of_mem_take hr)
  ⟨hnearby.1, hnearby.2.1⟩

theorem readOpenState_ne_none_iff :
    t.readTradingSessionOpenState ts type ≠ none ↔
      ∃ r ∈ t.visible type ts, r.span.Holds ts ∨ ∃ s ∈ t.sourceCoverage r, s.Holds ts := by
  have hstate (r : SessionInterval) : r.status = .opened ∨ r.status = .closed := by
    cases r.status <;> simp
  have hread : t.readTradingSessionOpenState ts type ≠ none ↔
      (∃ r ∈ t.visible type ts, r.status = .opened ∧ r.span.Holds ts) ∨
        (∃ r ∈ t.visible type ts, r.status = .closed ∧ r.span.Holds ts) ∨
          ∃ r ∈ t.visible type ts, ∃ s ∈ t.sourceCoverage r, s.Holds ts := by
    rw [← holdsAs_iff, ← holdsAs_iff, ← coversAt_iff]
    simp only [readTradingSessionOpenState]
    split_ifs <;> simp [*]
  rw [hread]
  constructor
  · rintro (⟨r, hr, -, hts⟩ | ⟨r, hr, -, hts⟩ | ⟨r, hr, hcovers⟩)
    · exact ⟨r, hr, .inl hts⟩
    · exact ⟨r, hr, .inl hts⟩
    · exact ⟨r, hr, .inr hcovers⟩
  · rintro ⟨r, hr, hts | hcovers⟩
    · rcases hstate r with hopen | hclosed
      · exact .inl ⟨r, hr, hopen, hts⟩
      · exact .inr (.inl ⟨r, hr, hclosed, hts⟩)
    · exact .inr (.inr ⟨r, hr, hcovers⟩)

theorem reads_iff : t.Reads type ts ↔ t.InSight type ts := by
  rw [Reads, InSight, readOpenState_ne_none_iff, readOpenState_eq_true_iff]
  refine and_congr_right fun _ => ⟨fun h => h.mpr, fun h => ⟨?_, h⟩⟩
  rintro ⟨r, hr, hopen, hts⟩
  obtain ⟨hmem, htype⟩ := mem_of_visible hr
  exact ⟨r, hmem, htype, hopen, hts⟩

end ScheduleTables

theorem SessionIntervalRead.authority_eq_some {r : SessionIntervalRead} {s : Span Time}
    (h : r.authority = some s) : s ∈ r.sourceCoverage := (Option.filter_eq_some_iff.mp h).1

/-- What the rows cover, a row covers. -/
theorem covers_of_coverageContract {rows : List SessionIntervalRead} {window : Span Time}
    {mark ts : Time} (h : coverageContract rows window = some mark) (hstart : window.starts ≤ ts)
    (hts : ts < mark) : ∃ r ∈ rows, ∃ s ∈ r.sourceCoverage, s.Holds ts := by
  rw [coverageContract] at h
  split at h
  · cases h
  · cases h
    obtain ⟨s, hs, hholds⟩ := coveredUntil_spec hstart hts
    rw [spanSorted, List.mem_insertionSort, List.mem_filterMap] at hs
    obtain ⟨r, hr, hauthority⟩ := hs
    exact ⟨r, hr, s, r.authority_eq_some hauthority, hholds⟩

theorem coverageContract_of_verified {rawRows : List SessionIntervalRead} {window : Span Time}
    {limit : ℕ} {buckets : Time → Time → List (Option ProviderBarBucket)} {revision : ℤ}
    (h : (verifiedSlotCoverage rawRows window limit buckets revision).scheduleState = .verified) :
    ∃ mark, window.ends ≤ mark ∧
      coverageContract (rawRows.take sessionCoverageIntervalLimit) window = some mark := by
  simp only [verifiedSlotCoverage] at h
  split at h
  · rename_i mark hmark
    split at h
    · rename_i hends
      split at hmark
      · cases hmark
      · exact ⟨mark, hends, hmark⟩
    · cases h
  · cases h

section

variable {source : SessionSource} {window : Span Time} {interval : ChartInterval}
  {sessionScope : Option String} {limit : ℤ} {t : ScheduleTables} {type : SessionType}
  {c : ProviderSessionBarSlotCoverage} {ts : Time}

/-- A verified coverage of a window is computed from the stored rows of some range. -/
theorem verified_eq_ok (hstore : source.store = some t)
    (hscope : resolveScope source sessionScope = .ok type)
    (hc : providerSessionBarSlotCoverageBetween source window interval sessionScope limit = .ok c)
    (hverified : c.scheduleState = .verified) (hwindow : window.Proper) :
    ∃ zone slotLimit revision, c = verifiedSlotCoverage
      (t.readTradingSessionIntervals type (some (localDays zone window))
        (sessionCoverageIntervalLimit + 1)) window slotLimit source.buckets revision := by
  simp only [providerSessionBarSlotCoverageBetween, hstore, hscope] at hc
  split at hc
  · obtain rfl := pure_eq_ok.mp hc
    cases hverified
  split at hc
  · obtain rfl := pure_eq_ok.mp hc
    cases hverified
  · rename_i zone _
    rw [if_neg (not_le.mpr hwindow)] at hc
    obtain rfl := pure_eq_ok.mp hc
    exact ⟨zone, _, _, rfl⟩

/-- What is read is stored, with the coverage of its snapshot. -/
theorem ScheduleTables.of_mem_read {range : Span Time} {r : SessionIntervalRead}
    (hr : r ∈ t.readTradingSessionIntervals type (some range) limit) :
    r.interval ∈ t.intervals ∧ r.interval.sessionType = type ∧
      r.sourceCoverage = t.sourceCoverage r.interval := by
  by_cases hrange : range.Proper
  · obtain ⟨hmem, hcoverage⟩ := (mem_readTradingSessionIntervals hrange).mp hr
    obtain ⟨hstored, htype, -⟩ := mem_nearby.mp (List.mem_of_mem_take hmem)
    exact ⟨hstored, htype, hcoverage⟩
  · rw [readTradingSessionIntervals] at hr
    simp only [if_pos (not_lt.mp hrange), List.map_nil, List.not_mem_nil] at hr

/-- **The two readers.** Every instant of a verified window is covered by the snapshot of a stored
session, and its state is read from the table exactly where the sessions within two days tell it. -/
theorem readers_agree_iff (hstore : source.store = some t)
    (hscope : resolveScope source sessionScope = .ok type)
    (hc : providerSessionBarSlotCoverageBetween source window interval sessionScope limit = .ok c)
    (hverified : c.scheduleState = .verified) (hts : window.Holds ts) :
    (∃ r ∈ t.intervals, r.sessionType = type ∧ ∃ s ∈ t.sourceCoverage r, s.Holds ts) ∧
      (t.Reads type ts ↔ t.InSight type ts) := by
  refine ⟨?_, ScheduleTables.reads_iff⟩
  obtain ⟨zone, slotLimit, revision, rfl⟩ := verified_eq_ok hstore hscope hc hverified hts.proper
  obtain ⟨mark, hends, hmark⟩ := coverageContract_of_verified hverified
  obtain ⟨r, hr, s, hs, hholds⟩ :=
    covers_of_coverageContract hmark hts.1 (lt_of_lt_of_le hts.2 hends)
  obtain ⟨hstored, htype, hcoverage⟩ := ScheduleTables.of_mem_read (List.mem_of_mem_take hr)
  exact ⟨r.interval, hstored, htype, s, hcoverage ▸ hs, hholds⟩

end

namespace ClosureExample

/-- A session on the first and on the tenth day of the ten days that a snapshot covers. -/
def update : ScheduleUpdate where
  timezone := "UTC"
  tradingHours := ""
  liquidHours := ""
  payload :=
    { providerContractId := "1"
      scheduleFormat := "provider_declared_intervals"
      scheduleCoverageStart := .aware 0
      scheduleCoverageEnd := .aware (10 * oneDay)
      tradingIntervals :=
        some
          [ some ⟨"trading", "open", .aware 0, .aware oneDay, .day 0, .missing⟩,
            some ⟨"trading", "open", .aware (9 * oneDay), .aware (10 * oneDay), .day 9, .missing⟩ ]
      other := "" }

def stored : ScheduleTables := ScheduleTables.empty.step (.upsert update 1)

def utc : SessionZone := ⟨fun ts => ts / oneDay, fun day => day * oneDay⟩

def source : SessionSource where
  continuousSession := false
  store := some stored
  hours := stored.hours
  zone := fun _ => some utc
  historySessionScope := "trading"
  buckets := fun _ _ => []

def window : Span Time := ⟨0, 10 * oneDay⟩

def coverage : ProviderSessionBarSlotCoverage :=
  ⟨.verified, [], false, none, some (10 * oneDay), 1⟩

theorem coverage_eq :
    providerSessionBarSlotCoverageBetween source window .m5 none 512 = .ok coverage := by
  decide +kernel

end ClosureExample

open ClosureExample in
theorem readers_agree_iff_open : stored.Reads .trading 1 := by
  have hstore : source.store = some stored := rfl
  have hscope : resolveScope source none = .ok .trading := rfl
  have hrow : ⟨0, .trading, 0, oneDay, .opened, 1, "{}"⟩ ∈ stored.visible .trading 1 := by
    decide +kernel
  refine (readers_agree_iff hstore hscope coverage_eq rfl (by decide)).2.mpr ?_
  exact ⟨⟨_, hrow, .inl (by decide)⟩, fun _ => ⟨_, hrow, rfl, by decide⟩⟩

open ClosureExample in
/-- In a closure of more than four days the state of an instant is not read. -/
theorem closure_unread :
    ¬ ∀ source window interval sessionScope limit c t type ts, source.store = some t →
      resolveScope source sessionScope = .ok type →
      providerSessionBarSlotCoverageBetween source window interval sessionScope limit = .ok c →
      c.scheduleState = .verified → window.Holds ts → t.Reads type ts := by
  intro hclaim
  have hreads := hclaim source window .m5 none 512 coverage stored .trading (5 * oneDay) rfl rfl
    coverage_eq rfl (by decide)
  exact hreads.1 (by decide +kernel)

end AefTerminal
