import AefTerminal.ChartEvents.Guards
import AefTerminal.Foundation.MarkedHistory
import Mathlib.Algebra.Order.Ring.Rat

/-!
# Coalesced chart history loads

`coalesced_load_confirmed_chart_bars` answers from a bounded cache, from a load for the same key
that is already in flight, or from a load that it starts. The completion callback of a load takes
it out of the table of loads in flight and writes the cache; it runs some time after the load has
ended, as any callback of the event loop does.

A load captures the canonical generation of its chart and has it checked before the read, after the
read and before it returns. Between two awaits nothing else runs, so a step of a caller or of a
load is what it does between two of them. Publications are calls into the chart event runtime, at
any time.

## Main definitions

* `ConfirmedChartHistoryLoad`, `CachedHistoryResult`, `ChartHistoryState`
* `pruneResultCache`, `finishInflightLoad`, `nextPhase`
* `ChartHistoryState.Step`
-/

namespace AefTerminal

open Foundation

def resultCacheTtlSeconds : ℚ := 23 / 2
def resultCacheMaxEntries : ℕ := 128
def resultCacheMaxBars : ℕ := 96000
def resultCacheMaxBytes : ℕ := 64 * 1024 * 1024
def resultCacheEstimatedBytesPerBar : ℕ := 512
def resultCacheEstimatedEntryOverheadBytes : ℕ := 64 * 1024

/-- `_ChartCacheKey`. -/
@[ext]
structure ChartCacheKey where
  provider : String
  instrumentId : String
  routeFingerprint : String
  interval : ChartInterval
  range : String
  refreshProvider : Bool
  startsAt : Option Time
  endsAt : Option Time
  instrumentId_ne : instrumentId ≠ ""
  routeFingerprint_ne : routeFingerprint ≠ ""

instance : DecidableEq ChartCacheKey := fun _ _ => decidable_of_iff' _ ChartCacheKey.ext_iff

/-- The chart whose canonical generation the key is read at. -/
def ChartCacheKey.scope (key : ChartCacheKey) : ChartRefreshKey :=
  ⟨key.instrumentId, key.routeFingerprint, canonicalBarSourceInterval key.interval,
    key.instrumentId_ne, key.routeFingerprint_ne⟩

/-- The last two fields are not in the program: the generations of the chart when the read of
the bars began and when it ended. -/
structure ConfirmedChartHistoryLoad where
  bars : List Bar
  warning : String
  canonicalGeneration : ℕ
  readFrom : ℕ
  readTo : ℕ

structure CachedHistoryResult where
  cachedAt : ℚ
  generation : ℕ
  barCount : ℕ
  estimatedBytes : ℕ
  result : ConfirmedChartHistoryLoad

/-- Where a load waits. The attempts count from 0. -/
inductive LoadPhase
  /-- For the chart to have no writer. -/
  | waiting (attempt : ℕ)
  /-- For its store, in the first attempt. -/
  | opening (generation : ℕ)
  /-- For its bars. -/
  | reading (attempt generation readFrom : ℕ)
  /-- For the choice of a repair. -/
  | planning (attempt : ℕ) (load : ConfirmedChartHistoryLoad)
  /-- Done, with a result or with an exception. -/
  | ended (result : Option ConfirmedChartHistoryLoad)

/-- A load, with the cache generation that its completion callback was created with, while the
callback is still to run. The load of a caller with a repair window has none. -/
structure HistoryLoad where
  key : ChartCacheKey
  phase : LoadPhase
  callback : Option ℕ

/-- Where a caller waits. -/
inductive CallerPhase
  /-- For the chart to have no writer. -/
  | waiting
  /-- For the lock of the loads in flight. -/
  | locking
  | joined (task : ℕ)
  | returned (result : ConfirmedChartHistoryLoad)
  | raised

/-- A call. `calledAt` is not in the program: the number of the table of generations that was the
current one when the call was made. -/
structure HistoryCaller where
  key : ChartCacheKey
  repairWindow : Bool
  calledAt : ℕ
  phase : CallerPhase

/-- `_InflightLoad`. -/
structure InflightLoad where
  task : ℕ
  cacheGeneration : ℕ
  eventGeneration : ℕ

/-- The module's tables, the chart event runtime with all the tables it had, the loads and the
callers. -/
structure ChartHistoryState where
  tables : MarkedHistory ChartEvents
  resultCache : Dict ChartCacheKey CachedHistoryResult
  cacheGeneration : Dict ChartCacheKey ℕ
  inflight : Dict ChartCacheKey InflightLoad
  loads : ℕ → Option HistoryLoad
  callers : ℕ → Option HistoryCaller

namespace ChartHistoryState

def start (table : ChartEvents) : ChartHistoryState :=
  ⟨.start table, .empty, .empty, .empty, fun _ => none, fun _ => none⟩

section

variable (s : ChartHistoryState)

/-- The generations as they are now. -/
def table : ChartEvents := s.tables.current

/-- A call into the chart event runtime. -/
def perform (a : ChartEventAct) : ChartHistoryState :=
  { s with tables := s.tables.commit (s.table.perform a) }

/-! ### The cache -/

/-- `_result_cache_weight`; the sizes that the interpreter gives are an argument. -/
def resultCacheWeight (getsizeof : ConfirmedChartHistoryLoad → ℕ)
    (result : ConfirmedChartHistoryLoad) : ℕ × ℕ :=
  (result.bars.length,
    resultCacheEstimatedEntryOverheadBytes + getsizeof result + result.warning.length * 4 +
      result.bars.length * resultCacheEstimatedBytesPerBar)

/-- `_result_cache_entry`. -/
def resultCacheEntry (getsizeof : ConfirmedChartHistoryLoad → ℕ) (cachedAt : ℚ) (generation : ℕ)
    (result : ConfirmedChartHistoryLoad) : CachedHistoryResult :=
  let (barCount, estimatedBytes) := resultCacheWeight getsizeof result
  ⟨cachedAt, generation, barCount, estimatedBytes, result⟩

/-- Results leave the cache; the cache generation of a key stays while a load is in flight. -/
def dropResults (keys : List ChartCacheKey) : ChartHistoryState :=
  { s with
    resultCache := s.resultCache.eraseAll keys
    cacheGeneration := s.cacheGeneration.eraseAll (keys.filter (· ∉ s.inflight.keys)) }

/-- The keys to drop, from the oldest on, for the cache to be within its bounds. -/
def overflowKeys : List (ChartCacheKey × CachedHistoryResult) → ℕ → ℕ → ℕ → List ChartCacheKey
  | [], _, _, _ => []
  | (key, cached) :: rest, entries, bars, bytes =>
    if entries ≤ 0 ∧ bars ≤ resultCacheMaxBars ∧ bytes ≤ resultCacheMaxBytes then []
    else key :: overflowKeys rest (entries - 1) (bars - cached.barCount)
      (bytes - cached.estimatedBytes)

/-- `_prune_result_cache`. -/
def pruneResultCache (now : ℚ) : ChartHistoryState :=
  let s := s.dropResults ((s.resultCache.select fun _ cached =>
    resultCacheTtlSeconds < now - cached.cachedAt).map Prod.fst)
  s.dropResults (overflowKeys
    (s.resultCache.entries.insertionSort fun a b => a.2.cachedAt ≤ b.2.cachedAt)
    (s.resultCache.size - resultCacheMaxEntries)
    (s.resultCache.total fun _ cached => cached.barCount)
    (s.resultCache.total fun _ cached => cached.estimatedBytes))

/-- The cached result that a call may return: of this generation, in time, and current. -/
def cachedResult (key : ChartCacheKey) (generation : ℕ) (now : ℚ) :
    Option ConfirmedChartHistoryLoad :=
  match s.resultCache.get? key with
  | none => none
  | some cached =>
    if cached.generation = generation ∧ now - cached.cachedAt ≤ resultCacheTtlSeconds then
      match s.table.requireChartBarsGeneration generation key.scope with
      | .ok _ => some cached.result
      | .error _ => none
    else none

/-- Where there is no result, the cache generation of the key goes. -/
def forgetCacheGeneration (key : ChartCacheKey) : ChartHistoryState :=
  if key ∈ s.resultCache.keys then s
  else { s with cacheGeneration := s.cacheGeneration.erase key }

/-- `_finish_inflight_load`, the completion callback of a load. -/
def finishInflightLoad (getsizeof : ConfirmedChartHistoryLoad → ℕ) (key : ChartCacheKey)
    (task : ℕ) (result : Option ConfirmedChartHistoryLoad) (cacheGeneration : ℕ) (now : ℚ) :
    ChartHistoryState :=
  if (s.inflight.get? key).map InflightLoad.task ≠ some task then s
  else
    let s := { s with inflight := s.inflight.erase key }
    match result with
    | none => s.forgetCacheGeneration key
    | some result =>
      if (s.cacheGeneration.get? key).getD 0 ≠ cacheGeneration then s.forgetCacheGeneration key
      else
        match s.table.requireChartBarsGeneration result.canonicalGeneration key.scope with
        | .error _ => s.forgetCacheGeneration key
        | .ok _ =>
          let entry := resultCacheEntry getsizeof now result.canonicalGeneration result
          pruneResultCache { s with resultCache := s.resultCache.insert key entry } now

/-! ### A load -/

/-- `_load_generation_consistent_chart_bars` after a generation that changed: one more attempt. -/
def retry (attempt : ℕ) : LoadPhase :=
  if attempt > 0 then .ended none else .waiting (attempt + 1)

/-- `_load_confirmed_chart_bars` up to its read. -/
def beginRead (key : ChartCacheKey) (attempt generation : ℕ) : LoadPhase :=
  match s.table.requireChartBarsGeneration generation key.scope with
  | .ok _ => .reading attempt generation (s.table.generation key.scope)
  | .error _ => retry attempt

/-- The last check, and the result. -/
def conclude (key : ChartCacheKey) (attempt : ℕ) (load : ConfirmedChartHistoryLoad) : LoadPhase :=
  match s.table.requireChartBarsGeneration load.canonicalGeneration key.scope with
  | .ok _ => .ended (some load)
  | .error _ => retry attempt

/-- `_load_confirmed_chart_bars` from its bars on: it chooses a repair, or there is none to choose
from. -/
def endRead (key : ChartCacheKey) (attempt generation readFrom : ℕ) (bars : List Bar)
    (warning : String) (supported : Bool) : LoadPhase :=
  match s.table.requireChartBarsGeneration generation key.scope with
  | .error _ => retry attempt
  | .ok _ =>
    let load : ConfirmedChartHistoryLoad :=
      ⟨bars, warning, generation, readFrom, s.table.generation key.scope⟩
    if supported then .planning attempt load else s.conclude key attempt load

/-- What a load waited for. -/
inductive LoadEvent
  | resumed
  | bars (bars : List Bar) (warning : String) (supported : Bool)
  /-- An exception, a timeout among them. -/
  | failed

/-- One step of a load. -/
def nextPhase (key : ChartCacheKey) : LoadPhase → LoadEvent → Option LoadPhase
  | .ended _, _ => none
  | _, .failed => some (.ended none)
  | .waiting attempt, .resumed =>
    if s.table.writeInProgress key.scope then none
    else if attempt = 0 then some (.opening (s.table.generation key.scope))
    else some (s.beginRead key attempt (s.table.generation key.scope))
  | .opening generation, .resumed => some (s.beginRead key 0 generation)
  | .reading attempt generation readFrom, .bars bars warning supported =>
    some (s.endRead key attempt generation readFrom bars warning supported)
  | .planning attempt load, .resumed => some (s.conclude key attempt load)
  | _, _ => none

def setLoad (task : ℕ) (load : HistoryLoad) : ChartHistoryState :=
  { s with loads := Function.update s.loads task (some load) }

/-! ### A call -/

def setCaller (caller : ℕ) (c : HistoryCaller) : ChartHistoryState :=
  { s with callers := Function.update s.callers caller (some c) }

/-- The chart has no writer: the first look at the cache. -/
def resume (caller : ℕ) (c : HistoryCaller) (now : ℚ) : ChartHistoryState :=
  let s := s.pruneResultCache now
  match s.cachedResult c.key (s.table.generation c.key.scope) now with
  | some result => s.setCaller caller { c with phase := .returned result }
  | none => s.setCaller caller { c with phase := .locking }

/-- A call with a repair window makes its own load. -/
def resumeRepair (caller : ℕ) (c : HistoryCaller) (task : ℕ) : ChartHistoryState :=
  (s.setLoad task ⟨c.key, .waiting 0, none⟩).setCaller caller { c with phase := .joined task }

/-- A new load in flight. -/
def startLoad (key : ChartCacheKey) (task : ℕ) : ChartHistoryState :=
  let cacheGeneration := (s.cacheGeneration.get? key).getD 0
  { s.setLoad task ⟨key, .waiting 0, some cacheGeneration⟩ with
    inflight := s.inflight.insert key ⟨task, cacheGeneration, s.table.generation key.scope⟩ }

/-- What a call does under the lock: the second look at the cache, then the load in flight, or a
new one. -/
def lock (caller : ℕ) (c : HistoryCaller) (task : ℕ) (now : ℚ) : ChartHistoryState :=
  let s := s.pruneResultCache now
  match s.cachedResult c.key (s.table.generation c.key.scope) now with
  | some result => s.setCaller caller { c with phase := .returned result }
  | none =>
    match s.inflight.get? c.key with
    | some existing => s.setCaller caller { c with phase := .joined existing.task }
    | none => (s.startLoad c.key task).setCaller caller { c with phase := .joined task }

end

/-! ### Runs -/

inductive Act
  /-- A call into the chart event runtime. -/
  | perform (a : ChartEventAct)
  | call (caller : ℕ) (key : ChartCacheKey) (repairWindow : Bool)
  | resume (caller : ℕ) (now : ℚ)
  | resumeRepair (caller task : ℕ)
  | lock (caller task : ℕ) (now : ℚ)
  /-- The load that the caller awaits has ended. -/
  | deliver (caller : ℕ)
  /-- The call ends with an exception of its own. -/
  | abandon (caller : ℕ)
  | load (task : ℕ) (event : LoadEvent)
  /-- The completion callback of a load. -/
  | callback (task : ℕ) (now : ℚ)

inductive Step (getsizeof : ConfirmedChartHistoryLoad → ℕ) :
    ChartHistoryState → Act → ChartHistoryState → Prop
  | perform {s : ChartHistoryState} (a : ChartEventAct) :
      Step getsizeof s (.perform a) (s.perform a)
  | call {s : ChartHistoryState} (caller : ℕ) (key : ChartCacheKey) (repairWindow : Bool)
      (hnew : s.callers caller = none) :
      Step getsizeof s (.call caller key repairWindow)
        (s.setCaller caller ⟨key, repairWindow, s.tables.commits, .waiting⟩)
  | resume {s : ChartHistoryState} {caller : ℕ} {c : HistoryCaller} (now : ℚ)
      (hcaller : s.callers caller = some c) (hphase : c.phase = .waiting)
      (hrepair : c.repairWindow = false)
      (hstable : s.table.writeInProgress c.key.scope = false) :
      Step getsizeof s (.resume caller now) (s.resume caller c now)
  | resumeRepair {s : ChartHistoryState} {caller : ℕ} {c : HistoryCaller} (task : ℕ)
      (hcaller : s.callers caller = some c) (hphase : c.phase = .waiting)
      (hrepair : c.repairWindow = true)
      (hstable : s.table.writeInProgress c.key.scope = false) (hnew : s.loads task = none) :
      Step getsizeof s (.resumeRepair caller task) (s.resumeRepair caller c task)
  | lock {s : ChartHistoryState} {caller : ℕ} {c : HistoryCaller} (task : ℕ) (now : ℚ)
      (hcaller : s.callers caller = some c) (hphase : c.phase = .locking)
      (hnew : s.loads task = none) :
      Step getsizeof s (.lock caller task now) (s.lock caller c task now)
  | deliver {s : ChartHistoryState} {caller task : ℕ} {c : HistoryCaller} {load : HistoryLoad}
      {result : Option ConfirmedChartHistoryLoad}
      (hcaller : s.callers caller = some c) (hphase : c.phase = .joined task)
      (hload : s.loads task = some load) (hended : load.phase = .ended result) :
      Step getsizeof s (.deliver caller)
        (s.setCaller caller { c with phase := result.elim .raised .returned })
  | abandon {s : ChartHistoryState} {caller : ℕ} {c : HistoryCaller}
      (hcaller : s.callers caller = some c) (hphase : ∀ result, c.phase ≠ .returned result) :
      Step getsizeof s (.abandon caller) (s.setCaller caller { c with phase := .raised })
  | load {s : ChartHistoryState} {task : ℕ} {load : HistoryLoad} {phase : LoadPhase}
      (event : LoadEvent) (hload : s.loads task = some load)
      (hnext : s.nextPhase load.key load.phase event = some phase) :
      Step getsizeof s (.load task event) (s.setLoad task { load with phase := phase })
  | callback {s : ChartHistoryState} {task : ℕ} {load : HistoryLoad}
      {result : Option ConfirmedChartHistoryLoad} {cacheGeneration : ℕ} (now : ℚ)
      (hload : s.loads task = some load) (hended : load.phase = .ended result)
      (hcallback : load.callback = some cacheGeneration) :
      Step getsizeof s (.callback task now)
        ((s.setLoad task { load with callback := none }).finishInflightLoad getsizeof load.key task
          result cacheGeneration now)

end ChartHistoryState

end AefTerminal
