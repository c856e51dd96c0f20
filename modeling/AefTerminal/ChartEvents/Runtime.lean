import AefTerminal.Domain.Bar
import AefTerminal.Foundation.Dict
import Mathlib.Data.List.Sort

/-!
# The chart event runtime

The process-wide table of canonical chart generations and the guards that fence reads, writes
and publications to them. Every operation below runs under one lock, so each is a function of
the table, and one that raises leaves the table as it was.

A scope is a validated triple of instrument, route and persisted interval. Its generation is the
entry of a bounded map, and `0` when the map has none. The asyncio wake-ups of waiters are not
state of the table; their registrations are, because an eviction skips the scope of a waiter.

## Main definitions

* `ChartRefreshKey`, `ChartEvents`: a scope and the table
* `recordChartBarsUpdated`: append an event and evict from the bounded maps
* `beginChartBarsWrite`, `endChartBarsWrite`, `invalidateChartBarsWrite`: the write guard
* `beginChartBarsPublication`, `endChartBarsPublication`: the multi-scope publication guard
* `requireChartBarsGeneration`, `publishChartBarsUpdated`: the read fence and the publication
-/

namespace AefTerminal

open Foundation

/-- One canonical chart scope. An empty identity text is rejected by `_key`. -/
@[ext]
structure ChartRefreshKey where
  instrumentId : String
  routeFingerprint : String
  interval : BarInterval
  instrumentId_ne : instrumentId ≠ ""
  routeFingerprint_ne : routeFingerprint ≠ ""

instance : DecidableEq ChartRefreshKey := fun _ _ => decidable_of_iff' _ ChartRefreshKey.ext_iff

namespace ChartRefreshKey

/-- `_key`: both identity texts are required, and a derived interval is read as its source. -/
def ofTexts (instrumentId : String) (interval : ChartInterval) (routeFingerprint : String) :
    Option ChartRefreshKey :=
  if hi : instrumentId ≠ "" then
    if hr : routeFingerprint ≠ "" then
      some ⟨instrumentId, routeFingerprint, canonicalBarSourceInterval interval, hi, hr⟩
    else none
  else none

/-- The order of the key tuples. -/
def le (a b : ChartRefreshKey) : Bool :=
  if a.instrumentId ≠ b.instrumentId then a.instrumentId < b.instrumentId
  else if a.routeFingerprint ≠ b.routeFingerprint then a.routeFingerprint < b.routeFingerprint
  else a.interval.text ≤ b.interval.text

end ChartRefreshKey

structure ChartBarsUpdatedEvent where
  instrumentId : String
  interval : BarInterval
  generation : ℕ
  routeFingerprint : String
  reason : String
  bars : List Bar

/-- The guard for one canonical storage publication. -/
structure ChartBarsWriteGuard where
  key : ChartRefreshKey
  expectedGeneration : ℕ
  token : ℕ
  deriving DecidableEq

structure ChartBarsGenerationScope where
  key : ChartRefreshKey
  generation : ℕ
  deriving DecidableEq

/-- The guard for one synchronous authority effect over several scopes. -/
structure ChartBarsPublicationGuard where
  scopes : List (ChartRefreshKey × ℕ)
  token : ℕ
  deriving DecidableEq

inductive ChartEventError
  | generationChanged (expected observed : ℕ) (writeInProgress publicationInProgress : Bool)
  | scopeGenerationsConflict
  | scopeRequired
  | publicationGuardOwnershipLost
  | writeGuardOwnershipLost
  | writeGenerationRegressed
  deriving DecidableEq, Repr

def ChartEventError.message : ChartEventError → String
  | generationChanged _ observed true _ => s!"CHART_BARS_WRITE_IN_PROGRESS generation={observed}"
  | generationChanged _ observed false true =>
    s!"CHART_BARS_PUBLICATION_IN_PROGRESS generation={observed}"
  | generationChanged expected observed false false =>
    s!"CHART_BARS_GENERATION_CHANGED expected={expected} observed={observed}"
  | scopeGenerationsConflict => "canonical chart publication scope generations conflict"
  | scopeRequired => "canonical chart publication requires at least one scope"
  | publicationGuardOwnershipLost => "CHART_BARS_PUBLICATION_GUARD_OWNERSHIP_LOST"
  | writeGuardOwnershipLost => "CHART_BARS_WRITE_GUARD_OWNERSHIP_LOST"
  | writeGenerationRegressed => "CHART_BARS_WRITE_GENERATION_REGRESSED"

def maxEventsPerKey : ℕ := 32

def maxRefreshKeys : ℕ := 1024

def maxGenerationKeys : ℕ := 4096

/-- The table. A set of tokens is a list without duplicates. -/
structure ChartEvents where
  generations : Dict ChartRefreshKey ℕ
  events : Dict ChartRefreshKey (List ChartBarsUpdatedEvent)
  writesInProgress : Dict ChartRefreshKey ℕ
  publicationsInProgress : Dict ChartRefreshKey (List ℕ)
  nextWriteToken : ℕ
  nextPublicationToken : ℕ
  /-- The scopes of registered waiters, `_waiters` and `_stable_waiters` together. -/
  waiters : List ChartRefreshKey

namespace ChartEvents

def initial : ChartEvents := ⟨.empty, .empty, .empty, .empty, 0, 0, []⟩

variable (s : ChartEvents)

/-- `chart_bars_updated_generation`. -/
def generation (key : ChartRefreshKey) : ℕ := (s.generations.get? key).getD 0

def writeInProgress (key : ChartRefreshKey) : Bool := (s.writesInProgress.get? key).isSome

/-- The tokens of the publication guards held on a scope. -/
def publicationTokens (key : ChartRefreshKey) : List ℕ :=
  (s.publicationsInProgress.get? key).getD []

/-! ### Events and eviction -/

def appendEvent (key : ChartRefreshKey) (event : ChartBarsUpdatedEvent) : ChartEvents :=
  let queue := (s.events.get? key).getD [] ++ [event]
  { s with events := s.events.insert key (queue.drop (queue.length - maxEventsPerKey)) }

/-- The first scope, oldest first, whose events may be dropped. -/
def staleEventKey (key : ChartRefreshKey) : Option ChartRefreshKey :=
  if s.events.size > maxRefreshKeys then
    s.events.keys.find? fun candidate => candidate ≠ key ∧ candidate ∉ s.waiters
  else none

def evictEvents (key : ChartRefreshKey) : ChartEvents :=
  match s.staleEventKey key with
  | some stale => { s with events := s.events.erase stale }
  | none => s

/-- The first scope, oldest first, whose generation may be dropped. -/
def staleGenerationKey (key : ChartRefreshKey) : Option ChartRefreshKey :=
  if s.generations.size > maxGenerationKeys then
    s.generations.keys.find? fun candidate =>
      candidate ≠ key ∧ candidate ∉ s.events.keys ∧ candidate ∉ s.waiters
        ∧ candidate ∉ s.writesInProgress.keys ∧ candidate ∉ s.publicationsInProgress.keys
  else none

def evictGenerations (key : ChartRefreshKey) : ChartEvents :=
  match s.staleGenerationKey key with
  | some stale => { s with generations := s.generations.erase stale }
  | none => s

/-- The first part of recording an event: append it and bound the number of scopes with events. -/
def storeEvent (key : ChartRefreshKey) (generation : ℕ) (reason : String) (bars : List Bar) :
    ChartEvents :=
  let event : ChartBarsUpdatedEvent :=
    { instrumentId := key.instrumentId
      interval := key.interval
      generation
      routeFingerprint := key.routeFingerprint
      reason := if reason = "" then "canonical_commit" else reason
      bars }
  (s.appendEvent key event).evictEvents key

/-- `_record_chart_bars_updated_locked`. -/
def recordChartBarsUpdated (key : ChartRefreshKey) (generation : ℕ) (reason : String)
    (bars : List Bar) : ChartEvents :=
  (s.storeEvent key generation reason bars).evictGenerations key

def setGeneration (key : ChartRefreshKey) (generation : ℕ) : ChartEvents :=
  { s with generations := s.generations.insert key generation }

/-- How a scope's generation moves: the map entry is written, then the event is recorded. -/
def advance (key : ChartRefreshKey) (reason : String) (bars : List Bar) : ChartEvents :=
  let generation := s.generation key + 1
  (s.setGeneration key generation).recordChartBarsUpdated key generation reason bars

/-- The scope whose generation `advance` forgets, if any. -/
def evictedScope (key : ChartRefreshKey) (reason : String) (bars : List Bar) :
    Option ChartRefreshKey :=
  let generation := s.generation key + 1
  ((s.setGeneration key generation).storeEvent key generation reason bars).staleGenerationKey key

/-! ### The operations -/

def requireChartBarsGeneration (expected : ℕ) (key : ChartRefreshKey) :
    Except ChartEventError ℕ :=
  let observed := s.generation key
  if s.writeInProgress key ∨ observed ≠ expected then
    .error (.generationChanged expected observed (s.writeInProgress key) false)
  else .ok observed

def beginChartBarsWrite (expected : ℕ) (key : ChartRefreshKey) :
    Except ChartEventError (ChartBarsWriteGuard × ChartEvents) :=
  let observed := s.generation key
  if s.writeInProgress key then .error (.generationChanged expected observed true false)
  else if s.publicationTokens key ≠ [] then
    .error (.generationChanged expected observed false true)
  else if observed ≠ expected then .error (.generationChanged expected observed false false)
  else
    let token := s.nextWriteToken + 1
    .ok (⟨key, expected, token⟩,
      { s with nextWriteToken := token, writesInProgress := s.writesInProgress.insert key token })

def normalizeScope (normalized : Dict ChartRefreshKey ℕ) (scope : ChartBarsGenerationScope) :
    Except ChartEventError (Dict ChartRefreshKey ℕ) :=
  match normalized.get? scope.key with
  | some previous =>
    if previous ≠ scope.generation then .error .scopeGenerationsConflict
    else .ok (normalized.insert scope.key scope.generation)
  | none => .ok (normalized.insert scope.key scope.generation)

/-- One generation for each scope asked for; two different ones for a scope conflict. -/
def normalizeScopes (scopes : List ChartBarsGenerationScope) :
    Except ChartEventError (Dict ChartRefreshKey ℕ) :=
  scopes.foldlM normalizeScope .empty

def checkScopes : List (ChartRefreshKey × ℕ) → Except ChartEventError Unit
  | [] => .ok ()
  | (key, expected) :: rest => do
    let observed := s.generation key
    if s.writeInProgress key ∨ observed ≠ expected then
      .error (.generationChanged expected observed (s.writeInProgress key) false)
    else checkScopes rest

def addPublicationToken (token : ℕ) (key : ChartRefreshKey) : ChartEvents :=
  { s with publicationsInProgress :=
      s.publicationsInProgress.insert key ((s.publicationTokens key).insert token) }

def beginChartBarsPublication (scopes : List ChartBarsGenerationScope) :
    Except ChartEventError (ChartBarsPublicationGuard × ChartEvents) := do
  let normalized ← normalizeScopes scopes
  if normalized.entries = [] then .error .scopeRequired
  else
    let ordered := normalized.entries.insertionSort fun a b => a.1.le b.1
    s.checkScopes ordered
    let token := s.nextPublicationToken + 1
    .ok (⟨ordered, token⟩,
      (ordered.map Prod.fst).foldl (fun s key => s.addPublicationToken token key)
        { s with nextPublicationToken := token })

/-- Take a token off a scope; a scope without tokens leaves the map. -/
def removePublicationToken (token : ℕ) (key : ChartRefreshKey) : ChartEvents :=
  let tokens := (s.publicationTokens key).filter (· ≠ token)
  { s with publicationsInProgress :=
      if tokens = [] then s.publicationsInProgress.erase key
      else s.publicationsInProgress.insert key tokens }

def endChartBarsPublication (guard : ChartBarsPublicationGuard) :
    Except ChartEventError ChartEvents :=
  if ∃ scope ∈ guard.scopes, guard.token ∉ s.publicationTokens scope.1 then
    .error .publicationGuardOwnershipLost
  else .ok ((guard.scopes.map Prod.fst).foldl
    (fun s key => s.removePublicationToken guard.token key) s)

def releaseWrite (key : ChartRefreshKey) : ChartEvents :=
  { s with writesInProgress := s.writesInProgress.erase key }

def endChartBarsWrite (guard : ChartBarsWriteGuard) : Except ChartEventError ChartEvents :=
  if s.writesInProgress.get? guard.key ≠ some guard.token then .error .writeGuardOwnershipLost
  else .ok (s.releaseWrite guard.key)

/-- The first half of an invalidation: the generation moves on, unless a publication of this
guard's own write moved it already. The scope is still guarded here. -/
def invalidateGeneration (guard : ChartBarsWriteGuard) (reason : String) : ChartEvents :=
  if s.generation guard.key = guard.expectedGeneration then s.advance guard.key reason []
  else s

/-- Invalidate canonical reads and release an uncertain write, in that order. -/
def invalidateChartBarsWrite (guard : ChartBarsWriteGuard) (reason : String) :
    Except ChartEventError (ℕ × ChartEvents) :=
  if s.writesInProgress.get? guard.key ≠ some guard.token then .error .writeGuardOwnershipLost
  else if s.generation guard.key < guard.expectedGeneration then .error .writeGenerationRegressed
  else
    let advanced := s.invalidateGeneration guard reason
    let generation :=
      if s.generation guard.key = guard.expectedGeneration then s.generation guard.key + 1
      else s.generation guard.key
    .ok (generation, advanced.releaseWrite guard.key)

/-- Publish one canonical update; `0` says that the expected generation was not the current one. -/
def publishChartBarsUpdated (key : ChartRefreshKey) (reason : String) (bars : List Bar)
    (expected : Option ℕ) : ℕ × ChartEvents :=
  if ∃ g, expected = some g ∧ s.generation key ≠ g then (0, s)
  else (s.generation key + 1, s.advance key reason bars)

def chartBarsUpdatedEventsSince (key : ChartRefreshKey) (seen : ℕ) :
    ℕ × List ChartBarsUpdatedEvent :=
  (s.generation key, ((s.events.get? key).getD []).filter fun event => event.generation > seen)

end ChartEvents

end AefTerminal
