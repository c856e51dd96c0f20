import AefTerminal.Foundation.Dict
import AefTerminal.Foundation.Run
import Mathlib.Algebra.Order.Ring.Rat
import Mathlib.Data.List.Sort
import Mathlib.Data.Prod.Lex
import Mathlib.Data.String.Basic

/-!
# The cache of trading hours and its refresh requests

`provider_sessions` keeps the stored trading hours of a route in a bounded cache and remembers which
routes wait for a refresh from their provider. A reader that misses the cache reads the store
without the lock and looks again before it publishes what it read; a refresh takes the generation
of its request first and acknowledges that generation when it is done.

What is done under `_TRADING_HOURS_LOCK` is one step. A read of the store is two: its beginning and
its end, with anything in between. Provider names are canonical keys here, and routes are resolved.

## Main definitions

* `TradingHours`: the module's state, with the reads under way
* `prune`, `invalidate`, `markStale`, `refreshGeneration`, `acknowledge`, `beginRead`, `endRead`
* `TradingHours.Step`
-/

namespace AefTerminal

open Foundation

def tradingHoursCacheTtlSeconds : ℚ := 300
@[irreducible] def tradingHoursStateMaxCompletedRoutes : ℕ := 2048

/-- The instrument and the fingerprint of a route. -/
structure SessionRouteKey where
  instrumentId : String
  routeFingerprint : String
  deriving DecidableEq, Repr

/-- A route with its provider. -/
structure SessionRefreshKey where
  provider : String
  route : SessionRouteKey
  deriving DecidableEq, Repr

/-- A cache entry. `seen` is not in the program: how often the route had been invalidated when the
read of the store began. -/
structure CachedHours (Row : Type) where
  cachedAt : ℚ
  row : Option Row
  seen : ℕ

/-- A read of the store under way; `seen` as for `CachedHours`. -/
structure HoursReader where
  key : SessionRefreshKey
  now : ℚ
  readEpoch : ℕ
  readSequence : ℕ
  seen : ℕ
  deriving DecidableEq

/-- The state of the module and the reads under way; `invalidations` is not in the program. -/
structure TradingHours (Row : Type) where
  cache : Dict SessionRouteKey (CachedHours Row)
  cacheEpoch : Dict SessionRouteKey ℕ
  cacheSequence : ℕ
  pendingRefresh : Dict String (Dict SessionRouteKey ℕ)
  refreshEpoch : Dict SessionRefreshKey ℕ
  refreshSequence : ℕ
  readers : List HoursReader
  invalidations : SessionRouteKey → ℕ

namespace TradingHours

variable {Row : Type}

def initial : TradingHours Row := ⟨.empty, .empty, 0, .empty, .empty, 0, [], fun _ => 0⟩

section

variable (s : TradingHours Row)

/-! ### Pruning -/

def expiredCacheKeys (now : ℚ) : List SessionRouteKey :=
  (s.cache.select fun _ entry => now - entry.cachedAt > tradingHoursCacheTtlSeconds).map Prod.fst

def pruneCache (now : ℚ) : Dict SessionRouteKey (CachedHours Row) :=
  let cache := s.cache.eraseAll (s.expiredCacheKeys now)
  cache.dropOldest (cache.size - tradingHoursStateMaxCompletedRoutes)

def emptyProviders : List String :=
  (s.pendingRefresh.select fun _ pending => pending.entries = []).map Prod.fst

def prunePending : Dict String (Dict SessionRouteKey ℕ) :=
  s.pendingRefresh.eraseAll s.emptyProviders

/-- The routes that wait for a refresh, of any provider. -/
def pendingRouteKeys : List SessionRouteKey :=
  s.prunePending.entries.flatMap fun entry => entry.2.keys

def pruneCacheEpoch (now : ℚ) : Dict SessionRouteKey ℕ :=
  s.cacheEpoch.eraseAll <| s.cacheEpoch.keys.filter fun key =>
    key ∉ (s.pruneCache now).keys ∧ key ∉ s.pendingRouteKeys

def completedRefreshKeys : List SessionRefreshKey :=
  s.refreshEpoch.keys.filter fun key => key.route ∉ s.pendingRouteKeys

def pruneRefreshEpoch : Dict SessionRefreshKey ℕ :=
  s.refreshEpoch.eraseAll <| s.completedRefreshKeys.take <|
    s.completedRefreshKeys.length - tradingHoursStateMaxCompletedRoutes

/-- `_prune_provider_trading_hours_state_locked`. -/
def prune (now : ℚ) : TradingHours Row :=
  { s with
    cache := s.pruneCache now
    pendingRefresh := s.prunePending
    cacheEpoch := s.pruneCacheEpoch now
    refreshEpoch := s.pruneRefreshEpoch }

/-! ### Invalidations and refresh requests -/

/-- The cache forgets the route, and reads of it under way are superseded. -/
def forget (route : SessionRouteKey) : TradingHours Row :=
  { s with
    cache := s.cache.erase route
    cacheSequence := s.cacheSequence + 1
    cacheEpoch := s.cacheEpoch.insert route ((s.cacheEpoch.get? route).getD 0 + 1)
    invalidations := Function.update s.invalidations route (s.invalidations route + 1) }

/-- `invalidate_provider_trading_hours_cache`. -/
def invalidate (route : SessionRouteKey) (now : ℚ) : TradingHours Row := (s.forget route).prune now

/-- The requests of a provider. -/
def pendingOf (provider : String) : Dict SessionRouteKey ℕ :=
  (s.pendingRefresh.get? provider).getD .empty

/-- The number of the next request. -/
def nextRefreshSequence : ℕ :=
  max s.refreshSequence ((s.refreshEpoch.entries.map Prod.snd).foldl max 0) + 1

/-- A request for a refresh under the next number. -/
def requestRefresh (key : SessionRefreshKey) : TradingHours Row :=
  { s with
    refreshSequence := s.nextRefreshSequence
    refreshEpoch := (s.refreshEpoch.erase key).insert key s.nextRefreshSequence
    pendingRefresh := s.pendingRefresh.insert key.provider
      ((s.pendingOf key.provider).insert key.route s.nextRefreshSequence) }

/-- `mark_provider_trading_hours_stale`, under the lock. -/
def markStale (key : SessionRefreshKey) (now : ℚ) : TradingHours Row :=
  ((s.requestRefresh key).forget key.route).prune now

/-- `provider_trading_hours_refresh_generation`. -/
def refreshGeneration (key : SessionRefreshKey) (now : ℚ) : ℕ × TradingHours Row :=
  (((s.prune now).refreshEpoch.get? key).getD 0, s.prune now)

/-- `acknowledge_provider_trading_hours_refresh`. -/
def acknowledge (key : SessionRefreshKey) (expectedGeneration : ℕ) (now : ℚ) :
    Bool × TradingHours Row :=
  let pending := s.pendingOf key.provider
  if pending.get? key.route ≠ some expectedGeneration then
    (false, { s with pendingRefresh := s.pendingRefresh.insert key.provider pending })
  else (true, { s with
    pendingRefresh := s.pendingRefresh.insert key.provider (pending.erase key.route) }.prune now)

/-- `peek_pending_provider_trading_hours_refresh`. -/
def peekPending (provider : String) (now : ℚ) : List SessionRouteKey × TradingHours Row :=
  (((s.prune now).pendingOf provider).keys.insertionSort fun a b =>
    toLex (a.instrumentId, a.routeFingerprint) ≤ toLex (b.instrumentId, b.routeFingerprint),
    s.prune now)

/-! ### Reads -/

/-- What `_cached_provider_trading_hours` does before it reads the store. -/
inductive ReadStart (Row : Type)
  /-- The route waits for a refresh. -/
  | refreshPending
  | cached (row : Option Row)
  | reading (reader : HoursReader)

/-- `_cached_provider_trading_hours` up to the read of the store. -/
def beginRead (key : SessionRefreshKey) (now : ℚ) : ReadStart Row × TradingHours Row :=
  let s := s.prune now
  let reader : HoursReader := ⟨key, now, (s.cacheEpoch.get? key.route).getD 0, s.cacheSequence,
    s.invalidations key.route⟩
  if key.route ∈ (s.pendingOf key.provider).keys then (.refreshPending, s)
  else match s.cache.get? key.route with
    | some entry =>
      if now - entry.cachedAt ≤ tradingHoursCacheTtlSeconds then (.cached entry.row, s)
      else (.reading reader, { s with readers := s.readers ++ [reader] })
    | none => (.reading reader, { s with readers := s.readers ++ [reader] })

/-- What the reader found is not to be published. -/
def Superseded (reader : HoursReader) : Prop :=
  reader.key.route ∈ (s.pendingOf reader.key.provider).keys ∨
    s.cacheSequence ≠ reader.readSequence ∨
      (s.cacheEpoch.get? reader.key.route).getD 0 ≠ reader.readEpoch

instance (reader : HoursReader) : Decidable (s.Superseded reader) :=
  inferInstanceAs (Decidable (_ ∨ _))

/-- `_cached_provider_trading_hours` from the end of the read on. -/
def endRead (reader : HoursReader) (row : Option Row) : Option Row × TradingHours Row :=
  let s := { s with readers := s.readers.erase reader }
  if s.Superseded reader then (none, s)
  else (row, { s with
    cache := (s.cache.erase reader.key.route).insert reader.key.route
      ⟨reader.now, row, reader.seen⟩ }.prune reader.now)

end

/-! ### Runs -/

inductive Act (Row : Type)
  | invalidate (route : SessionRouteKey) (now : ℚ)
  | markStale (key : SessionRefreshKey) (now : ℚ)
  | refreshGeneration (key : SessionRefreshKey) (now : ℚ)
  | acknowledge (key : SessionRefreshKey) (expectedGeneration : ℕ) (now : ℚ)
  /-- The pending requests are listed or counted. -/
  | peekPending (provider : String) (now : ℚ)
  | beginRead (key : SessionRefreshKey) (now : ℚ)
  /-- The store gave the reader a row, or nothing. -/
  | endRead (reader : HoursReader) (row : Option Row)
  /-- The store failed the reader. -/
  | failRead (reader : HoursReader)

inductive Step : TradingHours Row → Act Row → TradingHours Row → Prop
  | invalidate {s : TradingHours Row} (route : SessionRouteKey) (now : ℚ) :
      Step s (.invalidate route now) (s.invalidate route now)
  | markStale {s : TradingHours Row} (key : SessionRefreshKey) (now : ℚ) :
      Step s (.markStale key now) (s.markStale key now)
  | refreshGeneration {s : TradingHours Row} (key : SessionRefreshKey) (now : ℚ) :
      Step s (.refreshGeneration key now) (s.refreshGeneration key now).2
  | acknowledge {s : TradingHours Row} (key : SessionRefreshKey) (expectedGeneration : ℕ)
      (now : ℚ) : Step s (.acknowledge key expectedGeneration now)
        (s.acknowledge key expectedGeneration now).2
  | peekPending {s : TradingHours Row} (provider : String) (now : ℚ) :
      Step s (.peekPending provider now) (s.peekPending provider now).2
  | beginRead {s : TradingHours Row} (key : SessionRefreshKey) (now : ℚ) :
      Step s (.beginRead key now) (s.beginRead key now).2
  | endRead {s : TradingHours Row} (reader : HoursReader) (row : Option Row)
      (hreader : reader ∈ s.readers) : Step s (.endRead reader row) (s.endRead reader row).2
  | failRead {s : TradingHours Row} (reader : HoursReader) (hreader : reader ∈ s.readers) :
      Step s (.failRead reader) { s with readers := s.readers.erase reader }

end TradingHours

end AefTerminal
