import AefTerminal.Foundation.Attachments
import AefTerminal.Foundation.Run
import Mathlib.Data.List.Sort
import Mathlib.Data.Rat.Lemmas

/-!
# Market analysis demand

The state of the market analysis service and the pieces its operations are made of: what a payload
captures of the canonical chart generations, whether that is still current, the result cache, the
leases that clients hold on analysis keys, and the tasks.

Every operation of the service runs its sections under one lock, so a section is a function of the
state. The chart generations are not under that lock. What a section reads of them is an argument:
`ChartReads` where any answer will do, and a sequence of tables, one for each read, where the
section decides whether a capture is current.

The item of `updated_at`, the request controllers and the wake-ups of the worker are left out.

## Main definitions

* `AnalysisRequest`, `AnalysisPayload`, `Captured`: payloads and what they capture
* `AnalysisService`: the state
* `AnalysisService.capture`: `_payload_with_confirmed_context_generations_locked`
* `capturedContextIsCurrent`, `cacheMatchesPayloadContext`, `trimMarketAnalysisCache`
* `AnalysisService.revoke`, `detachClientLease`, `attachClientLease`, `pruneClientLeases`
-/

namespace AefTerminal

open Foundation

/-! ### Payloads -/

inductive AnalysisEffects
  | standard
  | researchCapture
  deriving DecidableEq, Repr

/-- The part of a payload that its key is made from. -/
structure AnalysisRequest where
  source : String
  instrumentId : String
  routeFingerprint : String
  interval : String
  range : String
  signalRange : String
  showVisuals : Bool
  gexContextActive : Bool
  gexCaptureMode : String
  analysisEffects : AnalysisEffects
  /-- `sorted(enabled_confirmed_bar_context_requests(indicator_params))`. -/
  contextTimeframes : List String
  /-- The indicator parameters, the telemetry flag and the qualified instrument. -/
  other : String
  deriving DecidableEq, Repr

/-- What `market_analysis_request_identity` picks out. -/
structure RequestIdentity where
  source : String
  instrumentId : String
  routeFingerprint : String
  interval : String
  range : String
  signalRange : String
  showVisuals : Bool
  gexContextActive : Bool
  gexCaptureMode : String
  analysisEffects : AnalysisEffects
  deriving DecidableEq, Repr

def AnalysisRequest.identity (r : AnalysisRequest) : RequestIdentity :=
  ⟨r.source, r.instrumentId, r.routeFingerprint, r.interval, r.range, r.signalRange, r.showVisuals,
    r.gexContextActive, r.gexCaptureMode, r.analysisEffects⟩

/-- A market version. `fields` are its other entries, by name. -/
structure MarketVersion where
  client : Option String
  fields : List (String × String)
  deriving DecidableEq, Repr

structure AnalysisPayload where
  request : AnalysisRequest
  parentCanonicalGeneration : Option ℕ
  confirmedBarContextGenerations : Option (List (String × ℕ))
  marketVersion : Option MarketVersion
  deriving DecidableEq, Repr

/-- The entries of a payload, or of a cached item, that the generation checks read. -/
structure Captured where
  instrumentId : String
  routeFingerprint : String
  interval : Option String
  parentCanonicalGeneration : Option ℕ
  confirmedBarContextGenerations : Option (List (String × ℕ))
  marketVersion : Option MarketVersion
  deriving DecidableEq, Repr

def AnalysisPayload.captured (p : AnalysisPayload) : Captured where
  instrumentId := p.request.instrumentId
  routeFingerprint := p.request.routeFingerprint
  interval := some p.request.interval
  parentCanonicalGeneration := p.parentCanonicalGeneration
  confirmedBarContextGenerations := p.confirmedBarContextGenerations
  marketVersion := p.marketVersion

/-- Instrument, route and timeframe of a canonical chart. -/
abbrev ContextKey := String × String × String

/-- The service's `_confirmed_context_generations`. -/
abbrev ContextGenerations := Dict ContextKey ℕ

def AnalysisRequest.contextKey (r : AnalysisRequest) (timeframe : String) : ContextKey :=
  (r.instrumentId, r.routeFingerprint, timeframe)

def ContextGenerations.known (m : ContextGenerations) (key : ContextKey) : ℕ := (m.get? key).getD 0

/-! ### Capturing generations -/

/-- What `chart_bars_updated_generation` returns while one payload is prepared. -/
structure ChartReads where
  parent : ℕ
  context : String → ℕ

/-- The generations captured for the confirmed contexts of a request. -/
def contextGenerations (m : ContextGenerations) (seen : ChartReads) (r : AnalysisRequest) :
    List (String × ℕ) :=
  r.contextTimeframes.map fun timeframe =>
    (timeframe, max (m.known (r.contextKey timeframe)) (seen.context timeframe))

/-- The shared generations after those were captured. -/
def raiseGenerations (m : ContextGenerations) (seen : ChartReads) (r : AnalysisRequest) :
    ContextGenerations :=
  (contextGenerations m seen r).foldl (fun m g => m.insert (r.contextKey g.1) g.2) m

/-- The payload that `_payload_with_confirmed_context_generations_locked` returns. -/
def AnalysisPayload.prepared (m : ContextGenerations) (seen : ChartReads) (p : AnalysisPayload) :
    AnalysisPayload :=
  { p with
    parentCanonicalGeneration := some (p.parentCanonicalGeneration.getD seen.parent)
    confirmedBarContextGenerations :=
      if p.request.contextTimeframes = [] then none
      else some (contextGenerations m seen p.request) }

/-! ### Currency -/

/-- A canonical chart, as the generation fence sees it. -/
structure ChartScope where
  generation : ℕ
  writeInProgress : Bool

/-- `require_chart_bars_generation` does not raise. -/
def ChartScope.meets (c : ChartScope) (expected : ℕ) : Bool :=
  !c.writeInProgress && decide (c.generation = expected)

/-- A state of the chart generations. -/
abbrev ChartTable := ContextKey → ChartScope

/-- The loop over the captured contexts; each of them is read twice. -/
def contextsAreCurrent (m : ContextGenerations) (scope : String → ContextKey) :
    (ℕ → ChartTable) → List (String × ℕ) → Bool
  | _, [] => true
  | views, (timeframe, generation) :: rest =>
    decide (generation = max (m.known (scope timeframe)) (views 0 (scope timeframe)).generation)
      && (views 1 (scope timeframe)).meets generation
      && contextsAreCurrent m scope (fun i => views (i + 2)) rest

/-- `_captured_context_is_current_locked`; `views i` is the table at its `i`-th read. -/
def capturedContextIsCurrent (m : ContextGenerations) (views : ℕ → ChartTable) (c : Captured) :
    Bool :=
  match c.interval, c.parentCanonicalGeneration with
  | some interval, some parent =>
    let scope := fun timeframe => (c.instrumentId, c.routeFingerprint, timeframe)
    decide (interval ≠ "") && (views 0 (scope interval)).meets parent
      && match c.confirmedBarContextGenerations with
        | some contexts => contextsAreCurrent m scope (fun i => views (i + 1)) contexts
        | none => true
  | _, _ => false

/-- `_captured_generation_values_match_locked`: the parent's value, and those of the contexts. -/
def capturedGenerationValuesMatch (m : ContextGenerations) (views : ℕ → ChartTable)
    (c : Captured) : Bool × Bool :=
  let scope := fun timeframe => (c.instrumentId, c.routeFingerprint, timeframe)
  let parentMatches :=
    match c.interval, c.parentCanonicalGeneration with
    | some interval, some parent =>
      decide (interval ≠ "" ∧ parent = (views 0 (scope interval)).generation)
    | _, _ => false
  let contextMatches :=
    match c.confirmedBarContextGenerations with
    | some contexts => contexts.zipIdx.all fun g =>
      decide (g.1.2 = max (m.known (scope g.1.1)) (views (g.2 + 1) (scope g.1.1)).generation)
    | none => true
  (parentMatches, contextMatches)

/-- `_cache_matches_payload_context`. -/
def cacheMatchesPayloadContext (cached : Captured) (payload : AnalysisPayload) : Bool :=
  match payload.parentCanonicalGeneration with
  | none => false
  | some parent =>
    decide (cached.parentCanonicalGeneration = some parent)
      && (match payload.confirmedBarContextGenerations with
        | some expected => decide (cached.confirmedBarContextGenerations = some expected)
        | none => true)
      && match payload.marketVersion, cached.marketVersion with
        | none, _ => true
        | some _, none => false
        | some expected, some actual => decide (actual.fields = expected.fields)

/-! ### The cache -/

inductive ItemStatus
  | ready (snapshot : String) (sizeBytes : ℕ)
  | error (retryable : Bool)
  deriving DecidableEq, Repr

/-- A cached result. `job` is the number of the job that stored it. -/
structure CacheItem where
  status : ItemStatus
  captured : Captured
  updatedMonotonic : ℚ
  job : Option ℕ
  deriving DecidableEq, Repr

def CacheItem.isReady (c : CacheItem) : Bool :=
  match c.status with
  | .ready _ _ => true
  | .error _ => false

/-- `market_analysis_cache_item_size`. -/
def CacheItem.size (c : CacheItem) : ℕ :=
  match c.status with
  | .ready _ sizeBytes => sizeBytes
  | .error _ => 0

structure AnalysisConfig where
  cacheTtlSeconds : ℚ
  cacheMaxEntries : ℕ
  cacheMaxBytes : ℕ
  versionedRefreshSeconds : ℚ
  wantedTtlSeconds : ℚ
  generationSettleSeconds : ℚ
  /-- `analysis_refresh_seconds`. -/
  refreshSeconds : AnalysisRequest → ℚ

def clientHighwaterTtlSeconds : ℚ := 300

def oldestFirst (cache : Dict String CacheItem) : List (String × CacheItem) :=
  cache.entries.insertionSort fun a b => a.2.updatedMonotonic ≤ b.2.updatedMonotonic

/-- The last loop of the trim: items leave, oldest first, while there are too many bytes. -/
def trimBytes (maxBytes : ℕ) :
    Dict String CacheItem → ℕ → List (String × CacheItem) → Dict String CacheItem
  | cache, _, [] => cache
  | cache, total, (key, item) :: rest =>
    if total ≤ maxBytes then cache else trimBytes maxBytes (cache.erase key) (total - item.size) rest

def trimMarketAnalysisCache (cfg : AnalysisConfig) (now : ℚ) (protectedKeys : List String)
    (cache : Dict String CacheItem) : Dict String CacheItem :=
  let expired := (cache.select fun key item => decide (key ∉ protectedKeys)
    && decide (now - item.updatedMonotonic > cfg.cacheTtlSeconds)).map Prod.fst
  let cache := cache.eraseAll expired
  let oldest := (oldestFirst cache).take (cache.size - cfg.cacheMaxEntries)
  let cache := cache.eraseAll (oldest.map Prod.fst)
  let totalBytes := cache.total fun _ item => item.size
  trimBytes cfg.cacheMaxBytes cache totalBytes (oldestFirst cache)

/-! ### The state -/

structure WantedItem where
  payload : AnalysisPayload
  wantedAt : ℚ
  notBefore : Option ℚ
  deriving DecidableEq, Repr

structure ClientLease where
  sequence : ℕ
  updatedAt : ℚ
  deriving DecidableEq, Repr

/-- A task that runs `run_analysis_job`. -/
structure AnalysisJob where
  key : String
  payload : AnalysisPayload
  /-- Its cancellation was requested. -/
  cancelled : Bool
  done : Bool
  /-- It ended with an exception other than a cancellation. -/
  failed : Bool
  deriving DecidableEq, Repr

/-- The state of the service. `jobs` are all tasks that ever ran, and `clock` says how far the
history of the chart generations has been read. -/
structure AnalysisService where
  cache : Dict String CacheItem
  tasks : Dict String ℕ
  taskIdentities : Dict String RequestIdentity
  wanted : Dict String WantedItem
  /-- `_analysis_key_by_client` and `_client_leases_by_key`. -/
  leases : Attachments String String ClientLease
  highwater : Dict String ClientLease
  contexts : ContextGenerations
  jobs : Dict ℕ AnalysisJob
  nextJob : ℕ
  clock : ℕ

namespace AnalysisService

def initial : AnalysisService := ⟨.empty, .empty, .empty, .empty, .empty, .empty, .empty, .empty, 0, 0⟩

variable (s : AnalysisService)

/-- A task that is not done. -/
def isRunning (j : ℕ) : Bool :=
  match s.jobs.get? j with
  | some job => !job.done
  | none => false

/-- The key has a task that is not done. -/
def taskRunning (key : String) : Bool := ((s.tasks.get? key).map s.isRunning).getD false

/-- `task.cancel()`. -/
def cancelTask (j : ℕ) : AnalysisService :=
  match s.jobs.get? j with
  | some job => { s with jobs := s.jobs.insert j { job with cancelled := true } }
  | none => s

/-- Cancel the task of a key, if it has one that is not done. -/
def cancelRunning (key : String) : AnalysisService :=
  match s.tasks.get? key with
  | some j => if s.isRunning j then s.cancelTask j else s
  | none => s

/-- `tasks.pop(key)` and `identities.pop(key)`. -/
def popTask (key : String) : AnalysisService :=
  { s with tasks := s.tasks.erase key, taskIdentities := s.taskIdentities.erase key }

/-- `revoke_market_analysis_wanted_locked`: an active task keeps its registration. -/
def revoke (key : String) : AnalysisService :=
  let s := { s with wanted := s.wanted.erase key }
  match s.tasks.get? key with
  | some j => if s.isRunning j then s.cancelTask j else s.popTask key
  | none => s.popTask key

/-- `_payload_with_confirmed_context_generations_locked`, and what it writes. -/
def capture (seen : ChartReads) (p : AnalysisPayload) : AnalysisPayload × AnalysisService :=
  (p.prepared s.contexts seen, { s with contexts := raiseGenerations s.contexts seen p.request })

/-! ### Leases -/

/-- `_detach_client_lease_locked` with `revoke_last`. -/
def detachClientLease (client : String) : AnalysisService :=
  let detached := s.leases.detach client
  let s := { s with leases := detached.1 }
  match detached.2 with
  | some key => s.revoke key
  | none => s

def dropOrphanedClientLeases : AnalysisService :=
  let orphaned := s.leases.members.keys.filter fun key => key ∉ s.wanted.keys
  { s with leases := orphaned.foldl Attachments.dropKey s.leases }

def pruneClientHighwaters (now : ℚ) : AnalysisService :=
  let expired := s.highwater.select fun client mark =>
    decide (client ∉ s.leases.keyOf.keys) && decide (now - mark.updatedAt > clientHighwaterTtlSeconds)
  { s with highwater := s.highwater.eraseAll (expired.map Prod.fst) }

/-- `_client_registration_admitted_locked`, after its pruning. -/
def registrationAdmitted (client key : String) (sequence : ℕ) : Bool :=
  match s.highwater.get? client with
  | none => true
  | some mark => decide (mark.sequence < sequence)
    || (decide (sequence = mark.sequence) && decide (s.leases.keyOf.get? client = some key))

def attachClientLease (client key : String) (sequence : ℕ) (now : ℚ) : AnalysisService :=
  let s := s.dropOrphanedClientLeases
  let s := match s.leases.keyOf.get? client with
    | some previousKey => if previousKey ≠ key then s.detachClientLease client else s
    | none => s
  { s with
    leases := s.leases.attach client key ⟨sequence, now⟩
    highwater := s.highwater.insert client ⟨sequence, now⟩ }

/-- The clients whose lease was not renewed for too long. -/
def expiredClients (cfg : AnalysisConfig) (now : ℚ) : List String :=
  (s.leases.keyOf.select fun client key =>
    decide (now - ((s.leases.lease? key client).getD ⟨0, 0⟩).updatedAt > cfg.wantedTtlSeconds)).map
      Prod.fst

/-- `_prune_client_leases_locked`. -/
def pruneClientLeases (cfg : AnalysisConfig) (now : ℚ) : AnalysisService :=
  let s := s.dropOrphanedClientLeases
  let s := s.pruneClientHighwaters now
  (s.expiredClients cfg now).foldl detachClientLease s

end AnalysisService

end AefTerminal
