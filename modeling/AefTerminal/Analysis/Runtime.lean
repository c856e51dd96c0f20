import AefTerminal.Analysis.Demand
import Mathlib.Algebra.Order.Ring.Unbundled.Rat

/-!
# The market analysis runtime

The operations of the market analysis service, each cut into its sections under the service lock,
and their interleaving: `analysisStep` takes one section at a time, of any client, key or job.

Which due keys the worker starts at a tick, and when a job's computation ends and how, are choices
of the step. A job whose cancellation was requested gets no result: the cancellation surfaces at the
await the job is suspended in, before its last section or instead of it.

A section that decides whether a capture is current carries the delays between its reads of the
chart. The history of the chart is a parameter: `chart t` is the table at moment `t`.

## Main definitions

* `AnalysisService.registerWanted`, `renewClientLease`, `refreshClientAnalysis`,
  `releaseClientLease`, `invalidateProviderSessionRoute`, `confirmedBarContextAdvanced`
* `AnalysisService.startJob`, `completeJob`, `exitJob`, `awaitFailedJob`, `snapshot`
* `AnalysisAct`, `analysisStep`
-/

namespace AefTerminal

open Foundation

inductive RegisterStatus
  | superseded
  | ready
  | running
  | queued
  deriving DecidableEq, Repr

inductive SnapshotResponse
  | ready (item : CacheItem)
  | error (item : CacheItem)
  | running
  | queued
  | missing
  | scopeMismatch
  deriving DecidableEq, Repr

/-- How the body of `run_analysis_job` ended: with bytes, with an error item, with
`ChartBarsGenerationChanged`, or with nothing in the private cache. -/
inductive JobOutcome
  | ready (snapshot : String) (sizeBytes : ℕ)
  | error (retryable : Bool)
  | generationRace
  | nothing
  deriving DecidableEq, Repr

namespace AnalysisService

variable (cfg : AnalysisConfig) (s : AnalysisService)

/-! ### Registration -/

/-- The wanted payload of another key with the same request identity. -/
def staleKeys (key : String) (identity : RequestIdentity) : List String :=
  (s.wanted.select fun existingKey item =>
    decide (existingKey ≠ key ∧ item.payload.request.identity = identity)).map Prod.fst

/-- The wanted payload of the key, if it does not fit the one that is registered. -/
def payloadSuperseded (key : String) (canonical : AnalysisPayload) : Bool :=
  match s.wanted.get? key with
  | some current => !cacheMatchesPayloadContext current.payload.captured canonical
  | none => false

def revokeStale (key : String) : AnalysisService :=
  let s := s.revoke key
  { s with cache := s.cache.erase key }

/-- The cached item leaves if it does not fit the registered payload. -/
def dropMismatchedItem (key : String) (canonical : AnalysisPayload) : AnalysisService :=
  match s.cache.get? key with
  | some cached =>
    if cacheMatchesPayloadContext cached.captured canonical then s
    else { s with cache := s.cache.erase key }
  | none => s

/-- The end of `register_market_analysis_wanted`. -/
def registerStatus (key : String) : RegisterStatus :=
  if ((s.cache.get? key).map CacheItem.isReady).getD false then .ready
  else if s.taskRunning key then .running
  else .queued

/-- The part of a registration after it was admitted. -/
def registerPayload (client key : String) (sequence : ℕ) (payload : AnalysisPayload) (now : ℚ)
    (seen : ChartReads) : AnalysisService :=
  let s := { s with cache := trimMarketAnalysisCache cfg now (s.wanted.keys ++ [key]) s.cache }
  let captured := s.capture seen payload
  let canonical := captured.1
  let s := captured.2
  let s := if s.payloadSuperseded key canonical then s.revoke key else s
  let s := (s.staleKeys key canonical.request.identity).foldl revokeStale s
  let s := { s with wanted := s.wanted.insert key ⟨canonical, now, none⟩ }
  let s := s.attachClientLease client key sequence now
  s.dropMismatchedItem key canonical

/-- `register_wanted`. -/
def registerWanted (client key : String) (sequence : ℕ) (payload : AnalysisPayload) (now : ℚ)
    (seen : ChartReads) : RegisterStatus × AnalysisService :=
  let s := s.pruneClientHighwaters now
  if s.registrationAdmitted client key sequence then
    let s := s.registerPayload cfg client key sequence payload now seen
    (s.registerStatus key, s)
  else (.superseded, s)

/-! ### Renewal, refresh, release -/

/-- The wanted item of the key, if the client holds it with this sequence for this route. -/
def heldItem (client key : String) (sequence : ℕ) (instrumentId routeFingerprint : String) :
    Option WantedItem := do
  let item ← s.wanted.get? key
  let lease ← s.leases.lease? key client
  guard (s.leases.keyOf.get? client = some key ∧ lease.sequence = sequence
    ∧ item.payload.request.instrumentId = instrumentId
    ∧ item.payload.request.routeFingerprint = routeFingerprint)
  some item

/-- Renew the lease and the demand of a client. -/
def renewItem (client key : String) (sequence : ℕ) (now : ℚ) (item : WantedItem) :
    AnalysisService :=
  { s with
    leases := s.leases.attach client key ⟨sequence, now⟩
    highwater := s.highwater.insert client ⟨sequence, now⟩
    wanted := s.wanted.insert key { item with wantedAt := now } }

def renewClientLease (client key : String) (sequence : ℕ) (instrumentId routeFingerprint : String)
    (now : ℚ) : Bool × AnalysisService :=
  let s := s.pruneClientLeases cfg now
  match s.heldItem client key sequence instrumentId routeFingerprint with
  | some item => (true, s.renewItem client key sequence now item)
  | none => (false, s)

/-- The payload with the client's version in its market version. -/
def withClientVersion (payload : AnalysisPayload) (clientVersion : String) : AnalysisPayload :=
  if clientVersion = "" then payload
  else
    let fields := (payload.marketVersion.map MarketVersion.fields).getD []
    { payload with marketVersion := some ⟨some clientVersion, fields⟩ }

/-- A ready item that is old enough leaves the cache at a refresh. -/
def dropAgedItem (key : String) (now : ℚ) (request : AnalysisRequest) : AnalysisService :=
  match s.cache.get? key with
  | some cached =>
    if cached.isReady ∧ max cfg.versionedRefreshSeconds (cfg.refreshSeconds request)
        ≤ now - cached.updatedMonotonic then { s with cache := s.cache.erase key }
    else s
  | none => s

def refreshClientAnalysis (client key : String) (sequence : ℕ)
    (instrumentId routeFingerprint clientVersion : String) (now : ℚ) : Bool × AnalysisService :=
  let s := s.pruneClientLeases cfg now
  match s.heldItem client key sequence instrumentId routeFingerprint with
  | some item =>
    let item := { item with payload := withClientVersion item.payload clientVersion }
    (true, (s.renewItem client key sequence now item).dropAgedItem cfg key now item.payload.request)
  | none => (false, s)

def releaseClientLease (client : String) (sequence : ℕ) (now : ℚ) : Bool × AnalysisService :=
  let currentLease := (s.leases.keyOf.get? client).bind fun key => s.leases.lease? key client
  let currentSequence := (currentLease.map ClientLease.sequence).getD 0
  let highestSequence := ((s.highwater.get? client).map ClientLease.sequence).getD 0
  if max currentSequence highestSequence > sequence then (false, s)
  else
    let s := if currentLease.isSome then s.detachClientLease client else s
    (true, { s with highwater := s.highwater.insert client ⟨sequence, now⟩ })

/-! ### Routes and contexts -/

def invalidateKey (key : String) : AnalysisService :=
  let s := { s with leases := s.leases.dropKey key }
  let s := s.revoke key
  { s with cache := s.cache.erase key }

/-- The wanted keys of a route. -/
def routeKeys (instrumentId routeFingerprint : String) : List String :=
  (s.wanted.select fun _ item => decide (item.payload.request.instrumentId = instrumentId
    ∧ item.payload.request.routeFingerprint = routeFingerprint)).map Prod.fst

def invalidateProviderSessionRoute (instrumentId routeFingerprint : String) : AnalysisService :=
  (s.routeKeys instrumentId routeFingerprint).foldl invalidateKey s

end AnalysisService

namespace AnalysisRequest

variable (r : AnalysisRequest) (scope : ContextKey)

/-- The scope is a confirmed context of the request. -/
def usesContext : Bool :=
  decide (r.instrumentId = scope.1 ∧ r.routeFingerprint = scope.2.1
    ∧ scope.2.2 ∈ r.contextTimeframes)

/-- The scope is the parent of a research capture. -/
def usesParent : Bool :=
  decide (r.instrumentId = scope.1 ∧ r.routeFingerprint = scope.2.1
    ∧ r.analysisEffects = .researchCapture ∧ r.interval = scope.2.2)

end AnalysisRequest

namespace AnalysisService

variable (cfg : AnalysisConfig) (s : AnalysisService)

/-- The payload of an analysis that a context advance concerns, before it is captured again. -/
def advancedPayload (scope : ContextKey) (generation : ℕ) (p : AnalysisPayload) : AnalysisPayload :=
  if p.request.usesParent scope then { p with parentCanonicalGeneration := some generation } else p

def dropItem (key : String) : AnalysisService := { s with cache := s.cache.erase key }

/-- The demand of a key, captured again and due after the settle time. -/
def recaptureItem (key : String) (payload : AnalysisPayload) (item : WantedItem) (now : ℚ)
    (seen : ChartReads) : AnalysisService :=
  let captured := s.capture seen payload
  let s := captured.2
  let item := { item with
    payload := captured.1, notBefore := some (now + cfg.generationSettleSeconds) }
  { s with wanted := s.wanted.insert key item }

/-- A round of the loop over the wanted analyses. -/
def advanceKey (scope : ContextKey) (generation : ℕ) (now : ℚ) (seen : String → ChartReads)
    (s : AnalysisService) (key : String) : AnalysisService :=
  match s.wanted.get? key with
  | none => s
  | some item =>
    if item.payload.request.usesParent scope ∨ item.payload.request.usesContext scope then
      let payload := advancedPayload scope generation item.payload
      ((s.recaptureItem cfg key payload item now (seen key)).dropItem key).cancelRunning key
    else s

/-- `confirmed_bar_context_advanced`. -/
def confirmedBarContextAdvanced (scope : ContextKey) (generation : ℕ) (now : ℚ)
    (seen : String → ChartReads) : AnalysisService :=
  if generation ≤ s.contexts.known scope then s
  else
    let s := { s with contexts := s.contexts.insert scope generation }
    s.wanted.keys.foldl (advanceKey cfg scope generation now seen) s

/-! ### Jobs -/

/-- The worker starts a job for a wanted key without an active task. -/
def startJob (key : String) : Option AnalysisService := do
  let item ← s.wanted.get? key
  guard (s.taskRunning key = false)
  some { s with
    tasks := s.tasks.insert key s.nextJob
    taskIdentities := s.taskIdentities.insert key item.payload.request.identity
    jobs := s.jobs.insert s.nextJob ⟨key, item.payload, false, false, false⟩
    nextJob := s.nextJob + 1 }

/-- `completed_tasks` of the worker leave. -/
def popDoneTasks : AnalysisService :=
  ((s.tasks.select fun _ j => !s.isRunning j).map Prod.fst).foldl popTask s

/-- A job's item: a ready one repeats what its payload captured; the contexts are added when it is
stored. -/
def jobItem (j : ℕ) (payload : AnalysisPayload) (now : ℚ) : JobOutcome → Option CacheItem
  | .ready snapshot sizeBytes => some
    { status := .ready snapshot sizeBytes
      captured :=
        { payload.captured with
          confirmedBarContextGenerations := some (payload.confirmedBarContextGenerations.getD []) }
      updatedMonotonic := now
      job := some j }
  | .error retryable => some
    { status := .error retryable
      captured :=
        { instrumentId := payload.request.instrumentId
          routeFingerprint := payload.request.routeFingerprint
          interval := none
          parentCanonicalGeneration := none
          confirmedBarContextGenerations := some (payload.confirmedBarContextGenerations.getD [])
          marketVersion := none }
      updatedMonotonic := now
      job := some j }
  | .generationRace => none
  | .nothing => none

/-- The task has no registration, or its own. -/
def ownsRegistration (key : String) (j : ℕ) : Bool :=
  decide (s.tasks.get? key = none ∨ s.tasks.get? key = some j)

/-- The wanted payload still is what the job was asked for. -/
def requestCurrent (job : AnalysisJob) : Option WantedItem := do
  let item ← s.wanted.get? job.key
  guard (cacheMatchesPayloadContext job.payload.captured item.payload)
  some item

def storeItem (now : ℚ) (key : String) (item : CacheItem) : AnalysisService :=
  { s with cache := trimMarketAnalysisCache cfg now s.wanted.keys (s.cache.insert key item) }

/-- Settle the wanted item once more, captured again if its contexts moved. -/
def retryItem (key : String) (payload : AnalysisPayload) (item : WantedItem)
    (contextMatches : Bool) (now : ℚ) (seen : ChartReads) : AnalysisService :=
  if contextMatches then
    let item := { item with notBefore := some (now + cfg.generationSettleSeconds) }
    { s with wanted := s.wanted.insert key item }
  else s.recaptureItem cfg key payload item now seen

/-- A parent generation that is gone takes the demand with it; the leases stay. -/
def abandonDemand (key : String) : AnalysisService :=
  { s with cache := s.cache.erase key, wanted := s.wanted.erase key }

def finishJob (j : ℕ) (job : AnalysisJob) : AnalysisService :=
  { s with jobs := s.jobs.insert j { job with done := true } }

/-- The number of chart reads that the currency check of a payload makes at most. -/
def currencyReads (p : AnalysisPayload) : ℕ :=
  1 + 2 * (p.confirmedBarContextGenerations.getD []).length

/-- The last section of `run_analysis_job`. -/
def completeJob (j : ℕ) (job : AnalysisJob) (outcome : JobOutcome) (now : ℚ) (seen : ChartReads)
    (views : ℕ → ChartTable) : AnalysisService :=
  let owns := s.ownsRegistration job.key j
  let s := s.finishJob j job
  let s := if owns then s.popTask job.key else s
  let generationCurrent := capturedContextIsCurrent s.contexts views job.payload.captured
  let laterViews := fun i => views (currencyReads job.payload + i)
  let valuesMatch := capturedGenerationValuesMatch s.contexts laterViews job.payload.captured
  if owns then
    match generationCurrent, s.requestCurrent job, jobItem j job.payload now outcome with
    | true, some _, some item => s.storeItem cfg now job.key item
    | false, none, _ => s.dropItem job.key
    | false, some wantedItem, _ =>
      if valuesMatch.1 then
        (s.dropItem job.key).retryItem cfg job.key job.payload wantedItem valuesMatch.2 now seen
      else s.abandonDemand job.key
    | true, some wantedItem, none =>
      if outcome = .generationRace then
        (s.dropItem job.key).retryItem cfg job.key job.payload wantedItem true now seen
      else s
    | true, none, _ => s
  else s

/-- A task ends without its last section: cancelled before it ran or while it waited for the lock,
or by an exception outside the guarded part. -/
def exitJob (j : ℕ) (job : AnalysisJob) (failed : Bool) : AnalysisService :=
  { s with jobs := s.jobs.insert j { job with done := true, failed := failed } }

/-! ### Reading a result -/

/-- The error section of `snapshot`, after the task it waited for failed. -/
def awaitFailedJob (key : String) (instrumentId routeFingerprint : String) (retryable : Bool)
    (now : ℚ) : Option AnalysisService := do
  let j ← s.tasks.get? key
  let job ← s.jobs.get? j
  guard (job.done = true ∧ job.failed = true)
  let s := s.popTask key
  let item : CacheItem :=
    { status := .error retryable
      captured := ⟨instrumentId, routeFingerprint, none, none, none, none⟩
      updatedMonotonic := now
      job := none }
  some (if (s.wanted.get? key).isSome then s.storeItem cfg now key item else s)

/-- What `snapshot` checks for currency: the wanted payload, else what the cached item captured. -/
def generationScope (key : String) : Option Captured :=
  let cachedScope := (s.cache.get? key).bind fun cached =>
    if cached.captured.parentCanonicalGeneration.isSome ∧ cached.captured.interval.isSome then
      some cached.captured
    else none
  match s.wanted.get? key with
  | some item =>
    if item.payload.parentCanonicalGeneration.isSome then some item.payload.captured
    else cachedScope
  | none => cachedScope

/-- The cached item, unless what it must be current with is not. -/
def currentItem (views : ℕ → ChartTable) (key : String) : Option CacheItem :=
  match s.generationScope key with
  | some scope => if capturedContextIsCurrent s.contexts views scope then s.cache.get? key else none
  | none => s.cache.get? key

/-- The instrument and route that are known for the key. -/
def canonicalScope (key : String) (cached : Option CacheItem) : Option (String × String) :=
  match s.wanted.get? key with
  | some item => some (item.payload.request.instrumentId, item.payload.request.routeFingerprint)
  | none =>
    match s.taskIdentities.get? key with
    | some identity => some (identity.instrumentId, identity.routeFingerprint)
    | none =>
      match cached with
      | some item =>
        if item.captured.instrumentId ≠ "" ∧ item.captured.routeFingerprint ≠ "" then
          some (item.captured.instrumentId, item.captured.routeFingerprint)
        else none
      | none => none

/-- `build_market_analysis_snapshot_response`. -/
def snapshotResponse (cached : Option CacheItem) (taskRunning taskQueued : Bool) :
    SnapshotResponse :=
  match cached with
  | some item => if item.isReady then .ready item else .error item
  | none => if taskRunning then .running else if taskQueued then .queued else .missing

/-- A reading section of `snapshot`. -/
def snapshot (key instrumentId routeFingerprint : String) (views : ℕ → ChartTable) :
    SnapshotResponse × AnalysisService :=
  if key = "" then (.missing, s)
  else
    let cached := s.currentItem views key
    let s' := if cached = none then { s with cache := s.cache.erase key } else s
    match s.canonicalScope key cached with
    | some scope =>
      if scope ≠ (instrumentId, routeFingerprint) then (.scopeMismatch, s')
      else
        let taskQueued := decide (key ∈ s.wanted.keys) && cached.isNone
        (snapshotResponse cached (s.taskRunning key) taskQueued, s')
    | none => (snapshotResponse none false (decide (key ∈ s.wanted.keys)), s')

end AnalysisService

/-! ### Interleaving -/

inductive AnalysisAct
  | register (client key : String) (sequence : ℕ) (payload : AnalysisPayload) (now : ℚ)
      (seen : ChartReads)
  | renew (client key : String) (sequence : ℕ) (instrumentId routeFingerprint : String) (now : ℚ)
  | refresh (client key : String) (sequence : ℕ)
      (instrumentId routeFingerprint clientVersion : String) (now : ℚ)
  | release (client : String) (sequence : ℕ) (now : ℚ)
  | invalidate (instrumentId routeFingerprint : String)
  | advance (scope : ContextKey) (generation : ℕ) (now : ℚ) (seen : String → ChartReads)
  | sweep (now : ℚ)
  | start (key : String)
  | complete (job : ℕ) (outcome : JobOutcome) (now : ℚ) (seen : ChartReads) (delays : List ℕ)
  | exit (job : ℕ) (failed : Bool)
  | awaitFailed (key instrumentId routeFingerprint : String) (retryable : Bool) (now : ℚ)
  | snapshot (key instrumentId routeFingerprint : String) (delays : List ℕ)

/-- The moment of the `i`-th read of a section. -/
def readTime (clock : ℕ) (delays : List ℕ) (i : ℕ) : ℕ := clock + (delays.take (i + 1)).sum

/-- What the reads of a section see. -/
def sectionViews (chart : ℕ → ChartTable) (clock : ℕ) (delays : List ℕ) (i : ℕ) : ChartTable :=
  chart (readTime clock delays i)

namespace AnalysisService

/-- The section is over, and so are its reads. -/
def passTime (s : AnalysisService) (delays : List ℕ) : AnalysisService :=
  { s with clock := s.clock + delays.sum }

end AnalysisService

open AnalysisService in
def analysisStep (cfg : AnalysisConfig) (chart : ℕ → ChartTable) (s : AnalysisService) :
    AnalysisAct → Option AnalysisService
  | .register client key sequence payload now seen => do
    guard (0 < sequence)
    some (s.registerWanted cfg client key sequence payload now seen).2
  | .renew client key sequence instrumentId routeFingerprint now => do
    guard (0 < sequence)
    some (s.renewClientLease cfg client key sequence instrumentId routeFingerprint now).2
  | .refresh client key sequence instrumentId routeFingerprint clientVersion now => do
    guard (0 < sequence)
    some (s.refreshClientAnalysis cfg client key sequence instrumentId routeFingerprint
      clientVersion now).2
  | .release client sequence now => do
    guard (0 < sequence)
    some (s.releaseClientLease client sequence now).2
  | .invalidate instrumentId routeFingerprint =>
    some (s.invalidateProviderSessionRoute instrumentId routeFingerprint)
  | .advance scope generation now seen => do
    guard (0 < generation)
    some (s.confirmedBarContextAdvanced cfg scope generation now seen)
  | .sweep now => some (s.popDoneTasks.pruneClientLeases cfg now)
  | .start key => s.startJob key
  | .complete j outcome now seen delays => do
    let job ← s.jobs.get? j
    guard (job.done = false ∧ (job.cancelled = true → outcome = .nothing))
    let views := sectionViews chart s.clock delays
    some ((s.completeJob cfg j job outcome now seen views).passTime delays)
  | .exit j failed => do
    let job ← s.jobs.get? j
    guard (job.done = false)
    some (s.exitJob j job failed)
  | .awaitFailed key instrumentId routeFingerprint retryable now =>
    s.awaitFailedJob cfg key instrumentId routeFingerprint retryable now
  | .snapshot key instrumentId routeFingerprint delays =>
    let views := sectionViews chart s.clock delays
    some ((s.snapshot key instrumentId routeFingerprint views).2.passTime delays)

end AefTerminal
