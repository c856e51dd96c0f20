import AefTerminal.Foundation.Dict
import AefTerminal.Foundation.Run
import Mathlib.Algebra.Order.Ring.Rat
import Mathlib.Data.List.Sort

/-!
# The history repair orchestrator

`HistoryRepairOrchestrator` repairs gaps in the history of the charts: one task at a time for each
provider, and a bounded queue behind it with foreground requests before background ones. A request
covers one chunk of its target range; where a chunk made progress the task that finishes starts the
next older chunk itself.

What touches the orchestrator under `_lock` is one step. The fetch and the commit of a task are its
outcome here, any outcome for the request's own intent; the clock is an argument.

## Main definitions

* `HistoryRepairIntent`, `repairKey`, `continuationRequest`
* `HistoryRepairOrchestrator`, `schedule`, `finish`
* `HistoryRepairOrchestrator.Step`
-/

namespace AefTerminal

open Foundation

def maxPendingRepairsPerProvider : ℕ := 32
def maxCompletionCallbacksPerRepair : ℕ := 32
def maxRetainedHistoryRepairOutcomes : ℕ := 256
def failureBackoffSeconds : ℚ := 5 * 60

/-! ### Requests -/

inductive HistoryContractResolution
  | exact
  | providerResponse
  deriving DecidableEq, Repr

/-- `HistoryRequestAdmissionIdentity`; its request type and its data type have one value each. -/
structure HistoryRequestIdentity where
  requestContractVersion : ℕ
  admissionContractVersion : ℕ
  requestMode : String
  providerSource : String
  providerContractId : String
  providerContractType : String
  contractResolution : HistoryContractResolution
  deriving DecidableEq, Repr

inductive HistoryRepairPriority
  | foreground
  | background
  deriving DecidableEq, Repr

/-- The value of the priority in its `IntEnum`. -/
def HistoryRepairPriority.value : HistoryRepairPriority → ℕ
  | .foreground => 0
  | .background => 1

/-- One chunk of a target range. -/
@[ext]
structure HistoryRepairIntent where
  provider : String
  instrumentId : String
  routeFingerprint : String
  timeframe : String
  startsAt : ℤ
  endsAt : ℤ
  targetStartsAt : ℤ
  targetEndsAt : ℤ
  requestIdentity : HistoryRequestIdentity
  canonicalGeneration : ℕ
  priority : HistoryRepairPriority
  cooldownSeconds : ℚ
  nonempty : startsAt < endsAt
  inside : targetStartsAt ≤ startsAt ∧ endsAt ≤ targetEndsAt
  cooldown_nonneg : 0 ≤ cooldownSeconds

instance : DecidableEq HistoryRepairIntent := fun _ _ => decidable_of_iff' _ HistoryRepairIntent.ext_iff

/-- `_HistoryRepairCursorKey`. -/
structure RepairCursorKey where
  provider : String
  instrumentId : String
  routeFingerprint : String
  timeframe : String
  startsAt : ℤ
  endsAt : ℤ
  targetStartsAt : ℤ
  targetEndsAt : ℤ
  requestIdentity : HistoryRequestIdentity
  deriving DecidableEq, Repr

/-- The first four parts of the key. -/
def RepairCursorKey.chartScope (key : RepairCursorKey) : String × String × String × String :=
  (key.provider, key.instrumentId, key.routeFingerprint, key.timeframe)

/-- `_HistoryRepairKey`. -/
structure RepairKey where
  cursor : RepairCursorKey
  canonicalGeneration : ℕ
  deriving DecidableEq, Repr

def repairCursorKey (intent : HistoryRepairIntent) : RepairCursorKey :=
  ⟨intent.provider, intent.instrumentId, intent.routeFingerprint, intent.timeframe,
    intent.startsAt, intent.endsAt, intent.targetStartsAt, intent.targetEndsAt,
    intent.requestIdentity⟩

def repairKey (intent : HistoryRepairIntent) : RepairKey :=
  ⟨repairCursorKey intent, intent.canonicalGeneration⟩

inductive HistoryRepairOutcomeStatus
  | committed
  | noChange
  | incomplete
  | malformed
  | staleGeneration
  | staleRoute
  | fetchFailed
  | storageFailed
  | commitFailed
  | commitQueueFull
  | cancelled
  | superseded
  deriving DecidableEq, Repr

structure HistoryRepairOutcome where
  status : HistoryRepairOutcomeStatus
  intent : HistoryRepairIntent
  writtenBars : ℕ := 0
  deletedBars : ℕ := 0
  coverageExpanded : Bool := false
  generation : Option ℕ := none
  errorCode : Option String := none
  deriving DecidableEq

/-- What a caller of `schedule` asks for. -/
structure HistoryRepairRequest where
  exactSnapshotAuthority : Bool
  intent : HistoryRepairIntent
  timeout : ℚ
  deriving DecidableEq

/-- `_PendingHistoryRepair`. Its `task_key` is always the key of its intent; `serial` is not in the
program, it tells the admitted requests apart. -/
structure PendingHistoryRepair extends HistoryRepairRequest where
  serial : ℕ
  deriving DecidableEq

namespace PendingHistoryRepair

def taskKey (request : PendingHistoryRepair) : RepairKey := repairKey request.intent

def provider (request : PendingHistoryRepair) : String := request.intent.provider

def Foreground (request : PendingHistoryRepair) : Prop := request.intent.priority = .foreground

def Background (request : PendingHistoryRepair) : Prop := request.intent.priority = .background

instance (request : PendingHistoryRepair) : Decidable request.Foreground :=
  inferInstanceAs (Decidable (_ = _))

instance (request : PendingHistoryRepair) : Decidable request.Background :=
  inferInstanceAs (Decidable (_ = _))

end PendingHistoryRepair

/-! ### The next chunk -/

/-- The chunk before this one, of the same length or what is left of the target. -/
def olderChunk (intent : HistoryRepairIntent) (generation : ℕ)
    (h : intent.targetStartsAt < intent.startsAt) : HistoryRepairIntent :=
  { intent with
    startsAt := max intent.targetStartsAt (intent.startsAt - (intent.endsAt - intent.startsAt))
    endsAt := intent.startsAt
    canonicalGeneration := generation
    nonempty := by
      have := intent.nonempty
      omega
    inside := by
      have := intent.nonempty
      have := intent.inside
      omega }

def HistoryRepairOutcome.progressed (outcome : HistoryRepairOutcome) : Bool :=
  outcome.status = .committed || outcome.writtenBars ≠ 0 || outcome.deletedBars ≠ 0 ||
    outcome.coverageExpanded

/-- The intent of `_continuation_request`. -/
def continuationIntent (intent : HistoryRepairIntent) (outcome : HistoryRepairOutcome) :
    Option HistoryRepairIntent :=
  if intent.requestIdentity.contractResolution = .providerResponse then none
  else if outcome.status ∉ [.committed, .noChange] ∨ outcome.progressed = false then none
  else if h : intent.targetStartsAt < intent.startsAt then
    some (olderChunk intent (outcome.generation.getD intent.canonicalGeneration) h)
  else none

/-- `_terminal_no_progress`. -/
def terminalNoProgress (outcome : HistoryRepairOutcome) : Bool :=
  outcome.status ∈ [.noChange, .incomplete, .malformed] && outcome.writtenBars = 0 &&
    outcome.deletedBars = 0 && !outcome.coverageExpanded

/-- The cooldown after an outcome. -/
def cooldownAfter (intent : HistoryRepairIntent) (outcome : HistoryRepairOutcome) : ℚ :=
  if outcome.status ∈ [.fetchFailed, .storageFailed, .commitFailed, .commitQueueFull, .malformed]
  then max intent.cooldownSeconds failureBackoffSeconds
  else intent.cooldownSeconds

/-! ### The orchestrator -/

inductive HistoryRepairAdmissionStatus
  | scheduled
  | running
  | queued
  | awaitingGenerationAdvance
  | throttled
  | queueFull
  deriving DecidableEq, Repr

structure HistoryRepairAdmission where
  status : HistoryRepairAdmissionStatus
  intent : HistoryRepairIntent
  newlyAdmitted : Bool := false
  completionSubscribed : Bool := false
  retryAfterSeconds : ℚ := 0
  deriving DecidableEq

/-- The orchestrator with the tasks that run and the callbacks that are about to be called. The
callbacks are numbered in the order of their subscription. The fields from `invoked` on are not in
the program: the callbacks that were called, the request each was subscribed to, how the requests
ended, which request was evicted for which intent. -/
structure HistoryRepairOrchestrator where
  tasks : Dict RepairKey ℕ
  nextAllowed : Dict RepairKey ℚ
  awaitingGeneration : Dict RepairCursorKey ℕ
  pending : String → List PendingHistoryRepair
  callbacks : List (RepairKey × ℕ)
  outcomes : Dict RepairKey HistoryRepairOutcome
  active : List PendingHistoryRepair
  due : List (ℕ × HistoryRepairOutcome)
  invoked : List (ℕ × HistoryRepairOutcome)
  subscriptions : List (ℕ × ℕ)
  ended : List (ℕ × HistoryRepairOutcome)
  evictions : List (PendingHistoryRepair × HistoryRepairIntent)
  nextSerial : ℕ

namespace HistoryRepairOrchestrator

/-- `_remember_outcome_locked`. -/
def rememberOutcome (outcomes : Dict RepairKey HistoryRepairOutcome)
    (outcome : HistoryRepairOutcome) : Dict RepairKey HistoryRepairOutcome :=
  let outcomes := (outcomes.erase (repairKey outcome.intent)).insert (repairKey outcome.intent)
    outcome
  outcomes.dropOldest (outcomes.size - maxRetainedHistoryRepairOutcomes)

def initial : HistoryRepairOrchestrator :=
  ⟨.empty, .empty, .empty, fun _ => [], [], .empty, [], [], [], [], [], [], 0⟩

section

variable (s : HistoryRepairOrchestrator)

/-- `latest_outcome`. -/
def latestOutcome (intent : HistoryRepairIntent) :
    Option HistoryRepairOutcome × HistoryRepairOrchestrator :=
  match s.outcomes.get? (repairKey intent) with
  | none => (none, s)
  | some outcome => (some outcome, { s with
    outcomes := (s.outcomes.erase (repairKey intent)).insert (repairKey intent) outcome })

/-- The callbacks that wait under a key. -/
def callbacksOf (key : RepairKey) : List ℕ :=
  (s.callbacks.filter fun entry => entry.1 = key).map Prod.snd

/-- `_subscribe_locked`, for the request with this serial. -/
def subscribe (key : RepairKey) (serial : ℕ) (onComplete : Bool) :
    Bool × HistoryRepairOrchestrator :=
  if onComplete = false ∨ maxCompletionCallbacksPerRepair ≤ (s.callbacksOf key).length then
    (false, s)
  else (true, { s with
    callbacks := s.callbacks ++ [(key, s.subscriptions.length)]
    subscriptions := s.subscriptions ++ [(s.subscriptions.length, serial)] })

/-- The request ends: its callbacks leave the table to be called with the outcome. -/
def complete (request : PendingHistoryRepair) (outcome : HistoryRepairOutcome) :
    HistoryRepairOrchestrator :=
  { s with
    outcomes := rememberOutcome s.outcomes outcome
    callbacks := s.callbacks.filter fun entry => entry.1 ≠ request.taskKey
    due := s.due ++ (s.callbacksOf request.taskKey).map fun callback => (callback, outcome)
    ended := s.ended ++ [(request.serial, outcome)] }

/-- `_prioritize_pending`, a stable sort. -/
def prioritizePending (pending : List PendingHistoryRepair) : List PendingHistoryRepair :=
  pending.insertionSort fun a b => a.intent.priority.value ≤ b.intent.priority.value

def setPending (provider : String) (pending : List PendingHistoryRepair) :
    HistoryRepairOrchestrator :=
  { s with pending := Function.update s.pending provider pending }

/-- The next serial number is taken. -/
def allocate : HistoryRepairOrchestrator := { s with nextSerial := s.nextSerial + 1 }

/-- `_start_locked`. -/
def startTask (request : PendingHistoryRepair) : HistoryRepairOrchestrator :=
  { s with tasks := s.tasks.insert request.taskKey request.serial, active := s.active ++ [request] }

/-- `_pop_next_locked`, and the start of what it finds. -/
def startNext (provider : String) : HistoryRepairOrchestrator :=
  match s.pending provider with
  | [] => s
  | request :: rest => (s.setPending provider rest).startTask request

/-! ### A task that finishes -/

/-- The start of the next chunk. -/
def continueWith (request : PendingHistoryRepair) (intent : HistoryRepairIntent) :
    HistoryRepairOrchestrator :=
  s.allocate.startTask { request with intent := intent, serial := s.nextSerial }

/-- Everything that waits behind a cancelled task is cancelled. -/
def cancelPending (provider : String) : HistoryRepairOrchestrator :=
  (s.pending provider).foldl
    (fun s request => s.complete request { status := .cancelled, intent := request.intent })
    (s.setPending provider [])

/-- What a task that finishes does under the lock, up to the choice of the next request. -/
def settle (request : PendingHistoryRepair) (outcome : HistoryRepairOutcome) (now : ℚ) :
    HistoryRepairOrchestrator :=
  { s.complete request outcome with
    awaitingGeneration :=
      if terminalNoProgress outcome then
        s.awaitingGeneration.insert (repairCursorKey request.intent)
          request.intent.canonicalGeneration
      else s.awaitingGeneration
    nextAllowed := s.nextAllowed.insert request.taskKey (now + cooldownAfter request.intent outcome)
    tasks :=
      if s.tasks.get? request.taskKey = some request.serial then s.tasks.erase request.taskKey
      else s.tasks
    active := s.active.filter fun other => other.serial ≠ request.serial }

/-- `_run_request` of a task that is not cancelled, from its outcome on. -/
def finish (request : PendingHistoryRepair) (outcome : HistoryRepairOutcome) (now : ℚ) :
    HistoryRepairOrchestrator :=
  let s := s.settle request outcome now
  match continuationIntent request.intent outcome with
  | some intent => s.continueWith request intent
  | none => s.startNext request.provider

/-- `_run_request` of a task that is cancelled. -/
def finishCancelled (request : PendingHistoryRepair) (now : ℚ) : HistoryRepairOrchestrator :=
  (s.settle request { status := .cancelled, intent := request.intent } now).cancelPending
    request.provider

/-! ### A submission -/

/-- Cursors of the chart that waited for a generation below this one wait no longer. -/
def clearAwaiting (intent : HistoryRepairIntent) : HistoryRepairOrchestrator :=
  { s with awaitingGeneration := s.awaitingGeneration.eraseAll ((s.awaitingGeneration.select
      fun key generation => key.chartScope = (repairCursorKey intent).chartScope ∧
        generation < intent.canonicalGeneration).map Prod.fst) }

def awaitsGeneration (intent : HistoryRepairIntent) : Bool :=
  match s.awaitingGeneration.get? (repairCursorKey intent) with
  | some generation => intent.canonicalGeneration ≤ generation
  | none => false

/-- Tasks that are done and deadlines that have passed are forgotten. -/
def prune (now : ℚ) : HistoryRepairOrchestrator :=
  let tasks := s.tasks.eraseAll ((s.tasks.select fun _ serial =>
    serial ∉ s.active.map PendingHistoryRepair.serial).map Prod.fst)
  { s with
    tasks := tasks
    nextAllowed := s.nextAllowed.eraseAll ((s.nextAllowed.select fun key deadline =>
      deadline ≤ now ∧ key ∉ tasks.keys).map Prod.fst) }

/-- A queued request with what a request for the same key brings. -/
def promoted (existing : PendingHistoryRepair) (request : HistoryRepairRequest) :
    PendingHistoryRepair :=
  { existing with intent := request.intent, timeout := min existing.timeout request.timeout }

/-- A queued request takes over a higher priority. -/
def promote (existing : PendingHistoryRepair) (request : HistoryRepairRequest) :
    HistoryRepairOrchestrator :=
  if request.intent.priority.value < existing.intent.priority.value then
    s.setPending request.intent.provider
      (prioritizePending ((s.pending request.intent.provider).map fun other =>
        if other.taskKey = existing.taskKey then promoted existing request else other))
  else s

/-- The request is dropped from the queue for another one. -/
def evict (evicted : PendingHistoryRepair) (intent : HistoryRepairIntent) :
    HistoryRepairOrchestrator :=
  let pending := (s.pending intent.provider).filter fun other => other.taskKey ≠ evicted.taskKey
  { (s.setPending intent.provider pending).complete evicted
      { status := .superseded, intent := evicted.intent } with
    evictions := s.evictions ++ [(evicted, intent)] }

/-- The last background request, for a foreground one. -/
def evictee (intent : HistoryRepairIntent) : Option PendingHistoryRepair :=
  if intent.priority = .foreground then
    (s.pending intent.provider).reverse.find? fun candidate => candidate.Background
  else none

def admitted (request : HistoryRepairRequest) : PendingHistoryRepair :=
  { request with serial := s.nextSerial }

/-- The queue with the request in it. -/
def queued (request : HistoryRepairRequest) : HistoryRepairOrchestrator :=
  { s.allocate.setPending request.intent.provider
      (prioritizePending (s.pending request.intent.provider ++ [s.admitted request])) with
    outcomes := s.outcomes.erase (repairKey request.intent) }

/-- The request goes into the queue. -/
def enqueue (request : HistoryRepairRequest) (onComplete : Bool) :
    HistoryRepairAdmission × HistoryRepairOrchestrator :=
  let (subscribed, s') := (s.queued request).subscribe (repairKey request.intent) s.nextSerial
    onComplete
  (⟨.queued, request.intent, true, subscribed, 0⟩, s')

/-- The request starts at once. -/
def begin (request : HistoryRepairRequest) (onComplete : Bool) :
    HistoryRepairAdmission × HistoryRepairOrchestrator :=
  let (subscribed, s') := s.allocate.subscribe (repairKey request.intent) s.nextSerial onComplete
  (⟨.scheduled, request.intent, true, subscribed, 0⟩,
    { s' with outcomes := s'.outcomes.erase (repairKey request.intent) }.startTask
      (s.admitted request))

/-- `schedule` of a key that is neither active nor queued. -/
def enter (request : HistoryRepairRequest) (onComplete : Bool) (now : ℚ) :
    HistoryRepairAdmission × HistoryRepairOrchestrator :=
  let nextAllowed := (s.nextAllowed.get? (repairKey request.intent)).getD 0
  if now < nextAllowed then
    (⟨.throttled, request.intent, false, false, max (nextAllowed - now) 0⟩, s)
  else if request.intent.provider ∈ s.tasks.keys.map fun key => key.cursor.provider then
    if maxPendingRepairsPerProvider ≤ (s.pending request.intent.provider).length then
      match s.evictee request.intent with
      | none => (⟨.queueFull, request.intent, false, false, 0⟩, s)
      | some evicted => (s.evict evicted request.intent).enqueue request onComplete
    else s.enqueue request onComplete
  else s.begin request onComplete

/-- `schedule`, from where it takes the lock. -/
def schedule (request : HistoryRepairRequest) (onComplete : Bool) (now : ℚ) :
    HistoryRepairAdmission × HistoryRepairOrchestrator :=
  let s := s.clearAwaiting request.intent
  if s.awaitsGeneration request.intent then
    (⟨.awaitingGenerationAdvance, request.intent, false, false, 0⟩, s)
  else
    let s := s.prune now
    match s.tasks.get? (repairKey request.intent) with
    | some serial =>
      let (subscribed, s') := s.subscribe (repairKey request.intent) serial onComplete
      (⟨.running, request.intent, false, subscribed, 0⟩, s')
    | none =>
      match (s.pending request.intent.provider).find? fun other =>
        other.taskKey = repairKey request.intent with
      | some existing =>
        let (subscribed, s') := (s.promote existing request).subscribe (repairKey request.intent)
          existing.serial onComplete
        (⟨.queued, request.intent, false, subscribed, 0⟩, s')
      | none => s.enter request onComplete now

end

/-! ### Runs -/

inductive Act
  | schedule (request : HistoryRepairRequest) (onComplete : Bool) (now : ℚ)
  /-- The task of a request finishes. -/
  | finish (serial : ℕ) (outcome : HistoryRepairOutcome) (now : ℚ)
  | cancel (serial : ℕ) (now : ℚ)
  /-- A callback that is due is called. -/
  | call (i : ℕ)
  | latestOutcome (intent : HistoryRepairIntent)

inductive Step : HistoryRepairOrchestrator → Act → HistoryRepairOrchestrator → Prop
  | schedule {s : HistoryRepairOrchestrator} (request : HistoryRepairRequest) (onComplete : Bool)
      (now : ℚ) : Step s (.schedule request onComplete now) (s.schedule request onComplete now).2
  | finish {s : HistoryRepairOrchestrator} (request : PendingHistoryRepair)
      (outcome : HistoryRepairOutcome) (now : ℚ) (hactive : request ∈ s.active)
      (hintent : outcome.intent = request.intent) :
      Step s (.finish request.serial outcome now) (s.finish request outcome now)
  | cancel {s : HistoryRepairOrchestrator} (request : PendingHistoryRepair) (now : ℚ)
      (hactive : request ∈ s.active) :
      Step s (.cancel request.serial now) (s.finishCancelled request now)
  | call {s : HistoryRepairOrchestrator} (i : ℕ) (call : ℕ × HistoryRepairOutcome)
      (hdue : s.due[i]? = some call) :
      Step s (.call i) { s with due := s.due.eraseIdx i, invoked := s.invoked ++ [call] }
  | latestOutcome {s : HistoryRepairOrchestrator} (intent : HistoryRepairIntent) :
      Step s (.latestOutcome intent) (s.latestOutcome intent).2

end HistoryRepairOrchestrator

end AefTerminal
