import AefTerminal.ChartCommits.Lane
import AefTerminal.ChartEvents.Guards
import AefTerminal.Foundation.Program

/-!
# Commits under a write guard

The two commits of a lane, each from the beginning of its write guard to the release: a live batch
(`_execute_live_commit`) and a history result (`_commit_history_result_under_write_guard` in a
thread, `_run_history_storage_attempt`, `_finalize_history_storage_attempt`).

Each is a program over the guards of the chart events, the lane and the futures of its history
handles. Other tasks and threads work on the chart events meanwhile: before each operation of a
commit they make any number of calls, with two limits. They release a guard only when it was handed
to them, and they publish a scope only while they hold its guard, so the guard of this commit and
its scope are not theirs.

What storage does, whether the task of the attempt was cancelled, whether the lane's task was
cancelled while it waited, and whether a publication raised, is given by an environment.

## Main definitions

* `CommitRaise`, `CommitState`, `GuardEvent`, `CommitEnv`
* `executeLiveCommit`
* `commitHistoryResultUnderWriteGuard`, `runHistoryStorageAttempt`, `finalizeHistoryStorageAttempt`
-/

namespace AefTerminal

open Foundation

/-- An exception of the commit path, by the class that handlers tell apart. -/
inductive CommitRaise
  | cancelled
  /-- Raised by the chart events; `ChartBarsGenerationChanged` is one of them. -/
  | events (error : ChartEventError)
  /-- `_HistoryCommitStorageOutcomeUncertain` -/
  | storageOutcomeUncertain (generation : ℕ) (errorType : String)
  /-- `_HistoryCommitGenerationChanged` -/
  | historyGenerationChanged (generation : ℕ)
  /-- `_HistoryCommitTerminalError` -/
  | terminal (code : String)
  /-- `AttributeError`, `TypeError` or `ValueError` -/
  | contract (errorType : String)
  /-- Any other exception, and whether it is transient. -/
  | failed (errorType : String) (transient : Bool)
  deriving DecidableEq, Repr

/-- The name of an exception's class, as the error codes quote it. -/
def CommitRaise.errorType : CommitRaise → String
  | cancelled => "CancelledError"
  | events (.generationChanged ..) => "ChartBarsGenerationChanged"
  | events _ => "RuntimeError"
  | storageOutcomeUncertain .. => "_HistoryCommitStorageOutcomeUncertain"
  | historyGenerationChanged _ => "_HistoryCommitGenerationChanged"
  | terminal _ => "_HistoryCommitTerminalError"
  | contract errorType => errorType
  | failed errorType _ => errorType

/-- What a commit does that matters for its guard, in order. -/
inductive GuardEvent
  | began (guard : ChartBarsWriteGuard)
  | storageStarted
  /-- A receipt validated; whether it reports a change. -/
  | validated (changed : Bool)
  /-- The events of the change were published, at this generation. -/
  | published (generation : ℕ)
  /-- Released the normal way, at the generation the scope had then. -/
  | ended (guard : ChartBarsWriteGuard) (generation : ℕ)
  /-- Released as uncertain, at the generation the scope had then. -/
  | invalidated (guard : ChartBarsWriteGuard) (generation : ℕ)
  deriving DecidableEq

/-- `settled` holds the outcomes set on the futures of history handles, in order; `log` is not in
the program. -/
structure CommitState where
  session : Session
  lane : ChartCommitLane
  settled : List (ℕ × HistoryCommitOutcome)
  log : List GuardEvent

abbrev CommitM := Prog CommitRaise CommitState

/-! ### Others -/

/-- The call leaves this guard and its scope alone. -/
def ChartEventAct.Leaves (guard : ChartBarsWriteGuard) : ChartEventAct → Prop
  | .endWrite g => g ≠ guard
  | .invalidateWrite g _ => g ≠ guard
  | .publish key _ _ _ => key ≠ guard.key
  | _ => True

instance (guard : ChartBarsWriteGuard) : DecidablePred (ChartEventAct.Leaves guard) := fun a => by
  cases a <;> unfold ChartEventAct.Leaves <;> infer_instance

instance (s : Session) : DecidablePred s.Owned := fun a => by
  cases a <;> unfold Session.Owned <;> infer_instance

/-- A call that others may make while this commit holds `mine`. -/
def Session.Foreign (mine : Option ChartBarsWriteGuard) (s : Session) (a : ChartEventAct) : Prop :=
  s.Owned a ∧ ∀ guard ∈ mine, a.Leaves guard

instance (mine : Option ChartBarsWriteGuard) (s : Session) : DecidablePred (s.Foreign mine) :=
  fun a => inferInstanceAs (Decidable (_ ∧ ∀ guard ∈ mine, a.Leaves guard))

/-- The calls of others, in order; what they may not make they do not make. -/
def Session.interfere (mine : Option ChartBarsWriteGuard) (s : Session)
    (acts : List ChartEventAct) : Session :=
  acts.foldl (fun s a => if s.Foreign mine a then s.next a else s) s

/-! ### Operations -/

namespace CommitM

def others (mine : Option ChartBarsWriteGuard) (acts : List ChartEventAct) : CommitM Unit :=
  Prog.update fun s => { s with session := s.session.interfere mine acts }

def record (event : GuardEvent) : CommitM Unit :=
  Prog.update fun s => { s with log := s.log ++ [event] }

/-- One call on the chart events. -/
def call (a : ChartEventAct) : CommitM Unit :=
  Prog.update fun s => { s with session := s.session.next a }

def readGeneration (key : ChartRefreshKey) : CommitM ℕ :=
  Prog.read fun s => s.session.table.generation key

def beginWrite (expected : ℕ) (key : ChartRefreshKey) : CommitM ChartBarsWriteGuard := do
  match ← Prog.read fun s => s.session.table.beginChartBarsWrite expected key with
  | .error e => Prog.raise (.events e)
  | .ok (guard, _) => do
    call (.beginWrite expected key)
    record (.began guard)
    return guard

def endWrite (guard : ChartBarsWriteGuard) : CommitM Unit := do
  match ← Prog.read fun s => s.session.table.endChartBarsWrite guard with
  | .error e => Prog.raise (.events e)
  | .ok _ => do
    let generation ← readGeneration guard.key
    call (.endWrite guard)
    record (.ended guard generation)

def invalidateWrite (guard : ChartBarsWriteGuard) (reason : String) : CommitM ℕ := do
  match ← Prog.read fun s => s.session.table.invalidateChartBarsWrite guard reason with
  | .error e => Prog.raise (.events e)
  | .ok (generation, _) => do
    call (.invalidateWrite guard reason)
    record (.invalidated guard generation)
    return generation

end CommitM

/-- How a publication ends: with its result, or by a raise before or after it took effect. -/
inductive PublicationEnd
  | returned
  | raisedBefore (error : CommitRaise)
  | raisedAfter (error : CommitRaise)

/-- What a commit meets. `R` is the type of the receipts; a receipt of another type is `none`. -/
structure CommitEnv (R : Type) where
  /-- The route no longer resolves to the lane's scope. -/
  routeChanged : Bool
  /-- What others do before the operation with this number. -/
  others : ℕ → List ChartEventAct
  storage : Except CommitRaise (Option R)
  /-- The asyncio task of the attempt was itself cancelled. -/
  taskCancelled : Bool
  /-- A cancelled attempt had its thread started. -/
  threadStarted : Bool
  /-- The lane's task was cancelled while it waited for the attempt. -/
  cancellation : Bool
  publication : PublicationEnd

namespace CommitM

/-- `publish_chart_bars_updated`, expecting a generation. -/
def publish (key : ChartRefreshKey) (reason : String) (bars : List Bar) (expected : ℕ)
    (publication : PublicationEnd) : CommitM ℕ :=
  match publication with
  | .raisedBefore e => Prog.raise e
  | .raisedAfter e => do
    call (.publish key reason bars (some expected))
    Prog.raise e
  | .returned => do
    let generation ← Prog.read fun s =>
      (s.session.table.publishChartBarsUpdated key reason bars (some expected)).1
    call (.publish key reason bars (some expected))
    if generation = 0 then return 0
    else do
      record (.published generation)
      return generation

def remember (bars : List Bar) : CommitM Unit :=
  Prog.update fun s => { s with lane := s.lane.rememberAll bars }

end CommitM

open CommitM

/-! ### A live batch -/

/-- `_LiveCommitResult`. -/
structure LiveCommitResult where
  missing : List BarObject
  deferredCancel : Bool

/-- The publication of `_finalize_live_commit_receipt`: only rows that were written are published. -/
def publishLiveCommit (key : ChartRefreshKey) (expected : ℕ) (guard : ChartBarsWriteGuard)
    (receipt : CanonicalBarCommitReceipt) (env : CommitEnv CanonicalBarCommitReceipt) :
    CommitM Unit :=
  if 0 < receipt.written then do
    others guard (env.others 3)
    let generation ← publish key "canonical_commit" receipt.acknowledged expected env.publication
    -- `CHART_COMMIT_GENERATION_OWNERSHIP_LOST`
    Prog.lift (require (0 < generation) (.failed "RuntimeError" false))
  else return ()

/-- `_finalize_live_commit_receipt`. -/
def finalizeLiveCommitReceipt (key : ChartRefreshKey) (batch : List BarObject)
    (revisionSequence : ℕ) (expected : ℕ) (guard : ChartBarsWriteGuard)
    (receipt : Option CanonicalBarCommitReceipt) (env : CommitEnv CanonicalBarCommitReceipt) :
    CommitM (List BarObject) :=
  match receipt, liveCommitReceiptOutcomes batch receipt revisionSequence with
  | some r, .ok o => do
    record (.validated (decide (0 < r.written)))
    publishLiveCommit key expected guard r env
    others guard (env.others 4)
    endWrite guard
    remember ((o.acknowledged ++ o.superseded).map BarObject.bar)
    return o.missing
  | _, _ => Prog.raise (.failed "RuntimeError" false)

/-- How the settled attempt ends for its waiter: a raise of the attempt, or its cancellation, is
covered by a cancellation of the waiter. -/
def settledAttempt {R : Type} (env : CommitEnv R) : Except CommitRaise (Option R) :=
  if env.taskCancelled then
    .error (if env.cancellation then .cancelled else .failed "RuntimeError" false)
  else
    match env.storage with
    | .error e => .error (if env.cancellation then .cancelled else e)
    | .ok receipt => .ok receipt

/-- `_execute_live_commit`. -/
def executeLiveCommit (key : ChartRefreshKey) (batch : List BarObject) (revisionSequence : ℕ)
    (env : CommitEnv CanonicalBarCommitReceipt) : CommitM LiveCommitResult := do
  Prog.lift (require (env.routeChanged = false) (.failed "RuntimeError" false))
  others none (env.others 0)
  let expected ← readGeneration key
  others none (env.others 1)
  let guard ← beginWrite expected key
  let finished ← Prog.observe do
    record .storageStarted
    others guard (env.others 2)
    let receipt ← Prog.lift (settledAttempt env)
    let missing ← finalizeLiveCommitReceipt key batch revisionSequence expected guard receipt env
    return (⟨missing, env.cancellation⟩ : LiveCommitResult)
  match finished with
  | .ok result => return result
  | .error e => do
    -- `finally`, with the guard still set
    others guard (env.others 5)
    let _ ← invalidateWrite guard "canonical_commit_outcome_uncertain"
    Prog.raise e

/-! ### A history result -/

abbrev HistoryEnv := CommitEnv CanonicalHistoryCommitReceipt

/-- `_commit_history_result_under_write_guard`, in its thread. -/
def commitHistoryResultUnderWriteGuard (request : HistoryCommitRequest) (env : HistoryEnv) :
    CommitM (Option CanonicalHistoryCommitReceipt × ChartBarsWriteGuard) := do
  others none (env.others 0)
  let guard ← beginWrite request.canonicalGeneration request.key
  record .storageStarted
  others guard (env.others 1)
  match env.storage with
  | .ok receipt => return (receipt, guard)
  | .error e => do
    let generation ← invalidateWrite guard "history_commit_storage_outcome_uncertain"
    Prog.raise (.storageOutcomeUncertain generation e.errorType)

/-- A thread whose task was cancelled: once started it runs to its end, and nobody takes its
result. -/
def abandonedThread (request : HistoryCommitRequest) (env : HistoryEnv) : CommitM Unit :=
  if env.threadStarted then do
    let _ ← Prog.observe (commitHistoryResultUnderWriteGuard request env)
  else return ()

/-- `_run_history_storage_attempt`: the receipt, the guard and a deferred cancellation. -/
def runHistoryStorageAttempt (request : HistoryCommitRequest) (env : HistoryEnv) :
    CommitM (Option CanonicalHistoryCommitReceipt × ChartBarsWriteGuard × Bool) :=
  if env.taskCancelled then do
    abandonedThread request env
    Prog.raise (.failed "RuntimeError" false)
  else do
    let finished ← Prog.observe (commitHistoryResultUnderWriteGuard request env)
    match finished with
    | .error e => Prog.raise (if env.cancellation then .cancelled else e)
    | .ok (receipt, guard) => return (receipt, guard, env.cancellation)

/-- `_finalize_history_commit_receipt`: the typed receipt and the generation. -/
def finalizeHistoryCommitReceipt (request : HistoryCommitRequest) (revisionSequence : ℕ)
    (guard : ChartBarsWriteGuard) (receipt : Option CanonicalHistoryCommitReceipt)
    (env : HistoryEnv) : CommitM (CanonicalHistoryCommitReceipt × ℕ) :=
  match receipt with
  | none => Prog.raise (.terminal "HISTORY_COMMIT_TYPED_RECEIPT_REQUIRED")
  | some r =>
    match validateExactHistoryBarReceipt request.bars r.barReceipt revisionSequence with
    | .error e => Prog.raise (.terminal e.code)
    | .ok (acknowledged, superseded) => do
      record (.validated r.mutated)
      remember (acknowledged ++ superseded)
      others guard (env.others 2)
      let generation ← readGeneration request.key
      if r.mutated then do
        others guard (env.others 3)
        match ← Prog.observe (publish request.key "history_commit" acknowledged
            request.canonicalGeneration env.publication) with
        | .error e =>
          Prog.raise (.terminal s!"HISTORY_COMMIT_EVENT_PUBLICATION_FAILED:{e.errorType}")
        | .ok published => do
          Prog.lift (require (0 < published)
            (.terminal "HISTORY_COMMIT_GENERATION_OWNERSHIP_LOST"))
          return (r, published)
      else do
        Prog.lift (require (generation = request.canonicalGeneration)
          (.historyGenerationChanged generation))
        return (r, generation)

namespace CommitM

/-- `history_pending.popleft()`. -/
def popHistory : CommitM Unit :=
  Prog.update fun s => { s with lane := { s.lane with historyPending := s.lane.historyPending.tail } }

/-- `_settle_history_completion`: a future that is done stays as it is. -/
def settleHistoryCompletion (item : PendingHistoryCommit) (outcome : HistoryCommitOutcome) :
    CommitM Unit :=
  Prog.update fun s =>
    if item.id ∈ s.settled.map Prod.fst then s
    else { s with settled := s.settled ++ [(item.id, outcome)] }

end CommitM

/-- `_fail_history_commit`. -/
def failHistoryCommit (item : PendingHistoryCommit) (code : String)
    (receipt : Option CanonicalHistoryCommitReceipt) (generation : Option ℕ) : CommitM Unit := do
  let owned ← Prog.read fun s => decide (s.lane.historyPending.head?.map PendingHistoryCommit.id =
    some item.id)
  -- `HISTORY_COMMIT_QUEUE_OWNERSHIP_LOST`
  Prog.lift (require (owned = true) (.failed "RuntimeError" false))
  popHistory
  settleHistoryCompletion item ⟨.failed, receipt, generation, some code⟩

/-- How far a turn of the history queue came. -/
inductive HistoryStage
  /-- Storage answered under the guard. -/
  | ready (receipt : Option CanonicalHistoryCommitReceipt) (guard : ChartBarsWriteGuard)
      (deferredCancel : Bool)
  /-- The request was settled. -/
  | settled
  /-- The request stays, to be tried again. -/
  | retry

/-- The handlers of `_history_storage_attempt`. -/
def handleHistoryStorageError (item : PendingHistoryCommit) : CommitRaise → CommitM HistoryStage
  | .cancelled => Prog.raise .cancelled
  | .events (.generationChanged _ _ _ true) => return .retry
  | .events (.generationChanged _ observed _ false) => do
    popHistory
    settleHistoryCompletion item ⟨.staleGeneration, none, some observed, none⟩
    return .settled
  | .storageOutcomeUncertain generation errorType => do
    failHistoryCommit item s!"HISTORY_COMMIT_STORAGE_OUTCOME_UNCERTAIN:{errorType}" none
      (some generation)
    return .settled
  | .contract errorType => do
    failHistoryCommit item s!"HISTORY_COMMIT_STORAGE_CONTRACT_INVALID:{errorType}" none none
    return .settled
  | .failed _ true => return .retry
  | e => do
    failHistoryCommit item s!"HISTORY_COMMIT_STORAGE_FAILED:{e.errorType}" none none
    return .settled

/-- `_history_storage_attempt`. -/
def historyStorageAttempt (item : PendingHistoryCommit) (env : HistoryEnv) :
    CommitM HistoryStage := do
  match ← Prog.observe (runHistoryStorageAttempt item.request env) with
  | .ok (receipt, guard, deferredCancel) => return .ready receipt guard deferredCancel
  | .error e => handleHistoryStorageError item e

/-- A cancellation that was deferred is raised when the item is settled. -/
def raiseDeferred (deferredCancel : Bool) : CommitM Bool :=
  if deferredCancel then Prog.raise .cancelled else return true

/-- `_finalize_history_storage_attempt`: whether to keep draining. -/
def finalizeHistoryStorageAttempt (item : PendingHistoryCommit) (revisionSequence : ℕ)
    (receipt : Option CanonicalHistoryCommitReceipt) (guard : ChartBarsWriteGuard)
    (deferredCancel : Bool) (env : HistoryEnv) : CommitM Bool := do
  let finished ← Prog.observe do
    let typed ← finalizeHistoryCommitReceipt item.request revisionSequence guard receipt env
    others guard (env.others 4)
    endWrite guard
    return typed
  match finished with
  | .ok (typed, generation) => do
    popHistory
    settleHistoryCompletion item
      ⟨if typed.mutated then .committed else .noChange, some typed, some generation, none⟩
    raiseDeferred deferredCancel
  | .error (.historyGenerationChanged changed) => do
    others guard (env.others 5)
    let observed ← invalidateWrite guard "history_commit_outcome_uncertain"
    popHistory
    settleHistoryCompletion item ⟨.staleGeneration, receipt, some (max changed observed), none⟩
    raiseDeferred deferredCancel
  | .error (.terminal code) => do
    others guard (env.others 5)
    let observed ← invalidateWrite guard "history_commit_outcome_uncertain"
    failHistoryCommit item code receipt (some observed)
    return true
  | .error e => do
    others guard (env.others 5)
    let _ ← invalidateWrite guard "history_commit_outcome_uncertain"
    Prog.raise e

/-- The last two steps of `_drain_history_once`: the attempt, and the settling of its receipt. -/
def commitHistoryOnce (item : PendingHistoryCommit) (env : HistoryEnv) : CommitM HistoryStage := do
  match ← historyStorageAttempt item env with
  | .ready receipt guard deferredCancel => do
    let _ ← finalizeHistoryStorageAttempt item (item.revisionSequence.getD 0) receipt guard
      deferredCancel env
    return .settled
  | stage => return stage

end AefTerminal
