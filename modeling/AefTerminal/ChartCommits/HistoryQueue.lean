import AefTerminal.ChartCommits.WriteGuard

/-!
# The queue of history requests

A request that is admitted waits in its lane, and its handle waits with it. The lane's task takes
one request at a time and settles it: as stale, as failed, or with the receipt of its commit. What
does not settle a request (an answer to try again, a cancellation of the task, the deadline of a
shutdown) leaves it at the head of the queue, for a later turn or for the next start.

Between two waits of the task the loop may accept requests, shut the runtime down or start it, and
other threads work on the chart events. An attempt does not read the queue, so a request that is
admitted while storage works is admitted before the attempt here.

## Main definitions

* `drainHistoryOnce`, `reserveHistoryRevisionSequence`, `attemptHistoryCommit`: the task between two
  waits
* `LaneTask`, `HistorySystem`, `HistorySystem.Step`
-/

namespace AefTerminal

open Foundation CommitM

/-! ### The task of the lane -/

/-- Where the lane's task is; `done` is also a task that was never created. -/
inductive LaneTask
  | done
  /-- At the head of its loop. -/
  | turning
  /-- It waits for a revision sequence. -/
  | reserving
  /-- At the storage attempt. -/
  | attempting
  /-- It waits to try again. -/
  | waiting
  deriving DecidableEq, Repr

namespace CommitM

/-- The fields of the request at the head that the task writes. -/
def updateHead (f : PendingHistoryCommit → PendingHistoryCommit) : CommitM Unit :=
  Prog.update fun s =>
    { s with lane := { s.lane with historyPending := s.lane.historyPending.modifyHead f } }

end CommitM

/-- `_settle_stale_history_route`. -/
def settleStaleHistoryRoute (item : PendingHistoryCommit) : CommitM Unit := do
  popHistory
  settleHistoryCompletion item ⟨.staleRoute, none, none, none⟩

/-- `_settle_stale_history_generation`. -/
def settleStaleHistoryGeneration (item : PendingHistoryCommit) (generation : ℕ) :
    CommitM Unit := do
  popHistory
  settleHistoryCompletion item ⟨.staleGeneration, none, some generation, none⟩

/-- `_history_commit_scope_is_current`: a request that is not is settled. -/
def historyCommitScopeIsCurrent (item : PendingHistoryCommit) (routeChanged : Bool) :
    CommitM Bool :=
  if routeChanged then do
    settleStaleHistoryRoute item
    return false
  else do
    let generation ← readGeneration item.request.key
    if generation ≠ item.request.canonicalGeneration then do
      settleStaleHistoryGeneration item generation
      return false
    else return true

/-- `_retry_history_commit`, up to its wait. -/
def retryHistoryCommit (deadline : Bool) : CommitM LaneTask := do
  updateHead fun item => { item with failures := item.failures + 1 }
  return if deadline then .done else .waiting

/-- The last check of `_prepare_history_commit`. -/
def confirmHistoryScope (item : PendingHistoryCommit) (routeChanged : Bool) :
    CommitM LaneTask := do
  if ← historyCommitScopeIsCurrent item routeChanged then return .attempting else return .turning

/-- What a turn of the task meets before it waits. -/
structure TurnEnv where
  deadlinePassed : Bool
  routeChanged : Bool
  storeRaises : Bool
  others : List ChartEventAct
  routeChangedAfter : Bool

/-- `_prepare_history_commit` after its first check, up to a wait for the revision sequence. -/
def prepareHistoryCommit (item : PendingHistoryCommit) (env : TurnEnv) (deadline : Bool) :
    CommitM LaneTask :=
  if env.storeRaises then retryHistoryCommit deadline
  else if item.revisionSequence = none then return .reserving
  else do
    others none env.others
    confirmHistoryScope item env.routeChangedAfter

/-- `_drain_history_once`, up to its first wait. -/
def drainHistoryOnce (item : PendingHistoryCommit) (env : TurnEnv) (deadline : Bool) :
    CommitM LaneTask :=
  if env.deadlinePassed then return .done
  else do
    if ← historyCommitScopeIsCurrent item env.routeChanged then
      prepareHistoryCommit item env deadline
    else return .turning

/-- How a reservation ends. -/
inductive SequenceEnd
  /-- With a number, and whether the task was cancelled while it waited. -/
  | reserved (sequence : ℤ) (cancelled : Bool)
  /-- By an `AttributeError`, a `TypeError` or a `ValueError`. -/
  | contract (errorType : String)
  | failed (errorType : String) (transient : Bool)

/-- The rest of `_reserve_history_revision_sequence` and of `_prepare_history_commit`. -/
def reserveHistoryRevisionSequence (item : PendingHistoryCommit) (end_ : SequenceEnd)
    (routeChanged deadline : Bool) : CommitM LaneTask :=
  match end_ with
  | .reserved sequence cancelled =>
    if sequence ≤ 0 then do
      failHistoryCommit item "HISTORY_COMMIT_SEQUENCE_UNAVAILABLE" none none
      return .turning
    else do
      updateHead fun item => { item with revisionSequence := some sequence.toNat }
      if cancelled then Prog.raise .cancelled else confirmHistoryScope item routeChanged
  | .contract errorType => do
    failHistoryCommit item s!"HISTORY_COMMIT_SEQUENCE_CONTRACT_INVALID:{errorType}" none none
    return .turning
  | .failed errorType transient =>
    if transient then retryHistoryCommit deadline
    else do
      failHistoryCommit item s!"HISTORY_COMMIT_SEQUENCE_FAILED:{errorType}" none none
      return .turning

/-- The rest of `_drain_history_once`: the attempt and what follows it. -/
def attemptHistoryCommit (item : PendingHistoryCommit) (env : HistoryEnv) (deadline : Bool) :
    CommitM LaneTask := do
  match ← commitHistoryOnce item env with
  | .retry => retryHistoryCommit deadline
  | _ => return .turning

/-! ### The system -/

/-- One lane with the runtime's flags. `accepted` and `refused` are not in the program: the
requests admitted so far by the number of their handle, and the handles that were not accepted with
the outcome they were completed with. -/
structure HistorySystem where
  commits : CommitState
  task : LaneTask
  accepting : Bool
  /-- `_shutdown_deadline` is set. -/
  deadline : Bool
  nextId : ℕ
  accepted : List (ℕ × HistoryCommitRequest)
  refused : List (ℕ × HistoryCommitOutcome)

inductive HistoryAct
  | submit (request : HistoryCommitRequest)
  | turn (env : TurnEnv)
  | reserve (end_ : SequenceEnd) (routeChanged : Bool)
  | attempt (env : HistoryEnv)
  /-- A turn for the live bars of the lane. -/
  | live (batch : List BarObject) (sequence : ℕ) (env : CommitEnv CanonicalBarCommitReceipt)
      (next : LaneTask)
  | wake
  /-- The task is cancelled where it waits, or before it runs. -/
  | cancel
  /-- The task returns: the queues are empty, or a stage stops it under a deadline. -/
  | finish
  | shutdown
  | start
  /-- Another user of the chart events. -/
  | foreign (a : ChartEventAct)

namespace HistorySystem

def initial : HistorySystem :=
  ⟨⟨.initial, .empty, [], []⟩, .done, false, false, 0, [], []⟩

section

variable (s : HistorySystem)

def queue : List PendingHistoryCommit := s.commits.lane.historyPending

/-- The task runs on to its next wait. -/
def work (m : CommitM LaneTask) : HistorySystem :=
  { s with
    commits := (m.exec s.commits).2
    task := match (m.exec s.commits).1 with
      | .ok task => task
      | .error _ => .done }

/-- `submit_history_commit` of a request that is accepted. -/
def accept (request : HistoryCommitRequest) : HistorySystem :=
  { s with
    commits := { s.commits with lane := { s.commits.lane with
      historyPending := s.queue ++ [⟨s.nextId, request, none, 0⟩] } }
    task := if s.task = .done then .turning else s.task
    nextId := s.nextId + 1
    accepted := s.accepted ++ [(s.nextId, request)] }

/-- `submit_history_commit` at a full queue: the handle is completed at once. -/
def refuse : HistorySystem :=
  { s with
    nextId := s.nextId + 1
    refused := s.refused ++ [(s.nextId, ⟨.queueFull, none, none, none⟩)] }

end

/-- One step of the lane with this scope. -/
inductive Step (key : ChartRefreshKey) : HistorySystem → HistoryAct → HistorySystem → Prop
  | accept {s : HistorySystem} (request : HistoryCommitRequest) (haccepting : s.accepting = true)
      (hkey : request.key = key) (hroom : s.queue.length < historyCommitQueueLimit) :
      Step key s (.submit request) (s.accept request)
  | refuse {s : HistorySystem} (request : HistoryCommitRequest) (haccepting : s.accepting = true)
      (hkey : request.key = key) (hfull : historyCommitQueueLimit ≤ s.queue.length) :
      Step key s (.submit request) s.refuse
  | turn {s : HistorySystem} (env : TurnEnv) (item : PendingHistoryCommit)
      (htask : s.task = .turning) (hhead : s.queue.head? = some item)
      (hdeadline : env.deadlinePassed = true → s.deadline = true) :
      Step key s (.turn env) (s.work (drainHistoryOnce item env s.deadline))
  | reserve {s : HistorySystem} (end_ : SequenceEnd) (routeChanged : Bool)
      (item : PendingHistoryCommit) (htask : s.task = .reserving)
      (hhead : s.queue.head? = some item) :
      Step key s (.reserve end_ routeChanged)
        (s.work (reserveHistoryRevisionSequence item end_ routeChanged s.deadline))
  | attempt {s : HistorySystem} (env : HistoryEnv) (item : PendingHistoryCommit)
      (htask : s.task = .attempting) (hhead : s.queue.head? = some item) :
      Step key s (.attempt env) (s.work (attemptHistoryCommit item env s.deadline))
  | live {s : HistorySystem} (batch : List BarObject) (sequence : ℕ)
      (env : CommitEnv CanonicalBarCommitReceipt) (next : LaneTask) (htask : s.task = .turning)
      (hnext : next ∈ [.done, .turning, .waiting]) :
      Step key s (.live batch sequence env next) { s with
        commits := ((executeLiveCommit key batch sequence env).exec s.commits).2
        task := next }
  | wake {s : HistorySystem} (htask : s.task = .waiting) :
      Step key s .wake { s with task := if s.deadline then .done else .turning }
  | cancel {s : HistorySystem} (htask : s.task = .waiting ∨ s.task = .turning) :
      Step key s .cancel { s with task := .done }
  | finish {s : HistorySystem} (htask : s.task = .turning)
      (hend : s.queue = [] ∨ s.deadline = true) :
      Step key s .finish { s with task := .done }
  | shutdown {s : HistorySystem} :
      Step key s .shutdown { s with accepting := false, deadline := true }
  /-- A start of a runtime that is accepting does nothing. -/
  | start {s : HistorySystem} (haccepting : s.accepting = false) (htask : s.task = .done) :
      Step key s .start { s with
        accepting := true
        deadline := false
        task := if s.queue = [] then .done else .turning }
  | foreign {s : HistorySystem} (a : ChartEventAct) (howned : s.commits.session.Owned a) :
      Step key s (.foreign a)
        { s with commits := { s.commits with session := s.commits.session.next a } }

end HistorySystem

end AefTerminal
