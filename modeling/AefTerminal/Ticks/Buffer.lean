import AefTerminal.Foundation.Run
import Mathlib.Data.Int.Notation

/-!
# The live tick buffer

`TickBulkAggregator` takes ticks from any thread into a bounded buffer and writes them in batches.
A flush holds `_flush_lock` from the moment it takes its batch to the moment it has accounted for
it, so at most one batch is with storage; a cancellation is raised only after the accounting. What
a flush does under `_lock` or without waiting is one step here: a producer that comes in between
could as well have come before.

A stop closes the buffer, waits for the flush loop, drains and gives up what is left. Any number of
stops and flushes may be under way.

## Main definitions

* `TickBuffer`: the aggregator, with what has become of every tick
* `addTick`, `takeBatch`, `restoreBatch`, `dropBuffered`, `settleFlush`
* `TickBuffer.Step`
-/

namespace AefTerminal

open Foundation

/-- `max_batch` and `max_buffer` as `__init__` clamps them. -/
structure TickBufferConfig where
  maxBatch : ℕ
  maxBuffer : ℕ
  batch_pos : 1 ≤ maxBatch
  batch_le : maxBatch ≤ maxBuffer

def TickBufferConfig.ofSettings (maxBatch maxBuffer : ℤ) : TickBufferConfig where
  maxBatch := (max maxBatch 1).toNat
  maxBuffer := (max maxBuffer (max maxBatch 1)).toNat
  batch_pos := by omega
  batch_le := by omega

def maxConsecutiveDbErrorsBeforeDrop : ℕ := 30

/-- A valid tick as one call of `add_tick` offers it; the serial number tells the calls apart. -/
structure OfferedTick (Tick : Type) where
  serial : ℕ
  tick : Tick
  deriving DecidableEq, Repr

/-! ### What storage answers -/

inductive TickCommitOutcome
  | notCommitted
  | unknown
  deriving DecidableEq, Repr

/-- What `write_ticks` returns: it should be an `int`. -/
inductive TickWriteAck
  | int (count : ℤ)
  | bool (value : Bool)
  | other
  deriving DecidableEq, Repr

/-- How the write of a batch ends. -/
inductive TickWriteOutcome
  | returned (ack : TickWriteAck)
  /-- `TickBatchWriteError`. -/
  | batchError (commitOutcome : TickCommitOutcome) (retryable : Bool)
  /-- Any other exception. -/
  | error
  | taskCancelled
  deriving DecidableEq, Repr

namespace TickWriteOutcome

/-- An acknowledgement of the exact number of ticks. -/
def Written (outcome : TickWriteOutcome) (size : ℕ) : Prop := outcome = .returned (.int size)

/-- Storage says that nothing was committed. -/
def NotCommitted (outcome : TickWriteOutcome) : Prop :=
  ∃ retryable, outcome = .batchError .notCommitted retryable

instance (outcome : TickWriteOutcome) (size : ℕ) : Decidable (outcome.Written size) :=
  inferInstanceAs (Decidable (_ = _))

instance (outcome : TickWriteOutcome) : Decidable outcome.NotCommitted :=
  decidable_of_iff (outcome = .batchError .notCommitted true ∨
      outcome = .batchError .notCommitted false) <| by
    constructor
    · rintro (h | h)
      · exact ⟨true, h⟩
      · exact ⟨false, h⟩
    · rintro ⟨_ | _, h⟩
      · exact .inr h
      · exact .inl h

/-- The ticks may have been committed or not. -/
def Unknown (outcome : TickWriteOutcome) (size : ℕ) : Prop :=
  ¬ outcome.Written size ∧ ¬ outcome.NotCommitted

instance (outcome : TickWriteOutcome) (size : ℕ) : Decidable (outcome.Unknown size) :=
  inferInstanceAs (Decidable (¬ _ ∧ ¬ _))

end TickWriteOutcome

/-! ### The aggregator -/

/-- Who called `flush_once`: a stop, or the flush loop or anybody else. -/
inductive FlushCaller
  | other
  | stop (i : ℕ)
  deriving DecidableEq, Repr

/-- Where a call of `stop` is. -/
inductive StopPhase
  /-- It waits for the flush loop. -/
  | awaiting
  /-- It waits for `_flush_lock`. -/
  | draining
  /-- Its own batch is with storage. -/
  | flushing
  | finished
  deriving DecidableEq, Repr

/-- The fields from `offers` on are not in the program: they record what has become of the ticks,
`unknown` those whose write may or may not have been committed. -/
structure TickBuffer (Tick : Type) where
  buffer : List (OfferedTick Tick)
  closed : Bool
  executorClosed : Bool
  accepted : ℕ
  written : ℕ
  dropped : ℕ
  lastDropReason : String
  dbConsecutiveErrors : ℕ
  /-- The holder of `_flush_lock` with its batch. -/
  inFlight : Option (FlushCaller × List (OfferedTick Tick))
  stops : List StopPhase
  offers : List (OfferedTick Tick)
  acceptedTicks : List (OfferedTick Tick)
  writtenTicks : List (OfferedTick Tick)
  droppedTicks : List (OfferedTick Tick)
  handed : List (List (OfferedTick Tick))
  unknown : List (OfferedTick Tick)
  deriving DecidableEq

namespace TickBuffer

variable {Tick : Type} (config : TickBufferConfig)

def initial : TickBuffer Tick :=
  ⟨[], false, false, 0, 0, 0, "", 0, none, [], [], [], [], [], [], []⟩

section

variable (s : TickBuffer Tick)

def flightTicks : List (OfferedTick Tick) := (s.inFlight.map Prod.snd).getD []

/-- `_record_drop_locked`. -/
def recordDrop (reason : String) (ticks : List (OfferedTick Tick)) : TickBuffer Tick :=
  if ticks.length ≤ 0 then s
  else { s with
    dropped := s.dropped + ticks.length
    lastDropReason := reason
    droppedTicks := s.droppedTicks ++ ticks }

/-- The offer that a call of `add_tick` makes. -/
def nextOffer (tick : Tick) : OfferedTick Tick := ⟨s.offers.length, tick⟩

def offer (tick : Tick) : TickBuffer Tick := { s with offers := s.offers ++ [s.nextOffer tick] }

/-- `add_tick` of a valid tick. -/
def addTick (tick : Tick) : Bool × TickBuffer Tick :=
  if s.closed then (false, (s.offer tick).recordDrop "writer_stopped" [s.nextOffer tick])
  else if config.maxBuffer ≤ s.buffer.length then
    (false, (s.offer tick).recordDrop "buffer_full" [s.nextOffer tick])
  else (true, { s.offer tick with
    buffer := s.buffer ++ [s.nextOffer tick]
    accepted := s.accepted + 1
    acceptedTicks := s.acceptedTicks ++ [s.nextOffer tick] })

/-- `_take_batch`. -/
def takeBatch : List (OfferedTick Tick) × TickBuffer Tick :=
  let count := min s.buffer.length config.maxBatch
  (s.buffer.take count, { s with buffer := s.buffer.drop count })

/-- `_restore_batch`. -/
def restoreBatch (batch : List (OfferedTick Tick)) : TickBuffer Tick :=
  let room := config.maxBuffer - s.buffer.length
  { s with buffer := batch.take room ++ s.buffer }.recordDrop "restore_overflow" (batch.drop room)

/-- `_drop_buffered`. -/
def dropBuffered (reason : String) : TickBuffer Tick :=
  { s with buffer := [] }.recordDrop reason s.buffer

/-! ### A flush -/

/-- The errors that `flush_once` counts. -/
def countError : TickBuffer Tick := { s with dbConsecutiveErrors := s.dbConsecutiveErrors + 1 }

/-- The arm of `flush_once` for a write that raised, once the error is counted. -/
def settleError (batch : List (OfferedTick Tick)) (notCommitted retryable : Bool) :
    TickBuffer Tick :=
  if notCommitted && retryable then
    if s.dbConsecutiveErrors < maxConsecutiveDbErrorsBeforeDrop then s.restoreBatch config batch
    else s.recordDrop "db_error_circuit_open" batch
  else s.recordDrop (if notCommitted then "db_write_rejected" else "db_commit_unknown") batch

/-- `flush_once` once storage is done with its batch: what it returns and the accounts. -/
def settleFlush (batch : List (OfferedTick Tick)) (outcome : TickWriteOutcome) : ℕ × TickBuffer Tick :=
  match outcome with
  | .batchError commitOutcome retryable =>
    (0, s.countError.settleError config batch (commitOutcome = .notCommitted) retryable)
  | .error | .taskCancelled => (0, s.countError.settleError config batch false false)
  | .returned ack =>
    if ack = .int batch.length then
      (batch.length, { s with
        written := s.written + batch.length
        dbConsecutiveErrors := 0
        writtenTicks := s.writtenTicks ++ batch })
    else (0, s.countError.recordDrop "db_ack_mismatch" batch)

/-- A batch goes to storage. -/
def submit (caller : FlushCaller) (batch : List (OfferedTick Tick)) : TickBuffer Tick :=
  { s with inFlight := some (caller, batch), handed := s.handed ++ [batch] }

/-- How the first part of `flush_once` ends. -/
inductive FlushStart
  | empty
  | submitted
  /-- The executor takes no more work, and `run_in_executor` raises. -/
  | refused
  deriving DecidableEq, Repr

/-- `flush_once` up to the write. -/
def beginFlush (caller : FlushCaller) : FlushStart × TickBuffer Tick :=
  let batch := (s.takeBatch config).1
  let s' := (s.takeBatch config).2
  if batch = [] then (.empty, s)
  else if s.executorClosed then (.refused, s')
  else (.submitted, s'.submit caller batch)

/-! ### A stop -/

def setPhase (i : ℕ) (phase : StopPhase) : TickBuffer Tick :=
  { s with stops := s.stops.set i phase }

/-- The `finally` of `stop`. -/
def finishStop (i : ℕ) : TickBuffer Tick :=
  let s := if 0 < s.buffer.length then s.dropBuffered "shutdown_incomplete" else s
  { s with executorClosed := true }.setPhase i .finished

/-- The test at the head of `_drain_for_shutdown`. -/
def drainForShutdown (i : ℕ) : TickBuffer Tick :=
  if 0 < s.buffer.length then s.setPhase i .draining else s.finishStop i

/-- The loop of `_drain_for_shutdown` after a flush that returned. -/
def drained (i : ℕ) (count : ℕ) : TickBuffer Tick :=
  if count ≤ 0 then (s.dropBuffered "shutdown_flush_failed").finishStop i
  else s.drainForShutdown i

/-- A flush of a stop up to the write, and what follows where nothing is written. -/
def stopFlush (i : ℕ) : TickBuffer Tick :=
  match s.beginFlush config (.stop i) with
  | (.empty, s') => s'.drained i 0
  | (.submitted, s') => s'.setPhase i .flushing
  | (.refused, s') => s'.finishStop i

/-- The caller of a flush goes on; a cancellation was deferred to here. -/
def resume (caller : FlushCaller) (count : ℕ) (cancelled : Bool) : TickBuffer Tick :=
  match caller with
  | .other => s
  | .stop i => if cancelled then s.finishStop i else s.drained i count

/-- The batch in flight is accounted for and `_flush_lock` is free again. -/
def accountFlush (batch : List (OfferedTick Tick)) (outcome : TickWriteOutcome) :
    ℕ × TickBuffer Tick :=
  let (count, s') := { s with inFlight := none }.settleFlush config batch outcome
  (count, { s' with
    unknown := if outcome.Unknown batch.length then s'.unknown ++ batch else s'.unknown })

def settle (caller : FlushCaller) (batch : List (OfferedTick Tick)) (outcome : TickWriteOutcome)
    (cancelled : Bool) : TickBuffer Tick :=
  (s.accountFlush config batch outcome).2.resume caller (s.accountFlush config batch outcome).1
    cancelled

end

/-! ### Runs -/

inductive Act (Tick : Type)
  | addTick (tick : Tick)
  | flush
  | settle (outcome : TickWriteOutcome) (cancelled : Bool)
  | stop
  /-- The flush loop that a stop waits for has returned, or there is none. -/
  | resume (i : ℕ)
  | stopFlush (i : ℕ)
  /-- The flush loop raised, or the stop is cancelled where it waits. -/
  | interrupt (i : ℕ)
  /-- A start that finds no running flush loop. -/
  | start
  deriving DecidableEq, Repr

inductive Step : TickBuffer Tick → Act Tick → TickBuffer Tick → Prop
  | addTick {s : TickBuffer Tick} (tick : Tick) :
      Step s (.addTick tick) (s.addTick config tick).2
  | flush {s : TickBuffer Tick} (hfree : s.inFlight = none) :
      Step s .flush (s.beginFlush config .other).2
  | settle {s : TickBuffer Tick} (caller : FlushCaller) (batch : List (OfferedTick Tick))
      (outcome : TickWriteOutcome) (cancelled : Bool) (hflight : s.inFlight = some (caller, batch)) :
      Step s (.settle outcome cancelled) (s.settle config caller batch outcome cancelled)
  | stop {s : TickBuffer Tick} :
      Step s .stop { s with closed := true, stops := s.stops ++ [.awaiting] }
  | resume {s : TickBuffer Tick} (i : ℕ) (hphase : s.stops[i]? = some .awaiting) :
      Step s (.resume i) (s.drainForShutdown i)
  | stopFlush {s : TickBuffer Tick} (i : ℕ) (hphase : s.stops[i]? = some .draining)
      (hfree : s.inFlight = none) :
      Step s (.stopFlush i) (s.stopFlush config i)
  | interrupt {s : TickBuffer Tick} (i : ℕ)
      (hphase : s.stops[i]? = some .awaiting ∨ s.stops[i]? = some .draining) :
      Step s (.interrupt i) (s.finishStop i)
  | start {s : TickBuffer Tick} : Step s .start { s with closed := false, executorClosed := false }

end TickBuffer

end AefTerminal
