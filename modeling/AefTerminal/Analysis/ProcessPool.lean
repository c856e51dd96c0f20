import AefTerminal.Foundation.Fallible
import AefTerminal.Foundation.Frames
import AefTerminal.Foundation.Run

/-!
# The pool of analysis processes

A worker process reads requests from its input and writes one response for each, an envelope of a
status, a size and a payload. The pool marks a worker busy, writes the request and reads one
envelope. A timeout, the end of the output or an envelope that makes no sense fails the whole pool,
and the worker is terminated.

A step is what happens between two points where a task waits. The caller of `execute` only waits for
the exchange, which goes on when the caller is cancelled. What a worker writes is any bytes at any
time.

## Main definitions

* `encodeResult`, `decodeResult`: the payload of a response
* `ProcessPool`, `PoolAct`, `ProcessPool.step`

## Main results

* `decodeResult_encodeResult`
-/

namespace AefTerminal

open Foundation

/-! ### Responses -/

/-- `MarketAnalysisProcessResult`. -/
structure AnalysisResult where
  snapshotBytes : List UInt8
  researchCaptureBytes : Option (List UInt8)
  deriving DecidableEq, Repr

def resultHeaderSize : ℕ := 16

def encodeResult (r : AnalysisResult) : List UInt8 :=
  let researchCapture := r.researchCaptureBytes.getD []
  packBE 8 r.snapshotBytes.length ++ packBE 8 researchCapture.length ++
    (r.snapshotBytes ++ researchCapture)

def decodeResult (value : List UInt8) : Option AnalysisResult :=
  let snapshotSize := unpackBE (value.take 8)
  let researchSize := unpackBE ((value.drop 8).take 8)
  if value.length < resultHeaderSize then none
  else if value.length ≠ resultHeaderSize + snapshotSize + researchSize then none
  else
    let body := value.drop resultHeaderSize
    some ⟨body.take snapshotSize, if researchSize = 0 then none else some (body.drop snapshotSize)⟩

/-- What a worker produces: no empty research capture, and sizes that fit. -/
structure AnalysisResult.Wf (r : AnalysisResult) : Prop where
  capture : r.researchCaptureBytes ≠ some []
  size : (encodeResult r).length < 256 ^ 8

theorem decodeResult_encodeResult {r : AnalysisResult} (h : r.Wf) :
    decodeResult (encodeResult r) = some r := by
  obtain ⟨snapshot, capture⟩ := r
  obtain ⟨hcapture, hsize⟩ := h
  dsimp only [encodeResult] at hsize hcapture
  simp only [List.length_append, length_packBE] at hsize
  have htake : (encodeResult ⟨snapshot, capture⟩).take 8 = packBE 8 snapshot.length := by
    rw [encodeResult, List.append_assoc, List.take_left' (length_packBE 8 _)]
  have hdrop : (encodeResult ⟨snapshot, capture⟩).drop 8 =
      packBE 8 (capture.getD []).length ++ (snapshot ++ capture.getD []) := by
    rw [encodeResult, List.append_assoc, List.drop_left' (length_packBE 8 _)]
  have hbody : (encodeResult ⟨snapshot, capture⟩).drop resultHeaderSize = snapshot ++ capture.getD [] := by
    have hdrop8 := congrArg (List.drop 8) hdrop
    rwa [List.drop_drop, List.drop_left' (length_packBE 8 _)] at hdrop8
  have hlength : (encodeResult ⟨snapshot, capture⟩).length =
      resultHeaderSize + snapshot.length + (capture.getD []).length := by
    simp only [encodeResult, List.length_append, length_packBE, resultHeaderSize]
    omega
  have hlong : ¬ (encodeResult ⟨snapshot, capture⟩).length < resultHeaderSize := by omega
  dsimp only [decodeResult]
  rw [htake, hdrop, List.take_left' (length_packBE 8 _), unpackBE_packBE (by omega),
    unpackBE_packBE (by omega), hbody, if_neg hlong, if_neg (not_not.mpr hlength),
    List.take_left' rfl, List.drop_left' rfl]
  cases capture with
  | none => rfl
  | some bytes =>
    have hne : bytes.length ≠ 0 := fun h => hcapture (by rw [List.eq_nil_of_length_eq_zero h])
    rw [Option.getD_some, if_neg hne]

/-! ### Envelopes -/

def envelopeHeaderSize : ℕ := 9

def envelopeOk : UInt8 := 0

def envelopeError : UInt8 := 1

def envelopeHeader (status : UInt8) (payload : List UInt8) : List UInt8 :=
  status :: packBE 8 payload.length

def envelopeStatus (header : List UInt8) : UInt8 := header.headD envelopeOk

def envelopePayloadSize (header : List UInt8) : ℕ := unpackBE header.tail

/-- What `_main` answers to a request. -/
inductive WorkerResponse
  | ok (result : AnalysisResult)
  | error (traceback : List UInt8)

def WorkerResponse.status : WorkerResponse → UInt8
  | .ok _ => envelopeOk
  | .error _ => envelopeError

def WorkerResponse.payload : WorkerResponse → List UInt8
  | .ok result => encodeResult result
  | .error traceback => traceback

def WorkerResponse.frame (p : WorkerResponse) : List UInt8 × List UInt8 :=
  (envelopeHeader p.status p.payload, p.payload)

def WorkerResponse.Wf : WorkerResponse → Prop
  | .ok result => result.Wf
  | .error traceback => traceback.length < 256 ^ 8

theorem WorkerResponse.frameWf {p : WorkerResponse} (h : p.Wf) :
    FrameWf envelopeHeaderSize envelopePayloadSize p.frame := by
  have hsize : p.payload.length < 256 ^ 8 := by
    cases p with
    | ok result => exact h.size
    | error traceback => exact h
  refine ⟨?_, ?_⟩
  · rw [WorkerResponse.frame, envelopeHeader, List.length_cons, length_packBE]
    rfl
  · rw [WorkerResponse.frame, envelopeHeader, envelopePayloadSize, List.tail_cons,
      unpackBE_packBE hsize]

def requestFrame (request : List UInt8) : List UInt8 := packBE 8 request.length ++ request

/-! ### The pool -/

/-- `exited` is a return code, `closed` the end of the output. `output` is all that the worker ever
wrote, `requests` whose requests were written to it, and `answered` counts the envelopes that were
read completely. -/
structure AnalysisWorker where
  busy : Bool
  exited : Bool
  closed : Bool
  input : List UInt8
  output : List UInt8
  consumed : ℕ
  requests : List ℕ
  answered : ℕ

def AnalysisWorker.started : AnalysisWorker := ⟨false, false, false, [], [], 0, [], 0⟩

inductive ExchangeOutcome
  | result (r : AnalysisResult)
  | jobError (payload : List UInt8)
  | timedOut
  | failed
  | unavailable
  | cancelled
  deriving DecidableEq

inductive ExchangePhase
  | queued
  | admitted (worker : ℕ)
  | draining (worker : ℕ)
  | header (worker : ℕ)
  | payload (worker : ℕ) (status : UInt8) (size : ℕ)
  | failing (worker : ℕ) (outcome : ExchangeOutcome)
  | releasing (worker : ℕ) (outcome : ExchangeOutcome)
  | finished (outcome : ExchangeOutcome)
  | returned (outcome : ExchangeOutcome)
  deriving DecidableEq

/-- A call of `execute` and its exchange. -/
structure Execution where
  request : List UInt8
  cancelled : Bool
  phase : ExchangePhase
  deriving DecidableEq

structure ProcessPool where
  workers : List AnalysisWorker
  executions : List Execution
  failed : Bool
  stopped : Bool

inductive PoolAct
  | execute (request : List UInt8)
  | acquire (i : ℕ)
  | write (i : ℕ)
  | drain (i : ℕ) (delivered : Bool)
  | readHeader (i : ℕ)
  | readPayload (i : ℕ)
  | timeout (i : ℕ)
  | terminate (i : ℕ)
  | release (i : ℕ)
  | abort (i : ℕ)
  | cancel (i : ℕ)
  | settle (i : ℕ)
  | emit (worker : ℕ) (bytes : List UInt8)
  | close (worker : ℕ)
  | exit (worker : ℕ)
  | shutdown

namespace ProcessPool

def started (workerCount : ℕ) : ProcessPool :=
  ⟨List.replicate workerCount .started, [], false, false⟩

variable (s : ProcessPool)

def setPhase (i : ℕ) (e : Execution) (phase : ExchangePhase) : ProcessPool :=
  { s with executions := s.executions.set i { e with phase } }

def setWorker (w : ℕ) (worker : AnalysisWorker) : ProcessPool :=
  { s with workers := s.workers.set w worker }

/-- `_fail_worker`, up to the termination of the worker. -/
def failWorker (i : ℕ) (e : Execution) (w : ℕ) (outcome : ExchangeOutcome) : ProcessPool :=
  { s with failed := true }.setPhase i e (.failing w outcome)

/-- What `_require_available_runtime` notes before it looks. -/
def noteExits : ProcessPool := { s with failed := s.failed || s.workers.any (·.exited) }

/-- The end of `_exchange`, with what follows in `_execute_admitted` up to the next wait. -/
def conclude (i : ℕ) (e : Execution) (w : ℕ) (status : UInt8) (payload : List UInt8) : ProcessPool :=
  if status = envelopeOk then
    match decodeResult payload with
    | some r => s.setPhase i e (.releasing w (if s.failed then .unavailable else .result r))
    | none => s.failWorker i e w .failed
  else if status = envelopeError then s.setPhase i e (.releasing w (.jobError payload))
  else s.failWorker i e w .failed

def step : PoolAct → Option ProcessPool
  | .execute request => some { s with executions := s.executions ++ [⟨request, false, .queued⟩] }
  | .acquire i => do
    let e ← s.executions[i]?
    match e.phase with
    | .queued =>
      if s.noteExits.failed || s.stopped then
        some (s.noteExits.setPhase i e (.finished .unavailable))
      else do
        let w ← s.workers.findIdx? fun worker => !worker.busy
        let worker ← s.workers[w]?
        some ((s.setWorker w { worker with busy := true }).setPhase i e (.admitted w))
    | _ => none
  | .write i => do
    let e ← s.executions[i]?
    match e.phase with
    | .admitted w => do
      let worker ← s.workers[w]?
      let written := { worker with
        input := worker.input ++ requestFrame e.request
        requests := worker.requests ++ [i] }
      some ((s.setWorker w written).setPhase i e (.draining w))
    | _ => none
  | .drain i delivered => do
    let e ← s.executions[i]?
    match e.phase with
    | .draining w =>
      some (if delivered then s.setPhase i e (.header w) else s.failWorker i e w .failed)
    | _ => none
  | .readHeader i => do
    let e ← s.executions[i]?
    match e.phase with
    | .header w => do
      let worker ← s.workers[w]?
      if worker.consumed + envelopeHeaderSize ≤ worker.output.length then
        let header := (worker.output.drop worker.consumed).take envelopeHeaderSize
        let read := { worker with consumed := worker.consumed + envelopeHeaderSize }
        some ((s.setWorker w read).setPhase i e
          (.payload w (envelopeStatus header) (envelopePayloadSize header)))
      else do
        guard worker.closed
        some (s.failWorker i e w .failed)
    | _ => none
  | .readPayload i => do
    let e ← s.executions[i]?
    match e.phase with
    | .payload w status size => do
      let worker ← s.workers[w]?
      if worker.consumed + size ≤ worker.output.length then
        let payload := (worker.output.drop worker.consumed).take size
        let read := { worker with
          consumed := worker.consumed + size
          answered := worker.answered + 1 }
        some ((s.setWorker w read).conclude i e w status payload)
      else do
        guard worker.closed
        some (s.failWorker i e w .failed)
    | _ => none
  | .timeout i => do
    let e ← s.executions[i]?
    match e.phase with
    | .draining w => some (s.failWorker i e w .timedOut)
    | .header w => some (s.failWorker i e w .timedOut)
    | .payload w .. => some (s.failWorker i e w .timedOut)
    | _ => none
  | .terminate i => do
    let e ← s.executions[i]?
    match e.phase with
    | .failing w outcome => do
      let worker ← s.workers[w]?
      some ((s.setWorker w { worker with exited := true }).setPhase i e (.releasing w outcome))
    | _ => none
  | .release i => do
    let e ← s.executions[i]?
    match e.phase with
    | .releasing w outcome => do
      let worker ← s.workers[w]?
      some ((s.setWorker w { worker with busy := false }).setPhase i e (.finished outcome))
    | _ => none
  | .abort i => do
    -- only a cancelled shutdown cancels the exchanges themselves
    guard s.stopped
    let e ← s.executions[i]?
    match e.phase with
    | .queued => some (s.setPhase i e (.finished .cancelled))
    | .draining w => some (s.setPhase i e (.releasing w .cancelled))
    | .header w => some (s.setPhase i e (.releasing w .cancelled))
    | .payload w .. => some (s.setPhase i e (.releasing w .cancelled))
    | _ => none
  | .cancel i => do
    let e ← s.executions[i]?
    some { s with executions := s.executions.set i { e with cancelled := true } }
  | .settle i => do
    let e ← s.executions[i]?
    match e.phase with
    | .finished outcome =>
      some (s.setPhase i e (.returned (if e.cancelled then .cancelled else outcome)))
    | _ => none
  | .emit w bytes => do
    let worker ← s.workers[w]?
    guard !worker.closed
    some (s.setWorker w { worker with output := worker.output ++ bytes })
  | .close w => do
    let worker ← s.workers[w]?
    some (s.setWorker w { worker with closed := true })
  | .exit w => do
    let worker ← s.workers[w]?
    some (s.setWorker w { worker with exited := true })
  | .shutdown => some { s with stopped := true }

end ProcessPool

end AefTerminal
