import AefTerminal.Bars.Storage
import AefTerminal.ChartEvents.Runtime

/-!
# The commit lane of one chart scope

A lane holds the confirmed live bars that wait to be stored, by slot, and the history requests that
wait, in order. One task works on it. For a slot the lane knows three things: the bar that is
pending, the revision sequence the bar is to be stored under once it has been given one, and the
signature of the revision last settled, which is forgotten when too many newer slots are.

A bar that arrives is compared with the settled signature first and with the pending bar second;
a bar that equals either is skipped, any other becomes the pending bar of its slot.

## Main definitions

* `ChartCommitLane`, `BarObject`
* `ChartCommitLane.submit`, `popLiveCommitBatch`, `requeueLiveCommitBatch`, `rememberCommitted`
* `liveCommitReceiptOutcomes`: a batch sorted by a receipt
* `HistoryCommitRequest`, `validateExactHistoryBarReceipt`
-/

namespace AefTerminal

open Foundation

/-- A submitted bar. The lane compares bars by identity in one place; `ref` is the identity, and
two objects with one `ref` are one object. -/
structure BarObject where
  ref : ℕ
  bar : Bar
  deriving DecidableEq

abbrev RevisionSignature := BarRevisionSignature × Option BarProvenance

namespace BarObject

variable (b : BarObject)

def ts : Time := b.bar.ts

def signature : RevisionSignature := barIngressRevisionSignature b.bar

end BarObject

def chartCommitDedupeTail : ℕ := 256

def historyCommitQueueLimit : ℕ := 32

/-! ### History requests -/

/-- A provider result for one scope, with the checks of its constructor on the bars as fields. -/
structure HistoryCommitRequest where
  key : ChartRefreshKey
  canonicalGeneration : ℕ
  bars : List Bar
  /-- `HISTORY_COMMIT_BAR_SLOTS_NOT_UNIQUE` -/
  slots_nodup : (bars.map fun bar => (bar.timeframe, bar.ts)).Nodup
  /-- `HISTORY_COMMIT_BAR_CONTRACT_MISMATCH` -/
  contract : ∀ bar ∈ bars, bar.state = .confirmed ∧ bar.timeframe = key.interval.toChart ∧
    ∃ provenance, bar.provenance = some provenance ∧ provenance.requestType = .historical ∧
      provenance.instrumentId = key.instrumentId ∧
      provenance.routeFingerprint = key.routeFingerprint

/-- The outcome of storing one history result. -/
structure CanonicalHistoryCommitReceipt where
  barReceipt : CanonicalBarCommitReceipt
  coverageInserted : ℕ
  coverageExpanded : Bool
  /-- `coverage expansion requires inserted receipts` -/
  expanded : coverageExpanded = true → coverageInserted ≠ 0
  deriving DecidableEq

/-- Something changed in storage. -/
def CanonicalHistoryCommitReceipt.mutated (r : CanonicalHistoryCommitReceipt) : Bool :=
  decide (r.barReceipt.written ≠ 0) || decide (r.barReceipt.deleted ≠ 0) || r.coverageExpanded

inductive HistoryCommitStatus
  | committed | noChange | staleGeneration | staleRoute | queueFull | failed
  deriving DecidableEq, Repr

structure HistoryCommitOutcome where
  status : HistoryCommitStatus
  receipt : Option CanonicalHistoryCommitReceipt
  generation : Option ℕ
  errorCode : Option String
  deriving DecidableEq

/-- A history request that waits. Its future is named by `id`. -/
structure PendingHistoryCommit where
  id : ℕ
  request : HistoryCommitRequest
  revisionSequence : Option ℕ
  failures : ℕ

/-! ### The lane -/

/-- The lane of one scope. The heap of settled slots is the sorted list of its entries. -/
structure ChartCommitLane where
  pending : Dict Time BarObject
  revisionSequences : Dict Time ℕ
  committed : Dict Time RevisionSignature
  committedSlots : List Time
  historyPending : List PendingHistoryCommit

namespace ChartCommitLane

def empty : ChartCommitLane := ⟨.empty, .empty, .empty, [], []⟩

variable (lane : ChartCommitLane)

/-- Remember a settled revision. At the limit the oldest slot makes room, unless the new one is
no newer. -/
def rememberCommitted (ts : Time) (signature : RevisionSignature) : ChartCommitLane :=
  if ts ∈ lane.committed.keys then { lane with committed := lane.committed.insert ts signature }
  else if chartCommitDedupeTail ≤ lane.committed.size then
    match lane.committedSlots with
    | [] => lane
    | oldest :: rest =>
      if ts ≤ oldest then lane
      else
        { lane with
          committedSlots := rest.orderedInsert (· ≤ ·) ts
          committed := (lane.committed.erase oldest).insert ts signature }
  else
    { lane with
      committedSlots := lane.committedSlots.orderedInsert (· ≤ ·) ts
      committed := lane.committed.insert ts signature }

def rememberAll (bars : List Bar) : ChartCommitLane :=
  bars.foldl (fun lane bar => lane.rememberCommitted bar.ts (barIngressRevisionSignature bar)) lane

/-- The revision last settled for the slot is this one. -/
def IsCommitted (b : BarObject) : Prop := lane.committed.get? b.ts = some b.signature

/-- The revision that waits in the slot is this one. -/
def IsPending (b : BarObject) : Prop :=
  (lane.pending.get? b.ts).map BarObject.signature = some b.signature

instance (b : BarObject) : Decidable (lane.IsCommitted b) := inferInstanceAs (Decidable (_ = _))

instance (b : BarObject) : Decidable (lane.IsPending b) := inferInstanceAs (Decidable (_ = _))

/-- One bar of a submission. -/
def submitBar (b : BarObject) : ChartCommitLane :=
  if lane.IsCommitted b then lane
  else if lane.IsPending b then lane
  else
    { lane with
      pending := lane.pending.insert b.ts b
      revisionSequences := lane.revisionSequences.erase b.ts }

def confirmedBars (bars : List BarObject) : List BarObject :=
  bars.filter fun b => b.bar.state = .confirmed

/-- `submit`: how many bars were accepted, and the lane. -/
def submit (bars : List BarObject) : ℕ × ChartCommitLane :=
  (confirmedBars bars).foldl
    (fun s b => (s.1 + if s.2.IsCommitted b ∨ s.2.IsPending b then 0 else 1, s.2.submitBar b))
    (0, lane)

/-- The sequences given to pending bars. -/
def assignedSequences : List ℕ :=
  (lane.revisionSequences.entries.filter fun e => e.1 ∈ lane.pending.keys).map Prod.snd

/-- Give a sequence to the bars of the snapshot that are still the pending ones. -/
def assignSequence (snapshot : Dict Time BarObject) (sequence : ℕ) : ChartCommitLane :=
  { lane with
    revisionSequences := snapshot.entries.foldl
      (fun sequences e =>
        if lane.pending.get? e.1 = some e.2 then sequences.insert e.1 sequence else sequences)
      lane.revisionSequences }

/-- The slots of a batch, in order of time. -/
def batchSlots (sequence : ℕ) : List Time :=
  ((lane.revisionSequences.entries.filter fun e =>
    e.2 = sequence ∧ e.1 ∈ lane.pending.keys).map Prod.fst).insertionSort (· ≤ ·)

/-- `_pop_live_commit_batch`. -/
def popLiveCommitBatch (sequence : ℕ) : List BarObject × ChartCommitLane :=
  let slots := lane.batchSlots sequence
  (slots.filterMap lane.pending.get?,
    { lane with
      pending := lane.pending.eraseAll slots
      revisionSequences := lane.revisionSequences.eraseAll slots })

/-- A bar goes back only to a slot that no newer bar has taken. -/
def requeueBar (sequence : ℕ) (b : BarObject) : ChartCommitLane :=
  if b.ts ∈ lane.pending.keys then lane
  else
    { lane with
      pending := lane.pending.insert b.ts b
      revisionSequences := lane.revisionSequences.insert b.ts sequence }

/-- `_requeue_live_commit_batch`. -/
def requeueLiveCommitBatch (batch : List BarObject) (sequence : ℕ) : ChartCommitLane :=
  batch.foldl (fun lane b => lane.requeueBar sequence b) lane

end ChartCommitLane

/-! ### Receipts -/

/-- An error of the commit path, by its code. -/
structure ChartCommitError where
  code : String
  deriving DecidableEq, Repr

/-- What a batch came to. -/
structure LiveCommitOutcomes where
  acknowledged : List BarObject
  superseded : List BarObject
  missing : List BarObject

/-- A slot with the revision in it. -/
def slotSignature (bar : Bar) : Time × RevisionSignature := (bar.ts, barIngressRevisionSignature bar)

/-- `_live_commit_receipt_outcomes`. An absent receipt is one of another type. -/
def liveCommitReceiptOutcomes (batch : List BarObject)
    (receipt : Option CanonicalBarCommitReceipt) (revisionSequence : ℕ) :
    Except ChartCommitError LiveCommitOutcomes := do
  match receipt with
  | none => .error ⟨"CHART_COMMIT_TYPED_RECEIPT_REQUIRED"⟩
  | some receipt =>
    require (receipt.revisionSequence = revisionSequence)
      (⟨"CHART_COMMIT_REVISION_SEQUENCE_MISMATCH"⟩)
    require (receipt.rejected = []) (⟨"CHART_COMMIT_CONFIRMED_BAR_REJECTED"⟩)
    let acknowledged := receipt.acknowledged.map slotSignature
    let superseded := receipt.superseded.map slotSignature
    let submitted := batch.map fun b => slotSignature b.bar
    require (∀ x ∈ acknowledged, x ∉ superseded) (⟨"CHART_COMMIT_RECEIPT_OUTCOME_OVERLAP"⟩)
    require (∀ x ∈ acknowledged ++ superseded, x ∈ submitted)
      (⟨"CHART_COMMIT_RECEIPT_UNKNOWN_REVISION"⟩)
    return {
      acknowledged := batch.filter fun b => slotSignature b.bar ∈ acknowledged
      superseded := batch.filter fun b => slotSignature b.bar ∈ superseded
      missing := batch.filter fun b => slotSignature b.bar ∉ acknowledged ++ superseded }

/-- `_validate_exact_history_bar_receipt`: every submitted bar has one outcome. -/
def validateExactHistoryBarReceipt (submitted : List Bar) (receipt : CanonicalBarCommitReceipt)
    (revisionSequence : ℕ) : Except ChartCommitError (List Bar × List Bar) := do
  require (receipt.revisionSequence = revisionSequence)
    (⟨"HISTORY_COMMIT_REVISION_SEQUENCE_MISMATCH"⟩)
  require (receipt.rejected = []) (⟨"HISTORY_COMMIT_CONFIRMED_BAR_REJECTED"⟩)
  require (receipt.written ≤ receipt.acknowledged.length)
    (⟨"HISTORY_COMMIT_WRITTEN_COUNT_INVALID"⟩)
  let acknowledged := receipt.acknowledged.map slotSignature
  let superseded := receipt.superseded.map slotSignature
  let signatures := submitted.map slotSignature
  require acknowledged.Nodup (⟨"HISTORY_COMMIT_ACKNOWLEDGED_DUPLICATE"⟩)
  require superseded.Nodup (⟨"HISTORY_COMMIT_SUPERSEDED_DUPLICATE"⟩)
  require (∀ x ∈ acknowledged, x ∉ superseded) (⟨"HISTORY_COMMIT_RECEIPT_OUTCOME_OVERLAP"⟩)
  require ((∀ x ∈ acknowledged ++ superseded, x ∈ signatures) ∧
    ∀ x ∈ signatures, x ∈ acknowledged ++ superseded)
    (⟨"HISTORY_COMMIT_RECEIPT_OUTCOME_INCOMPLETE"⟩)
  return (receipt.acknowledged, receipt.superseded)

end AefTerminal
