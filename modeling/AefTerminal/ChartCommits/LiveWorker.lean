import AefTerminal.Bars.Outcome
import AefTerminal.ChartCommits.LaneEffects
import AefTerminal.Foundation.Run

/-!
# The live side of a lane at work

The lane, the task that works on it and the bar table, as one system. Submissions arrive at any
moment. The task takes the steps of `_drain_lane_once`: it reserves a revision sequence, gives it to
the bars it saw, takes them out as a batch, has the adapter store them, and settles the receipt. It
may fail or be cancelled wherever it waits; a batch that failed goes back. Storage may have stored a
batch whose commit then failed.

Other writers of the table are one action. The lane's own history commits are among them: they
write the table and they remember what they settled.

## Main definitions

* `LiveScope`, `LiveSystem`, `LiveAct`
* `LiveScope.Step`: one step
* `LiveSystem.Masked`: the submission that the settled signature hides
-/

namespace AefTerminal

open Foundation

/-- The scope of a lane: the route and the interval its bars are stored under. -/
structure LiveScope where
  route : StorageRoute
  interval : ChartInterval

namespace LiveScope

/-- The slot of the table that holds the bar of a time. -/
def slot (scope : LiveScope) (ts : Time) : BarSlot where
  instrumentId := scope.route.instrumentId
  routeFingerprint := scope.route.routeFingerprint
  timeframe := canonicalBarSourceInterval scope.interval
  ts := ts

/-- `async_commit_chart_bars`: the adapter lets only bars of the lane's interval through to
`write_bars`. A raise is `none`. -/
def commitChartBars (scope : LiveScope) (table : BarsTable) (bars : List Bar)
    (revisionSequence : ℕ) : Option (CanonicalBarCommitReceipt × BarsTable) :=
  let confirmed := bars.filter fun bar => bar.state = .confirmed
  if confirmed = [] then some (⟨revisionSequence, 0, [], [], [], 0⟩, table)
  else if ∃ bar ∈ confirmed, bar.timeframe ≠ scope.interval then none
  else
    match writeBarsOnCursor table scope.route confirmed revisionSequence with
    | .ok outcome => some outcome
    | .error _ => none

end LiveScope

/-- Where the task of the lane is. -/
inductive LiveWorker
  /-- Between two passes, or not running. -/
  | idle
  /-- Waiting for a sequence, for the bars that were pending when it asked. -/
  | reserving (snapshot : Dict Time BarObject) (sequence : Option ℕ)
  /-- A batch is out of the lane; a receipt once storage has answered. -/
  | committing (sequence : ℕ) (batch : List BarObject) (receipt : Option CanonicalBarCommitReceipt)

/-- The batch that is out of the lane. -/
def LiveWorker.inFlight : LiveWorker → List BarObject
  | .committing _ batch _ => batch
  | _ => []

/-- The system. `latest` and `overwritten` are not in the program: the last confirmed bar submitted
for a slot, and the slots that someone else wrote. -/
structure LiveSystem where
  lane : ChartCommitLane
  worker : LiveWorker
  bars : BarsTable
  /-- The last value of the sequence that revisions are numbered from. -/
  lastSequence : ℕ
  latest : Dict Time BarObject
  overwritten : List Time

inductive LiveAct
  | submit (bars : List BarObject)
  /-- The task finds no sequence assigned and asks for one. -/
  | reserve
  /-- The database hands out a number. -/
  | nextval (sequence : ℕ)
  /-- The sequence arrives, and is assigned; cancelled, the task ends there. -/
  | reserved (cancelled : Bool)
  | reserveFailed
  /-- The task finds assigned sequences and takes the batch of the least. -/
  | resume
  /-- Storage answers for a part of the batch. -/
  | write (part : List BarObject)
  /-- The receipt is settled. -/
  | settle
  /-- The commit raised or was cancelled, before or after storage answered. -/
  | fail
  /-- Someone else wrote the rows of `slots`; a history commit remembers the bars it settled. -/
  | foreign (bars : BarsTable) (lastSequence : ℕ) (slots : List Time) (remembered : List Bar)

namespace LiveSystem

/-- A new lane over a table. -/
def start (bars : BarsTable) (lastSequence : ℕ) : LiveSystem :=
  ⟨.empty, .idle, bars, lastSequence, .empty, []⟩

variable (s : LiveSystem)

/-- Nothing waits and nothing is out. -/
def Quiescent : Prop := s.lane.pending.entries = [] ∧ s.worker = .idle

/-- One bar of a submission: the lane decides, the submission is on record. -/
def submitBar (b : BarObject) : LiveSystem :=
  { s with lane := s.lane.submitBar b, latest := s.latest.insert b.ts b }

/-- The task takes the batch of a sequence; an empty one ends the pass. -/
def takeBatch (sequence : ℕ) : LiveSystem :=
  let popped := s.lane.popLiveCommitBatch sequence
  { s with
    lane := popped.2
    worker := if popped.1 = [] then .idle else .committing sequence popped.1 none }

/-- `_commit_live_batch_once` with a receipt that validates: remember, and put back what is
missing. -/
def settleBatch (sequence : ℕ) (o : LiveCommitOutcomes) : LiveSystem :=
  { s with
    lane := (s.lane.rememberAll ((o.acknowledged ++ o.superseded).map BarObject.bar)).requeueLiveCommitBatch
      o.missing sequence
    worker := .idle }

end LiveSystem

/-- One step of the system. -/
inductive LiveScope.Step (scope : LiveScope) : LiveSystem → LiveAct → LiveSystem → Prop
  | submit {s : LiveSystem} (bars : List BarObject) :
      scope.Step s (.submit bars)
        ((ChartCommitLane.confirmedBars bars).foldl LiveSystem.submitBar s)
  | reserve {s : LiveSystem} (hidle : s.worker = .idle) (hnone : s.lane.assignedSequences = []) :
      scope.Step s .reserve { s with worker := .reserving s.lane.pending none }
  | nextval {s : LiveSystem} {snapshot : Dict Time BarObject} {n : ℕ}
      (hreserving : s.worker = .reserving snapshot none) (hnew : s.lastSequence < n) :
      scope.Step s (.nextval n)
        { s with worker := .reserving snapshot (some n), lastSequence := n }
  | reserved {s : LiveSystem} {snapshot : Dict Time BarObject} {n : ℕ} (cancelled : Bool)
      (hreserving : s.worker = .reserving snapshot (some n)) :
      scope.Step s (.reserved cancelled)
        (let assigned := { s with lane := s.lane.assignSequence snapshot n, worker := .idle }
        if cancelled then assigned else assigned.takeBatch n)
  | reserveFailed {s : LiveSystem} {snapshot : Dict Time BarObject} {n : Option ℕ}
      (hreserving : s.worker = .reserving snapshot n) :
      scope.Step s .reserveFailed { s with worker := .idle }
  | resume {s : LiveSystem} {n : ℕ} (hidle : s.worker = .idle)
      (hleast : n ∈ s.lane.assignedSequences ∧ ∀ m ∈ s.lane.assignedSequences, n ≤ m) :
      scope.Step s .resume (s.takeBatch n)
  | write {s : LiveSystem} {batch part : List BarObject} {n : ℕ}
      {receipt : CanonicalBarCommitReceipt} {table : BarsTable}
      (hcommitting : s.worker = .committing n batch none) (hpart : part.Sublist batch)
      (hwrite : scope.commitChartBars s.bars (part.map BarObject.bar) n = some (receipt, table)) :
      scope.Step s (.write part)
        { s with bars := table, worker := .committing n batch (some receipt) }
  | settle {s : LiveSystem} {batch : List BarObject} {n : ℕ} {receipt : CanonicalBarCommitReceipt}
      {o : LiveCommitOutcomes} (hcommitting : s.worker = .committing n batch (some receipt))
      (houtcomes : liveCommitReceiptOutcomes batch (some receipt) n = .ok o) :
      scope.Step s .settle (s.settleBatch n o)
  | fail {s : LiveSystem} {batch : List BarObject} {n : ℕ}
      {receipt : Option CanonicalBarCommitReceipt}
      (hcommitting : s.worker = .committing n batch receipt) :
      scope.Step s .fail
        { s with lane := s.lane.requeueLiveCommitBatch batch n, worker := .idle }
  | foreign {s : LiveSystem} {table : BarsTable} {last : ℕ} {slots : List Time}
      {remembered : List Bar} (hlast : s.lastSequence ≤ last)
      (hrows : ∀ slot row, table.get? slot = some row → row.revisionSequence ≤ last)
      (hsame : ∀ ts, ts ∉ slots → table.get? (scope.slot ts) = s.bars.get? (scope.slot ts))
      (hremembered : ∀ bar ∈ remembered, bar.ts ∈ slots) :
      scope.Step s (.foreign table last slots remembered)
        { s with
          bars := table
          lastSequence := last
          lane := s.lane.rememberAll remembered
          overwritten := s.overwritten ++ slots }

namespace LiveSystem

/-- The lane takes the bar for the revision last settled while another revision of its slot waits
or is out. -/
def Hidden (s : LiveSystem) (b : BarObject) : Prop :=
  s.lane.IsCommitted b ∧
    ((∃ c, s.lane.pending.get? b.ts = some c ∧ c.signature ≠ b.signature) ∨
      ∃ c ∈ s.worker.inFlight, c.ts = b.ts ∧ c.signature ≠ b.signature)

/-- A bar of the submission is hidden when its turn comes. -/
def Masked : LiveSystem → List BarObject → Prop
  | _, [] => False
  | s, b :: bars => s.Hidden b ∨ Masked (s.submitBar b) bars

/-- The condition on a step: no submission is masked. -/
def Unmasked (s : LiveSystem) : LiveAct → Prop
  | .submit bars => ¬ s.Masked (ChartCommitLane.confirmedBars bars)
  | _ => True

end LiveSystem

end AefTerminal
