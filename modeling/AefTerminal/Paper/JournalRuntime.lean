import AefTerminal.Paper.Journal
import AefTerminal.Foundation.MarkedHistory

/-!
# The active projection of the paper journal

`PaperJournalRuntime` keeps the pending orders and the open positions in memory. A repository call
that committed a change marks it, which raises the generation; a reader who finds the loaded
generation behind reloads the projection in a thread of its own, one reader at a time, and what was
read under an old generation is not published.

The journal changes by any repository call at any moment. The mark of a change comes later, or
never where the call changed nothing or raised after its commit. What a reader does under the lock
is one step, and so is each of its two reads. A reader may fail at every step: a read that raises, a
row that does not freeze, a caller that was cancelled.

## Main definitions

* `PaperJournalRuntime`: `markCommitted`, `refreshGeneration`, `publishSnapshot`
* `SnapshotCall`: how far a call of `active_snapshot` is
* `JournalSystem`, `JournalSystem.step`
-/

namespace AefTerminal

open Foundation

/-! ### Reads -/

/-- `read_paper_orders`, of all pending orders. -/
def readPendingOrders (t : PaperTables) : Except PaperError (List SavedOrder) :=
  (((t.orders.select fun _ row => row.status = .pending).map fun e =>
    SavedOrder.mk e.1 e.2).insertionSort fun a b => b.row.updatedAt ≤ a.row.updatedAt).mapM
    fun o => paperOrderFromRow o.id o.row

/-- `read_paper_positions`, of all open positions. -/
def readOpenPositions (t : PaperTables) : Except PaperError (List SavedPosition) :=
  readPaperPositions t (some .open) none

/-! ### The projection -/

structure PaperJournalRuntime where
  generation : ℕ
  loadedGeneration : ℤ
  pendingOrders : List SavedOrder
  openPositions : List SavedPosition

namespace PaperJournalRuntime

def initial : PaperJournalRuntime := ⟨0, -1, [], []⟩

/-- One row of `_freeze_rows`; the ids of the rows before it are carried along. -/
def freezeRow (entity : String) (active : Bool) (id : String) (identity : PaperIdentity)
    (ids : List String) : Except PaperError (List String) := do
  let rowId ← requireExactIdentityText id ("PAPER_" ++ entity ++ "_ID")
  let _ ← requireExactIdentityText identity.instrumentId ("PAPER_" ++ entity ++ "_INSTRUMENT_ID")
  let _ ← requireExactIdentityText identity.routeFingerprint
    ("PAPER_" ++ entity ++ "_ROUTE_FINGERPRINT")
  let _ ← requirePaperContractIdentity identity.provider identity.providerContractId
    (some identity.paperContract)
  require active (⟨"PAPER_" ++ entity ++ "_RUNTIME_STATUS_INVALID: " ++ rowId⟩)
  require (rowId ∉ ids) (⟨"PAPER_" ++ entity ++ "_RUNTIME_ID_DUPLICATE: " ++ rowId⟩)
  return rowId :: ids

/-- `_freeze_rows` of pending orders. -/
def freezeOrders (rows : List SavedOrder) : Except PaperError (List SavedOrder) := do
  let _ ← rows.foldlM (fun ids o =>
    freezeRow "ORDER" (o.row.status = .pending) o.id o.row.document.identity ids) []
  return rows

/-- `_freeze_rows` of open positions. -/
def freezePositions (rows : List SavedPosition) : Except PaperError (List SavedPosition) := do
  let _ ← rows.foldlM (fun ids p =>
    freezeRow "POSITION" (p.row.status = .open) p.id p.row.document.identity ids) []
  return rows

/-- `mark_committed`. -/
def markCommitted (r : PaperJournalRuntime) : PaperJournalRuntime :=
  { r with generation := r.generation + 1 }

/-- `_refresh_generation`: the generation to load, unless it is loaded. -/
def refreshGeneration (r : PaperJournalRuntime) : Option ℕ :=
  if r.loadedGeneration = r.generation then none else some r.generation

/-- `publish_snapshot`: whether the rows were published. -/
def publishSnapshot (r : PaperJournalRuntime) (pendingOrders : List SavedOrder)
    (openPositions : List SavedPosition) (generation : ℕ) :
    Except PaperError (Bool × PaperJournalRuntime) := do
  let frozenOrders ← freezeOrders pendingOrders
  let frozenPositions ← freezePositions openPositions
  if r.generation < generation then .error ⟨"PAPER_JOURNAL_RUNTIME_GENERATION_FUTURE"⟩
  else if generation ≠ r.generation then return (false, r)
  else return (true, ⟨r.generation, generation, frozenOrders, frozenPositions⟩)

end PaperJournalRuntime

/-! ### Readers -/

/-- How far a call of `active_snapshot` is. -/
inductive SnapshotCall
  /-- It waits for the refresh lock. -/
  | waiting
  /-- It is at the head of the refresh loop. -/
  | looping
  | reading (generation : ℕ)
  | ordersRead (generation : ℕ) (orders : List SavedOrder)
  | positionsRead (generation : ℕ) (orders : List SavedOrder) (positions : List SavedPosition)
  /-- Nothing is left to load. -/
  | refreshed
  | returned (orders : List SavedOrder) (positions : List SavedPosition)
  | raised

/-- The journal with its commits and their marks, the projection, and the calls of
`active_snapshot` by number. -/
structure JournalSystem where
  journal : MarkedHistory PaperTables
  /-- The commits whose call has not marked them. -/
  unmarked : List ℕ
  runtime : PaperJournalRuntime
  calls : Dict ℕ SnapshotCall
  /-- The call that holds the refresh lock. -/
  refreshLock : Option ℕ

namespace JournalSystem

inductive Act
  /-- A repository call commits. -/
  | commit (call : PaperAct)
  /-- The repository call that made the commit marks it. -/
  | markCommitted (m : ℕ)
  /-- `active_snapshot` is called. -/
  | start (c : ℕ)
  | acquire (c : ℕ)
  | refreshGeneration (c : ℕ)
  | readOrders (c : ℕ)
  | readPositions (c : ℕ)
  | publish (c : ℕ)
  /-- The projection is read and handed out. -/
  | finish (c : ℕ)
  | fail (c : ℕ)

def initial (t : PaperTables) : JournalSystem := ⟨.start t, [], .initial, .empty, none⟩

def setCall (s : JournalSystem) (c : ℕ) (call : SnapshotCall) : JournalSystem :=
  { s with calls := s.calls.insert c call }

/-- The call leaves the refresh thread. -/
def release (s : JournalSystem) (c : ℕ) (call : SnapshotCall) : JournalSystem :=
  { s.setCall c call with refreshLock := none }

/-- The outcome of the first read, at the head of `active_snapshot`. -/
def startCall (r : PaperJournalRuntime) : SnapshotCall :=
  match r.refreshGeneration with
  | some _ => .waiting
  | none => .refreshed

/-- The head of the loop of `_refresh_snapshot_owned`. -/
def enterLoop (s : JournalSystem) (c : ℕ) : JournalSystem :=
  match s.runtime.refreshGeneration with
  | some generation => s.setCall c (.reading generation)
  | none => s.release c .refreshed

/-- The end of the loop's body. Rows that do not freeze raise out of it. -/
def publishCall (s : JournalSystem) (c : ℕ) (generation : ℕ) (orders : List SavedOrder)
    (positions : List SavedPosition) : JournalSystem :=
  match s.runtime.publishSnapshot orders positions generation with
  | .ok (true, runtime) => { s.release c .refreshed with runtime }
  | .ok (false, runtime) => { s.setCall c .looping with runtime }
  | .error _ => s.release c .raised

/-- A call that ends by an error gives the refresh lock back if it has it. -/
def failCall (s : JournalSystem) (c : ℕ) : JournalSystem :=
  { s.setCall c .raised with
    refreshLock := if s.refreshLock = some c then none else s.refreshLock }

def step (s : JournalSystem) : Act → Option JournalSystem
  | .commit call => some { s with
      journal := s.journal.commit (s.journal.current.perform call)
      unmarked := (s.journal.commits + 1) :: s.unmarked }
  | .markCommitted m =>
    if m ∈ s.unmarked then some { s with
      journal := s.journal.mark m
      unmarked := s.unmarked.erase m
      runtime := s.runtime.markCommitted }
    else none
  | .start c => if c ∈ s.calls.keys then none else some (s.setCall c (startCall s.runtime))
  | .acquire c =>
    match s.calls.get? c, s.refreshLock with
    | some .waiting, none => some { s.setCall c .looping with refreshLock := some c }
    | _, _ => none
  | .refreshGeneration c =>
    match s.calls.get? c with
    | some .looping => some (s.enterLoop c)
    | _ => none
  | .readOrders c =>
    match s.calls.get? c, readPendingOrders s.journal.current with
    | some (.reading generation), .ok orders => some (s.setCall c (.ordersRead generation orders))
    | _, _ => none
  | .readPositions c =>
    match s.calls.get? c, readOpenPositions s.journal.current with
    | some (.ordersRead generation orders), .ok positions =>
      some (s.setCall c (.positionsRead generation orders positions))
    | _, _ => none
  | .publish c =>
    match s.calls.get? c with
    | some (.positionsRead generation orders positions) =>
      some (s.publishCall c generation orders positions)
    | _ => none
  | .finish c =>
    match s.calls.get? c with
    | some .refreshed =>
      some (s.setCall c (.returned s.runtime.pendingOrders s.runtime.openPositions))
    | _ => none
  | .fail c =>
    match s.calls.get? c with
    | none | some (.returned _ _) | some .raised => none
    | some _ => some (s.failCall c)

end JournalSystem

end AefTerminal
