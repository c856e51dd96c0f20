import AefTerminal.Paper.Tables

/-!
# Operations on paper orders

The repository calls that write `paper_orders`, apart from the filled application itself. Each is
one transaction: a function from the tables to a result and new tables, or a rejection, which
rolls the transaction back. `now` is the clock the call reads.

Two writers touch the columns and the stored command differently. A resize recomputes the
execution command from the resized row. A protective-level update rewrites the `entry` column of
the orders it matches and leaves the commands in the document alone.

## Main definitions

* `upsertPaperOrder`, `updatePaperOrderIfPending`
* `cancelPaperOrderIfPending`, `rejectPaperOrderExecutionIfPending`, `cancelPaperProtectiveOrders`
* `updatePaperProtectiveLevels`
* `syncPaperProtectiveOrders`: cancel or resize the protective orders of a position
-/

namespace AefTerminal

open Foundation

/-- Quantities this small count as none. -/
def paperTolerance : ℚ := 1 / 1000000000

def PaperOrder.identity (o : PaperOrder) (contract : PaperContractIdentity) : PaperIdentity where
  instrumentId := o.instrumentId
  routeFingerprint := o.routeFingerprint
  provider := o.provider
  providerContractId := o.providerContractId
  paperContract := contract

/-- The document an order is stored with. -/
def PaperOrder.document (o : PaperOrder) (contract : PaperContractIdentity)
    (payload : PaperOrderPayload) (createCommand executionCommand : PaperCommand) :
    OrderDocument where
  identity := o.identity contract
  payload
  createCommand
  executionCommand
  source := o.source
  note := o.note
  exitReason := o.exitReason
  indicatorSource := o.indicatorSource
  cancelledAt := none
  executionRejection := none
  trailApplied := false

/-- `require_paper_order_protection` on an order as it arrived. -/
def PaperOrder.protection (o : PaperOrder) : Except PaperError PaperOrderPayload :=
  requirePaperOrderProtection o.useStopLoss o.useTarget o.stopLoss o.target o.payload

/-! ### Placing and replacing -/

/-- The side, quantity and entry columns. They are the command's, except that a manual close, whose
command has none, is reserved under the order's own. -/
def PaperOrder.reservation (o : PaperOrder) : Except PaperError (PaperSide × ℚ × ℚ) :=
  match o.side, o.qty, o.entry with
  | some side, some qty, some entry =>
    if 0 < qty then .ok (side, qty, entry) else .error ⟨"PAPER_CLOSE_RESERVATION_SHAPE_INVALID"⟩
  | _, _, _ => .error ⟨"PAPER_CLOSE_RESERVATION_SHAPE_INVALID"⟩

/-- The row a new order is inserted as. -/
def pendingRow (command : PaperCommand) (shape : PaperSide × ℚ × ℚ)
    (createdAt updatedAt : Time) (document : OrderDocument) : OrderRow where
  symbol := command.symbol
  timeframe := command.timeframe
  side := shape.1
  orderType := command.orderType
  status := .pending
  qty := shape.2.1
  entry := shape.2.2
  stopLoss := command.stopLoss
  target := command.target
  useStopLoss := command.useStopLoss
  useTarget := command.useTarget
  createdAt
  updatedAt
  filledAt := none
  fillPrice := none
  role := command.role
  positionId := command.positionId
  parentOrderId := command.parentOrderId
  ocoGroupId := command.ocoGroupId
  reduceOnly := command.reduceOnly
  document

/-- An event about one order. -/
def orderEvent (eventType : TradeEventType) (o : SavedOrder) (now : Time) : TradeEvent where
  eventType
  orderId := o.id
  tradeId := none
  symbol := o.row.symbol
  timeframe := o.row.timeframe
  instrumentId := o.row.document.identity.instrumentId
  routeFingerprint := o.row.document.identity.routeFingerprint
  order := some o
  position := none
  fill := none
  rejection := none
  createdAt := now

/-- `upsert_paper_order`: place an order once. A second order under the id must be the same command
on the same route, and is answered with what is stored. -/
def upsertPaperOrder (t : PaperTables) (o : PaperOrder) (now : Time) :
    Except PaperError (SavedOrder × PaperTables) := do
  let command ← paperOrderCommandPayload o
  let shape ← o.reservation
  let payload ← o.protection
  require (o.status.getD .pending = .pending) (⟨"PAPER_ORDER_PENDING_WRITE_REQUIRED"⟩)
  let createdAt := o.createdAt.getD now
  let row := pendingRow command shape createdAt (o.updatedAt.getD createdAt)
    (o.document command.paperContract payload command command)
  match t.orders.get? o.id with
  | none =>
    let saved ← paperOrderFromRow o.id row
    let t ← { t with orders := t.orders.insert o.id row }.appendEvent
      (orderEvent .orderPlaced saved now)
    return (saved, t)
  | some existing =>
    let saved ← paperOrderFromRow o.id existing
    require (existing.document.identity.instrumentId = o.instrumentId ∧
      existing.document.identity.routeFingerprint = o.routeFingerprint)
      (⟨"PAPER_ORDER_ID_ROUTE_COLLISION"⟩)
    require (existing.document.createCommand = command) (⟨"PAPER_ORDER_ID_COMMAND_COLLISION"⟩)
    return (saved, t)

/-- The row after a pending update. -/
def OrderRow.updated (row : OrderRow) (o : PaperOrder) (entry : ℚ) (command : PaperCommand)
    (payload : PaperOrderPayload) (updatedAt : Time) : OrderRow :=
  { row with
    entry
    stopLoss := o.stopLoss
    target := o.target
    useStopLoss := command.useStopLoss
    useTarget := command.useTarget
    updatedAt
    document := row.document.merge (o.document command.paperContract payload
      (o.createCommand.getD row.document.createCommand) command) }

/-- `update_paper_order_if_pending`: new levels, and the order's own execution command. -/
def updatePaperOrderIfPending (t : PaperTables) (o : PaperOrder)
    (instrumentId routeFingerprint : String) (now : Time) :
    Except PaperError (Option SavedOrder × PaperTables) := do
  require (o.instrumentId = instrumentId ∧ o.routeFingerprint = routeFingerprint)
    (⟨"PAPER_ORDER_UPDATE_IDENTITY_MISMATCH"⟩)
  match o.entry with
  | none => .error ⟨"paper order prices must be finite numbers"⟩
  | some entry =>
    let command ← paperOrderCommandPayload o
    let payload ← o.protection
    match t.orders.get? o.id with
    | none => return (none, t)
    | some row =>
      if row.document.identity.scope = (o.identity command.paperContract).scope ∧
          row.status = .pending then
        let row := row.updated o entry command payload (o.updatedAt.getD now)
        let saved ← paperOrderFromRow o.id row
        let t ← { t with orders := t.orders.insert o.id row }.appendEvent
          (orderEvent .orderUpdated saved now)
        return (some saved, t)
      else return (none, t)

/-! ### Cancelling -/

/-- The row after a cancellation, with the facts of a rejected execution if that is the cause. -/
def OrderRow.cancelled (row : OrderRow) (ts : Time) (rejection : Option PaperRejection) :
    OrderRow :=
  { row with
    status := .cancelled
    updatedAt := ts
    document := { row.document with
      cancelledAt := some ts
      executionRejection := rejection <|> row.document.executionRejection } }

/-- `_cancel_paper_order_if_pending_with_cursor`: the cancelled row, if there was one to cancel. -/
def cancelIfPendingWithCursor (orders : Dict String OrderRow) (id : String) (ts : Time)
    (admits : PaperIdentity → Bool) (rejection : Option PaperRejection) :
    Option OrderRow × Dict String OrderRow :=
  match orders.get? id with
  | none => (none, orders)
  | some row =>
    if admits row.document.identity ∧ row.status = .pending then
      (some (row.cancelled ts rejection), orders.insert id (row.cancelled ts rejection))
    else (none, orders)

def cancelPaperOrderIfPending (t : PaperTables) (id : String) (cancelledAt : Option Time)
    (filter : PaperScopeFilter) (now : Time) :
    Except PaperError (Option SavedOrder × PaperTables) := do
  let cancel := cancelIfPendingWithCursor t.orders id (cancelledAt.getD now) filter.admits none
  match cancel.1 with
  | none => return (none, t)
  | some row =>
    let saved ← paperOrderFromRow id row
    let t ← { t with orders := cancel.2 }.appendEvent (orderEvent .orderCancelled saved now)
    return (some saved, t)

/-- The event of a rejected execution carries the rejection. -/
def rejectionEvent (o : SavedOrder) (rejection : PaperRejection) (now : Time) : TradeEvent :=
  { orderEvent .orderExecutionRejected o now with order := none, rejection := some rejection }

def rejectPaperOrderExecutionIfPending (t : PaperTables) (id : String) (rejectedAt : Option Time)
    (filter : PaperScopeFilter) (code reason : String) (now : Time) :
    Except PaperError (Option SavedOrder × PaperTables) := do
  let rejection : PaperRejection := ⟨strip code, strip reason⟩
  require (rejection.code ≠ "" ∧ rejection.reason ≠ "")
    (⟨"PAPER_EXECUTION_REJECTION_PAYLOAD_INVALID"⟩)
  let cancel := cancelIfPendingWithCursor t.orders id (rejectedAt.getD now) filter.admits
    (some rejection)
  match cancel.1 with
  | none => return (none, t)
  | some row =>
    let saved ← paperOrderFromRow id row
    let t ← { t with orders := cancel.2 }.appendEvent (rejectionEvent saved rejection now)
    return (some saved, t)

/-- A pending reduce-only order of the position. -/
def isPendingProtective (admits : PaperIdentity → Bool) (positionId : String) (row : OrderRow) :
    Bool :=
  decide (row.positionId = some positionId) && admits row.document.identity && row.reduceOnly &&
    decide (row.status = .pending)

/-- `SET status = 'cancelled', updated_at = …`, without a note in the document. -/
def OrderRow.dropped (row : OrderRow) (ts : Time) : OrderRow :=
  { row with status := .cancelled, updatedAt := ts }

/-- Cancel every row that meets `p`; the decoded cancelled orders, and the table. -/
def cancelWhere (orders : Dict String OrderRow) (p : String → OrderRow → Bool) (ts : Time) :
    Except PaperError (List SavedOrder × Dict String OrderRow) := do
  let cancelled ← (orders.select p).mapM fun e => paperOrderFromRow e.1 (e.2.dropped ts)
  return (cancelled, orders.updateWhere p fun row => row.dropped ts)

/-- `cancel_paper_protective_orders`. The rows are decoded after the commit, so the tables change
even when a row does not decode. -/
def cancelPaperProtectiveOrders (t : PaperTables) (positionId : String)
    (filter : PaperScopeFilter) (now : Time) :
    Except PaperError (List SavedOrder) × PaperTables :=
  let protective : String → OrderRow → Bool := fun _ row =>
    isPendingProtective filter.admits positionId row
  ((t.orders.select protective).mapM fun e => paperOrderFromRow e.1 (e.2.dropped now),
    { t with orders := t.orders.updateWhere protective fun row => row.dropped now })

/-! ### Protective levels -/

/-- The orders a level update matches: pending, of the role, and of the parent order or else of the
indicator source asked for. -/
def isLevelTarget (filter : PaperScopeFilter) (positionId parentKey sourceKey : String)
    (role : PaperRole) (row : OrderRow) : Bool :=
  decide (row.positionId = some positionId) && filter.admits row.document.identity &&
    decide (row.status = .pending) && decide (row.role = role) &&
    if parentKey ≠ "" then decide (row.parentOrderId = some parentKey)
    else if sourceKey ≠ "" then decide (row.document.indicatorSource = some sourceKey)
    else true

/-- The row after its level moved. A stop is marked as trailed. -/
def OrderRow.levelled (row : OrderRow) (entry : ℚ) (now : Time) (trail : Bool) : OrderRow :=
  { row with
    entry
    updatedAt := now
    document := { row.document with trailApplied := trail || row.document.trailApplied } }

/-- One of the two update statements; an absent level updates nothing. -/
def updateLevel (orders : Dict String OrderRow) (p : String → OrderRow → Bool) (level : Option ℚ)
    (now : Time) (trail : Bool) : Bool × Dict String OrderRow :=
  match level with
  | none => (false, orders)
  | some level =>
    (!(orders.select p).isEmpty, orders.updateWhere p fun row => row.levelled level now trail)

/-- `update_paper_protective_levels`: whether an order was changed, and the tables. -/
def updatePaperProtectiveLevels (t : PaperTables) (positionId : String) (filter : PaperScopeFilter)
    (stop target : Option ℚ) (indicatorSource parentOrderId : Option String) (now : Time) :
    Bool × PaperTables :=
  let sourceKey := lower (strip (indicatorSource.getD ""))
  let parentKey := strip (parentOrderId.getD "")
  let stops := updateLevel t.orders
    (fun _ row => isLevelTarget filter positionId parentKey sourceKey .stop row) stop now true
  let takes := updateLevel stops.2
    (fun _ row => isLevelTarget filter positionId parentKey sourceKey .take row) target now false
  (stops.1 || takes.1, { t with orders := takes.2 })

/-! ### Protective coverage -/

/-- Protective orders that exclude each other share a key. -/
def SavedOrder.groupKey (o : SavedOrder) : String :=
  if o.row.ocoGroupId.getD "" ≠ "" then o.row.ocoGroupId.getD ""
  else if o.row.parentOrderId.getD "" ≠ "" then o.row.parentOrderId.getD ""
  else o.id

/-- The order of the locked read: by creation, then by id. -/
def SavedOrder.before (a b : SavedOrder) : Prop :=
  a.row.createdAt < b.row.createdAt ∨ (a.row.createdAt = b.row.createdAt ∧ a.id ≤ b.id)

instance : DecidableRel SavedOrder.before := fun _ _ => inferInstanceAs (Decidable (_ ∨ _))

/-- The groups of the pending protective orders, each in creation order. -/
def protectiveGroups (pending : List SavedOrder) : Dict String (List SavedOrder) :=
  pending.foldl
    (fun groups o => groups.insert o.groupKey ((groups.get? o.groupKey).getD [] ++ [o])) .empty

/-- What the loop over the groups carries. -/
structure ProtectiveSync where
  orders : Dict String OrderRow
  remainingQty : ℚ
  cancelledOrders : List SavedOrder

/-- The decoded record of an order under another quantity. -/
def SavedOrder.resized (o : SavedOrder) (qty : ℚ) (updatedAt : Time) : PaperOrder :=
  { o.toOrder with qty := some qty, updatedAt := some updatedAt }

/-- The row after a resize: the execution command is the resized order's. -/
def OrderRow.resized (row : OrderRow) (qty : ℚ) (updatedAt : Time) (payload : PaperOrderPayload)
    (command : PaperCommand) : OrderRow :=
  { row with
    qty
    updatedAt
    document := { row.document with payload, executionCommand := command } }

/-- Cancel one order of a group that got nothing, or resize it to what the group got. -/
def syncProtectiveOrder (scope : PaperScope) (updatedAt : Time) (admittedQty : ℚ)
    (s : ProtectiveSync) (o : SavedOrder) : Except PaperError ProtectiveSync := do
  if admittedQty ≤ paperTolerance then
    let cancel := cancelIfPendingWithCursor s.orders o.id updatedAt (fun i => i.scope = scope) none
    match cancel.1 with
    | none => return { s with orders := cancel.2 }
    | some row =>
      let saved ← paperOrderFromRow o.id row
      return { s with orders := cancel.2, cancelledOrders := s.cancelledOrders ++ [saved] }
  else if |(|o.row.qty| - admittedQty)| ≤ paperTolerance then return s
  else
    let resized := o.resized admittedQty updatedAt
    let command ← paperOrderCommandPayload resized
    let payload ← resized.protection
    match s.orders.get? o.id with
    | none => .error ⟨"PAPER_PROTECTIVE_RESIZE_CARDINALITY_INVALID"⟩
    | some row =>
      if row.document.identity.scope = scope ∧ row.status = .pending then
        return { s with
          orders := s.orders.insert o.id (row.resized admittedQty updatedAt payload command) }
      else .error ⟨"PAPER_PROTECTIVE_RESIZE_CARDINALITY_INVALID"⟩

/-- Admit one group up to the quantity that is still unprotected. -/
def syncProtectiveGroup (scope : PaperScope) (updatedAt : Time) (s : ProtectiveSync)
    (group : List SavedOrder) : Except PaperError ProtectiveSync :=
  let groupQty := (group.map fun o => |o.row.qty|).foldl max 0
  let admittedQty := min groupQty s.remainingQty
  group.foldlM (syncProtectiveOrder scope updatedAt admittedQty)
    { s with remainingQty := max 0 (s.remainingQty - admittedQty) }

/-- `_sync_paper_protective_orders`: the cancelled orders, and the order table. -/
def syncPaperProtectiveOrders (orders : Dict String OrderRow) (positionId : String) (qty : ℚ)
    (status : PaperPositionStatus) (scope : PaperScope) (updatedAt : Time) :
    Except PaperError (List SavedOrder × Dict String OrderRow) := do
  let protective : String → OrderRow → Bool := fun _ row =>
    isPendingProtective (fun i => i.scope = scope) positionId row
  if status = .open ∧ |qty| > paperTolerance then
    let rows := ((orders.select protective).map fun e => SavedOrder.mk e.1 e.2).insertionSort
      SavedOrder.before
    let pending ← rows.mapM fun o => paperOrderFromRow o.id o.row
    let synced ← ((protectiveGroups pending).entries.map Prod.snd).foldlM
      (syncProtectiveGroup scope updatedAt) ⟨orders, |qty|, []⟩
    return (synced.cancelledOrders, synced.orders)
  else cancelWhere orders protective updatedAt

end AefTerminal
