import AefTerminal.Paper.Orders
import Mathlib.Algebra.Order.Group.Abs
import Mathlib.Algebra.Order.Ring.Rat

/-!
# Applying a filled order

`applyFilledPaperOrder` is the transaction that turns one filled order into a position change. It
reserves the order id, finds the open position of the scope, moves it, records the order and the
fill, brings the protective orders of the position in line and appends the journal events.

An order id is admitted once. A second application of a filled order is answered from what is
stored; one that disagrees with the stored command or route, or finds the order cancelled, is
rejected. Every rejection rolls the transaction back.

## Main definitions

* `PaperFillCommand`, `paperFillCommand`: the facts of one application
* `reservePaperFillOrder`, `paperFillExistingOrderOutcome`: admission
* `paperFillDelta`, `increasePaperPosition`, `reducePaperPosition`, `transitionPaperPosition`
* `persistPaperFillRecords`, `createPaperFillProtectiveOrders`, `applyFilledPaperOrder`
-/

namespace AefTerminal

open Foundation

/-- The facts of one filled order, validated. -/
structure PaperFillCommand where
  order : PaperOrder
  command : PaperCommand
  protectionPayload : PaperOrderPayload
  price : ℚ
  entryPrice : ℚ
  filledAt : Time
  createCommand : PaperCommand

namespace PaperFillCommand

variable (f : PaperFillCommand)

def orderId : String := f.command.id

def identity : PaperIdentity where
  instrumentId := f.command.instrumentId
  routeFingerprint := f.command.routeFingerprint
  provider := f.command.provider
  providerContractId := f.command.providerContractId
  paperContract := f.command.paperContract

def scope : PaperScope := f.identity.scope

def reduceOnly : Bool := f.command.reduceOnly

def manualClose : Bool := f.command.reduceOnly && decide (f.command.role = .close)

/-- The position a reduce-only order is for. -/
def targetPositionId : Option String := if f.reduceOnly then f.command.positionId else none

/-- The quantity with the sign of its side; a manual close takes it from the position. -/
def signedDelta : ℚ :=
  if f.manualClose then 0
  else
    match f.command.side with
    | some .long => f.command.qty.getD 0
    | _ => -(f.command.qty.getD 0)

/-- The document of the order as it comes in. -/
def document (f : PaperFillCommand) : OrderDocument :=
  f.order.document f.command.paperContract f.protectionPayload f.createCommand f.command

end PaperFillCommand

/-- The create command of an order is its own command, unless it carries one. -/
def PaperOrder.createCommandOr (o : PaperOrder) (command : PaperCommand) :
    Except PaperError PaperCommand :=
  match o.createCommand with
  | some create => paperOrderCommandPayload create.toOrder
  | none => .ok command

/-- `_paper_fill_command`. -/
def paperFillCommand (o : PaperOrder) (now : Time) : Except PaperError PaperFillCommand := do
  let command ← paperOrderCommandPayload o
  let protectionPayload ← o.protection
  match o.fillPrice <|> o.entry with
  | none => .error ⟨"valid provider-qualified filled paper order is required"⟩
  | some price =>
    let manualClose := command.reduceOnly && decide (command.role = .close)
    let createCommand ← o.createCommandOr command
    return {
      order := o
      command
      protectionPayload
      price
      entryPrice := if manualClose then price else o.entry.getD price
      filledAt := o.filledAt.getD now
      createCommand }

inductive PaperFillOutcome
  | filled | cancelled | noOp
  deriving DecidableEq, Repr

structure PaperFillResult where
  outcome : PaperFillOutcome
  order : SavedOrder
  position : Option SavedPosition
  fill : Option FillRow
  createdOrders : List SavedOrder
  cancelledOrders : List SavedOrder
  closedPosition : Option SavedPosition
  openedNewPosition : Bool

/-- An answer from what is stored. -/
def PaperFillResult.replay (order : SavedOrder) (position : Option SavedPosition)
    (fill : Option FillRow) : PaperFillResult :=
  ⟨.noOp, order, position, fill, [], [], none, false⟩

/-! ### Admission -/

/-- `_paper_position_by_id`, within the scope of the fill. -/
def paperPositionById (t : PaperTables) (scope : PaperScope) (positionId : Option String) :
    Except PaperError (Option SavedPosition) :=
  match positionId with
  | none => .ok none
  | some id =>
    match t.positions.get? id with
    | none => .ok none
    | some row =>
      if row.document.identity.scope = scope then some <$> paperPositionFromRow id row
      else .ok none

/-- The answer to a second application of a filled order. -/
def paperFillReplayOutcome (t : PaperTables) (f : PaperFillCommand) (existing : SavedOrder) :
    Except PaperError PaperFillResult := do
  match t.fills.filter fun r => r.orderId = f.orderId ∧ r.identity.scope = f.scope with
  | [row] =>
    let fill ← paperFillFromRow row
    let positionId ← requireExactIdentityText fill.positionId "PAPER_POSITION_ID"
    let position ← paperPositionById t f.scope (some positionId)
    require position.isSome (⟨"PAPER_ORDER_IDEMPOTENCY_POSITION_MISSING"⟩)
    return .replay existing position (some fill)
  | _ => .error ⟨"PAPER_ORDER_IDEMPOTENCY_FILL_INVALID"⟩

/-- The answer to a manual close whose order was cancelled because the position was gone. -/
def paperManualCloseReplayOutcome (t : PaperTables) (f : PaperFillCommand)
    (existing : SavedOrder) : Except PaperError PaperFillResult := do
  match ← paperPositionById t f.scope f.targetPositionId with
  | none => .error ⟨"PAPER_ORDER_IDEMPOTENCY_POSITION_MISSING"⟩
  | some position =>
    require (position.row.status = .closed ∧ |position.row.qty| ≤ paperTolerance)
      (⟨"PAPER_ORDER_NOT_FILLABLE"⟩)
    return .replay existing (some position) none

/-- A level is where its distance from the fill puts it. -/
def levelAtDistance (use : Bool) (level points : Option ℚ) (fillPrice sign : ℚ) : Bool :=
  match use, level, points with
  | false, none, _ => true
  | false, some _, _ => false
  | true, some level, some points =>
    let expected := fillPrice + sign * points
    decide (0 < points) &&
      decide (|level - expected| ≤ max paperTolerance (|expected| * (1 / 1000000000000)))
  | true, _, _ => false

/-- A command without its levels. -/
def PaperCommand.withoutLevels (c : PaperCommand) : PaperCommand :=
  { c with stopLoss := none, target := none }

/-- `_paper_fill_distance_execution_update_allowed`: a pending entry whose levels are distances
from the fill may move them to the fill. -/
def paperFillDistanceExecutionUpdateAllowed (existing : OrderDocument) (f : PaperFillCommand) :
    Bool :=
  decide (existing.createCommand = f.createCommand) &&
    decide (existing.payload.protectionSignature = f.protectionPayload.protectionSignature) &&
    decide (existing.executionCommand.role = .entry) &&
    !existing.executionCommand.reduceOnly &&
    decide (existing.executionCommand.withoutLevels = f.command.withoutLevels) &&
    match existing.payload.protectionIntent, f.command.side with
    | some intent, some side =>
      let long : ℚ := match side with
        | .long => 1
        | .short => -1
      levelAtDistance f.command.useStopLoss f.command.stopLoss intent.stopPoints f.price (-long) &&
        levelAtDistance f.command.useTarget f.command.target intent.targetPoints f.price long
    | _, _ => false

/-- `_paper_fill_existing_order_outcome`: `none` lets the application go on. -/
def paperFillExistingOrderOutcome (t : PaperTables) (f : PaperFillCommand) (row : OrderRow) :
    Except PaperError (Option PaperFillResult) := do
  let existing ← paperOrderFromRow f.orderId row
  require (row.document.identity.instrumentId = f.command.instrumentId ∧
    row.document.identity.routeFingerprint = f.command.routeFingerprint)
    (⟨"PAPER_ORDER_ID_ROUTE_COLLISION"⟩)
  require (row.document.createCommand = f.createCommand) (⟨"PAPER_ORDER_ID_COMMAND_COLLISION"⟩)
  if row.status = .filled then some <$> paperFillReplayOutcome t f existing
  else if row.status = .cancelled ∧ f.manualClose then
    some <$> paperManualCloseReplayOutcome t f existing
  else
    require (row.document.executionCommand = f.command ∨
      (row.status = .pending ∧ paperFillDistanceExecutionUpdateAllowed row.document f))
      (⟨"PAPER_ORDER_ID_COMMAND_COLLISION"⟩)
    require (row.status = .pending) (⟨"PAPER_ORDER_NOT_FILLABLE"⟩)
    return none

/-- The row that reserves the order id. -/
def PaperFillCommand.reservationRow (f : PaperFillCommand) : OrderRow :=
  { pendingRow f.command (f.command.side.getD .long, f.command.qty.getD 1, f.entryPrice)
      (f.order.createdAt.getD f.filledAt) (f.order.updatedAt.getD f.filledAt) f.document with
    positionId := f.targetPositionId }

/-- `_reserve_paper_fill_order`: a new order id is reserved, a known one is checked. -/
def reservePaperFillOrder (t : PaperTables) (f : PaperFillCommand) :
    Except PaperError (Option PaperFillResult × PaperTables) :=
  match t.orders.get? f.orderId with
  | none => .ok (none, { t with orders := t.orders.insert f.orderId f.reservationRow })
  | some row => do
    let outcome ← paperFillExistingOrderOutcome t f row
    return (outcome, t)

/-! ### The open position -/

/-- An open position that the fill applies to. -/
def isFillPosition (f : PaperFillCommand) (id : String) (row : PositionRow) : Bool :=
  decide (row.document.identity.scope = f.scope) && decide (row.timeframe = f.command.timeframe) &&
    decide (row.status = .open) &&
    match f.targetPositionId with
    | none => true
    | some target => decide (id = target)

/-- `_locked_paper_fill_position`: the oldest of them. -/
def lockedPaperFillPosition (t : PaperTables) (f : PaperFillCommand) :
    Except PaperError (Option SavedPosition) := do
  let open_ := ((t.positions.select (isFillPosition f)).map fun e =>
    SavedPosition.mk e.1 e.2).insertionSort fun a b => a.row.openedAt ≤ b.row.openedAt
  match open_.head? with
  | none => return none
  | some p =>
    let position ← paperPositionFromRow p.id p.row
    require (position.row.document.identity.paperContract = f.command.paperContract)
      (⟨"PAPER_POSITION_CONTRACT_METADATA_CONTRADICTORY"⟩)
    return some position

/-- `_paper_position_expectation_rejection`. -/
def paperPositionExpectationRejection (position : Option SavedPosition) :
    Option PaperPositionExpectation → Option PaperRejection
  | none => none
  | some .malformed =>
    some ⟨"PAPER_POSITION_EXPECTATION_INVALID", "paper position expectation is invalid"⟩
  | some .absent =>
    if position.isSome then
      some ⟨"PAPER_POSITION_EXPECTATION_STALE", "paper position was opened before execution"⟩
    else none
  | some (.opened positionId side qty updatedAt) =>
    match position with
    | none =>
      some ⟨"PAPER_POSITION_EXPECTATION_STALE", "expected paper position is no longer open"⟩
    | some p =>
      if p.id ≠ positionId ∨ p.row.document.side ≠ side ∨ |p.row.qty - qty| > paperTolerance ∨
          p.row.updatedAt ≠ updatedAt then
        some ⟨"PAPER_POSITION_EXPECTATION_STALE", "paper position changed before execution"⟩
      else none

/-- Cancel the reserved order instead of filling it. -/
def cancelReserved (t : PaperTables) (f : PaperFillCommand) (rejection : Option PaperRejection)
    (missing : String) : Except PaperError (SavedOrder × PaperTables) := do
  let cancel := cancelIfPendingWithCursor t.orders f.orderId f.filledAt (fun i => i.scope = f.scope)
    rejection
  match cancel.1 with
  | none => .error ⟨missing⟩
  | some row =>
    let cancelled ← paperOrderFromRow f.orderId row
    return (cancelled, { t with orders := cancel.2 })

/-- `_paper_position_expectation_outcome`. -/
def paperPositionExpectationOutcome (t : PaperTables) (f : PaperFillCommand)
    (position : Option SavedPosition) (now : Time) :
    Except PaperError (Option (PaperFillResult × PaperTables)) := do
  match paperPositionExpectationRejection position f.protectionPayload.positionExpectation with
  | none => return none
  | some rejection =>
    let (cancelled, t) ← cancelReserved t f (some rejection)
      "PAPER_POSITION_EXPECTATION_CANCEL_RESULT_MISSING"
    let t ← t.appendEvent (rejectionEvent cancelled rejection now)
    return some (⟨.cancelled, cancelled, position, none, [], [cancelled], none, false⟩, t)

/-- The position a manual close came too late for. -/
def currentOfManualClose (t : PaperTables) (f : PaperFillCommand) :
    Except PaperError (Option SavedPosition) :=
  if f.manualClose then paperPositionById t f.scope f.targetPositionId else .ok none

/-- `_paper_stale_reduce_only_outcome`: there is nothing to reduce. -/
def paperStaleReduceOnlyOutcome (t : PaperTables) (f : PaperFillCommand)
    (position : Option SavedPosition) :
    Except PaperError (Option (PaperFillResult × PaperTables)) := do
  if !f.reduceOnly || position.isSome then return none
  else
    let (cancelled, t) ← cancelReserved t f none "PAPER_ORDER_STALE_CANCEL_RESULT_MISSING"
    let current ← currentOfManualClose t f
    let outcome := if f.manualClose then PaperFillOutcome.noOp else .cancelled
    return some (⟨outcome, cancelled, current, none, [], [cancelled], none, false⟩, t)

/-! ### The position transition -/

/-- What a fill did to the positions of its scope. -/
structure PaperPositionTransition where
  positionId : String
  previousQty : ℚ
  side : PaperSide
  qty : ℚ
  signedDelta : ℚ
  pnl : ℚ
  closedPosition : Option SavedPosition
  openedNewPosition : Bool

/-- The side of a position of quantity `qty`, and the side that leaves it. -/
def positionSide (qty : ℚ) : PaperSide := if 0 < qty then .long else .short

def exitSide (qty : ℚ) : PaperSide := if 0 < qty then .short else .long

/-- `_paper_fill_delta`: quantity, side and signed quantity. A reduce-only order is clamped to the
position, a manual close is the position. -/
def paperFillDelta (f : PaperFillCommand) (positionQty : ℚ) :
    Except PaperError (ℚ × PaperSide × ℚ) :=
  if f.reduceOnly then
    if |positionQty| ≤ paperTolerance then .error ⟨"PAPER_REDUCE_ONLY_POSITION_EMPTY"⟩
    else if f.manualClose then .ok (|positionQty|, exitSide positionQty, -positionQty)
    else if 0 ≤ positionQty * f.signedDelta then .error ⟨"PAPER_REDUCE_ONLY_DIRECTION_INVALID"⟩
    else
      let qty := min |positionQty| |f.signedDelta|
      match f.command.side with
      | none => .error ⟨"PAPER_FILL_QUANTITY_REQUIRED"⟩
      | some side => .ok (qty, side, if 0 < positionQty then -qty else qty)
  else
    match f.command.qty, f.command.side with
    | some qty, some side => .ok (qty, side, f.signedDelta)
    | _, _ => .error ⟨"PAPER_FILL_QUANTITY_REQUIRED"⟩

/-- `_paper_position_payload_from_order`, for the keys a decision reads. -/
def paperPositionPayloadFromOrder (f : PaperFillCommand) (newQty : ℚ) : PositionDocument where
  identity := f.identity
  source :=
    if f.protectionPayload.indicatorSource ≠ "" then "indicator_position" else "manual_position"
  entryOrderId := f.orderId
  side := positionSide newQty

def openedPosition (f : PaperFillCommand) (qty avgEntry : ℚ) : PositionRow where
  symbol := f.command.symbol
  timeframe := f.command.timeframe
  status := .open
  qty
  avgEntry := some avgEntry
  openedAt := f.filledAt
  updatedAt := f.filledAt
  closedAt := none
  realizedPnl := 0
  document := paperPositionPayloadFromOrder f qty

/-- An `UPDATE` of one position of the fill's scope, which has to find it. -/
def updatePosition (t : PaperTables) (f : PaperFillCommand) (positionId : String)
    (change : PositionRow → PositionRow) : Except PaperError PaperTables :=
  match t.positions.get? positionId with
  | none => .error ⟨"PAPER_POSITION_UPDATE_CARDINALITY_INVALID"⟩
  | some row =>
    if row.document.identity.scope = f.scope then
      .ok { t with positions := t.positions.insert positionId (change row) }
    else .error ⟨"PAPER_POSITION_UPDATE_CARDINALITY_INVALID"⟩

/-- `_increase_paper_position`: open a position or add to one, at the weighted average. -/
def increasePaperPosition (t : PaperTables) (f : PaperFillCommand)
    (position : Option SavedPosition) (positionId : String)
    (positionQty averageEntry signedDelta : ℚ) : Except PaperError (Bool × PaperTables) := do
  let newQty := positionQty + signedDelta
  let newAvg := (|positionQty| * averageEntry + |signedDelta| * f.price) /
    max |newQty| paperTolerance
  match position with
  | none =>
    -- the document is checked before the row is written
    let _ ← f.identity.decode
    let t ← t.insertPosition positionId (openedPosition f newQty newAvg)
    return (true, t)
  | some _ =>
    require (f.reduceOnly = false) (⟨"PAPER_REDUCE_ONLY_REVERSAL_BLOCKED"⟩)
    let t ← updatePosition t f positionId fun row =>
      { row with qty := newQty, avgEntry := some newAvg, updatedAt := f.filledAt }
    return (false, t)

/-- `_close_paper_position_exact`. -/
def closePaperPositionExact (t : PaperTables) (f : PaperFillCommand) (positionId : String)
    (pnl : ℚ) : Except PaperError PaperTables :=
  updatePosition t f positionId fun row =>
    { row with
      qty := 0
      status := .closed
      closedAt := some f.filledAt
      updatedAt := f.filledAt
      realizedPnl := row.realizedPnl + pnl }

/-- The profit of taking `closeQty` off a position. -/
def closePnl (positionQty averageEntry price closeQty : ℚ) : ℚ :=
  if 0 < positionQty then (price - averageEntry) * closeQty else (averageEntry - price) * closeQty

def reversalPositionId (f : PaperFillCommand) : String := "pos-" ++ f.orderId ++ "-rev"

/-- `_reduce_paper_position`: take from a position, close it, or close it and open the reverse. -/
def reducePaperPosition (t : PaperTables) (f : PaperFillCommand) (position : SavedPosition)
    (positionId : String) (positionQty averageEntry signedDelta : ℚ) :
    Except PaperError ((String × ℚ × Option SavedPosition × Bool) × PaperTables) := do
  let closeQty := min |positionQty| |signedDelta|
  let pnl := closePnl positionQty averageEntry f.price closeQty
  let newQty := positionQty + signedDelta
  if |newQty| ≤ paperTolerance then
    let t ← closePaperPositionExact t f positionId pnl
    return ((positionId, pnl, none, false), t)
  else if 0 < positionQty * newQty then
    let t ← updatePosition t f positionId fun row =>
      { row with qty := newQty, updatedAt := f.filledAt, realizedPnl := row.realizedPnl + pnl }
    return ((positionId, pnl, none, false), t)
  else
    let t ← closePaperPositionExact t f positionId pnl
    let _ ← f.identity.decode
    let t ← t.insertPosition (reversalPositionId f) (openedPosition f newQty f.price)
    return ((reversalPositionId f, pnl, some position, true), t)

/-- The id a fill's position has, or gets. -/
def fillPositionId (f : PaperFillCommand) (position : Option SavedPosition) : String :=
  match position with
  | some p => p.id
  | none => textOr f.order.positionId ("pos-" ++ f.orderId)

/-- `_transition_paper_position`. -/
def transitionPaperPosition (t : PaperTables) (f : PaperFillCommand)
    (position : Option SavedPosition) : Except PaperError (PaperPositionTransition × PaperTables) :=
  do
  let positionQty := (position.map fun p => p.row.qty).getD 0
  let averageEntry := (position.bind fun p => p.row.avgEntry).getD f.price
  let (qty, side, signedDelta) ← paperFillDelta f positionQty
  if positionQty = 0 ∨ 0 < positionQty * signedDelta then
    let (opened, t) ← increasePaperPosition t f position (fillPositionId f position) positionQty
      averageEntry signedDelta
    return (⟨fillPositionId f position, positionQty, side, qty, signedDelta, 0, none, opened⟩, t)
  else
    match position with
    | none => .error ⟨"PAPER_POSITION_REQUIRED"⟩
    | some p =>
      let ((positionId, pnl, closed, opened), t) ← reducePaperPosition t f p p.id positionQty
        averageEntry signedDelta
      return (⟨positionId, positionQty, side, qty, signedDelta, pnl, closed, opened⟩, t)

/-! ### Records -/

/-- The order row once it is filled. Symbol, side, type, entry and role stay as reserved. -/
def OrderRow.filled (row : OrderRow) (f : PaperFillCommand) (tr : PaperPositionTransition) :
    OrderRow :=
  { row with
    status := .filled
    qty := tr.qty
    stopLoss := f.command.stopLoss
    target := f.command.target
    useStopLoss := f.command.useStopLoss
    useTarget := f.command.useTarget
    filledAt := some f.filledAt
    fillPrice := some f.price
    updatedAt := f.filledAt
    positionId := some tr.positionId
    document := row.document.merge f.document }

def PaperFillCommand.fillRow (f : PaperFillCommand) (tr : PaperPositionTransition) : FillRow where
  orderId := f.orderId
  positionId := tr.positionId
  symbol := f.command.symbol
  timeframe := f.command.timeframe
  side := tr.side
  qty := tr.qty
  price := f.price
  role := f.command.role
  reduceOnly := f.reduceOnly
  pnlPoints := if tr.pnl = 0 then none else some tr.pnl
  filledAt := f.filledAt
  identity := f.order.identity f.command.paperContract

/-- `_persist_paper_fill_records`. The order id was reserved, so the statement finds its row. -/
def persistPaperFillRecords (t : PaperTables) (f : PaperFillCommand)
    (tr : PaperPositionTransition) : Except PaperError ((SavedOrder × FillRow) × PaperTables) := do
  match t.orders.get? f.orderId with
  | none => .error ⟨"PAPER_ORDER_ID_ROUTE_COLLISION"⟩
  | some row =>
    require (row.document.identity.scope = f.scope ∧ row.status = .pending)
      (⟨"PAPER_ORDER_ID_ROUTE_COLLISION"⟩)
    let saved ← paperOrderFromRow f.orderId (row.filled f tr)
    let t ← { t with orders := t.orders.insert f.orderId (row.filled f tr) }.insertFill
      (f.fillRow tr)
    let fill ← paperFillFromRow (f.fillRow tr)
    return ((saved, fill), t)

/-- `_paper_fill_position_results`: the positions as they are now. -/
def paperFillPositionResults (t : PaperTables) (f : PaperFillCommand)
    (tr : PaperPositionTransition) :
    Except PaperError (SavedPosition × Option SavedPosition) := do
  match ← paperPositionById t f.scope (some tr.positionId) with
  | none => .error ⟨"PAPER_POSITION_RESULT_MISSING"⟩
  | some current =>
    match tr.closedPosition with
    | none => return (current, none)
    | some closed =>
      match ← paperPositionById t f.scope (some closed.id) with
      | none => .error ⟨"PAPER_CLOSED_POSITION_RESULT_MISSING"⟩
      | some closed => return (current, some closed)

/-! ### Protective orders -/

/-- Pending orders of the filled order's OCO group, itself apart. -/
def isOcoSibling (f : PaperFillCommand) (group : String) (id : String) (row : OrderRow) : Bool :=
  decide (row.ocoGroupId = some group) && decide (id ≠ f.orderId) &&
    decide (row.document.identity.scope = f.scope) && decide (row.status = .pending)

/-- A reduce-only order that fills takes its OCO siblings with it. -/
def cancelOcoSiblings (orders : Dict String OrderRow) (f : PaperFillCommand) :
    Except PaperError (List SavedOrder × Dict String OrderRow) :=
  match f.order.ocoGroupId with
  | some group =>
    if f.reduceOnly ∧ group ≠ "" then cancelWhere orders (isOcoSibling f group) f.filledAt
    else .ok ([], orders)
  | none => .ok ([], orders)

/-- The protective orders of a position that was reversed away. -/
def syncClosedPosition (orders : Dict String OrderRow) (f : PaperFillCommand)
    (closed : Option SavedPosition) :
    Except PaperError (List SavedOrder × Dict String OrderRow) :=
  match closed with
  | some closed => syncPaperProtectiveOrders orders closed.id 0 .closed f.scope f.filledAt
  | none => .ok ([], orders)

/-- `_sync_paper_fill_protective_orders`. -/
def syncPaperFillProtectiveOrders (t : PaperTables) (f : PaperFillCommand)
    (tr : PaperPositionTransition) (current : SavedPosition) (closed : Option SavedPosition) :
    Except PaperError (List SavedOrder × PaperTables) := do
  let (siblings, orders) ← cancelOcoSiblings t.orders f
  let (left, orders) ← syncClosedPosition orders f closed
  let (synced, orders) ← syncPaperProtectiveOrders orders tr.positionId current.row.qty
    current.row.status f.scope f.filledAt
  return (siblings ++ left ++ synced, { t with orders })

/-- `_paper_entry_protective_qty`: what the protective orders of an entry cover. -/
def paperEntryProtectiveQty (signedDelta currentQty previousQty : ℚ) (reversed : Bool) :
    Except PaperError (Option ℚ) :=
  if reversed then
    if |currentQty| ≤ paperTolerance then .error ⟨"PAPER_PROTECTIVE_QTY_INVALID"⟩
    else .ok (some |currentQty|)
  else if |previousQty| ≤ paperTolerance ∨ 0 < previousQty * signedDelta then
    if |signedDelta| ≤ paperTolerance then .error ⟨"PAPER_PROTECTIVE_QTY_INVALID"⟩
    else .ok (some |signedDelta|)
  else .ok none

/-- `_paper_protective_child_intent`. -/
def paperProtectiveChildIntent (f : PaperFillCommand) (tr : PaperPositionTransition)
    (role : PaperRole) (orderType : PaperOrderType) (entry qty : ℚ) (side : PaperSide)
    (ocoGroup : String) : Except PaperError PaperOrder :=
  match f.protectionPayload.executionConfig with
  | none => .error ⟨"PAPER_EXECUTION_CONFIG_REQUIRED"⟩
  | some config =>
    let source :=
      if strip f.protectionPayload.indicatorSource ≠ "" then "indicator_protective_order"
      else "manual_protective_order"
    .ok {
      id := role.text ++ "-" ++ f.orderId
      instrumentId := f.command.instrumentId
      routeFingerprint := f.command.routeFingerprint
      symbol := f.command.symbol
      provider := f.command.provider
      providerContractId := f.command.providerContractId
      paperContract := some f.command.paperContract
      timeframe := f.command.timeframe
      side := some side
      orderType
      qty := some qty
      entry := some entry
      stopLoss := none
      target := none
      useStopLoss := some false
      useTarget := some false
      role := some role
      positionId := some tr.positionId
      parentOrderId := some f.orderId
      ocoGroupId := some ocoGroup
      reduceOnly := some true
      source := some source
      note := none
      exitReason := none
      payload := some
        { absoluteLevel := false
          protectionBasis := some .absoluteStructure
          protectionIntent := none
          executionConfig := some config
          positionExpectation := none
          metadata :=
            [("source", source), ("role", role.text),
              ("indicator_source", f.protectionPayload.indicatorSource),
              ("parent_entry_order_id", f.orderId)] }
      requestedExitPrice := false
      status := some .pending
      createdAt := some f.filledAt
      updatedAt := some f.filledAt
      filledAt := none
      fillPrice := none
      createCommand := none
      indicatorSource := none }

/-- Insert one protective child order. -/
def createProtectiveChild (f : PaperFillCommand) (tr : PaperPositionTransition) (qty : ℚ)
    (side : PaperSide) (ocoGroup : String) (s : List SavedOrder × PaperTables)
    (spec : PaperRole × PaperOrderType × ℚ) : Except PaperError (List SavedOrder × PaperTables) := do
  let intent ← paperProtectiveChildIntent f tr spec.1 spec.2.1 spec.2.2 qty side ocoGroup
  let command ← paperOrderCommandPayload intent
  match s.2.orders.get? intent.id with
  | some _ => .error ⟨"PAPER_PROTECTIVE_ORDER_ID_COLLISION"⟩
  | none =>
    let row := pendingRow command (side, qty, spec.2.2) f.filledAt f.filledAt
      (intent.document f.command.paperContract (intent.payload.getD .empty) command command)
    let saved ← paperOrderFromRow intent.id row
    return (s.1 ++ [saved], { s.2 with orders := s.2.orders.insert intent.id row })

/-- The levels of an entry that get a protective order. -/
def childSpecs (f : PaperFillCommand) : List (PaperRole × PaperOrderType × ℚ) :=
  (f.command.stopLoss.map fun level => (PaperRole.stop, PaperOrderType.stop, level)).toList ++
    (f.command.target.map fun level => (PaperRole.take, PaperOrderType.limit, level)).toList

/-- Only an entry that leaves a position open gets protective orders. -/
def fillProtectiveQty (f : PaperFillCommand) (tr : PaperPositionTransition)
    (current : SavedPosition) (reversed : Bool) : Except PaperError (Option ℚ) :=
  if current.row.status = .open ∧ f.reduceOnly = false ∧ f.command.role = .entry then
    paperEntryProtectiveQty tr.signedDelta current.row.qty tr.previousQty reversed
  else .ok none

/-- `_create_paper_fill_protective_orders`. -/
def createPaperFillProtectiveOrders (t : PaperTables) (f : PaperFillCommand)
    (tr : PaperPositionTransition) (current : SavedPosition) (reversed : Bool) :
    Except PaperError (List SavedOrder × PaperTables) := do
  let protectiveQty ← fillProtectiveQty f tr current reversed
  match protectiveQty with
  | none => return ([], t)
  | some qty =>
    (childSpecs f).foldlM
      (createProtectiveChild f tr qty (exitSide current.row.qty)
        (textOr f.order.ocoGroupId ("oco-" ++ f.orderId)))
      ([], t)

/-! ### Events -/

def positionEvent (eventType : TradeEventType) (f : PaperFillCommand) (order : SavedOrder)
    (position : SavedPosition) (fill : FillRow) (now : Time) : TradeEvent where
  eventType
  orderId := f.orderId
  tradeId := some position.id
  symbol := f.command.symbol
  timeframe := f.command.timeframe
  instrumentId := order.row.document.identity.instrumentId
  routeFingerprint := order.row.document.identity.routeFingerprint
  order := some order
  position := some position
  fill := some fill
  rejection := none
  createdAt := now

/-- A reversal closes a position besides the one it leaves open. -/
def appendClosedPosition (t : PaperTables) (f : PaperFillCommand) (order : SavedOrder)
    (fill : FillRow) (closed : Option SavedPosition) (now : Time) :
    Except PaperError PaperTables :=
  match closed with
  | some closed => t.appendEvent (positionEvent .positionClosed f order closed fill now)
  | none => .ok t

/-- `_append_paper_fill_events`. -/
def appendPaperFillEvents (t : PaperTables) (f : PaperFillCommand) (order : SavedOrder)
    (current : SavedPosition) (fill : FillRow) (closed : Option SavedPosition) (now : Time) :
    Except PaperError PaperTables := do
  let t ← appendClosedPosition t f order fill closed now
  let eventType :=
    if current.row.status = .closed then TradeEventType.positionClosed else .positionFilled
  t.appendEvent (positionEvent eventType f order current fill now)

/-! ### The transaction -/

/-- From the transition on: the part of the application that fills the order. -/
def fillPaperOrder (t : PaperTables) (f : PaperFillCommand) (position : Option SavedPosition)
    (now : Time) : Except PaperError (PaperFillResult × PaperTables) := do
  let (tr, t) ← transitionPaperPosition t f position
  let ((saved, fill), t) ← persistPaperFillRecords t f tr
  let (current, closed) ← paperFillPositionResults t f tr
  let (cancelled, t) ← syncPaperFillProtectiveOrders t f tr current closed
  let (created, t) ← createPaperFillProtectiveOrders t f tr current closed.isSome
  let t ← appendPaperFillEvents t f saved current fill closed now
  return (⟨.filled, saved, some current, some fill, created, cancelled, closed,
    tr.openedNewPosition⟩, t)

/-- `_apply_paper_fill_with_cursor`. -/
def applyPaperFillWithCursor (t : PaperTables) (f : PaperFillCommand) (now : Time) :
    Except PaperError (PaperFillResult × PaperTables) := do
  let (replay, t) ← reservePaperFillOrder t f
  match replay with
  | some replay => return (replay, t)
  | none =>
    let position ← lockedPaperFillPosition t f
    match ← paperPositionExpectationOutcome t f position now with
    | some early => return early
    | none =>
      match ← paperStaleReduceOnlyOutcome t f position with
      | some early => return early
      | none => fillPaperOrder t f position now

/-- `apply_filled_paper_order`. -/
def applyFilledPaperOrder (t : PaperTables) (o : PaperOrder) (now : Time) :
    Except PaperError (PaperFillResult × PaperTables) := do
  let f ← paperFillCommand o now
  applyPaperFillWithCursor t f now

end AefTerminal
