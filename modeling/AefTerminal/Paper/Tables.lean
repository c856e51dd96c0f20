import AefTerminal.Paper.Command
import AefTerminal.Foundation.Dict
import Mathlib.Data.List.Sort

/-!
# The paper journal tables

Orders, positions, fills and trade events. A row is a set of columns and a JSON document; an
order's facts are stored three times over, as columns, as the document's own keys and inside the
two commands. The row decoders check the copies that matter against each other and raise when
they contradict, so a row that does not decode makes every reader fail.

Document keys that a column overrides on reading, and the annotations of a signal, have no effect
on any decision here and are not part of the rows.

## Main definitions

* `PaperIdentity`, `PaperScope`: whose journal a row belongs to
* `OrderRow`, `PositionRow`, `FillRow`, `TradeEvent`, `PaperTables`
* `paperOrderFromRow`, `SavedOrder.toOrder`: the order decoder and the record it returns
-/

namespace AefTerminal

open Foundation

/-- The identity keys every document carries. -/
structure PaperIdentity where
  instrumentId : String
  routeFingerprint : String
  provider : String
  providerContractId : String
  paperContract : PaperContractIdentity
  deriving DecidableEq

/-- Instrument, quote route and physical contract: what a query is restricted to. -/
structure PaperScope where
  instrumentId : String
  routeFingerprint : String
  contractScopeKey : String
  deriving DecidableEq

def PaperIdentity.scope (i : PaperIdentity) : PaperScope :=
  ⟨i.instrumentId, i.routeFingerprint, i.paperContract.scopeKey⟩

/-- The identity checks of a row decoder. -/
def PaperIdentity.decode (i : PaperIdentity) : Except PaperError PaperContractIdentity := do
  let _ ← requireExactIdentityText i.instrumentId "PAPER_INSTRUMENT_ID"
  let _ ← requireExactIdentityText i.routeFingerprint "PAPER_ROUTE_FINGERPRINT"
  requirePaperContractIdentity i.provider i.providerContractId (some i.paperContract)

/-- A query's restriction: one contract scope, or the ordinary instrument of a route. -/
structure PaperScopeFilter where
  instrumentId : String
  routeFingerprint : String
  paperContract : Option PaperContractIdentity

def PaperScopeFilter.admits (f : PaperScopeFilter) (i : PaperIdentity) : Bool :=
  decide (i.instrumentId = f.instrumentId) && decide (i.routeFingerprint = f.routeFingerprint) &&
    match f.paperContract with
    | some contract => decide (i.paperContract.scopeKey = contract.scopeKey)
    | none => decide (i.paperContract.scopeKind = .instrument)

/-! ### Orders -/

structure PaperRejection where
  code : String
  reason : String
  deriving DecidableEq

/-- The document of an order row. -/
structure OrderDocument where
  identity : PaperIdentity
  payload : PaperOrderPayload
  createCommand : PaperCommand
  executionCommand : PaperCommand
  source : Option String
  note : Option String
  exitReason : Option String
  indicatorSource : Option String
  cancelledAt : Option Time
  executionRejection : Option PaperRejection
  trailApplied : Bool

/-- `old || new`: the keys of `new` win, the others stay. -/
def OrderDocument.merge (old new : OrderDocument) : OrderDocument :=
  { new with
    source := new.source <|> old.source
    note := new.note <|> old.note
    exitReason := new.exitReason <|> old.exitReason
    indicatorSource := new.indicatorSource <|> old.indicatorSource
    cancelledAt := new.cancelledAt <|> old.cancelledAt
    executionRejection := new.executionRejection <|> old.executionRejection
    trailApplied := new.trailApplied || old.trailApplied }

structure OrderRow where
  symbol : String
  timeframe : String
  side : PaperSide
  orderType : PaperOrderType
  status : PaperOrderStatus
  qty : ℚ
  entry : ℚ
  stopLoss : Option ℚ
  target : Option ℚ
  useStopLoss : Bool
  useTarget : Bool
  createdAt : Time
  updatedAt : Time
  filledAt : Option Time
  fillPrice : Option ℚ
  role : PaperRole
  positionId : Option String
  parentOrderId : Option String
  ocoGroupId : Option String
  reduceOnly : Bool
  document : OrderDocument

/-- A decoded order: the row under its id. -/
structure SavedOrder where
  id : String
  row : OrderRow

/-- The record a decoded order is handed out as. An absent id column reads as the empty text. -/
def SavedOrder.toOrder (o : SavedOrder) : PaperOrder where
  id := o.id
  instrumentId := o.row.document.identity.instrumentId
  routeFingerprint := o.row.document.identity.routeFingerprint
  symbol := o.row.symbol
  provider := o.row.document.identity.provider
  providerContractId := o.row.document.identity.providerContractId
  paperContract := some o.row.document.identity.paperContract
  timeframe := o.row.timeframe
  side := some o.row.side
  orderType := o.row.orderType
  qty := some o.row.qty
  entry := some o.row.entry
  stopLoss := o.row.stopLoss
  target := o.row.target
  useStopLoss := some o.row.useStopLoss
  useTarget := some o.row.useTarget
  role := some o.row.role
  positionId := some (o.row.positionId.getD "")
  parentOrderId := some (o.row.parentOrderId.getD "")
  ocoGroupId := some (o.row.ocoGroupId.getD "")
  reduceOnly := some o.row.reduceOnly
  source := o.row.document.source
  note := o.row.document.note
  exitReason := o.row.document.exitReason
  payload := some o.row.document.payload
  requestedExitPrice := false
  status := some o.row.status
  createdAt := some o.row.createdAt
  updatedAt := some o.row.updatedAt
  filledAt := o.row.filledAt
  fillPrice := o.row.fillPrice
  createCommand := some o.row.document.createCommand
  indicatorSource := o.row.document.indicatorSource

/-- The checks a decoder makes on one of the two stored commands. -/
def decodeCommand (contract : PaperContractIdentity) (payload : PaperOrderPayload)
    (command : PaperCommand) : Except PaperError Unit := do
  let commandPayload ← requirePaperOrderProtection (some command.useStopLoss)
    (some command.useTarget) command.stopLoss command.target (some command.payload)
  require (commandPayload.protectionSignature = payload.protectionSignature)
    (⟨"PAPER_ORDER_ROW_PROTECTION_COPIES_CONTRADICT"⟩)
  let commandContract ← requirePaperContractIdentity command.provider command.providerContractId
    (some command.paperContract)
  require (commandContract = contract) (⟨"PAPER_ORDER_ROW_CONTRACT_COPIES_CONTRADICT"⟩)

/-- `_paper_order_from_row`. -/
def paperOrderFromRow (id : String) (row : OrderRow) : Except PaperError SavedOrder := do
  let contract ← row.document.identity.decode
  let _ ← requireExactIdentityText id "PAPER_ORDER_ID"
  let payload ← requirePaperOrderProtection (some row.useStopLoss) (some row.useTarget)
    row.stopLoss row.target (some row.document.payload)
  decodeCommand contract payload row.document.createCommand
  decodeCommand contract payload row.document.executionCommand
  return ⟨id, row⟩

/-! ### Positions, fills, events -/

inductive PaperPositionStatus
  | «open» | closed
  deriving DecidableEq, Repr

structure PositionDocument where
  identity : PaperIdentity
  source : String
  entryOrderId : String
  side : PaperSide
  deriving DecidableEq

structure PositionRow where
  symbol : String
  timeframe : String
  status : PaperPositionStatus
  qty : ℚ
  avgEntry : Option ℚ
  openedAt : Time
  updatedAt : Time
  closedAt : Option Time
  realizedPnl : ℚ
  document : PositionDocument
  deriving DecidableEq

/-- A decoded position: the row under its id. -/
structure SavedPosition where
  id : String
  row : PositionRow
  deriving DecidableEq

/-- `_paper_position_from_row`. -/
def paperPositionFromRow (id : String) (row : PositionRow) : Except PaperError SavedPosition := do
  let _ ← requireExactIdentityText id "PAPER_POSITION_ID"
  let _ ← row.document.identity.decode
  return ⟨id, row⟩

structure FillRow where
  orderId : String
  positionId : String
  symbol : String
  timeframe : String
  side : PaperSide
  qty : ℚ
  price : ℚ
  role : PaperRole
  reduceOnly : Bool
  pnlPoints : Option ℚ
  filledAt : Time
  identity : PaperIdentity
  deriving DecidableEq

/-- `_paper_fill_from_row`. -/
def paperFillFromRow (row : FillRow) : Except PaperError FillRow := do
  let _ ← row.identity.decode
  return row

inductive TradeEventType
  | orderPlaced | orderUpdated | orderCancelled | orderExecutionRejected
  | positionFilled | positionClosed
  deriving DecidableEq, Repr

/-- A journal event with the facts its payload records. -/
structure TradeEvent where
  eventType : TradeEventType
  orderId : String
  tradeId : Option String
  symbol : String
  timeframe : String
  instrumentId : String
  routeFingerprint : String
  order : Option SavedOrder
  position : Option SavedPosition
  fill : Option FillRow
  rejection : Option PaperRejection
  createdAt : Time

/-- The four tables. A primary key is a dictionary key; `paper_fills` has its unique index
`(contract_scope_key, order_id)` checked on insertion. -/
structure PaperTables where
  orders : Dict String OrderRow
  positions : Dict String PositionRow
  fills : List FillRow
  events : List TradeEvent

namespace PaperTables

def empty : PaperTables := ⟨.empty, .empty, [], []⟩

/-- `_append_paper_trade_event_with_cursor`. -/
def appendEvent (t : PaperTables) (event : TradeEvent) : Except PaperError PaperTables :=
  if event.instrumentId = "" ∨ event.routeFingerprint = "" then
    .error ⟨"PAPER_TRADE_EVENT_IDENTITY_REQUIRED"⟩
  else .ok { t with events := t.events ++ [event] }

/-- Insert a new position; a taken id violates the primary key. -/
def insertPosition (t : PaperTables) (id : String) (row : PositionRow) :
    Except PaperError PaperTables :=
  if id ∈ t.positions.keys then .error ⟨"paper_positions_pkey"⟩
  else .ok { t with positions := t.positions.insert id row }

/-- Insert a fill; one order has at most one fill in a contract scope. -/
def insertFill (t : PaperTables) (row : FillRow) : Except PaperError PaperTables :=
  if ∃ f ∈ t.fills, f.identity.paperContract.scopeKey = row.identity.paperContract.scopeKey ∧
      f.orderId = row.orderId then .error ⟨"paper_fills_order_unique_idx"⟩
  else .ok { t with fills := t.fills ++ [row] }

end PaperTables

/-! ### What decodes -/

theorem PaperIdentity.decode_eq_ok {i : PaperIdentity} {c : PaperContractIdentity} :
    i.decode = .ok c ↔ i.instrumentId ≠ "" ∧ i.routeFingerprint ≠ "" ∧ c = i.paperContract ∧
      i.provider = i.paperContract.provider ∧
      i.providerContractId = i.paperContract.providerContractId := by
  simp only [PaperIdentity.decode, bind_eq_ok, requireExactIdentityText_eq_ok,
    requirePaperContractIdentity_eq_ok, Option.some.injEq]
  constructor
  · rintro ⟨_, ⟨hi, -⟩, _, ⟨hr, -⟩, rfl, hp, hc⟩
    exact ⟨hi, hr, rfl, hp, hc⟩
  · rintro ⟨hi, hr, rfl, hp, hc⟩
    exact ⟨_, ⟨hi, rfl⟩, _, ⟨hr, rfl⟩, rfl, hp, hc⟩

/-- An identity that every decoder accepts. -/
structure PaperIdentity.Valid (i : PaperIdentity) : Prop where
  instrumentId_ne : i.instrumentId ≠ ""
  routeFingerprint_ne : i.routeFingerprint ≠ ""
  provider_eq : i.provider = i.paperContract.provider
  providerContractId_eq : i.providerContractId = i.paperContract.providerContractId

theorem PaperIdentity.Valid.decode {i : PaperIdentity} (h : i.Valid) :
    i.decode = .ok i.paperContract :=
  decode_eq_ok.mpr ⟨h.instrumentId_ne, h.routeFingerprint_ne, rfl, h.provider_eq,
    h.providerContractId_eq⟩

theorem PaperIdentity.valid_of_decode {i : PaperIdentity} {c : PaperContractIdentity}
    (h : i.decode = .ok c) : i.Valid := by
  obtain ⟨hi, hr, -, hp, hc⟩ := decode_eq_ok.mp h
  exact ⟨hi, hr, hp, hc⟩

/-- A stored command agrees with the order it is stored with. -/
structure CommandAgrees (contract : PaperContractIdentity) (payload : PaperOrderPayload)
    (command : PaperCommand) : Prop where
  protection : Protected command.useStopLoss command.useTarget command.stopLoss command.target
    command.payload
  signature : command.payload.protectionSignature = payload.protectionSignature
  paperContract_eq : command.paperContract = contract
  provider_eq : command.provider = contract.provider
  providerContractId_eq : command.providerContractId = contract.providerContractId

theorem decodeCommand_eq_ok {contract : PaperContractIdentity} {payload : PaperOrderPayload}
    {command : PaperCommand} {u : Unit} :
    decodeCommand contract payload command = .ok u ↔ CommandAgrees contract payload command := by
  simp only [decodeCommand, bind_eq_ok, requirePaperOrderProtection_eq_ok,
    requirePaperContractIdentity_eq_ok, require_eq_ok, Option.some.injEq]
  constructor
  · rintro ⟨_, ⟨rfl, _, _, rfl, rfl, hprot⟩, _, hsig, _, ⟨rfl, hp, hc⟩, rfl⟩
    exact ⟨hprot, hsig, rfl, hp, hc⟩
  · rintro ⟨hprot, hsig, rfl, hp, hc⟩
    exact ⟨_, ⟨rfl, _, _, rfl, rfl, hprot⟩, ⟨⟩, hsig, _, ⟨rfl, hp, hc⟩, rfl⟩

/-- A row every reader can decode. -/
structure OrderRow.Decodes (id : String) (row : OrderRow) : Prop where
  id_ne : id ≠ ""
  identity : row.document.identity.Valid
  protection : Protected row.useStopLoss row.useTarget row.stopLoss row.target
    row.document.payload
  createCommand : CommandAgrees row.document.identity.paperContract row.document.payload
    row.document.createCommand
  executionCommand : CommandAgrees row.document.identity.paperContract row.document.payload
    row.document.executionCommand

theorem paperOrderFromRow_eq_ok {id : String} {row : OrderRow} {o : SavedOrder} :
    paperOrderFromRow id row = .ok o ↔ o = ⟨id, row⟩ ∧ row.Decodes id := by
  simp only [paperOrderFromRow, bind_eq_ok, requireExactIdentityText_eq_ok,
    requirePaperOrderProtection_eq_ok, decodeCommand_eq_ok, pure_eq_ok, Option.some.injEq]
  constructor
  · rintro ⟨c, hc, _, ⟨hid, -⟩, _, ⟨rfl, _, _, rfl, rfl, hprot⟩, _, hcreate, _, hexec, rfl⟩
    obtain ⟨-, -, rfl, -⟩ := PaperIdentity.decode_eq_ok.mp hc
    exact ⟨rfl, hid, PaperIdentity.valid_of_decode hc, hprot, hcreate, hexec⟩
  · rintro ⟨rfl, hid, hident, hprot, hcreate, hexec⟩
    exact ⟨_, hident.decode, _, ⟨hid, rfl⟩, _, ⟨rfl, _, _, rfl, rfl, hprot⟩, ⟨⟩, hcreate, ⟨⟩,
      hexec, rfl⟩

theorem OrderRow.Decodes.fromRow {id : String} {row : OrderRow} (h : row.Decodes id) :
    paperOrderFromRow id row = .ok ⟨id, row⟩ :=
  paperOrderFromRow_eq_ok.mpr ⟨rfl, h⟩

theorem paperPositionFromRow_eq_ok {id : String} {row : PositionRow} {p : SavedPosition} :
    paperPositionFromRow id row = .ok p ↔
      p = ⟨id, row⟩ ∧ id ≠ "" ∧ row.document.identity.Valid := by
  simp only [paperPositionFromRow, bind_eq_ok, requireExactIdentityText_eq_ok, pure_eq_ok]
  constructor
  · rintro ⟨_, ⟨hid, -⟩, _, hi, rfl⟩
    exact ⟨rfl, hid, PaperIdentity.valid_of_decode hi⟩
  · rintro ⟨rfl, hid, hi⟩
    exact ⟨_, ⟨hid, rfl⟩, _, hi.decode, rfl⟩

theorem paperFillFromRow_eq_ok {row r : FillRow} :
    paperFillFromRow row = .ok r ↔ r = row ∧ row.identity.Valid := by
  simp only [paperFillFromRow, bind_eq_ok, pure_eq_ok]
  constructor
  · rintro ⟨_, hi, rfl⟩
    exact ⟨rfl, PaperIdentity.valid_of_decode hi⟩
  · rintro ⟨rfl, hi⟩
    exact ⟨_, hi.decode, rfl⟩

end AefTerminal
