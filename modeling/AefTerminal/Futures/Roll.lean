import AefTerminal.Foundation.Dict
import AefTerminal.Foundation.Fallible

/-!
# Futures contracts and the drawings of a root

One futures root: its contracts, of which one may be current, and the drawings on its charts. A
drawing carries the route and the contract that it was drawn on. When the current contract changes,
the provider names the route before and after, and the drawings move along.

The two writers take the lifecycle lock of the root and run in one transaction, so here a call is a
function of the tables that returns the new ones or raises and leaves the old. The root is an
instrument of scope `root` and class `future`.

## Main definitions

* `FuturesTables`
* `writeFuturesContract`, `rebindFuturesRootDrawings`, `replaceDrawings`
* `FuturesCall`, `FuturesTables.after`
-/

namespace AefTerminal

open Foundation

def requireIdentityText (value field : String) : Except String Unit :=
  require (value ≠ "") (field ++ " is required")

/-- The identity of the root. -/
structure FuturesRoot where
  provider : String
  instrumentId : String
  deriving DecidableEq, Repr

/-! ### Contracts -/

/-- What a contract row says about the contract itself. -/
structure ContractFacts where
  root : String
  exchange : String
  currency : String
  localSymbol : String
  conId : Option ℕ
  expiry : String
  contractMonth : String
  firstNoticeDate : Option String
  lastTradeDate : Option String
  deriving DecidableEq, Repr

/-- A row of `futures_contracts`. -/
structure ContractRow where
  contractKey : String
  facts : ContractFacts
  isCurrent : Bool
  metadata : Dict String String

def providerContractIdKey : String := "provider_contract_id"

/-- `metadata ->> 'provider_contract_id'`. -/
def ContractRow.providerContractId (r : ContractRow) : Option String :=
  r.metadata.get? providerContractIdKey

/-- The argument `contract` of a call. -/
structure ContractInput where
  contractKey : String
  providerContractId : String
  isCurrent : Bool
  facts : ContractFacts
  metadata : Dict String String

structure FuturesRouteTransition where
  provider : String
  instrumentId : String
  previousRouteFingerprint : String
  nextRouteFingerprint : String
  previousSessionContractId : String
  nextSessionContractId : String
  deriving DecidableEq, Repr

def validatedFuturesRouteTransition (root : FuturesRoot) (transition : FuturesRouteTransition)
    (nextProviderContractId : String) : Except String Unit := do
  requireIdentityText transition.provider "route_transition.provider"
  requireIdentityText transition.instrumentId "route_transition.instrument_id"
  requireIdentityText transition.previousRouteFingerprint
    "route_transition.previous_route_fingerprint"
  requireIdentityText transition.nextRouteFingerprint "route_transition.next_route_fingerprint"
  requireIdentityText transition.previousSessionContractId
    "route_transition.previous_session_contract_id"
  requireIdentityText transition.nextSessionContractId "route_transition.next_session_contract_id"
  require (transition.provider = root.provider ∧ transition.instrumentId = root.instrumentId)
    "FUTURES_ROUTE_TRANSITION_SCOPE_MISMATCH"
  require (transition.nextSessionContractId = nextProviderContractId)
    "FUTURES_ROUTE_TRANSITION_NEXT_CONTRACT_MISMATCH"

/-- A contract id in the metadata is that of the contract. -/
def checkMetadataContractId (c : ContractInput) : Except String Unit :=
  match c.metadata.get? providerContractIdKey with
  | some existing => do
    requireIdentityText existing "metadata.provider_contract_id"
    require (existing = c.providerContractId)
      "metadata.provider_contract_id must match provider_contract_id"
  | none => .ok ()

def checkTransition (root : FuturesRoot) (c : ContractInput) :
    Option FuturesRouteTransition → Except String Unit
  | some transition => validatedFuturesRouteTransition root transition c.providerContractId
  | none => .ok ()

/-- The checks before the lock is taken. -/
def checkContract (root : FuturesRoot) (c : ContractInput)
    (transition : Option FuturesRouteTransition) : Except String Unit := do
  requireIdentityText root.provider "provider"
  requireIdentityText root.instrumentId "instrument_id"
  requireIdentityText c.contractKey "contract_key"
  requireIdentityText c.providerContractId "provider_contract_id"
  requireIdentityText c.facts.root "futures_root"
  requireIdentityText c.facts.localSymbol "local_symbol"
  requireIdentityText c.facts.contractMonth "contract_month"
  require (transition.isSome → c.isCurrent) "route_transition requires is_current=true"
  checkMetadataContractId c
  checkTransition root c transition
  require (c.facts.conId ≠ some 0)
    "numeric provider contract identity must be canonical and exact"

/-! ### Drawings -/

section Drawings

variable {β : Type}

structure DrawingPayload (β : Type) where
  id : String
  instrumentId : String
  routeFingerprint : String
  symbol : String
  provider : String
  providerContractId : String
  body : β

/-- A row of `drawings`; the columns for instrument and route are generated from the payload. -/
structure DrawingRow (β : Type) where
  id : String
  symbol : String
  timeframe : String
  updatedAt : ℤ
  payload : DrawingPayload β

def DrawingRow.routeFingerprint (d : DrawingRow β) : String := d.payload.routeFingerprint

/-- The row on another route and contract. -/
def DrawingRow.rebound (d : DrawingRow β) (routeFingerprint providerContractId : String) :
    DrawingRow β :=
  { d with payload := { d.payload with routeFingerprint, providerContractId } }

variable (root : FuturesRoot)

/-- One row that the rebinding has locked. -/
def checkRebound (previousRoute nextRoute previousId nextId : String)
    (seen : List (String × String × ℤ)) (d : DrawingRow β) :
    Except String (List (String × String × ℤ)) := do
  requireIdentityText d.id "DRAWING_ID"
  requireIdentityText d.routeFingerprint "DRAWING_ROUTE_FINGERPRINT"
  requireIdentityText d.timeframe "DRAWING_TIMEFRAME"
  require (d.payload.id = d.id) "DRAWING_SCOPE_MISMATCH: id"
  require (d.payload.instrumentId = root.instrumentId) "DRAWING_SCOPE_MISMATCH: instrument_id"
  requireIdentityText d.payload.provider "DRAWING_PROVIDER"
  requireIdentityText d.payload.providerContractId "DRAWING_PROVIDER_CONTRACT_ID"
  require (d.routeFingerprint ≠ nextRoute ∧ d.payload.providerContractId ≠ nextId)
    "FUTURES_DRAWING_REBIND_TARGET_NOT_EMPTY"
  require (d.routeFingerprint = previousRoute ∧ d.payload.provider = root.provider ∧
      d.payload.providerContractId = previousId)
    "FUTURES_DRAWING_REBIND_SOURCE_SCOPE_MISMATCH"
  require (d.id ∉ seen.map (·.1)) "FUTURES_DRAWING_REBIND_DUPLICATE_ID"
  .ok (seen ++ [(d.id, d.timeframe, d.updatedAt)])

/-- One row that the rebinding has read back. -/
def checkReadback (nextRoute nextId : String) (source : List (String × String × ℤ))
    (d : DrawingRow β) : Except String Unit :=
  require ((d.id, d.timeframe, d.updatedAt) ∈ source ∧ d.payload.id = d.id ∧
      d.payload.instrumentId = root.instrumentId ∧ d.routeFingerprint = nextRoute ∧
      d.payload.provider = root.provider ∧ d.payload.providerContractId = nextId)
    "FUTURES_DRAWING_REBIND_READBACK_MISMATCH"

def rebindFuturesRootDrawings (drawings : List (DrawingRow β))
    (previousRoute nextRoute previousId nextId : String) :
    Except String (List (DrawingRow β)) := do
  require (previousRoute ≠ nextRoute) "FUTURES_DRAWING_REBIND_ROUTE_MUST_CHANGE"
  require (previousId ≠ nextId) "FUTURES_DRAWING_REBIND_CONTRACT_MUST_CHANGE"
  let locked := drawings.filter fun d =>
    d.routeFingerprint = previousRoute ∨ d.routeFingerprint = nextRoute ∨
      d.payload.providerContractId = previousId ∨ d.payload.providerContractId = nextId
  let source ← locked.foldlM (checkRebound root previousRoute nextRoute previousId nextId) []
  if source = [] then .ok drawings
  else
    let moved := drawings.map fun d =>
      if d.routeFingerprint = previousRoute then d.rebound nextRoute nextId else d
    require ((drawings.filter fun d => d.routeFingerprint = previousRoute).length = source.length)
      "FUTURES_DRAWING_REBIND_WRITE_COUNT_MISMATCH"
    let readback := moved.filter fun d => d.routeFingerprint = nextRoute
    require (readback.length = source.length) "FUTURES_DRAWING_REBIND_READBACK_COUNT_MISMATCH"
    readback.forM (checkReadback root nextRoute nextId source)
    .ok moved

/-! ### The tables -/

structure FuturesTables (β : Type) where
  contracts : List ContractRow
  drawings : List (DrawingRow β)

def FuturesTables.empty : FuturesTables β := ⟨[], []⟩

/-- The current row, as `SELECT ... WHERE is_current = true` finds it. -/
def FuturesTables.currentRow (s : FuturesTables β) : Option ContractRow :=
  s.contracts.find? (·.isCurrent)

/-- `require_exact_identity_text` of the contract id of a row. -/
def rowContractId (r : ContractRow) : Except String String :=
  match r.providerContractId with
  | some value => do
    requireIdentityText value "current_provider_contract_id"
    .ok value
  | none => .error "current_provider_contract_id must be an exact string"

/-- `UPDATE futures_contracts SET is_current = false`. -/
def demoteCurrent (contracts : List ContractRow) : List ContractRow :=
  contracts.map fun r => { r with isCurrent := false }

/-- The row that the conflicting one becomes. -/
def ContractRow.overwrite (r : ContractRow) (c : ContractInput) : ContractRow where
  contractKey := r.contractKey
  facts := c.facts
  isCurrent := r.isCurrent || c.isCurrent
  metadata := r.metadata.merge (c.metadata.insert providerContractIdKey c.providerContractId)

def ContractInput.row (c : ContractInput) : ContractRow where
  contractKey := c.contractKey
  facts := c.facts
  isCurrent := c.isCurrent
  metadata := c.metadata.insert providerContractIdKey c.providerContractId

/-- `INSERT INTO futures_contracts ... ON CONFLICT ... DO UPDATE`. -/
def upsertContract (contracts : List ContractRow) (c : ContractInput) : List ContractRow :=
  if contracts.any fun r => r.contractKey = c.contractKey then
    contracts.map fun r => if r.contractKey = c.contractKey then r.overwrite c else r
  else contracts ++ [c.row]

/-- What a current contract does to the drawings. -/
def rollDrawings (s : FuturesTables β) (c : ContractInput)
    (transition : Option FuturesRouteTransition) : Except String (List (DrawingRow β)) :=
  match s.currentRow with
  | none => .ok s.drawings
  | some current => do
    let previousId ← rowContractId current
    match transition with
    | none => do
      require (previousId = c.providerContractId) "FUTURES_CURRENT_ROUTE_REBIND_REQUIRED"
      .ok s.drawings
    | some t => do
      require (t.previousSessionContractId = previousId)
        "FUTURES_ROUTE_TRANSITION_PREVIOUS_CONTRACT_MISMATCH"
      if previousId ≠ c.providerContractId then do
        require (t.previousRouteFingerprint ≠ t.nextRouteFingerprint)
          "FUTURES_ROUTE_TRANSITION_FINGERPRINT_UNCHANGED"
        rebindFuturesRootDrawings root s.drawings t.previousRouteFingerprint
          t.nextRouteFingerprint previousId c.providerContractId
      else do
        require (t.previousRouteFingerprint = t.nextRouteFingerprint)
          "FUTURES_ROUTE_TRANSITION_SAME_CONTRACT_ROUTE_MISMATCH"
        .ok s.drawings

def writeFuturesContract (s : FuturesTables β) (c : ContractInput)
    (transition : Option FuturesRouteTransition) : Except String (FuturesTables β) := do
  checkContract root c transition
  if c.isCurrent then do
    let drawings ← rollDrawings root s c transition
    .ok ⟨upsertContract (demoteCurrent s.contracts) c, drawings⟩
  else .ok ⟨upsertContract s.contracts c, s.drawings⟩

/-- An item of the argument `drawings`; the scope may be left out. -/
structure DrawingItem (β : Type) where
  id : String
  symbol : Option String
  instrumentId : Option String
  routeFingerprint : Option String
  provider : Option String
  providerContractId : Option String
  body : β

/-- The arguments of `replace_drawings`. -/
structure ReplaceDrawings (β : Type) where
  routeFingerprint : String
  timeframe : String
  presentationSymbol : String
  providerContractId : String
  drawings : List (DrawingItem β)
  now : ℤ

variable (durable : DrawingPayload β → Except String Unit)

/-- One item: its scope is that of the call. -/
def scopeItem (r : ReplaceDrawings β) (seen : List (DrawingPayload β)) (item : DrawingItem β) :
    Except String (List (DrawingPayload β)) := do
  requireIdentityText item.id "DRAWING_ID"
  require (item.id ∉ seen.map (·.id)) ("DRAWING_ID_DUPLICATE: " ++ item.id)
  requireIdentityText (item.symbol.getD r.presentationSymbol) "DRAWING_SYMBOL"
  require (∀ value ∈ item.instrumentId, value = root.instrumentId)
    "DRAWING_SCOPE_MISMATCH: instrument_id"
  require (∀ value ∈ item.routeFingerprint, value = r.routeFingerprint)
    "DRAWING_SCOPE_MISMATCH: route_fingerprint"
  require (∀ value ∈ item.provider, value = root.provider) "DRAWING_SCOPE_MISMATCH: provider"
  require (∀ value ∈ item.providerContractId, value = r.providerContractId)
    "DRAWING_SCOPE_MISMATCH: provider_contract_id"
  let payload : DrawingPayload β := ⟨item.id, root.instrumentId, r.routeFingerprint,
    item.symbol.getD r.presentationSymbol, root.provider, r.providerContractId, item.body⟩
  durable payload
  .ok (seen ++ [payload])

/-- `_verify_drawing_route_current_on_cursor`. -/
def verifyDrawingRouteCurrent (s : FuturesTables β) (providerContractId : String) :
    Except String Unit :=
  match s.currentRow with
  | some current => do
    let currentId ← rowContractId current
    require (currentId = providerContractId) "DRAWING_FUTURES_ROUTE_STALE"
  | none => require ("" = providerContractId) "DRAWING_FUTURES_ROUTE_STALE"

/-- One stored row of the scope that is replaced. -/
def checkReplaced (r : ReplaceDrawings β) (seen : List String) (d : DrawingRow β) :
    Except String (List String) := do
  requireIdentityText d.id "DRAWING_ID"
  require (d.id ∉ seen) ("DRAWING_ID_DUPLICATE: " ++ d.id)
  require (d.payload.id = d.id) "DRAWING_SCOPE_MISMATCH: id"
  requireIdentityText d.symbol "DRAWING_SYMBOL"
  require (d.payload.symbol = d.symbol) "DRAWING_SCOPE_MISMATCH: symbol"
  require (d.payload.instrumentId = root.instrumentId) "DRAWING_SCOPE_MISMATCH: instrument_id"
  require (d.payload.provider = root.provider) "DRAWING_SCOPE_MISMATCH: provider"
  require (d.payload.providerContractId = r.providerContractId)
    "DRAWING_SCOPE_MISMATCH: provider_contract_id"
  .ok (seen ++ [d.id])

def replaceDrawings (s : FuturesTables β) (r : ReplaceDrawings β) :
    Except String (FuturesTables β) := do
  requireIdentityText root.instrumentId "instrument_id"
  requireIdentityText r.routeFingerprint "route_fingerprint"
  requireIdentityText r.presentationSymbol "presentation_symbol"
  requireIdentityText r.timeframe "timeframe"
  requireIdentityText root.provider "provider"
  requireIdentityText r.providerContractId "provider_contract_id"
  let persisted ← r.drawings.foldlM (scopeItem root durable r) []
  verifyDrawingRouteCurrent s r.providerContractId
  let inScope : DrawingRow β → Bool := fun d =>
    d.routeFingerprint = r.routeFingerprint ∧ d.timeframe = r.timeframe
  let _ ← (s.drawings.filter inScope).foldlM (checkReplaced root r) []
  let kept := s.drawings.filter fun d => !inScope d
  -- the primary key of the table
  require (∀ p ∈ persisted, p.id ∉ kept.map (·.id)) "drawings_pkey"
  .ok ⟨s.contracts, kept ++ persisted.map fun p => ⟨p.id, p.symbol, r.timeframe, r.now, p⟩⟩

inductive FuturesCall (β : Type)
  | write (contract : ContractInput) (transition : Option FuturesRouteTransition)
  | replace (arguments : ReplaceDrawings β)

def futuresCall (s : FuturesTables β) : FuturesCall β → Except String (FuturesTables β)
  | .write c transition => writeFuturesContract root s c transition
  | .replace r => replaceDrawings root durable s r

/-- The tables after the transaction of a call: a call that raises is rolled back. -/
def FuturesTables.after (s : FuturesTables β) (call : FuturesCall β) : FuturesTables β :=
  match futuresCall root durable s call with
  | .ok t => t
  | .error _ => s

end Drawings

end AefTerminal
