import AefTerminal.Alerts.Contract
import AefTerminal.Domain.Rounding
import AefTerminal.Foundation.Dict
import Mathlib.Data.Int.Log

/-!
# The price alert repository

The stored alerts, one row an id, and the six writers of the table. A writer runs in one
transaction under the writer fence and the lock of the alert scope, so here it is one function of
the table: it raises and the table stays, or it commits and says which publication follows.

A payload patch is the update `{**current, **patch}` as a function of the current row.

## Main definitions

* `priceAlertDefinitionIdentity`, `requireUniquePriceAlertDefinitions`
* `updatePriceAlertPayload`: the compare-and-set of one payload update
* `updatePriceAlertPayloadExact`, `createOrRearmPriceAlertExact`, `rearmPriceAlertExact`,
  `setPriceAlertEnabledExact`, `deletePriceAlertExact`, `deletePriceAlertScopeExact`
-/

namespace AefTerminal

open Foundation

/-! ### Definition identity -/

/-- The number that `f"{x:.nf}"` names, in units of the last digit. -/
def fixedKey (digits : ℕ) (x : ℚ) : ℤ := roundHalfEven (x * 10 ^ digits)

/-- The number that `format(x, ".15g")` names: 15 significant digits. -/
def generalKey (x : ℚ) : ℚ :=
  if x = 0 then 0
  else
    let scale : ℤ := 14 - Int.log 10 |x|
    roundHalfEven (x * 10 ^ scale) / 10 ^ scale

structure PriceAlertIdentity where
  instrumentId : String
  routeFingerprint : String
  timeframe : String
  kind : PriceAlertKind
  direction : PriceAlertDirection
  priceKey : Option ℚ
  toleranceAtrKey : ℤ
  tolerancePointsKey : ℤ
  deriving DecidableEq

/-- The price of a dynamic kind is not part of its definition. -/
def PriceAlert.definitionIdentity (a : PriceAlert) : PriceAlertIdentity where
  instrumentId := a.instrumentId
  routeFingerprint := a.routeFingerprint
  timeframe := a.timeframe
  kind := a.kind
  direction := a.direction
  priceKey := if a.kind = .price then some (generalKey a.price) else none
  toleranceAtrKey := fixedKey 3 a.toleranceAtr
  tolerancePointsKey := fixedKey 2 a.tolerancePoints

def priceAlertDefinitionIdentity (a : PriceAlert) : Except AlertError PriceAlertIdentity := do
  validatePriceAlertDefinition a
  pure a.definitionIdentity

/-- One pass of the uniqueness check, over the definitions seen so far. -/
def ownDefinition (seen : Dict PriceAlertIdentity String) (a : PriceAlert) :
    Except AlertError (Dict PriceAlertIdentity String) := do
  let identity ← priceAlertDefinitionIdentity a
  exactIdentityText a.id "PRICE_ALERT_ID"
  match seen.get? identity with
  | some existing => .error ⟨"PRICE_ALERT_SEMANTIC_DUPLICATE: " ++ existing ++ ", " ++ a.id⟩
  | none => pure (seen.insert identity a.id)

def requireUniquePriceAlertDefinitions (alerts : List PriceAlert) : Except AlertError Unit := do
  let _ ← alerts.foldlM ownDefinition Dict.empty
  pure ()

/-! ### The table and its publications -/

/-- `price_alerts`, by the primary key. -/
abbrev PriceAlertTable := Dict String PriceAlert

def PriceAlert.inScope (a : PriceAlert) (instrumentId routeFingerprint timeframe : String) : Bool :=
  a.instrumentId = instrumentId && a.routeFingerprint = routeFingerprint && a.timeframe = timeframe

namespace PriceAlertTable

/-- The row of an exact route. -/
def exact (t : PriceAlertTable) (alertId instrumentId routeFingerprint : String) :
    Option PriceAlert :=
  (t.get? alertId).filter fun a =>
    a.instrumentId = instrumentId && a.routeFingerprint = routeFingerprint

/-- The rows of one scope, by their ids. -/
def scopeRows (t : PriceAlertTable) (instrumentId routeFingerprint timeframe : String) :
    List (String × PriceAlert) :=
  t.select fun _ a => a.inScope instrumentId routeFingerprint timeframe

def scope (t : PriceAlertTable) (instrumentId routeFingerprint timeframe : String) :
    List PriceAlert :=
  (t.scopeRows instrumentId routeFingerprint timeframe).map Prod.snd

end PriceAlertTable

/-- `_key`: what the process-owned registry knows an alert by. -/
structure AlertKey where
  alertId : String
  instrumentId : String
  routeFingerprint : String
  deriving DecidableEq, Repr

def PriceAlert.key (a : PriceAlert) : AlertKey := ⟨a.id, a.instrumentId, a.routeFingerprint⟩

/-- The call to the registry that follows a commit. -/
inductive AlertPublication
  | publish (a : PriceAlert)
  | remove (key : AlertKey)
  | removeScope (instrumentId routeFingerprint timeframe : String)
  deriving DecidableEq

/-- What a writer committed. -/
structure AlertCommit where
  table : PriceAlertTable
  answer : Option PriceAlert
  publication : Option AlertPublication

/-- A transaction that wrote nothing. -/
def AlertCommit.unchanged (t : PriceAlertTable) (answer : Option PriceAlert) : AlertCommit :=
  ⟨t, answer, none⟩

/-! ### Payload updates -/

/-- `expected_fields`, where the callers name any. -/
structure ExpectedFields where
  lastFiredAt : Option (Option ℕ) := none
  telegramPendingPayload : Option (Option TelegramPayload) := none
  telegramDeliveryStatus : Option TelegramDeliveryStatus := none
  telegramClaimedAt : Option ℕ := none
  telegramNextRetryAt : Option ℕ := none

/-- Every named field has the expected value in the row. -/
def ExpectedFields.agree (e : ExpectedFields) (a : PriceAlert) : Bool :=
  e.lastFiredAt.all (· = a.lastFiredAt) &&
    e.telegramPendingPayload.all (· = a.delivery.telegramPendingPayload) &&
    e.telegramDeliveryStatus.all (· = a.delivery.telegramDeliveryStatus) &&
    e.telegramClaimedAt.all (· = a.delivery.telegramClaimedAt) &&
    e.telegramNextRetryAt.all (· = a.delivery.telegramNextRetryAt)

/-- The comparison a payload update makes before it sets, `expected_rearmed_at` being read where
`check_generation` asks for it. -/
structure PayloadGuard where
  expectedRearmedAt : Option ℕ := none
  requireActive : Bool := false
  expectedPendingPayload : Option TelegramPayload := none
  expectedFields : ExpectedFields := {}

def PayloadGuard.agree (g : PayloadGuard) (a : PriceAlert) : Bool :=
  g.expectedRearmedAt.all (· = a.rearmedAt) && (!g.requireActive || a.active) &&
    g.expectedPendingPayload.all (some · = a.delivery.telegramPendingPayload) &&
    g.expectedFields.agree a

/-- The identity texts every writer of one row requires first. -/
def requireExactRoute (alertId instrumentId routeFingerprint : String) : Except AlertError Unit := do
  exactIdentityText alertId "alert_id"
  exactIdentityText instrumentId "instrument_id"
  exactIdentityText routeFingerprint "route_fingerprint"

/-- The row after a payload update, nothing where the comparison fails. -/
def updatePriceAlertPayload (current : PriceAlert) (guard : PayloadGuard)
    (patch : PriceAlert → PriceAlert) : Except AlertError (Option PriceAlert) := do
  validatePriceAlert current
  if guard.agree current then do
    validatePriceAlert (patch current)
    pure (some (patch current))
  else pure none

/-- `update_price_alert_payload_exact`. A row the update leaves inert is deleted, and published
all the same. -/
def updatePriceAlertPayloadExact (t : PriceAlertTable)
    (alertId instrumentId routeFingerprint : String) (guard : PayloadGuard)
    (patch : PriceAlert → PriceAlert) : Except AlertError AlertCommit := do
  requireExactRoute alertId instrumentId routeFingerprint
  match t.exact alertId instrumentId routeFingerprint with
  | none => pure (.unchanged t none)
  | some current => do
    match ← updatePriceAlertPayload current guard patch with
    | none => pure (.unchanged t none)
    | some updated =>
      if updated = current then pure (.unchanged t (some current))
      else if updated.retain then
        pure ⟨t.insert alertId updated, some updated, some (.publish updated)⟩
      else pure ⟨t.erase alertId, some updated, some (.publish updated)⟩

/-! ### Re-arming -/

/-- `_next_alert_generation` -/
def nextAlertGeneration (a : PriceAlert) (requested : ℕ) : ℕ := max requested (a.rearmedAt + 1)

/-- `_cancel_pending_alert_delivery` -/
def cancelPendingAlertDelivery (a : PriceAlert) : PriceAlert :=
  { a with delivery := .cancelledState }

/-- Armed anew in `generation`, with nothing owed. -/
def PriceAlert.rearmed (a : PriceAlert) (generation : ℕ) : PriceAlert :=
  cancelPendingAlertDelivery
    { a with
      enabled := true
      armed := true
      fired := false
      cooldownUntil := 0
      rearmedAt := generation }

def PriceAlert.disabled (a : PriceAlert) (generation : ℕ) : PriceAlert :=
  cancelPendingAlertDelivery
    { a with
      enabled := false
      armed := false
      fired := false
      cooldownUntil := 0
      rearmedAt := generation }

/-- The row is armed already, and nothing is owed. -/
def PriceAlert.rearmedAlready (a : PriceAlert) : Bool :=
  a.armed && !a.fired && a.cooldownUntil = 0 && a.delivery.telegramPendingPayload = none

/-- The definition fields of a matching candidate, over the stored row. -/
def PriceAlert.redefinedAs (a candidate : PriceAlert) : PriceAlert :=
  { a with
    price := candidate.price
    kind := candidate.kind
    label := candidate.label
    direction := candidate.direction
    toleranceAtr := candidate.toleranceAtr
    tolerancePoints := candidate.tolerancePoints
    rearmMinutes := candidate.rearmMinutes
    levelSource := candidate.levelSource }

/-- What a command asks for when it creates an alert. -/
structure PriceAlertRequest where
  id : String
  instrumentId : String
  routeFingerprint : String
  provider : String
  providerContractId : String
  symbol : String
  timeframe : String
  kind : PriceAlertKind := .price
  label : String := ""
  direction : PriceAlertDirection
  price : ℚ
  toleranceAtr : ℚ := 8 / 100
  tolerancePoints : ℚ := 0
  rearmMinutes : ℕ := 60
  levelSource : LevelSource := ⟨.fixedPrice, false, none⟩

/-- The candidate of `_persist_price_alert`: armed, with no history. -/
def PriceAlertRequest.candidate (r : PriceAlertRequest) (now : ℕ) : PriceAlert where
  id := r.id
  instrumentId := r.instrumentId
  routeFingerprint := r.routeFingerprint
  provider := r.provider
  providerContractId := r.providerContractId
  symbol := r.symbol
  timeframe := r.timeframe
  kind := r.kind
  label := r.label
  direction := r.direction
  price := r.price
  toleranceAtr := r.toleranceAtr
  tolerancePoints := r.tolerancePoints
  rearmMinutes := r.rearmMinutes
  levelSource := r.levelSource
  enabled := true
  armed := true
  fired := false
  cooldownUntil := 0
  rearmedAt := now
  createdAt := now
  lastFiredAt := none
  lastFiredLevel := none
  lastSeenPrice := none
  lastSeenLevel := none
  lastTolerance := none
  lastEventTs := none
  lastFiredEventTs := none
  wasTouching := none
  touchDirection := none
  emaLength := none
  atrLength := none
  delivery := .cancelledState
  result := none

/-- A row of the candidate's scope belongs to the candidate's contract. -/
def requireContract (candidate a : PriceAlert) : Except AlertError Unit := do
  validatePriceAlert a
  require (a.provider = candidate.provider) ⟨"PRICE_ALERT_SCOPE_MISMATCH: provider"⟩
  require (a.providerContractId = candidate.providerContractId)
    ⟨"PRICE_ALERT_SCOPE_MISMATCH: provider_contract_id"⟩

/-- `create_or_rearm_price_alert_exact`: the row with the candidate's definition is armed anew,
and without one the candidate becomes a row. -/
def createOrRearmPriceAlertExact (t : PriceAlertTable) (candidate : PriceAlert) (rearmedAt : ℕ) :
    Except AlertError AlertCommit := do
  requireExactRoute candidate.id candidate.instrumentId candidate.routeFingerprint
  exactIdentityText candidate.providerContractId "provider_contract_id"
  exactIdentityText candidate.symbol "symbol"
  exactIdentityText candidate.timeframe "timeframe"
  exactIdentityText candidate.provider "provider"
  validatePriceAlert candidate
  let identity ← priceAlertDefinitionIdentity candidate
  require (candidate.retain = true) ⟨"PRICE_ALERT_RUNTIME_INERT_ROW"⟩
  let stored := t.scope candidate.instrumentId candidate.routeFingerprint candidate.timeframe
  stored.forM (requireContract candidate)
  requireUniquePriceAlertDefinitions stored
  match stored.find? fun a => a.definitionIdentity = identity with
  | some a => do
    let updated := (a.redefinedAs candidate).rearmed (nextAlertGeneration a rearmedAt)
    validatePriceAlert updated
    pure ⟨t.insert a.id updated, some updated, some (.publish updated)⟩
  | none => do
    require (t.get? candidate.id = none) ⟨"price_alerts_pkey"⟩
    pure ⟨t.insert candidate.id candidate, some candidate, some (.publish candidate)⟩

/-- The fields a client may redefine. -/
structure DefinitionPatch where
  price : Option ℚ := none
  direction : Option PriceAlertDirection := none
  label : Option String := none
  toleranceAtr : Option ℚ := none
  tolerancePoints : Option ℚ := none
  rearmMinutes : Option ℕ := none
  deriving DecidableEq

def PriceAlert.redefined (a : PriceAlert) (p : DefinitionPatch) : PriceAlert :=
  { a with
    price := p.price.getD a.price
    direction := p.direction.getD a.direction
    label := p.label.getD a.label
    toleranceAtr := p.toleranceAtr.getD a.toleranceAtr
    tolerancePoints := p.tolerancePoints.getD a.tolerancePoints
    rearmMinutes := p.rearmMinutes.getD a.rearmMinutes }

/-- `_materialize_price_alert_rows` -/
def materializePriceAlertRow (a : PriceAlert) : Except AlertError Unit := do
  exactIdentityText a.provider "PRICE_ALERT_PROVIDER"
  exactIdentityText a.providerContractId "PRICE_ALERT_PROVIDER_CONTRACT_ID"

def rearmPriceAlertExact (t : PriceAlertTable) (alertId instrumentId routeFingerprint : String)
    (rearmedAt : ℕ) (definitionPatch : DefinitionPatch) (expectedRearmedAt : Option ℕ) :
    Except AlertError AlertCommit := do
  requireExactRoute alertId instrumentId routeFingerprint
  match t.exact alertId instrumentId routeFingerprint with
  | none => pure (.unchanged t none)
  | some current => do
    validatePriceAlert current
    if expectedRearmedAt.any (· ≠ current.rearmedAt) then pure (.unchanged t none)
    else if current.rearmedAlready ∧ definitionPatch = {} then pure (.unchanged t (some current))
    else do
      let updated :=
        (current.redefined definitionPatch).rearmed (nextAlertGeneration current rearmedAt)
      validatePriceAlert updated
      let stored := t.scope instrumentId routeFingerprint current.timeframe
      stored.forM materializePriceAlertRow
      requireUniquePriceAlertDefinitions
        (stored.map fun a => if a.id = alertId then updated else a)
      pure ⟨t.insert alertId updated, some updated, some (.publish updated)⟩

def setPriceAlertEnabledExact (t : PriceAlertTable)
    (alertId instrumentId routeFingerprint : String) (enabled : Bool) (rearmedAt : ℕ)
    (expectedRearmedAt : Option ℕ) : Except AlertError AlertCommit := do
  requireExactRoute alertId instrumentId routeFingerprint
  match t.exact alertId instrumentId routeFingerprint with
  | none => pure (.unchanged t none)
  | some current => do
    validatePriceAlert current
    if expectedRearmedAt.any (· ≠ current.rearmedAt) then pure (.unchanged t none)
    else
      let generation := nextAlertGeneration current rearmedAt
      if enabled then
        if current.enabled ∧ current.rearmedAlready then pure (.unchanged t (some current))
        else do
          let updated := current.rearmed generation
          validatePriceAlert updated
          pure ⟨t.insert alertId updated, some updated, some (.publish updated)⟩
      else do
        let updated := current.disabled generation
        validatePriceAlert updated
        pure ⟨t.erase alertId, some updated,
          some (.remove ⟨alertId, instrumentId, routeFingerprint⟩)⟩

def deletePriceAlertExact (t : PriceAlertTable) (alertId instrumentId routeFingerprint : String)
    (expectedRearmedAt : Option ℕ) : Except AlertError AlertCommit := do
  requireExactRoute alertId instrumentId routeFingerprint
  match t.exact alertId instrumentId routeFingerprint with
  | none => pure (.unchanged t none)
  | some current => do
    validatePriceAlert current
    if expectedRearmedAt.any (· ≠ current.rearmedAt) then pure (.unchanged t none)
    else pure ⟨t.erase alertId, some current,
      some (.remove ⟨alertId, instrumentId, routeFingerprint⟩)⟩

/-- `delete_price_alert_scope_exact`. The registry is told also where no row was deleted. -/
def deletePriceAlertScopeExact (t : PriceAlertTable)
    (instrumentId routeFingerprint timeframe : String) : Except AlertError AlertCommit := do
  exactIdentityText instrumentId "instrument_id"
  exactIdentityText routeFingerprint "route_fingerprint"
  exactIdentityText timeframe "timeframe"
  let stored := t.scopeRows instrumentId routeFingerprint timeframe
  stored.forM fun (_, a) => do
    materializePriceAlertRow a
    validatePriceAlert a
  pure ⟨t.eraseAll (stored.map Prod.fst), none,
    some (.removeScope instrumentId routeFingerprint timeframe)⟩

end AefTerminal
