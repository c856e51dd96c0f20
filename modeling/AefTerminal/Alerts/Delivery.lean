import AefTerminal.Alerts.Repository

/-!
# Firing and delivering an alert

A fired alert is stored together with the message it owes. A delivery worker claims the message
by a compare-and-set, sends it and finalises the claim by another one; a claim is a lease that
runs out. The worker acts on the snapshot of the row it read from the process registry.

## Main definitions

* `telegramDeliveryDue`, `telegramDeliveryPatch`
* `persistPriceAlertDelivery`: one firing
* `claimPriceTelegramDelivery`, `finalizePriceTelegramDelivery`: the two transactions of one
  delivery
-/

namespace AefTerminal

open Foundation

/-- `TELEGRAM_DELIVERY_RETRY_BASE_MS` -/
def telegramDeliveryRetryBaseMs : ℕ := 30000

/-- `TELEGRAM_DELIVERY_RETRY_MAX_MS` -/
def telegramDeliveryRetryMaxMs : ℕ := 300000

/-- `TELEGRAM_DELIVERY_ATTEMPT_LEASE_MS` -/
def telegramDeliveryAttemptLeaseMs : ℕ := 60000

def telegramDeliveryDue (a : PriceAlert) (now : ℕ) : Except AlertError Bool := do
  validateTelegramDeliveryRuntime "TELEGRAM_DELIVERY" a.delivery a.result none
  require (0 < now) ⟨"TELEGRAM_DELIVERY_FIELD_INVALID: now_ms"⟩
  match a.delivery.telegramPendingPayload with
  | none => pure false
  | some _ => pure (a.delivery.telegramNextRetryAt ≤ now)

/-! ### Firing -/

/-- The delivery of a row that has just fired. -/
def TelegramDelivery.fresh (payload : TelegramPayload) (retryCount now : ℕ) : TelegramDelivery where
  telegramDeliveryStatus := .pending
  telegramPendingPayload := some payload
  telegramPendingSince := now
  telegramNextRetryAt := now
  telegramRetryCount := retryCount
  telegramClaimedAt := 0
  telegramLastError := ""

/-- `pending_patch`, over the state patch of the kind. -/
def firingPatch (snapshot : PriceAlert) (payload : TelegramPayload)
    (statePatch : PriceAlert → PriceAlert) (now : ℕ) (a : PriceAlert) : PriceAlert :=
  { statePatch a with delivery := .fresh payload snapshot.delivery.telegramRetryCount now }

def firingGuard (snapshot : PriceAlert) : PayloadGuard where
  expectedRearmedAt := some snapshot.rearmedAt
  requireActive := true
  expectedFields :=
    { lastFiredAt := some snapshot.lastFiredAt
      telegramPendingPayload := some snapshot.delivery.telegramPendingPayload }

/-- What the firing checks before it reads the stored row: a malformed snapshot is not stored, a
malformed patch raises. -/
def firingAccepted (snapshot : PriceAlert) (payload : TelegramPayload) (now : ℕ) :
    Except AlertError Bool :=
  match (do
    validateTelegramDeliveryRuntime "SERVER_ALERT" snapshot.delivery snapshot.result none
    exactIdentityText snapshot.id "SERVER_ALERT_ID"
    exactIdentityText snapshot.instrumentId "SERVER_ALERT_INSTRUMENT_ID"
    exactIdentityText snapshot.routeFingerprint "SERVER_ALERT_ROUTE_FINGERPRINT" :
      Except AlertError Unit) with
  | .error _ => pure false
  | .ok () => do
    validateTelegramDeliveryRuntime "SERVER_ALERT"
      (some (.fresh payload snapshot.delivery.telegramRetryCount now)) none none
    pure true

/-- `persist_price_alert_delivery`. The answer of the commit is the stored row where the firing
was stored. -/
def persistPriceAlertDelivery (t : PriceAlertTable) (snapshot : PriceAlert)
    (payload : TelegramPayload) (statePatch : PriceAlert → PriceAlert) (now : ℕ) :
    Except AlertError AlertCommit := do
  if ← firingAccepted snapshot payload now then
    updatePriceAlertPayloadExact t snapshot.id snapshot.instrumentId snapshot.routeFingerprint
      (firingGuard snapshot) (firingPatch snapshot payload statePatch now)
  else pure (.unchanged t none)

/-! ### Claiming -/

/-- The last attempt a row records, `0` without one. -/
def PriceAlert.lastAttemptAt (a : PriceAlert) : ℕ :=
  (a.result.map TelegramResult.telegramLastAttemptAt).getD 0

/-- `attempt_at` -/
def claimAttemptAt (snapshot : PriceAlert) (now : ℕ) : ℕ :=
  max (max now (snapshot.delivery.telegramClaimedAt + 1)) (snapshot.lastAttemptAt + 1)

def claimPatch (attemptAt : ℕ) (a : PriceAlert) : PriceAlert :=
  { a with
    delivery :=
      { a.delivery with
        telegramDeliveryStatus := .delivering
        telegramClaimedAt := attemptAt
        telegramNextRetryAt := attemptAt + telegramDeliveryAttemptLeaseMs } }

/-- The row a worker saw: its generation, the payload it owes and where its delivery stands. -/
def deliveryGuard (snapshot : PriceAlert) (pending : TelegramPayload) : PayloadGuard where
  expectedRearmedAt := some snapshot.rearmedAt
  expectedPendingPayload := some pending
  expectedFields :=
    { telegramDeliveryStatus := some snapshot.delivery.telegramDeliveryStatus
      telegramClaimedAt := some snapshot.delivery.telegramClaimedAt
      telegramNextRetryAt := some snapshot.delivery.telegramNextRetryAt }

/-- The first transaction of a delivery. -/
def claimPriceTelegramDelivery (t : PriceAlertTable) (snapshot : PriceAlert)
    (pending : TelegramPayload) (now : ℕ) : Except AlertError AlertCommit := do
  let attemptAt := claimAttemptAt snapshot now
  validateTelegramDeliveryRuntime "SERVER_ALERT" (claimPatch attemptAt snapshot).delivery
    snapshot.result none
  updatePriceAlertPayloadExact t snapshot.id snapshot.instrumentId snapshot.routeFingerprint
    (deliveryGuard snapshot pending) (claimPatch attemptAt)

/-! ### Finalising -/

/-- What the sender reports, its detail chosen from the texts it carries. -/
structure TelegramSendResult where
  ok : Bool
  status : TelegramResultStatus
  detail : String
  deriving DecidableEq

/-- The delay before attempt `retryCount + 1`. -/
def retryDelayMs (retryCount : ℕ) : ℕ :=
  min (telegramDeliveryRetryBaseMs * 2 ^ min (retryCount - 1) 4) telegramDeliveryRetryMaxMs

/-- The delivery after an attempt: sent, or pending again after a delay. -/
def TelegramDelivery.attempted (result : TelegramSendResult) (payload : TelegramPayload)
    (now retryCount : ℕ) (pendingSince : Option ℕ) : TelegramDelivery :=
  if result.ok then { TelegramDelivery.cancelledState with telegramDeliveryStatus := .sent }
  else
    { telegramDeliveryStatus := .pending
      telegramPendingPayload := some payload
      telegramPendingSince := pendingSince.getD now
      telegramNextRetryAt := now + retryDelayMs (retryCount + 1)
      telegramRetryCount := retryCount + 1
      telegramClaimedAt := 0
      telegramLastError := if result.detail = "" then result.status.text else result.detail }

def TelegramSendResult.recorded (result : TelegramSendResult) (now : ℕ) : TelegramResult where
  lastTelegramStatus := result.status
  lastTelegramOk := result.ok
  lastTelegramDetail := result.detail
  telegramLastAttemptAt := now

/-- `telegram_delivery_patch`: the delivery and the result that one attempt leaves. -/
def telegramDeliveryPatch (result : TelegramSendResult) (payload : TelegramPayload) (now : ℕ)
    (currentRetryCount : ℕ) (pendingSince : Option ℕ) :
    Except AlertError (TelegramDelivery × TelegramResult) := do
  require (result.ok = result.status.isSuccess) ⟨"TELEGRAM_RESULT_FIELD_INVALID: status"⟩
  require (0 < now) ⟨"TELEGRAM_RESULT_FIELD_INVALID: now_ms"⟩
  require (∀ since ∈ pendingSince, 0 < since) ⟨"TELEGRAM_RESULT_FIELD_INVALID: pending_since"⟩
  validateTelegramDeliveryRuntime "TELEGRAM_RESULT"
    (some (.fresh payload currentRetryCount now)) none none
  let delivery := TelegramDelivery.attempted result payload now currentRetryCount pendingSince
  let recorded := result.recorded now
  validateTelegramDeliveryRuntime "TELEGRAM_DELIVERY" (some delivery) (some recorded) none
  pure (delivery, recorded)

/-- The pending payload with the route the worker looked up. -/
def deliveryPayload (snapshot : PriceAlert) (pending : TelegramPayload) : TelegramPayload :=
  { pending with
    instrumentId := snapshot.instrumentId
    routeFingerprint := snapshot.routeFingerprint }

def finalizePatch (delivery : TelegramDelivery) (result : TelegramResult) (a : PriceAlert) :
    PriceAlert :=
  { a with
    delivery := delivery
    result := some result }

/-- The second transaction of a delivery, by the worker that holds the claimed row. -/
def finalizePriceTelegramDelivery (t : PriceAlertTable) (snapshot claimed : PriceAlert)
    (pending : TelegramPayload) (result : TelegramSendResult) (now : ℕ) :
    Except AlertError AlertCommit := do
  let (delivery, recorded) ← telegramDeliveryPatch result (deliveryPayload snapshot pending) now
    claimed.delivery.telegramRetryCount (some claimed.delivery.telegramPendingSince)
  updatePriceAlertPayloadExact t snapshot.id snapshot.instrumentId snapshot.routeFingerprint
    (deliveryGuard claimed pending) (finalizePatch delivery recorded)

end AefTerminal
