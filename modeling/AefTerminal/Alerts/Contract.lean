import AefTerminal.Domain.Bar
import AefTerminal.Foundation.Fallible

/-!
# The contract of a persisted price alert

A price alert is one row: its definition, its runtime state, the state of its Telegram delivery
and the result of the last delivery attempt. Every writer validates the whole row before it is
stored, and every reader validates it again.

Times are milliseconds except where the source keeps a timestamp text, which is modelled by the
instant it names. Prices are finite doubles in the source and exact rationals here. A group of
fields that is present together or not at all is one optional record, and a field whose only check
is its type has that type.

## Main definitions

* `PriceAlert`, `TelegramDelivery`, `TelegramResult`, `TelegramPayload`
* `validateTelegramDeliveryRuntime`, `validatePriceAlert`

## Main results

* `validatePriceAlert_eq_ok`: the rows that pass are those of `PriceAlert.Valid`
-/

namespace AefTerminal

open Foundation

/-- A rejected alert, by the text of the rejection. -/
structure AlertError where
  code : String
  deriving DecidableEq, Repr

/-- `require_exact_identity_text` -/
def exactIdentityText (value field : String) : Except AlertError Unit :=
  require (value ≠ "") ⟨field ++ " is required"⟩

/-! ### Definition -/

inductive PriceAlertKind
  | price | ema233Touch | vsaFuel
  deriving DecidableEq, Repr

inductive PriceAlertDirection
  | cross | above | below
  deriving DecidableEq, Repr

inductive LevelSourceType
  | fixedPrice | ema233Touch | vsaFuel | gexSnapshot
  deriving DecidableEq, Repr

/-- The facts of the option snapshot a level was taken from. -/
structure GexSnapshotFacts where
  levelRef : String
  levelKind : String
  label : String
  snapshotCapturedAt : Time
  snapshotVersion : String
  snapshotSource : String
  snapshotCaptureMode : String
  snapshotMarketDataEntitlement : String
  snapshotDecisionAuthoritative : Bool
  snapshotAgeMinutesAtCreation : ℚ
  deriving DecidableEq

structure LevelSource where
  type : LevelSourceType
  dynamic : Bool
  snapshot : Option GexSnapshotFacts
  deriving DecidableEq

/-- The level sources a kind may have. -/
def PriceAlertKind.levelSourceTypes : PriceAlertKind → List LevelSourceType
  | .price => [.fixedPrice, .gexSnapshot]
  | .ema233Touch => [.ema233Touch]
  | .vsaFuel => [.vsaFuel]

def LevelSourceType.isDynamic (t : LevelSourceType) : Bool := t = .ema233Touch ∨ t = .vsaFuel

inductive TouchDirection
  | fromAbove | fromBelow | touch
  deriving DecidableEq, Repr

/-! ### Delivery -/

inductive TelegramDeliveryStatus
  | cancelled | pending | delivering | sent
  deriving DecidableEq, Repr

inductive TelegramResultStatus
  | disabled | duplicate | emptyMessage | notConfigured | sendFailed | sent | telegramError
  | telegramHttpError
  deriving DecidableEq, Repr

def TelegramResultStatus.text : TelegramResultStatus → String
  | .disabled => "disabled"
  | .duplicate => "duplicate"
  | .emptyMessage => "empty_message"
  | .notConfigured => "not_configured"
  | .sendFailed => "send_failed"
  | .sent => "sent"
  | .telegramError => "telegram_error"
  | .telegramHttpError => "telegram_http_error"

/-- `TELEGRAM_SUCCESS_RESULT_STATUSES` -/
def TelegramResultStatus.isSuccess (s : TelegramResultStatus) : Bool := s = .duplicate ∨ s = .sent

/-- The message a fired alert owes, with `alert_type` always `price`. -/
structure TelegramPayload where
  alertId : String
  instrumentId : String
  routeFingerprint : String
  symbol : String
  timeframe : String
  kind : String
  label : String
  levelSource : LevelSource
  direction : PriceAlertDirection
  price : ℚ
  currentPrice : ℚ
  source : String
  ts : Time
  triggerEventAt : ℕ
  message : String
  deriving DecidableEq

/-- The delivery state of a row. -/
structure TelegramDelivery where
  telegramDeliveryStatus : TelegramDeliveryStatus
  telegramPendingPayload : Option TelegramPayload
  telegramPendingSince : ℕ
  telegramNextRetryAt : ℕ
  telegramRetryCount : ℕ
  telegramClaimedAt : ℕ
  telegramLastError : String
  deriving DecidableEq

/-- `TELEGRAM_CANCELLED_DELIVERY_STATE` -/
def TelegramDelivery.cancelledState : TelegramDelivery where
  telegramDeliveryStatus := .cancelled
  telegramPendingPayload := none
  telegramPendingSince := 0
  telegramNextRetryAt := 0
  telegramRetryCount := 0
  telegramClaimedAt := 0
  telegramLastError := ""

/-- The result of the last delivery attempt. -/
structure TelegramResult where
  lastTelegramStatus : TelegramResultStatus
  lastTelegramOk : Bool
  lastTelegramDetail : String
  telegramLastAttemptAt : ℕ
  deriving DecidableEq

/-- The last delivery attempt is recorded as a success. -/
def deliveredOk (result : Option TelegramResult) : Bool := result.any (·.lastTelegramOk)

/-- The row fields a pending payload repeats. -/
structure PendingFields where
  alertId : String
  instrumentId : String
  routeFingerprint : String
  symbol : String
  timeframe : String
  deriving DecidableEq

/-- One stored price alert. -/
structure PriceAlert where
  id : String
  instrumentId : String
  routeFingerprint : String
  provider : String
  providerContractId : String
  symbol : String
  timeframe : String
  kind : PriceAlertKind
  label : String
  direction : PriceAlertDirection
  price : ℚ
  toleranceAtr : ℚ
  tolerancePoints : ℚ
  rearmMinutes : ℕ
  levelSource : LevelSource
  enabled : Bool
  armed : Bool
  fired : Bool
  cooldownUntil : ℕ
  rearmedAt : ℕ
  createdAt : ℕ
  lastFiredAt : Option ℕ
  lastFiredLevel : Option ℚ
  lastSeenPrice : Option ℚ
  lastSeenLevel : Option ℚ
  lastTolerance : Option ℚ
  lastEventTs : Option Time
  lastFiredEventTs : Option Time
  wasTouching : Option Bool
  touchDirection : Option TouchDirection
  emaLength : Option ℕ
  atrLength : Option ℕ
  delivery : TelegramDelivery
  result : Option TelegramResult
  deriving DecidableEq

namespace PriceAlert

def pendingFields (a : PriceAlert) : PendingFields where
  alertId := a.id
  instrumentId := a.instrumentId
  routeFingerprint := a.routeFingerprint
  symbol := a.symbol
  timeframe := a.timeframe

/-- `retain_price_alert` -/
def retain (a : PriceAlert) : Bool := a.enabled && (a.armed || a.fired)

/-- The row is evaluated by the monitor. -/
def active (a : PriceAlert) : Bool := a.enabled && a.armed

end PriceAlert

/-! ### Validation of the delivery -/

def fieldInvalid (owner field : String) : AlertError := ⟨owner ++ "_FIELD_INVALID: " ++ field⟩

/-- The pending payload, its texts first, and then against the row it belongs to. -/
def validatePendingPayload (owner : String) (p : TelegramPayload) (expected : Option PendingFields) :
    Except AlertError Unit := do
  let invalid (field : String) := fieldInvalid owner ("telegramPendingPayload." ++ field)
  require (p.alertId ≠ "") (invalid "alert_id")
  require (p.instrumentId ≠ "") (invalid "instrument_id")
  require (p.routeFingerprint ≠ "") (invalid "route_fingerprint")
  require (p.symbol ≠ "") (invalid "symbol")
  require (p.timeframe ≠ "") (invalid "timeframe")
  require (p.kind ≠ "") (invalid "kind")
  require (p.source = "MartinCall backend") (invalid "source")
  require (0 < p.triggerEventAt) (invalid "trigger_event_at")
  match expected with
  | none => pure ()
  | some row =>
    require (p.alertId = row.alertId) (invalid "alert_id")
    require (p.instrumentId = row.instrumentId) (invalid "instrument_id")
    require (p.routeFingerprint = row.routeFingerprint) (invalid "route_fingerprint")
    require (p.symbol = row.symbol) (invalid "symbol")
    require (p.timeframe = row.timeframe) (invalid "timeframe")

def validateTelegramResult (owner : String) (r : TelegramResult) : Except AlertError Unit := do
  require (r.lastTelegramOk = r.lastTelegramStatus.isSuccess)
    (fieldInvalid owner "inconsistent Telegram result status")
  require (0 < r.telegramLastAttemptAt) (fieldInvalid owner "telegramLastAttemptAt")

/-- The part of the delivery check that pending and delivering rows share. -/
def validateOwedDelivery (owner : String) (d : TelegramDelivery) : Except AlertError TelegramPayload :=
  match d.telegramPendingPayload with
  | none => .error (fieldInvalid owner "telegramPendingPayload")
  | some p => do
    require (0 < d.telegramPendingSince) (fieldInvalid owner "telegramPendingSince")
    require (0 < d.telegramNextRetryAt) (fieldInvalid owner "telegramNextRetryAt")
    pure p

/-- Nothing is owed: every field of the delivery is reset. -/
def validateSettledDelivery (owner : String) (d : TelegramDelivery) : Except AlertError Unit := do
  require (d.telegramPendingPayload = none) (fieldInvalid owner "telegramPendingPayload")
  require (d.telegramPendingSince = 0) (fieldInvalid owner "telegramPendingSince")
  require (d.telegramNextRetryAt = 0) (fieldInvalid owner "telegramNextRetryAt")
  require (d.telegramRetryCount = 0) (fieldInvalid owner "telegramRetryCount")
  require (d.telegramClaimedAt = 0) (fieldInvalid owner "telegramClaimedAt")
  require (d.telegramLastError = "") (fieldInvalid owner "telegramLastError")

def validateTelegramDelivery (owner : String) (d : TelegramDelivery)
    (result : Option TelegramResult) (expected : Option PendingFields) : Except AlertError Unit :=
  match d.telegramDeliveryStatus with
  | .pending => do
    require (deliveredOk result = false)
      (fieldInvalid owner "inconsistent Telegram delivery status")
    let p ← validateOwedDelivery owner d
    require (d.telegramClaimedAt = 0) (fieldInvalid owner "telegramClaimedAt")
    validatePendingPayload owner p expected
  | .delivering => do
    let p ← validateOwedDelivery owner d
    require (0 < d.telegramClaimedAt) (fieldInvalid owner "telegramClaimedAt")
    require (d.telegramClaimedAt < d.telegramNextRetryAt)
      (fieldInvalid owner "invalid Telegram delivery lease")
    validatePendingPayload owner p expected
  | .sent => do
    require (deliveredOk result = true)
      (fieldInvalid owner "incomplete sent Telegram state")
    validateSettledDelivery owner d
  | .cancelled => validateSettledDelivery owner d

/-- `validate_telegram_delivery_runtime`: the result, where there is one, and then the delivery
state, where there is one. -/
def validateTelegramDeliveryRuntime (owner : String) (delivery : Option TelegramDelivery)
    (result : Option TelegramResult) (expected : Option PendingFields) :
    Except AlertError Unit := do
  match result with
  | none => pure ()
  | some r => validateTelegramResult owner r
  match delivery with
  | none => pure ()
  | some d => validateTelegramDelivery owner d result expected

/-! ### Validation of the row -/

def validatePriceAlertLevelSource (alertId : String) (kind : PriceAlertKind) (value : LevelSource) :
    Except AlertError Unit := do
  let invalid (what : String) := fieldInvalid "PRICE_ALERT" (alertId ++ " level_source" ++ what)
  require (value.type ∈ kind.levelSourceTypes ∧ value.dynamic = value.type.isDynamic)
    (invalid " contract")
  if value.type ≠ .gexSnapshot then require (value.snapshot = none) (invalid " fields")
  else match value.snapshot with
    | none => .error (invalid " fields")
    | some facts => do
      exactIdentityText facts.levelRef "PRICE_ALERT_LEVEL_SOURCE_LEVEL_REF"
      exactIdentityText facts.levelKind "PRICE_ALERT_LEVEL_SOURCE_LEVEL_KIND"
      exactIdentityText facts.label "PRICE_ALERT_LEVEL_SOURCE_LABEL"
      exactIdentityText facts.snapshotVersion "PRICE_ALERT_LEVEL_SOURCE_SNAPSHOT_VERSION"
      exactIdentityText facts.snapshotSource "PRICE_ALERT_LEVEL_SOURCE_SNAPSHOT_SOURCE"
      require (facts.snapshotCaptureMode = "request") (invalid ".snapshot_capture_mode")
      require (facts.snapshotMarketDataEntitlement = "live")
        (invalid ".snapshot_market_data_entitlement")
      require (facts.snapshotDecisionAuthoritative = true)
        (invalid ".snapshot_decision_authoritative")
      require (0 ≤ facts.snapshotAgeMinutesAtCreation)
        (invalid ".snapshot_age_minutes_at_creation")

def validatePriceAlertDefinition (a : PriceAlert) : Except AlertError Unit := do
  exactIdentityText a.id "PRICE_ALERT_ID"
  exactIdentityText a.instrumentId "PRICE_ALERT_INSTRUMENT_ID"
  exactIdentityText a.routeFingerprint "PRICE_ALERT_ROUTE_FINGERPRINT"
  exactIdentityText a.provider "PRICE_ALERT_PROVIDER"
  exactIdentityText a.providerContractId "PRICE_ALERT_PROVIDER_CONTRACT_ID"
  exactIdentityText a.symbol "PRICE_ALERT_SYMBOL"
  exactIdentityText a.timeframe "PRICE_ALERT_TIMEFRAME"
  require (0 ≤ a.toleranceAtr) (fieldInvalid "PRICE_ALERT" (a.id ++ " toleranceAtr"))
  require (0 ≤ a.tolerancePoints) (fieldInvalid "PRICE_ALERT" (a.id ++ " tolerancePoints"))
  require (a.rearmMinutes ∈ [15, 30, 60]) (fieldInvalid "PRICE_ALERT" (a.id ++ " rearmMinutes"))
  validatePriceAlertLevelSource a.id a.kind a.levelSource

/-- `validate_price_alert_runtime`. The identity texts of the row are read again where a payload
is pending. -/
def validatePriceAlertRuntime (a : PriceAlert) : Except AlertError Unit := do
  exactIdentityText a.id "PRICE_ALERT_ID"
  require (∀ tolerance ∈ a.lastTolerance, 0 ≤ tolerance)
    (fieldInvalid "PRICE_ALERT" (a.id ++ " lastTolerance"))
  if a.delivery.telegramPendingPayload = none then
    validateTelegramDeliveryRuntime "PRICE_ALERT" a.delivery a.result none
  else do
    exactIdentityText a.instrumentId "PRICE_ALERT_INSTRUMENT_ID"
    exactIdentityText a.routeFingerprint "PRICE_ALERT_ROUTE_FINGERPRINT"
    exactIdentityText a.symbol "PRICE_ALERT_SYMBOL"
    exactIdentityText a.timeframe "PRICE_ALERT_TIMEFRAME"
    validateTelegramDeliveryRuntime "PRICE_ALERT" a.delivery a.result a.pendingFields

def validatePriceAlert (a : PriceAlert) : Except AlertError Unit := do
  validatePriceAlertDefinition a
  validatePriceAlertRuntime a

/-! ### The rows that pass -/

variable {u : Unit}

theorem exactIdentityText_eq_ok {value field : String} :
    exactIdentityText value field = .ok u ↔ value ≠ "" :=
  require_eq_ok

namespace TelegramPayload

def pendingFields (p : TelegramPayload) : PendingFields where
  alertId := p.alertId
  instrumentId := p.instrumentId
  routeFingerprint := p.routeFingerprint
  symbol := p.symbol
  timeframe := p.timeframe

/-- A payload that may be stored, alone or in the row `expected`. -/
structure Valid (p : TelegramPayload) (expected : Option PendingFields) : Prop where
  alertId_ne : p.alertId ≠ ""
  instrumentId_ne : p.instrumentId ≠ ""
  routeFingerprint_ne : p.routeFingerprint ≠ ""
  symbol_ne : p.symbol ≠ ""
  timeframe_ne : p.timeframe ≠ ""
  kind_ne : p.kind ≠ ""
  source_eq : p.source = "MartinCall backend"
  trigger_pos : 0 < p.triggerEventAt
  names : ∀ row ∈ expected, p.pendingFields = row

theorem Valid.alone {p : TelegramPayload} {expected : Option PendingFields} (h : p.Valid expected) :
    p.Valid none :=
  { h with names := by simp }

end TelegramPayload

variable {owner : String}

variable {expected : Option PendingFields}

theorem validatePendingPayload_eq_ok {p : TelegramPayload} :
    validatePendingPayload owner p expected = .ok u ↔ p.Valid expected := by
  cases expected with
  | none =>
    simp only [validatePendingPayload, bind_eq_ok, require_eq_ok, exists_const, pure_eq_ok]
    constructor
    · rintro ⟨h₁, h₂, h₃, h₄, h₅, h₆, h₇, h₈, -⟩
      exact ⟨h₁, h₂, h₃, h₄, h₅, h₆, h₇, h₈, by simp⟩
    · intro h
      exact ⟨h.alertId_ne, h.instrumentId_ne, h.routeFingerprint_ne, h.symbol_ne, h.timeframe_ne,
        h.kind_ne, h.source_eq, h.trigger_pos, trivial⟩
  | some row =>
    obtain ⟨alertId, instrumentId, routeFingerprint, symbol, timeframe⟩ := row
    simp only [validatePendingPayload, bind_eq_ok, require_eq_ok, exists_const]
    constructor
    · rintro ⟨h₁, h₂, h₃, h₄, h₅, h₆, h₇, h₈, rfl, rfl, rfl, rfl, rfl⟩
      exact ⟨h₁, h₂, h₃, h₄, h₅, h₆, h₇, h₈, by simp [TelegramPayload.pendingFields]⟩
    · intro h
      obtain ⟨rfl, rfl, rfl, rfl, rfl⟩ := PendingFields.mk.inj (h.names _ rfl)
      exact ⟨h.alertId_ne, h.instrumentId_ne, h.routeFingerprint_ne, h.symbol_ne, h.timeframe_ne,
        h.kind_ne, h.source_eq, h.trigger_pos, rfl, rfl, rfl, rfl, rfl⟩

structure TelegramResult.Valid (r : TelegramResult) : Prop where
  ok_eq : r.lastTelegramOk = r.lastTelegramStatus.isSuccess
  attempt_pos : 0 < r.telegramLastAttemptAt

theorem validateTelegramResult_eq_ok {r : TelegramResult} :
    validateTelegramResult owner r = .ok u ↔ r.Valid := by
  simp only [validateTelegramResult, bind_eq_ok, require_eq_ok, exists_const]
  exact ⟨fun h => ⟨h.1, h.2⟩, fun h => ⟨h.ok_eq, h.attempt_pos⟩⟩

namespace TelegramDelivery

/-- The delivery owes `p`. -/
structure Owes (d : TelegramDelivery) (p : TelegramPayload) : Prop where
  payload : d.telegramPendingPayload = some p
  since_pos : 0 < d.telegramPendingSince
  retry_pos : 0 < d.telegramNextRetryAt

/-- The delivery owes nothing. -/
structure Settled (d : TelegramDelivery) : Prop where
  payload : d.telegramPendingPayload = none
  since : d.telegramPendingSince = 0
  retry : d.telegramNextRetryAt = 0
  count : d.telegramRetryCount = 0
  claimed : d.telegramClaimedAt = 0
  error : d.telegramLastError = ""

/-- A delivery state that may be stored beside `result` in the row `expected`. -/
def Valid (d : TelegramDelivery) (result : Option TelegramResult)
    (expected : Option PendingFields) : Prop :=
  match d.telegramDeliveryStatus with
  | .pending =>
    deliveredOk result = false ∧ d.telegramClaimedAt = 0 ∧ ∃ p, d.Owes p ∧ p.Valid expected
  | .delivering =>
    0 < d.telegramClaimedAt ∧ d.telegramClaimedAt < d.telegramNextRetryAt ∧
      ∃ p, d.Owes p ∧ p.Valid expected
  | .sent => deliveredOk result = true ∧ d.Settled
  | .cancelled => d.Settled

/-- Without a payload the row a delivery belongs to is not read. -/
theorem valid_congr {d : TelegramDelivery} (h : d.telegramPendingPayload = none)
    {result : Option TelegramResult} (expected expected' : Option PendingFields) :
    d.Valid result expected ↔ d.Valid result expected' := by
  have howes : ∀ p, ¬ d.Owes p := fun p hp => absurd (h.symm.trans hp.payload) (by simp)
  unfold Valid
  cases d.telegramDeliveryStatus <;> simp [howes]

end TelegramDelivery

variable {d : TelegramDelivery}

theorem validateOwedDelivery_eq_ok {p : TelegramPayload} :
    validateOwedDelivery owner d = .ok p ↔ d.Owes p := by
  unfold validateOwedDelivery
  cases hp : d.telegramPendingPayload with
  | none =>
    refine ⟨fun h => ?_, fun h => ?_⟩
    · cases h
    · exact absurd (hp.symm.trans h.payload) (by simp)
  | some q =>
    simp only [bind_eq_ok, require_eq_ok, exists_const, pure_eq_ok]
    constructor
    · rintro ⟨hsince, hretry, rfl⟩
      exact ⟨hp, hsince, hretry⟩
    · intro h
      exact ⟨h.since_pos, h.retry_pos, Option.some.inj (hp.symm.trans h.payload)⟩

theorem validateSettledDelivery_eq_ok :
    validateSettledDelivery owner d = .ok u ↔ d.Settled := by
  simp only [validateSettledDelivery, bind_eq_ok, require_eq_ok, exists_const]
  refine ⟨?_, fun h => ⟨h.payload, h.since, h.retry, h.count, h.claimed, h.error⟩⟩
  rintro ⟨h₁, h₂, h₃, h₄, h₅, h₆⟩
  exact ⟨h₁, h₂, h₃, h₄, h₅, h₆⟩

theorem validateTelegramDelivery_eq_ok {result : Option TelegramResult} :
    validateTelegramDelivery owner d result expected = .ok u ↔ d.Valid result expected := by
  unfold validateTelegramDelivery TelegramDelivery.Valid
  cases d.telegramDeliveryStatus with
  | cancelled => exact validateSettledDelivery_eq_ok
  | sent =>
    simp only [bind_eq_ok, require_eq_ok, exists_const, validateSettledDelivery_eq_ok]
  | pending =>
    simp only [bind_eq_ok, require_eq_ok, exists_const, validateOwedDelivery_eq_ok,
      validatePendingPayload_eq_ok]
    constructor
    · rintro ⟨hok, p, howes, hclaim, hp⟩
      exact ⟨hok, hclaim, p, howes, hp⟩
    · rintro ⟨hok, hclaim, p, howes, hp⟩
      exact ⟨hok, p, howes, hclaim, hp⟩
  | delivering =>
    simp only [bind_eq_ok, require_eq_ok, exists_const, validateOwedDelivery_eq_ok,
      validatePendingPayload_eq_ok]
    constructor
    · rintro ⟨p, howes, hclaim, hlease, hp⟩
      exact ⟨hclaim, hlease, p, howes, hp⟩
    · rintro ⟨hclaim, hlease, p, howes, hp⟩
      exact ⟨p, howes, hclaim, hlease, hp⟩

theorem validateTelegramDeliveryRuntime_eq_ok {delivery : Option TelegramDelivery}
    {result : Option TelegramResult} :
    validateTelegramDeliveryRuntime owner delivery result expected = .ok u ↔
      (∀ r ∈ result, r.Valid) ∧ ∀ d ∈ delivery, d.Valid result expected := by
  cases result <;> cases delivery <;>
    simp [validateTelegramDeliveryRuntime, bind_eq_ok, validateTelegramResult_eq_ok,
      validateTelegramDelivery_eq_ok]

namespace PriceAlert

/-- A row that may be stored. -/
structure Valid (a : PriceAlert) : Prop where
  definition : validatePriceAlertDefinition a = .ok ()
  tolerance : ∀ tolerance ∈ a.lastTolerance, 0 ≤ tolerance
  result : ∀ r ∈ a.result, r.Valid
  delivery : a.delivery.Valid a.result a.pendingFields

end PriceAlert

theorem validatePriceAlertDefinition_texts {a : PriceAlert}
    (h : validatePriceAlertDefinition a = .ok u) :
    a.id ≠ "" ∧ a.instrumentId ≠ "" ∧ a.routeFingerprint ≠ "" ∧ a.symbol ≠ "" ∧
      a.timeframe ≠ "" := by
  simp only [validatePriceAlertDefinition, bind_eq_ok, exactIdentityText_eq_ok, exists_const] at h
  obtain ⟨hid, hinstrument, hroute, -, -, hsymbol, htimeframe, -⟩ := h
  exact ⟨hid, hinstrument, hroute, hsymbol, htimeframe⟩

/-- The rows that pass the validator. -/
theorem validatePriceAlert_eq_ok {a : PriceAlert} :
    validatePriceAlert a = .ok u ↔ a.Valid := by
  have hruntime (h : validatePriceAlertDefinition a = .ok ()) :
      validatePriceAlertRuntime a = .ok u ↔ (∀ t ∈ a.lastTolerance, 0 ≤ t) ∧
        (∀ r ∈ a.result, r.Valid) ∧ a.delivery.Valid a.result a.pendingFields := by
    obtain ⟨hid, hinstrument, hroute, hsymbol, htimeframe⟩ := validatePriceAlertDefinition_texts h
    simp only [validatePriceAlertRuntime, bind_eq_ok, exactIdentityText_eq_ok, require_eq_ok,
      exists_const]
    split
    · rename_i hpending
      simp only [hid, validateTelegramDeliveryRuntime_eq_ok, ne_eq, not_false_eq_true, true_and,
        Option.mem_some_iff, forall_eq', TelegramDelivery.valid_congr hpending none a.pendingFields]
    · simp only [hid, hinstrument, hroute, hsymbol, htimeframe, bind_eq_ok, exactIdentityText_eq_ok,
        validateTelegramDeliveryRuntime_eq_ok, ne_eq, not_false_eq_true, true_and, exists_const,
        Option.mem_some_iff, forall_eq']
  unfold validatePriceAlert
  rw [bind_eq_ok]
  constructor
  · rintro ⟨⟨⟩, hdefinition, h⟩
    obtain ⟨htolerance, hresult, hdelivery⟩ := (hruntime hdefinition).mp h
    exact ⟨hdefinition, htolerance, hresult, hdelivery⟩
  · intro h
    exact ⟨(), h.definition, (hruntime h.definition).mpr ⟨h.tolerance, h.result, h.delivery⟩⟩

end AefTerminal
