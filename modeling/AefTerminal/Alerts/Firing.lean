import AefTerminal.Alerts.Issued

/-!
# An armed alert fires

A firing writes the delivery of a row anew and leaves the result of the last attempt where it is.
A row that is armed while a successful attempt is on record has no valid firing: a pending
delivery beside a recorded success is rejected, and the firing raises instead of being stored.
Every other update that the monitor and the workers issue is accepted from every valid row.

## Main definitions

* `MonitorFiring`: the firing of a row, by its kind
* `AlwaysFires`: what every stored row should admit
* `KeepsFirable`: the calls that arm no row with a success on record, and record none on an armed
  row

## Main results

* `always_fires`: in a run of such calls every stored row admits its firing, and every claim and
  finalisation
* `firing_valid_iff`: from a valid row, a firing is accepted exactly where no success is on record
-/

namespace AefTerminal

open Foundation

/-! ### Payloads -/

theorem monitorTitle_ne (a : PriceAlert) (current : ℚ) (now : ℕ) (ts : Time) :
    (alertMonitorPayload a current now ts).kind ≠ "" := by
  simp only [alertMonitorPayload]
  split
  · decide
  · decide
  · split
    · intro h
      have hlength := congrArg String.length h
      simp [String.length_append] at hlength
    · decide

variable {now : ℕ} {a : PriceAlert}

theorem alertMonitorPayload_valid {b : PriceAlert} (hb : b.Valid)
    (hfields : a.pendingFields = b.pendingFields) {current : ℚ} {ts : Time}
    (hnow : 0 < now) : (alertMonitorPayload a current now ts).Valid b.pendingFields := by
  obtain ⟨hid, hinstrument, hroute, hsymbol, htimeframe⟩ :=
    validatePriceAlertDefinition_texts hb.definition
  obtain ⟨eid, einstrument, eroute, esymbol, etimeframe⟩ := PendingFields.mk.inj hfields
  exact
    { alertId_ne := fun h => hid (eid ▸ h)
      instrumentId_ne := fun h => hinstrument (einstrument ▸ h)
      routeFingerprint_ne := fun h => hroute (eroute ▸ h)
      symbol_ne := fun h => hsymbol (esymbol ▸ h)
      timeframe_ne := fun h => htimeframe (etimeframe ▸ h)
      kind_ne := monitorTitle_ne a current now ts
      source_eq := rfl
      trigger_pos := hnow
      names := by
        rintro row ⟨⟩
        exact hfields }

variable {expected : Option PendingFields} {result : Option TelegramResult}

theorem TelegramDelivery.Valid.alone {d : TelegramDelivery}
    (h : d.Valid result expected) : d.Valid result none := by
  unfold TelegramDelivery.Valid at h ⊢
  cases hstatus : d.telegramDeliveryStatus with
  | cancelled | sent =>
    rw [hstatus] at h
    exact h
  | pending =>
    rw [hstatus] at h
    obtain ⟨hok, hclaim, p, howes, hp⟩ := h
    exact ⟨hok, hclaim, p, howes, hp.alone⟩
  | delivering =>
    rw [hstatus] at h
    obtain ⟨hclaim, hlease, p, howes, hp⟩ := h
    exact ⟨hclaim, hlease, p, howes, hp.alone⟩

variable {pending : TelegramPayload}

/-- A payload on record is owed. -/
theorem TelegramDelivery.Valid.owes {d : TelegramDelivery} (h : d.Valid result expected)
    (hpending : d.telegramPendingPayload = some pending) : d.Owes pending ∧ pending.Valid expected := by
  have hsettled : ¬ d.Settled := fun hd => absurd (hpending.symm.trans hd.payload) (by simp)
  have howes : ∀ p, d.Owes p → p.Valid expected → d.Owes pending ∧ pending.Valid expected := by
    intro p howes hp
    cases (howes.payload.symm.trans hpending)
    exact ⟨howes, hp⟩
  unfold TelegramDelivery.Valid at h
  split at h
  · obtain ⟨-, -, p, hp, hvalid⟩ := h
    exact howes p hp hvalid
  · obtain ⟨-, -, p, hp, hvalid⟩ := h
    exact howes p hp hvalid
  · exact absurd h.2 hsettled
  · exact absurd h hsettled

/-- A fresh delivery is valid exactly where no success is on record. -/
theorem fresh_valid_iff {payload : TelegramPayload} {retryCount : ℕ} (hnow : 0 < now)
    (hpayload : payload.Valid expected) :
    (TelegramDelivery.fresh payload retryCount now).Valid result expected ↔
      deliveredOk result = false := by
  constructor
  · exact fun h => h.1
  · exact fun hok => ⟨hok, rfl, payload, ⟨rfl, hnow, hnow⟩, hpayload⟩

/-! ### The firing of a row -/

/-- The firing the monitor builds from a row at `now`, by its kind. -/
inductive MonitorFiring (a : PriceAlert) (now : ℕ) :
    TelegramPayload → (PriceAlert → PriceAlert) → Prop
  | cross (hkind : a.kind = .price) (current : ℚ) (ts : Time) :
      MonitorFiring a now (alertMonitorPayload a current now ts) (crossFiredPatch a current now)
  | dynamic (hkind : a.kind = .ema233Touch) (p : EmaTouchGuideProjection) (current : ℚ)
      (ts : Time) (state : EmaTouchGuideState)
      (hstate : state = emaTouchGuideState p current a.toleranceAtr a.tolerancePoints) :
      MonitorFiring a now (dynamicPayload a state current now ts)
        (dynamicFiredPatch state (serverEmaTouchDirection a state current)
          (a.rearmMinutes * 60000) now)
  | vsa (hkind : a.kind = .vsaFuel) (eventTs : Time) (level current : ℚ) (ts : Time) :
      MonitorFiring a now (alertMonitorPayload { a with price := level } current now ts)
        (vsaFiredPatch eventTs level now)

theorem emaTouchGuideState_tolerance_nonneg (p : EmaTouchGuideProjection)
    (current toleranceAtr tolerancePoints : ℚ) :
    0 ≤ (emaTouchGuideState p current toleranceAtr tolerancePoints).tolerance := by
  have hfloor : (0 : ℚ) ≤ 1 / 100 := by norm_num
  exact hfloor.trans (le_max_of_le_right (le_max_right _ _))

namespace MonitorFiring

variable {a : PriceAlert} {now : ℕ} {payload : TelegramPayload} {patch : PriceAlert → PriceAlert}

theorem payload_valid (h : MonitorFiring a now payload patch) (ha : a.Valid) (hnow : 0 < now) :
    payload.Valid a.pendingFields := by
  cases h with
  | cross => exact alertMonitorPayload_valid ha rfl hnow
  | dynamic =>
    refine alertMonitorPayload_valid ha ?_ hnow
    rfl
  | vsa =>
    refine alertMonitorPayload_valid ha ?_ hnow
    rfl

/-- What a firing leaves to the validator: the delivery it writes. -/
theorem valid_iff (h : MonitorFiring a now payload patch) (ha : a.Valid) :
    (firingPatch a payload patch now a).Valid ↔
      (TelegramDelivery.fresh payload a.delivery.telegramRetryCount now).Valid a.result
        a.pendingFields := by
  constructor
  · intro hvalid
    cases h <;> exact hvalid.delivery
  · intro hdelivery
    cases h with
    | cross => exact ⟨ha.definition, ha.tolerance, ha.result, hdelivery⟩
    | dynamic _ p current _ state hstate =>
      refine ⟨ha.definition, ?_, ha.result, hdelivery⟩
      rintro tolerance ⟨⟩
      rw [hstate]
      exact emaTouchGuideState_tolerance_nonneg p current _ _
    | vsa => exact ⟨ha.definition, ha.tolerance, ha.result, hdelivery⟩

theorem retain (h : MonitorFiring a now payload patch) (ha : a.active = true) :
    (firingPatch a payload patch now a).retain = true := by
  simp only [PriceAlert.active, Bool.and_eq_true] at ha
  cases h <;>
    simp [PriceAlert.retain, firingPatch, crossFiredPatch, dynamicFiredPatch, dynamicStatePatch,
      vsaFiredPatch, ha.1]

end MonitorFiring

/-- From a valid row, a firing is accepted exactly where no success is on record. -/
theorem firing_valid_iff {payload : TelegramPayload}
    {patch : PriceAlert → PriceAlert} (ha : a.Valid) (hnow : 0 < now)
    (h : MonitorFiring a now payload patch) :
    (firingPatch a payload patch now a).Valid ↔ deliveredOk a.result = false :=
  (h.valid_iff ha).trans (fresh_valid_iff hnow (h.payload_valid ha hnow))

/-! ### Claims and finalisations -/

theorem claim_valid (ha : a.Valid)
    (hpending : a.delivery.telegramPendingPayload = some pending) (now : ℕ) :
    (claimPatch (claimAttemptAt a now) a).Valid := by
  refine ⟨ha.definition, ha.tolerance, ha.result, ?_⟩
  have hattempt : 0 < claimAttemptAt a now := by
    have hclaimed : a.delivery.telegramClaimedAt + 1 ≤ claimAttemptAt a now :=
      le_max_of_le_left (le_max_right _ _)
    omega
  obtain ⟨howes, hp⟩ := ha.delivery.owes hpending
  exact ⟨hattempt, by simp [claimPatch, telegramDeliveryAttemptLeaseMs], pending,
    ⟨hpending, howes.since_pos, by simp [claimPatch, telegramDeliveryAttemptLeaseMs]⟩, hp⟩

theorem retryDelayMs_pos (retryCount : ℕ) : 0 < retryDelayMs retryCount := by
  simp [retryDelayMs, telegramDeliveryRetryBaseMs, telegramDeliveryRetryMaxMs]

theorem finalize_valid {result : TelegramSendResult} {retryCount since : ℕ} (ha : a.Valid)
    (hp : pending.Valid a.pendingFields) (hnow : 0 < now) (hsince : 0 < since)
    (hok : result.ok = result.status.isSuccess) :
    (finalizePatch (.attempted result pending now retryCount (some since)) (result.recorded now)
      a).Valid := by
  refine ⟨ha.definition, ha.tolerance, ?_, ?_⟩
  · rintro r ⟨⟩
    exact ⟨hok, hnow⟩
  · simp only [finalizePatch, TelegramDelivery.attempted]
    split
    · rename_i hsent
      exact ⟨by simp [deliveredOk, TelegramSendResult.recorded, hsent], rfl, rfl, rfl, rfl, rfl, rfl⟩
    · rename_i hfailed
      exact ⟨by simpa [deliveredOk, TelegramSendResult.recorded] using hfailed, rfl, pending,
        ⟨rfl, hsince, Nat.add_pos_left hnow _⟩, hp⟩

/-! ### Stored updates -/

section Stored

variable {t : PriceAlertTable} {a : PriceAlert} {pending : TelegramPayload} {now : ℕ}

theorem requireExactRoute_of_valid (ha : a.Valid) :
    requireExactRoute a.id a.instrumentId a.routeFingerprint = .ok () := by
  obtain ⟨hid, hinstrument, hroute, -⟩ := validatePriceAlertDefinition_texts ha.definition
  simp only [requireExactRoute, bind_eq_ok, exactIdentityText_eq_ok, exists_const]
  exact ⟨hid, hinstrument, hroute⟩

variable {patch : PriceAlert → PriceAlert}

/-- An update that agrees with a stored row and leaves it valid and retained is stored. -/
theorem update_stored {guard : PayloadGuard}
    (hinv : TableInv t) (hrow : t.get? a.id = some a) (hagree : guard.agree a = true)
    (hvalid : (patch a).Valid) (hretain : (patch a).retain = true) :
    ∃ m, updatePriceAlertPayloadExact t a.id a.instrumentId a.routeFingerprint guard patch = .ok m ∧
      m.table.get? a.id = some (patch a) := by
  have hfound := hinv.exact_of_get? hrow
  have hupdate : updatePriceAlertPayload a guard patch = .ok (some (patch a)) := by
    have ha := validatePriceAlert_eq_ok (u := ()).mpr (hinv.valid _ a hrow)
    have hp := validatePriceAlert_eq_ok (u := ()).mpr hvalid
    simp only [updatePriceAlertPayload, ha, hp, hagree, bind, Except.bind, if_true]
    rfl
  have hroute := requireExactRoute_of_valid (hinv.valid _ a hrow)
  simp only [updatePriceAlertPayloadExact, hroute, hfound, hupdate, hretain, if_true, bind,
    Except.bind]
  split
  · rename_i heq
    exact ⟨_, rfl, hrow.trans (congrArg some heq.symm)⟩
  · exact ⟨_, rfl, Dict.get?_insert_self _ _ _⟩

theorem agree_firingGuard (ha : a.active = true) : (firingGuard a).agree a = true := by
  simp [PayloadGuard.agree, ExpectedFields.agree, firingGuard, ha]

theorem agree_deliveryGuard (hpending : a.delivery.telegramPendingPayload = some pending) :
    (deliveryGuard a pending).agree a = true := by
  simp [PayloadGuard.agree, ExpectedFields.agree, deliveryGuard, hpending]

variable {payload : TelegramPayload}

theorem firingAccepted_of_valid (ha : a.Valid) (hnow : 0 < now)
    (hpayload : payload.Valid a.pendingFields) : firingAccepted a payload now = .ok true := by
  obtain ⟨hid, hinstrument, hroute, -⟩ := validatePriceAlertDefinition_texts ha.definition
  have hsnapshot : validateTelegramDeliveryRuntime "SERVER_ALERT" (some a.delivery) a.result none =
      .ok () :=
    validateTelegramDeliveryRuntime_eq_ok.mpr ⟨ha.result, by rintro d ⟨⟩; exact ha.delivery.alone⟩
  have hpatch : validateTelegramDeliveryRuntime "SERVER_ALERT"
      (some (.fresh payload a.delivery.telegramRetryCount now)) none none = .ok () :=
    validateTelegramDeliveryRuntime_eq_ok.mpr
      ⟨by simp, by rintro d ⟨⟩; exact (fresh_valid_iff hnow hpayload.alone).mpr rfl⟩
  have hidText : exactIdentityText a.id "SERVER_ALERT_ID" = .ok () :=
    exactIdentityText_eq_ok.mpr hid
  have hinstrumentText : exactIdentityText a.instrumentId "SERVER_ALERT_INSTRUMENT_ID" = .ok () :=
    exactIdentityText_eq_ok.mpr hinstrument
  have hrouteText :
      exactIdentityText a.routeFingerprint "SERVER_ALERT_ROUTE_FINGERPRINT" = .ok () :=
    exactIdentityText_eq_ok.mpr hroute
  simp only [firingAccepted, hsnapshot, hidText, hinstrumentText, hrouteText, hpatch, bind,
    Except.bind]
  rfl

/-- Where no success is on record the firing of an active row is stored. -/
theorem firing_stored (hinv : TableInv t) (hrow : t.get? a.id = some a) (hactive : a.active = true)
    (hok : deliveredOk a.result = false) (hnow : 0 < now) (h : MonitorFiring a now payload patch) :
    ∃ m, persistPriceAlertDelivery t a payload patch now = .ok m ∧
      m.table.get? a.id = some (firingPatch a payload patch now a) := by
  have ha := hinv.valid _ a hrow
  obtain ⟨m, hm, hget⟩ := update_stored hinv hrow (agree_firingGuard hactive)
    ((firing_valid_iff ha hnow h).mpr hok) (h.retain hactive)
  refine ⟨m, ?_, hget⟩
  have haccepted := firingAccepted_of_valid ha hnow (h.payload_valid ha hnow)
  simpa [persistPriceAlertDelivery, haccepted, bind, Except.bind] using hm

/-- Where a success is on record the firing of an active row raises. -/
theorem firing_raises (hinv : TableInv t) (hrow : t.get? a.id = some a) (hactive : a.active = true)
    (hok : deliveredOk a.result = true) (hnow : 0 < now) (h : MonitorFiring a now payload patch) :
    ∃ e, persistPriceAlertDelivery t a payload patch now = .error e := by
  have ha := hinv.valid _ a hrow
  have haccepted := firingAccepted_of_valid ha hnow (h.payload_valid ha hnow)
  have hinvalid : ¬ (firingPatch a payload patch now a).Valid := by
    rw [firing_valid_iff ha hnow h, hok]
    simp
  cases hm : persistPriceAlertDelivery t a payload patch now with
  | error e => exact ⟨e, rfl⟩
  | ok m =>
    exfalso
    have hupdate : updatePriceAlertPayloadExact t a.id a.instrumentId a.routeFingerprint
        (firingGuard a) (firingPatch a payload patch now) = .ok m := by
      simpa [persistPriceAlertDelivery, haccepted, bind, Except.bind] using hm
    simp only [updatePriceAlertPayloadExact, hinv.exact_of_get? hrow] at hupdate
    obtain ⟨⟨⟩, -, hupdate⟩ := bind_eq_ok.mp hupdate
    obtain ⟨updated, hpayload, -⟩ := bind_eq_ok.mp hupdate
    simp only [updatePriceAlertPayload, agree_firingGuard hactive, if_true] at hpayload
    obtain ⟨⟨⟩, -, hpayload⟩ := bind_eq_ok.mp hpayload
    obtain ⟨⟨⟩, hvalid, -⟩ := bind_eq_ok.mp hpayload
    exact hinvalid (validatePriceAlert_eq_ok.mp hvalid)

theorem claim_stored (hinv : TableInv t) (hrow : t.get? a.id = some a)
    (hpending : a.delivery.telegramPendingPayload = some pending) (now : ℕ) :
    ∃ m, claimPriceTelegramDelivery t a pending now = .ok m ∧
      m.table.get? a.id = some (claimPatch (claimAttemptAt a now) a) := by
  have ha := hinv.valid _ a hrow
  have hclaim := claim_valid ha hpending now
  obtain ⟨m, hm, hget⟩ := update_stored hinv hrow (agree_deliveryGuard hpending) hclaim
    (hinv.retain _ a hrow)
  refine ⟨m, ?_, hget⟩
  have hvalidate : validateTelegramDeliveryRuntime "SERVER_ALERT"
      (some (claimPatch (claimAttemptAt a now) a).delivery) a.result none = .ok () :=
    validateTelegramDeliveryRuntime_eq_ok.mpr
      ⟨ha.result, by rintro d ⟨⟩; exact hclaim.delivery.alone⟩
  simpa [claimPriceTelegramDelivery, hvalidate, bind, Except.bind] using hm

/-- The route the worker looked up is the one the payload names. -/
theorem deliveryPayload_eq (h : pending.Valid a.pendingFields) :
    deliveryPayload a pending = pending := by
  obtain ⟨-, hinstrument, hroute, -⟩ := PendingFields.mk.inj (h.names _ rfl)
  rw [deliveryPayload, ← hinstrument, ← hroute]

theorem finalize_stored {result : TelegramSendResult} (hinv : TableInv t)
    (hrow : t.get? a.id = some a) (hpending : a.delivery.telegramPendingPayload = some pending)
    (hok : result.ok = result.status.isSuccess) (hnow : 0 < now) :
    ∃ m, finalizePriceTelegramDelivery t a a pending result now = .ok m ∧
      m.table.get? a.id = some (finalizePatch
        (.attempted result pending now a.delivery.telegramRetryCount
          (some a.delivery.telegramPendingSince)) (result.recorded now) a) := by
  have ha := hinv.valid _ a hrow
  obtain ⟨howes, hp⟩ := ha.delivery.owes hpending
  have hfinal : (finalizePatch (.attempted result pending now a.delivery.telegramRetryCount
      (some a.delivery.telegramPendingSince)) (result.recorded now) a).Valid :=
    finalize_valid ha hp hnow howes.since_pos hok
  obtain ⟨m, hm, hget⟩ := update_stored hinv hrow (agree_deliveryGuard hpending) hfinal
    (hinv.retain _ a hrow)
  refine ⟨m, ?_, hget⟩
  have hpatch : telegramDeliveryPatch result pending now a.delivery.telegramRetryCount
      (some a.delivery.telegramPendingSince) =
        .ok (.attempted result pending now a.delivery.telegramRetryCount
          (some a.delivery.telegramPendingSince), result.recorded now) := by
    have h₁ : require (result.ok = result.status.isSuccess)
      (⟨"TELEGRAM_RESULT_FIELD_INVALID: status"⟩ : AlertError) = .ok () := require_eq_ok.mpr hok
    have h₂ : require (0 < now)
      (⟨"TELEGRAM_RESULT_FIELD_INVALID: now_ms"⟩ : AlertError) = .ok () := require_eq_ok.mpr hnow
    have h₃ : require (∀ since ∈ some a.delivery.telegramPendingSince, 0 < since)
        (⟨"TELEGRAM_RESULT_FIELD_INVALID: pending_since"⟩ : AlertError) = .ok () :=
      require_eq_ok.mpr (by rintro since ⟨⟩; exact howes.since_pos)
    have h₄ : validateTelegramDeliveryRuntime "TELEGRAM_RESULT"
        (some (.fresh pending a.delivery.telegramRetryCount now)) none none = .ok () :=
      validateTelegramDeliveryRuntime_eq_ok.mpr
        ⟨by simp, by rintro d ⟨⟩; exact (fresh_valid_iff hnow hp.alone).mpr rfl⟩
    have h₅ : validateTelegramDeliveryRuntime "TELEGRAM_DELIVERY"
        (some (.attempted result pending now a.delivery.telegramRetryCount
          (some a.delivery.telegramPendingSince))) (some (result.recorded now)) none = .ok () :=
      validateTelegramDeliveryRuntime_eq_ok.mpr
        ⟨hfinal.result, by rintro d ⟨⟩; exact hfinal.delivery.alone⟩
    simp only [telegramDeliveryPatch, h₁, h₂, h₃, h₄, h₅, bind, Except.bind]
    rfl
  simpa [finalizePriceTelegramDelivery, deliveryPayload_eq hp, hpatch, bind, Except.bind] using hm

end Stored

/-! ### Runs -/

/-- The call arms no row that has a success on record, and records no success on an armed row. -/
def KeepsFirable (t : PriceAlertTable) : AlertAct → Prop
  | .update id _ _ _ patch => ∀ a, t.get? id = some a → a.armed = true →
      (patch a).result = a.result ∨ deliveredOk (patch a).result = false
  | .createOrRearm candidate _ => deliveredOk candidate.result = false ∧
      ∀ id a, t.get? id = some a → a.definitionIdentity = candidate.definitionIdentity →
        deliveredOk a.result = false
  | .rearm id _ _ _ _ _ => ∀ a, t.get? id = some a → deliveredOk a.result = false
  | .setEnabled id _ _ enabled _ _ => enabled = true →
      ∀ a, t.get? id = some a → deliveredOk a.result = false
  | _ => True

/-- No armed row has a success on record. -/
structure Firable (t : PriceAlertTable) : Prop extends TableInv t where
  unsent : ∀ id a, t.get? id = some a → a.armed = true → deliveredOk a.result = false

theorem Firable.empty : Firable Dict.empty := ⟨.empty, by simp⟩

variable {t : PriceAlertTable}

theorem Firable.after {act : AlertAct} (h : Firable t)
    (hop : AlertOperation (fun _ => True) act) (hkeeps : KeepsFirable t act) : Firable (t.after act) := by
  refine after_induct act h fun m hm => ⟨h.toTableInv.after_effect hop.keepsKey hm, ?_⟩
  intro id a' ha' harmed
  have hchange := h.rowChange hm id
  rw [ha'] at hchange
  generalize hold : t.get? id = old at hchange
  cases hchange with
  | same => exact h.unsent id a' hold harmed
  | created hact =>
    subst hact
    exact hkeeps.1
  | @rewritten a _ hrewrite =>
    have hid := h.id_eq id a hold
    cases hrewrite with
    | updated hrow hagree =>
      cases hop with
      | issued _ hissued =>
        have harmed' := hissued.armed hagree harmed
        rcases hkeeps a (hrow ▸ hid ▸ hold) harmed' with hresult | hresult
        · rw [hresult]
          exact h.unsent id a hold harmed'
        · exact hresult
    | matched _ hidentity => exact hkeeps.2 id a hold hidentity
    | rearmed hrow => exact hkeeps a (hrow ▸ hid ▸ hold)
    | enabled hrow => exact hkeeps rfl a (hrow ▸ hid ▸ hold)

/-- What a stored row should admit: it is valid; its firing is stored where it is active; a claim
of what it owes is stored, and so is what the worker reports of a claim it holds. -/
structure AlwaysFires (t : PriceAlertTable) (a : PriceAlert) : Prop where
  valid : validatePriceAlert a = .ok ()
  fires : a.active = true → ∀ payload patch now, 0 < now → MonitorFiring a now payload patch →
    ∃ m, persistPriceAlertDelivery t a payload patch now = .ok m ∧
      m.table.get? a.id = some (firingPatch a payload patch now a)
  claims : ∀ pending, a.delivery.telegramPendingPayload = some pending → ∀ now,
    ∃ m, claimPriceTelegramDelivery t a pending now = .ok m ∧
      m.table.get? a.id = some (claimPatch (claimAttemptAt a now) a)
  finalizes : ∀ pending, a.delivery.telegramPendingPayload = some pending → ∀ result now, 0 < now →
    result.ok = result.status.isSuccess →
    ∃ m, finalizePriceTelegramDelivery t a a pending result now = .ok m ∧
      m.table.get? a.id = some (finalizePatch
        (.attempted result pending now a.delivery.telegramRetryCount
          (some a.delivery.telegramPendingSince)) (result.recorded now) a)

theorem Firable.alwaysFires (h : Firable t) {id : String}
    (hget : t.get? id = some a) : AlwaysFires t a := by
  have hinv := h.toTableInv
  have hrow : t.get? a.id = some a := (hinv.id_eq id a hget).symm ▸ hget
  refine ⟨validatePriceAlert_eq_ok.mpr (hinv.valid id a hget), ?_, ?_, ?_⟩
  · intro hactive payload patch now hnow hfiring
    have harmed : a.armed = true := by
      simp only [PriceAlert.active, Bool.and_eq_true] at hactive
      exact hactive.2
    exact firing_stored hinv hrow hactive (h.unsent id a hget harmed) hnow hfiring
  · exact fun pending hpending now => claim_stored hinv hrow hpending now
  · exact fun pending hpending result now hnow hok => finalize_stored hinv hrow hpending hok hnow

namespace SecondFiring

def request : PriceAlertRequest where
  id := "pa-1"
  instrumentId := "ibkr|1|ES"
  routeFingerprint := "ibkr|1|ES"
  provider := "ibkr"
  providerContractId := "1"
  symbol := "ES"
  timeframe := "5m"
  direction := .above
  price := 5000

/-- Created, fired, claimed and delivered. -/
def created : PriceAlert := request.candidate 1000

def payload : TelegramPayload := alertMonitorPayload created 5001 2000 2000000

def fired : PriceAlert := firingPatch created payload (crossFiredPatch created 5001 2000) 2000 created

def claimed : PriceAlert := claimPatch (claimAttemptAt fired 2500) fired

def acts : List AlertAct :=
  [ .createOrRearm created 1000,
    .updateOf created (firingGuard created)
      (firingPatch created payload (crossFiredPatch created 5001 2000) 2000),
    .updateOf fired (deliveryGuard fired payload) (claimPatch (claimAttemptAt fired 2500)),
    .updateOf claimed (deliveryGuard claimed payload)
      (finalizePatch (.attempted ⟨true, .sent, ""⟩ payload 2500 0 (some 2000))
        (TelegramSendResult.recorded ⟨true, .sent, ""⟩ 2500)),
    .rearm "pa-1" "ibkr|1|ES" "ibkr|1|ES" 3000 {} none ]

theorem operation : ∀ act ∈ acts, AlertOperation (fun _ => True) act := by
  simp only [acts, List.forall_mem_cons, List.not_mem_nil, false_imp_iff, implies_true, and_true]
  exact ⟨.createOrRearm _ _, .issued trivial (.crossFired rfl 5001 2000 2000000), .issued trivial (.claimed _ _),
    .issued trivial (.finalized _ _ _), .rearm _ _ _ _ _ _⟩

end SecondFiring

/-- **An armed alert fires.** In a run that arms no row with a success on record and records no
success on an armed row, every stored row is valid, admits its firing where it is active, and
admits every claim and every finalisation. -/
theorem always_fires {t : PriceAlertTable} {acts : List AlertAct}
    (h : Run (Guarded (fun t act => AlertOperation (fun _ => True) act ∧ KeepsFirable t act) AlertStep) Dict.empty
      acts t) : ∀ id a, t.get? id = some a → AlwaysFires t a := by
  have hfirable : Firable t := by
    refine h.invariant ?_ Firable.empty
    rintro s act s' hs ⟨⟨hop, hkeeps⟩, rfl⟩
    exact hs.after hop hkeeps
  exact fun id a hget => hfirable.alwaysFires hget

theorem always_fires_created :
    AlwaysFires (PriceAlertTable.after Dict.empty (.createOrRearm SecondFiring.created 1000))
      SecondFiring.created := by
  have hrun : Run (Guarded (fun t act => AlertOperation (fun _ => True) act ∧ KeepsFirable t act) AlertStep)
      Dict.empty [.createOrRearm SecondFiring.created 1000]
      (PriceAlertTable.after Dict.empty (.createOrRearm SecondFiring.created 1000)) :=
    .single ⟨⟨.createOrRearm _ _, rfl, by simp⟩, rfl⟩
  exact always_fires hrun "pa-1" SecondFiring.created (by decide +kernel)

/-- The invariant of the table along any run of operations. -/
theorem tableInv_of_run {t' : PriceAlertTable} {acts : List AlertAct}
    (h : Run (Guarded (fun _ act => AlertOperation (fun _ => True) act) AlertStep) t acts t') (ht : TableInv t) :
    TableInv t' := by
  refine h.invariant ?_ ht
  rintro s act s' hinv ⟨hop, rfl⟩
  exact hinv.after hop.keepsKey

/-- After one delivered firing and a re-arm, the next firing of the alert raises. -/
theorem second_firing_raises :
    ¬ ∀ acts t, Run (Guarded (fun _ act => AlertOperation (fun _ => True) act) AlertStep) Dict.empty acts t →
      ∀ id a, t.get? id = some a → AlwaysFires t a := by
  intro hclaim
  have hrun := (run_after Dict.empty SecondFiring.acts).guard SecondFiring.operation
  have hstored : (((SecondFiring.acts.foldl PriceAlertTable.after Dict.empty).get? "pa-1").map
      fun a => (a.id, a.kind, a.active, deliveredOk a.result)) =
        some ("pa-1", .price, true, true) := by
    decide +kernel
  obtain ⟨a, hget, hfacts⟩ := Option.map_eq_some_iff.mp hstored
  simp only [Prod.mk.injEq] at hfacts
  obtain ⟨hid, hkind, hactive, hok⟩ := hfacts
  have hrow : (SecondFiring.acts.foldl PriceAlertTable.after Dict.empty).get? a.id = some a := by
    rw [hid]
    exact hget
  have hfiring : MonitorFiring a 4000 _ _ := .cross hkind 5001 4000000
  obtain ⟨e, herror⟩ := firing_raises (tableInv_of_run hrun .empty) hrow hactive hok (by decide)
    hfiring
  obtain ⟨m, hm, -⟩ := (hclaim _ _ hrun _ a hget).fires hactive _ _ 4000 (by decide) hfiring
  exact absurd (herror.symm.trans hm) (by simp)

end AefTerminal
