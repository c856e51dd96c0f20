import AefTerminal.Alerts.Monitor
import AefTerminal.Alerts.Writers

/-!
# The payload updates that are issued

The monitor and the delivery workers are the only callers of the payload update. `Issued` lists
what they call it with, from the snapshot they hold; the functions of both commit one of these
updates or nothing. What an issued update leaves alone is said here once.

## Main results

* `persistPriceAlertDelivery_commit`, `publishDynamicAlertState_commit`, …: what is committed is
  an issued update
* `Issued.frame_eq`, `Issued.armed`, `Issued.retain`: what an issued update keeps
-/

namespace AefTerminal

open Foundation

/-- The updates issued from the snapshot `s`, by what issues them. -/
inductive Issued (s : PriceAlert) : PayloadGuard → (PriceAlert → PriceAlert) → Prop
  | crossFired (hkind : s.kind = .price) (current : ℚ) (now : ℕ) (ts : Time) :
      Issued s (firingGuard s)
        (firingPatch s (alertMonitorPayload s current now ts) (crossFiredPatch s current now) now)
  | dynamicFired (hkind : s.kind = .ema233Touch) (state : EmaTouchGuideState)
      (direction : TouchDirection) (rearmMs : ℕ) (current : ℚ) (now : ℕ) (ts : Time) :
      Issued s (firingGuard s)
        (firingPatch s (dynamicPayload s state current now ts)
          (dynamicFiredPatch state direction rearmMs now) now)
  | vsaFired (hkind : s.kind = .vsaFuel) (eventTs : Time) (level current : ℚ) (now : ℕ)
      (ts : Time) :
      Issued s (firingGuard s)
        (firingPatch s (alertMonitorPayload { s with price := level } current now ts)
          (vsaFiredPatch eventTs level now) now)
  | dynamicSeen (hkind : s.kind = .ema233Touch) (state : EmaTouchGuideState)
      (direction : TouchDirection) :
      Issued s (evaluationGuard s) (dynamicStatePatch state direction)
  | vsaSeen (hkind : s.kind = .vsaFuel) (eventTs : Option Time) :
      Issued s (evaluationGuard s) (vsaStatePatch eventTs)
  | claimed (pending : TelegramPayload) (now : ℕ) :
      Issued s (deliveryGuard s pending) (claimPatch (claimAttemptAt s now))
  | finalized (pending : TelegramPayload) (delivery : TelegramDelivery) (result : TelegramResult) :
      Issued s (deliveryGuard s pending) (finalizePatch delivery result)

/-- The update of the row that the snapshot `s` was read from. -/
abbrev AlertAct.updateOf (s : PriceAlert) (guard : PayloadGuard) (patch : PriceAlert → PriceAlert) :
    AlertAct :=
  .update s.id s.instrumentId s.routeFingerprint guard patch

/-! ### What is committed -/

section Commit

variable {t : PriceAlertTable} {s : PriceAlert} {m : AlertCommit}

theorem persistPriceAlertDelivery_commit {payload : TelegramPayload}
    {statePatch : PriceAlert → PriceAlert} {now : ℕ}
    (h : persistPriceAlertDelivery t s payload statePatch now = .ok m) :
    m = .unchanged t none ∨ t.perform
      (.updateOf s (firingGuard s) (firingPatch s payload statePatch now)) = .ok m := by
  obtain ⟨accepted, -, h⟩ := bind_eq_ok.mp h
  split at h
  · exact .inr h
  · exact .inl (pure_eq_ok.mp h).symm

theorem persistAlertEvaluationState_commit {statePatch : PriceAlert → PriceAlert}
    (h : persistAlertEvaluationState t s statePatch = .ok m) :
    m = .unchanged t none ∨
      t.perform (.updateOf s (evaluationGuard s) statePatch) = .ok m := by
  unfold persistAlertEvaluationState at h
  split at h
  · exact .inl (pure_eq_ok.mp h).symm
  · exact .inr h

theorem publishDynamicAlertState_commit (hkind : s.kind = .ema233Touch)
    {state : EmaTouchGuideState} {current : ℚ} {now : ℕ} {ts : Time}
    (h : publishDynamicAlertState t s state current now ts = .ok m) :
    m = .unchanged t none ∨ ∃ guard patch, Issued s guard patch ∧
      t.perform (.updateOf s guard patch) = .ok m := by
  obtain ⟨⟨⟩, -, h⟩ := bind_eq_ok.mp h
  split at h
  · exact .inl (pure_eq_ok.mp h).symm
  split at h
  · obtain ⟨rearmMs, -, h⟩ := bind_eq_ok.mp h
    rcases persistPriceAlertDelivery_commit h with h | h
    · exact .inl h
    · exact .inr ⟨_, _, .dynamicFired hkind state _ rearmMs current now ts, h⟩
  · rcases persistAlertEvaluationState_commit h with h | h
    · exact .inl h
    · exact .inr ⟨_, _, .dynamicSeen hkind state _, h⟩

theorem publishVsaAlertState_commit (hkind : s.kind = .vsaFuel) {state : VsaFuelAlertState}
    {current : ℚ} {now : ℕ} {ts : Time}
    (h : publishVsaAlertState t s state current now ts = .ok m) :
    m = .unchanged t none ∨ ∃ guard patch, Issued s guard patch ∧
      t.perform (.updateOf s guard patch) = .ok m := by
  unfold publishVsaAlertState at h
  split at h
  · rcases persistPriceAlertDelivery_commit h with h | h
    · exact .inl h
    · exact .inr ⟨_, _, .vsaFired hkind _ _ current now ts, h⟩
  · rcases persistAlertEvaluationState_commit h with h | h
    · exact .inl h
    · exact .inr ⟨_, _, .vsaSeen hkind _, h⟩

theorem claimPriceTelegramDelivery_commit {pending : TelegramPayload} {now : ℕ}
    (h : claimPriceTelegramDelivery t s pending now = .ok m) :
    t.perform (.updateOf s (deliveryGuard s pending) (claimPatch (claimAttemptAt s now))) =
      .ok m := by
  obtain ⟨⟨⟩, -, h⟩ := bind_eq_ok.mp h
  exact h

theorem telegramDeliveryPatch_eq_ok {result : TelegramSendResult} {payload : TelegramPayload}
    {now retryCount : ℕ} {since : Option ℕ} {delivery : TelegramDelivery} {recorded : TelegramResult}
    (h : telegramDeliveryPatch result payload now retryCount since = .ok (delivery, recorded)) :
    result.ok = result.status.isSuccess ∧ 0 < now ∧
      delivery = .attempted result payload now retryCount since ∧
      recorded = result.recorded now := by
  obtain ⟨⟨⟩, hok, h⟩ := bind_eq_ok.mp h
  obtain ⟨⟨⟩, hnow, h⟩ := bind_eq_ok.mp h
  obtain ⟨⟨⟩, -, h⟩ := bind_eq_ok.mp h
  obtain ⟨⟨⟩, -, h⟩ := bind_eq_ok.mp h
  obtain ⟨⟨⟩, -, h⟩ := bind_eq_ok.mp h
  cases (pure_eq_ok.mp h)
  exact ⟨require_eq_ok.mp hok, require_eq_ok.mp hnow, rfl, rfl⟩

theorem finalizePriceTelegramDelivery_commit {claimed : PriceAlert} {pending : TelegramPayload}
    {result : TelegramSendResult} {now : ℕ} (hkey : claimed.key = s.key)
    (h : finalizePriceTelegramDelivery t s claimed pending result now = .ok m) :
    t.perform (.updateOf claimed (deliveryGuard claimed pending)
      (finalizePatch
        (.attempted result (deliveryPayload s pending) now claimed.delivery.telegramRetryCount
          (some claimed.delivery.telegramPendingSince))
        (result.recorded now))) = .ok m := by
  obtain ⟨⟨delivery, recorded⟩, hpatch, h⟩ := bind_eq_ok.mp h
  obtain ⟨-, -, rfl, rfl⟩ := telegramDeliveryPatch_eq_ok hpatch
  obtain ⟨hid, hinstrument, hroute⟩ := AlertKey.mk.inj hkey
  rw [AlertAct.updateOf, hid, hinstrument, hroute]
  exact h

end Commit

/-! ### What is left alone -/

/-- The definition of a row and its generation. The price belongs to the definition of a fixed
price only. -/
structure AlertFrame where
  key : AlertKey
  provider : String
  providerContractId : String
  symbol : String
  timeframe : String
  kind : PriceAlertKind
  label : String
  direction : PriceAlertDirection
  fixedPrice : Option ℚ
  toleranceAtr : ℚ
  tolerancePoints : ℚ
  rearmMinutes : ℕ
  levelSource : LevelSource
  enabled : Bool
  rearmedAt : ℕ
  createdAt : ℕ
  deriving DecidableEq

def PriceAlert.frame (a : PriceAlert) : AlertFrame where
  key := a.key
  provider := a.provider
  providerContractId := a.providerContractId
  symbol := a.symbol
  timeframe := a.timeframe
  kind := a.kind
  label := a.label
  direction := a.direction
  fixedPrice := if a.kind = .price then some a.price else none
  toleranceAtr := a.toleranceAtr
  tolerancePoints := a.tolerancePoints
  rearmMinutes := a.rearmMinutes
  levelSource := a.levelSource
  enabled := a.enabled
  rearmedAt := a.rearmedAt
  createdAt := a.createdAt

/-- Rows of one frame have one definition. -/
theorem PriceAlert.definitionIdentity_eq_of_frame {a b : PriceAlert} (h : a.frame = b.frame) :
    a.definitionIdentity = b.definitionIdentity := by
  obtain ⟨hkey, -, -, -, htimeframe, hkind, -, hdirection, hprice, hatr, hpoints, -⟩ :=
    AlertFrame.mk.inj h
  obtain ⟨-, hinstrument, hroute⟩ := AlertKey.mk.inj hkey
  have hprice' : (if a.kind = .price then some (generalKey a.price) else none) =
      if b.kind = .price then some (generalKey b.price) else none := by
    rw [hkind] at hprice ⊢
    by_cases hb : b.kind = .price
    · rw [if_pos hb, if_pos hb] at hprice
      rw [if_pos hb, if_pos hb, Option.some.inj hprice]
    · rw [if_neg hb, if_neg hb]
  simp only [PriceAlert.definitionIdentity, PriceAlertIdentity.mk.injEq]
  exact ⟨hinstrument, hroute, htimeframe, hkind, hdirection, hprice', by rw [hatr], by rw [hpoints]⟩

namespace PayloadGuard

variable {g : PayloadGuard} {a : PriceAlert}

theorem generation_eq (h : g.agree a = true) {generation : ℕ}
    (hg : g.expectedRearmedAt = some generation) : generation = a.rearmedAt := by
  simp only [agree, hg, Option.all_some, Bool.and_eq_true, decide_eq_true_eq] at h
  exact h.1.1.1

theorem active (h : g.agree a = true) (hg : g.requireActive = true) : a.active = true := by
  simp only [agree, hg, Bool.not_true, Bool.false_or, Bool.and_eq_true] at h
  exact h.1.1.2

end PayloadGuard

namespace Issued

variable {s a : PriceAlert} {guard : PayloadGuard} {patch : PriceAlert → PriceAlert}

theorem key_eq (h : Issued s guard patch) (a : PriceAlert) : (patch a).key = a.key := by
  cases h <;> rfl

theorem keepsKey (h : Issued s guard patch) : (AlertAct.updateOf s guard patch).KeepsKey := h.key_eq

/-- An issued update applies in the generation of its snapshot only. -/
theorem generation_eq (h : Issued s guard patch) (hagree : guard.agree a = true) :
    s.rearmedAt = a.rearmedAt := by
  refine PayloadGuard.generation_eq hagree ?_
  cases h <;> rfl

/-- An issued update keeps the frame of a row of its own kind. -/
theorem frame_eq (h : Issued s guard patch) (hkind : s.kind = a.kind) :
    (patch a).frame = a.frame := by
  cases h with
  | dynamicFired hdynamic | dynamicSeen hdynamic =>
    have hnot : a.kind ≠ .price := by rw [← hkind, hdynamic]; simp
    simp [PriceAlert.frame, firingPatch, dynamicFiredPatch, dynamicStatePatch, PriceAlert.key, hnot]
  | crossFired | vsaFired | vsaSeen | claimed | finalized => rfl

/-- No issued update arms a row. -/
theorem armed (h : Issued s guard patch) (hagree : guard.agree a = true)
    (harmed : (patch a).armed = true) : a.armed = true := by
  cases h with
  | crossFired => exact absurd harmed (by simp [firingPatch, crossFiredPatch])
  | dynamicFired | vsaFired =>
    have hactive := PayloadGuard.active hagree rfl
    simp only [PriceAlert.active, Bool.and_eq_true] at hactive
    exact hactive.2
  | dynamicSeen | vsaSeen | claimed | finalized => exact harmed

/-- No issued update leaves a retained row inert. -/
theorem retain (h : Issued s guard patch) (hagree : guard.agree a = true)
    (ha : a.retain = true) : (patch a).retain = true := by
  have henabled : a.enabled = true := by
    simp only [PriceAlert.retain, Bool.and_eq_true] at ha
    exact ha.1
  cases h with
  | crossFired => simp [PriceAlert.retain, firingPatch, crossFiredPatch, henabled]
  | dynamicFired =>
    simp [PriceAlert.retain, firingPatch, dynamicFiredPatch, dynamicStatePatch, henabled]
  | vsaFired => simp [PriceAlert.retain, firingPatch, vsaFiredPatch, henabled]
  | dynamicSeen | vsaSeen | claimed | finalized => exact ha

end Issued

/-! ### Operations -/

/-- The calls that reach the table: those of the commands, and the updates issued from a snapshot
that is `known`. -/
inductive AlertOperation (known : PriceAlert → Prop) : AlertAct → Prop
  | issued {s : PriceAlert} {guard : PayloadGuard} {patch : PriceAlert → PriceAlert}
      (hs : known s) (h : Issued s guard patch) : AlertOperation known (.updateOf s guard patch)
  | createOrRearm (candidate : PriceAlert) (rearmedAt : ℕ) :
      AlertOperation known (.createOrRearm candidate rearmedAt)
  | rearm (alertId instrumentId routeFingerprint : String) (rearmedAt : ℕ)
      (definitionPatch : DefinitionPatch) (expectedRearmedAt : Option ℕ) :
      AlertOperation known
        (.rearm alertId instrumentId routeFingerprint rearmedAt definitionPatch expectedRearmedAt)
  | setEnabled (alertId instrumentId routeFingerprint : String) (enabled : Bool) (rearmedAt : ℕ)
      (expectedRearmedAt : Option ℕ) :
      AlertOperation known
        (.setEnabled alertId instrumentId routeFingerprint enabled rearmedAt expectedRearmedAt)
  | delete (alertId instrumentId routeFingerprint : String) (expectedRearmedAt : Option ℕ) :
      AlertOperation known (.delete alertId instrumentId routeFingerprint expectedRearmedAt)
  | deleteScope (instrumentId routeFingerprint timeframe : String) :
      AlertOperation known (.deleteScope instrumentId routeFingerprint timeframe)

theorem AlertOperation.keepsKey {known : PriceAlert → Prop} {act : AlertAct}
    (h : AlertOperation known act) : act.KeepsKey := by
  cases h with
  | issued _ h => exact h.keepsKey
  | createOrRearm | rearm | setEnabled | delete | deleteScope => trivial

/-- An update among the operations is issued from a known snapshot. -/
theorem AlertOperation.issued_of_update {known : PriceAlert → Prop} {act : AlertAct}
    (h : AlertOperation known act) {id instrumentId routeFingerprint : String} {guard : PayloadGuard}
    {patch : PriceAlert → PriceAlert}
    (hact : act = .update id instrumentId routeFingerprint guard patch) :
    ∃ s, known s ∧ s.id = id ∧ Issued s guard patch := by
  cases h with
  | @issued s guard' patch' hs hissued =>
    obtain ⟨hid, -, -, rfl, rfl⟩ := AlertAct.update.inj hact
    exact ⟨s, hs, hid, hissued⟩
  | createOrRearm | rearm | setEnabled | delete | deleteScope => cases hact

end AefTerminal
