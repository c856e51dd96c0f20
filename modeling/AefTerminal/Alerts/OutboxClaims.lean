import AefTerminal.Alerts.Outbox

/-!
# Claims of the outbox

The message of a row is a task under leases, and its epoch is the generation of the row with the
payload: a firing of the same generation writes another payload, because its trigger is later, and
every command starts a later generation. So the rules of leases apply to the claims of an alert:
what a claim left is left by that claim alone, and no phase is claimed twice.

## Main definitions

* `DeliveryState`: what a claim and a finalisation compare
* `Outbox.lease`: the message of the alert as a leased task
* `OutboxInv`: the invariant
* `Outbox.Ends`: the steps that end what an alert owes

## Main results

* `Outbox.leaseStep`: every step is a step of the leased task
* `outbox_claims`: claims, finalisations and what is owed, along a run
-/

namespace AefTerminal

open Foundation

/-- Where the message of a row stands. -/
structure DeliveryState where
  rearmedAt : ℕ
  telegramPendingPayload : Option TelegramPayload
  telegramDeliveryStatus : TelegramDeliveryStatus
  telegramClaimedAt : ℕ
  telegramNextRetryAt : ℕ
  deriving DecidableEq

namespace PriceAlert

def deliveryState (a : PriceAlert) : DeliveryState where
  rearmedAt := a.rearmedAt
  telegramPendingPayload := a.delivery.telegramPendingPayload
  telegramDeliveryStatus := a.delivery.telegramDeliveryStatus
  telegramClaimedAt := a.delivery.telegramClaimedAt
  telegramNextRetryAt := a.delivery.telegramNextRetryAt

def leasePhase (a : PriceAlert) : LeasePhase where
  held := a.delivery.telegramDeliveryStatus = .delivering
  stamp := a.delivery.telegramClaimedAt
  due := a.delivery.telegramNextRetryAt

def lease (a : PriceAlert) : Option ((ℕ × TelegramPayload) × LeasePhase) :=
  a.delivery.telegramPendingPayload.map fun p => ((a.rearmedAt, p), a.leasePhase)

end PriceAlert

def DeliveryClaim.lease (c : DeliveryClaim) : LeaseClaim (ℕ × TelegramPayload) where
  epoch := (c.claimed.rearmedAt, c.pending)
  seen := c.snapshot.leasePhase
  left := c.claimed.leasePhase
  now := c.now

/-- The message of the alert `id` as a leased task. -/
def Outbox.lease (id : String) (s : Outbox) : Lease (ℕ × TelegramPayload) where
  current := (s.row id).bind PriceAlert.lease
  claims := s.claims.map DeliveryClaim.lease
  released := s.finalized

/-! ### Comparisons -/

variable {a s : PriceAlert}

theorem deliveryState_of_agree {pending : TelegramPayload}
    (hpending : s.delivery.telegramPendingPayload = some pending)
    (h : (deliveryGuard s pending).agree a = true) : a.deliveryState = s.deliveryState := by
  simp only [PayloadGuard.agree, deliveryGuard, ExpectedFields.agree, Option.all_some,
    Option.all_none, Bool.and_eq_true, decide_eq_true_eq, Bool.not_false, Bool.true_or, and_true,
    true_and] at h
  obtain ⟨⟨hgeneration, hpayload⟩, ⟨hstatus, hclaimed⟩, hretry⟩ := h
  rw [PriceAlert.deliveryState, PriceAlert.deliveryState, ← hgeneration, ← hpayload, ← hstatus,
    ← hclaimed, ← hretry, hpending]

theorem lease_of_deliveryState {b : PriceAlert} (h : a.deliveryState = b.deliveryState) :
    a.lease = b.lease := by
  obtain ⟨hgeneration, hpayload, hstatus, hclaimed, hretry⟩ := DeliveryState.mk.inj h
  rw [PriceAlert.lease, PriceAlert.lease, PriceAlert.leasePhase, PriceAlert.leasePhase, hgeneration,
    hpayload, hstatus, hclaimed, hretry]

theorem lease_of_payload {p : TelegramPayload} (h : a.delivery.telegramPendingPayload = some p) :
    a.lease = some ((a.rearmedAt, p), a.leasePhase) := by
  rw [PriceAlert.lease, h]
  rfl

theorem lease_of_settled (h : a.delivery.telegramPendingPayload = none) :
    a.lease = none := by
  rw [PriceAlert.lease, h]
  rfl

theorem dueDelivery_eq_some {now : ℕ} {pending : TelegramPayload}
    (h : dueDelivery s now = some pending) :
    s.delivery.telegramPendingPayload = some pending ∧ s.delivery.telegramNextRetryAt ≤ now := by
  rw [dueDelivery] at h
  split at h
  · rename_i hdue
    obtain ⟨⟨⟩, -, hdue⟩ := bind_eq_ok.mp hdue
    obtain ⟨⟨⟩, -, hdue⟩ := bind_eq_ok.mp hdue
    rw [h] at hdue
    exact ⟨h, by simpa using pure_eq_ok.mp hdue⟩
  · cases h

/-- What is owed is pending or being delivered. -/
theorem PriceAlert.Valid.status_of_payload (h : a.Valid) {p : TelegramPayload}
    (hp : a.delivery.telegramPendingPayload = some p) :
    a.delivery.telegramDeliveryStatus = .pending ∨
      a.delivery.telegramDeliveryStatus = .delivering := by
  have hvalid := h.delivery
  unfold TelegramDelivery.Valid at hvalid
  cases hstatus : a.delivery.telegramDeliveryStatus with
  | pending => exact .inl rfl
  | delivering => exact .inr rfl
  | sent =>
    rw [hstatus] at hvalid
    exact absurd (hp.symm.trans hvalid.2.payload) (by simp)
  | cancelled =>
    rw [hstatus] at hvalid
    exact absurd (hp.symm.trans hvalid.payload) (by simp)

/-! ### Patches -/

/-- What an evaluation leaves alone of the runtime state. -/
theorem EvaluationPatch.runtime {patch : PriceAlert → PriceAlert}
    (h : EvaluationPatch s patch) (a : PriceAlert) :
    (patch a).rearmedAt = a.rearmedAt ∧ (patch a).delivery = a.delivery ∧
      (patch a).lastFiredAt = a.lastFiredAt ∧ (patch a).kind = a.kind ∧
      (patch a).armed = a.armed := by
  cases h <;> exact ⟨rfl, rfl, rfl, rfl, rfl⟩

theorem MonitorFiring.runtime {now : ℕ} {payload : TelegramPayload}
    {patch : PriceAlert → PriceAlert} (h : MonitorFiring s now payload patch) (a : PriceAlert) :
    (firingPatch s payload patch now a).rearmedAt = a.rearmedAt ∧
      (firingPatch s payload patch now a).lastFiredAt = some now ∧
      (firingPatch s payload patch now a).kind = a.kind ∧
      (s.kind = .price → (firingPatch s payload patch now a).armed = false) ∧
      payload.triggerEventAt = now := by
  cases h with
  | cross => exact ⟨rfl, rfl, rfl, fun _ => rfl, rfl⟩
  | dynamic hkind | vsa hkind =>
    exact ⟨rfl, rfl, rfl, fun hprice => absurd (hkind.symm.trans hprice) (by simp), rfl⟩

/-! ### The invariant -/

/-- A row of the generation that owed `p` fired it, and a fixed price did not arm again. -/
def FiredBefore (a : PriceAlert) (p : TelegramPayload) : Prop :=
  (∃ last, a.lastFiredAt = some last ∧ p.triggerEventAt ≤ last) ∧
    (a.kind = .price → a.armed = false)

structure OutboxInv (id : String) (s : Outbox) : Prop where
  history : HistoryInv s.history
  own : s.Own id
  pending : ∀ c ∈ s.claims, c.snapshot.delivery.telegramPendingPayload = some c.pending ∧
    c.claimed.delivery.telegramPendingPayload = some c.pending ∧
    c.claimed.rearmedAt = c.snapshot.rearmedAt
  fired : ∀ a, s.row id = some a → ∀ b ∈ s.history.seen, b.id = id → b.rearmedAt = a.rearmedAt →
    ∀ p, b.delivery.telegramPendingPayload = some p → FiredBefore a p
  lease : LeaseInv (s.lease id)

namespace OutboxInv

variable {id : String} {s : Outbox} {act : OutboxAct}

theorem empty : OutboxInv id .empty where
  history := .empty
  own := by simp [Outbox.Own, Outbox.empty]
  pending := by simp [Outbox.empty]
  fired a ha := absurd ha (by simp [Outbox.row, Outbox.empty, AlertHistory.empty])
  lease := by
    have hempty : Outbox.lease id .empty = ⟨none, [], []⟩ := by
      simp [Outbox.lease, Outbox.empty, Outbox.row, AlertHistory.empty]
    exact hempty ▸ .empty

variable {a : PriceAlert}

theorem seen (h : OutboxInv id s) (ha : s.row id = some a) :
    a ∈ s.history.seen :=
  h.history.seen id a ha

/-- A firing that is stored writes a payload no claim was made for. -/
theorem fresh (h : OutboxInv id s) {snapshot : PriceAlert} {payload : TelegramPayload}
    {patch : PriceAlert → PriceAlert} {now : ℕ} (ha : s.row id = some a)
    (hfiring : MonitorFiring snapshot now payload patch) (hkind : snapshot.kind = a.kind)
    (hlater : snapshot.kind ≠ .price → ∀ last, snapshot.lastFiredAt = some last → last < now)
    (hagree : (firingGuard snapshot).agree a = true) {b : PriceAlert} (hb : b ∈ s.history.seen)
    (hid : b.id = id) (hgeneration : b.rearmedAt = a.rearmedAt) {p : TelegramPayload}
    (hp : b.delivery.telegramPendingPayload = some p) :
    snapshot.kind ≠ .price ∧ p.triggerEventAt < payload.triggerEventAt := by
  obtain ⟨⟨last, hlast, hle⟩, harmed⟩ := h.fired a ha b hb hid hgeneration p hp
  have hactive := PayloadGuard.active hagree rfl
  simp only [PriceAlert.active, Bool.and_eq_true] at hactive
  have hnot : snapshot.kind ≠ .price := fun hprice =>
    absurd ((harmed (hkind.symm.trans hprice)).symm.trans hactive.2) (by simp)
  have hsame : snapshot.lastFiredAt = a.lastFiredAt := by
    simp only [PayloadGuard.agree, firingGuard, ExpectedFields.agree, Option.all_some,
      Bool.and_eq_true, decide_eq_true_eq] at hagree
    exact hagree.2.1.1.1.1
  refine ⟨hnot, ?_⟩
  rw [(hfiring.runtime a).2.2.2.2]
  exact lt_of_le_of_lt hle (hlater hnot last (hsame.trans hlast))

variable {s' : Outbox}

theorem fired_of_row
    (hseen : ∀ b ∈ s'.history.seen, b.id = id → b ∈ s.history.seen ∨ s'.row id = some b)
    {a' : PriceAlert} (ha' : s'.row id = some a')
    (hold : ∀ b ∈ s.history.seen, b.id = id → b.rearmedAt = a'.rearmedAt →
      ∀ p, b.delivery.telegramPendingPayload = some p → FiredBefore a' p)
    (hnew : ∀ p, a'.delivery.telegramPendingPayload = some p → FiredBefore a' p) :
    ∀ a, s'.row id = some a → ∀ b ∈ s'.history.seen, b.id = id → b.rearmedAt = a.rearmedAt →
      ∀ p, b.delivery.telegramPendingPayload = some p → FiredBefore a p := by
  intro a ha b hb hid hgeneration p hp
  cases (ha'.symm.trans ha)
  rcases hseen b hb hid with hb | hb
  · exact hold b hb hid hgeneration p hp
  · cases (ha'.symm.trans hb)
    exact hnew p hp

/-- A row that was fired stays so while its generation, its last firing and its arming stay. -/
theorem fired_of_kept (h : OutboxInv id s)
    (hseen : ∀ b ∈ s'.history.seen, b.id = id → b ∈ s.history.seen ∨ s'.row id = some b)
    {a' : PriceAlert} (ha : s.row id = some a) (ha' : s'.row id = some a')
    (hgeneration : a'.rearmedAt = a.rearmedAt) (hlast : a'.lastFiredAt = a.lastFiredAt)
    (hkind : a'.kind = a.kind) (harmed : a'.armed = a.armed)
    (hpayload : ∀ p, a'.delivery.telegramPendingPayload = some p →
      a.delivery.telegramPendingPayload = some p) :
    ∀ a, s'.row id = some a → ∀ b ∈ s'.history.seen, b.id = id → b.rearmedAt = a.rearmedAt →
      ∀ p, b.delivery.telegramPendingPayload = some p → FiredBefore a p := by
  have hkeep {p : TelegramPayload} (hp : FiredBefore a p) : FiredBefore a' p := by
    rw [FiredBefore, hlast, hkind, harmed]
    exact hp
  have hid := h.history.id_eq id a ha
  exact fired_of_row hseen ha'
    (fun b hb hbid hb' p hp => hkeep (h.fired a ha b hb hbid (hb'.trans hgeneration) p hp))
    fun p hp => hkeep (h.fired a ha a (h.seen ha) hid rfl p (hpayload p hp))

/-- What a finalisation leaves in the row that a claim left. -/
def finalizedRow (c : DeliveryClaim) (result : TelegramSendResult) (a : PriceAlert) : PriceAlert :=
  finalizePatch
    (.attempted result (deliveryPayload c.snapshot c.pending) c.now
      c.claimed.delivery.telegramRetryCount (some c.claimed.delivery.telegramPendingSince))
    (result.recorded c.now) a

/-- A send that failed leaves the same message, due after a delay; one that succeeded leaves
nothing. -/
theorem finalizedRow_lease {c : DeliveryClaim} (result : TelegramSendResult)
    (ha : a.Valid) (hkey : a.key = c.snapshot.key)
    (hp : a.delivery.telegramPendingPayload = some c.pending) :
    (result.ok = true ∧ (finalizedRow c result a).delivery.telegramPendingPayload = none) ∨
      (finalizedRow c result a).delivery.telegramPendingPayload = some c.pending ∧
        ∃ due, c.now < due ∧
          (finalizedRow c result a).lease = some ((a.rearmedAt, c.pending), ⟨false, 0, due⟩) := by
  have hpayload : deliveryPayload c.snapshot c.pending = c.pending := by
    obtain ⟨-, hinstrument, hroute⟩ := AlertKey.mk.inj hkey
    have hnames := deliveryPayload_eq (ha.delivery.owes hp).2
    rw [deliveryPayload, ← hinstrument, ← hroute]
    exact hnames
  cases hok : result.ok with
  | true =>
    refine .inl ⟨rfl, ?_⟩
    simp [finalizedRow, finalizePatch, TelegramDelivery.attempted, hok,
      TelegramDelivery.cancelledState]
  | false =>
    refine .inr ⟨?_, c.now + retryDelayMs (c.claimed.delivery.telegramRetryCount + 1),
      Nat.lt_add_of_pos_right (retryDelayMs_pos _), ?_⟩
    · simp [finalizedRow, finalizePatch, TelegramDelivery.attempted, hok, hpayload]
    · simp [PriceAlert.lease, PriceAlert.leasePhase, finalizedRow, finalizePatch,
        TelegramDelivery.attempted, hok, hpayload]

theorem current_of_row {a' : PriceAlert} (h : s'.row id = some a') :
    (s'.lease id).current = a'.lease := by
  show (s'.row id).bind PriceAlert.lease = a'.lease
  rw [h]
  rfl

theorem lease_eq {x : Option ((ℕ × TelegramPayload) × LeasePhase)}
    (hcurrent : (s'.lease id).current = x) (hclaims : s'.claims = s.claims) :
    s'.lease id = { s.lease id with
      current := x
      released := s'.finalized } := by
  rw [← hcurrent, Outbox.lease, Outbox.lease, hclaims]

/-- Every step is a step of the leased task. -/
theorem leaseStep (h : OutboxInv id s) (hchange : OutboxChange id s act s') :
    LeaseStep (s.lease id) (s'.lease id) := by
  cases hchange with
  | same hrow hclaims hfinalized =>
    have hcurrent : (s'.lease id).current = (s.lease id).current :=
      congrArg (Option.bind · PriceAlert.lease) hrow
    rw [lease_eq hcurrent hclaims]
    exact .idle (.inl rfl) hfinalized
  | gone hrow hclaims hfinalized =>
    have hcurrent : (s'.lease id).current = none :=
      congrArg (Option.bind · PriceAlert.lease) hrow
    rw [lease_eq hcurrent hclaims]
    exact .idle (.inr rfl) (hfinalized ▸ List.Subset.refl _)
  | renewed hrow hsettled _ hclaims hfinalized =>
    rw [lease_eq ((current_of_row hrow).trans (lease_of_settled hsettled)) hclaims]
    exact .idle (.inr rfl) (hfinalized ▸ List.Subset.refl _)
  | @evaluated _ a _ _ hold hpatch hrow hclaims hfinalized =>
    obtain ⟨hgeneration, hdelivery, -⟩ := hpatch.runtime a
    have hsame : (s'.lease id).current = (s.lease id).current := by
      rw [current_of_row hrow, current_of_row hold, PriceAlert.lease, PriceAlert.lease,
        PriceAlert.leasePhase, PriceAlert.leasePhase, hgeneration, hdelivery]
    rw [lease_eq hsame hclaims]
    exact .idle (.inl rfl) (hfinalized ▸ List.Subset.refl _)
  | @fired snapshot a payload patch now _ hold hfiring hkind hlater hagree hrow hclaims
      hfinalized =>
    have hlease : (firingPatch snapshot payload patch now a).lease =
        some ((a.rearmedAt, payload), ⟨false, 0, now⟩) := by
      rw [← (hfiring.runtime a).1]
      rfl
    rw [lease_eq ((current_of_row hrow).trans hlease) hclaims, hfinalized]
    refine .enter fun e he hepoch => ?_
    obtain ⟨c, hc, rfl⟩ := List.mem_map.mp he
    obtain ⟨hid, hkey, hseen⟩ := h.own c hc
    obtain ⟨hgeneration, hpending⟩ := Prod.mk.inj hepoch
    have hlt := (h.fresh hold hfiring hkind hlater hagree hseen
      ((congrArg AlertKey.alertId hkey).trans hid) hgeneration (h.pending c hc).2.1).2
    exact absurd (congrArg TelegramPayload.triggerEventAt hpending) hlt.ne
  | @claimed snapshot a pending now _ hold hid hkey hdue hagree hrow hclaims hfinalized =>
    obtain ⟨hpending, hnow⟩ := dueDelivery_eq_some hdue
    have hstate := deliveryState_of_agree hpending hagree
    have hgeneration : a.rearmedAt = snapshot.rearmedAt := congrArg DeliveryState.rearmedAt hstate
    have hp : a.delivery.telegramPendingPayload = some pending :=
      (congrArg DeliveryState.telegramPendingPayload hstate).trans hpending
    have hcurrent : (s.lease id).current = some ((a.rearmedAt, pending), snapshot.leasePhase) := by
      rw [current_of_row hold, lease_of_deliveryState hstate, lease_of_payload hpending, hgeneration]
    have hlease : s'.lease id = { s.lease id with
        current := some ((a.rearmedAt, pending),
          (claimPatch (claimAttemptAt snapshot now) a).leasePhase)
        claims := (s.lease id).claims ++ [DeliveryClaim.lease
          ⟨snapshot, pending, claimPatch (claimAttemptAt snapshot now) a, now⟩] } := by
      have hnew : (claimPatch (claimAttemptAt snapshot now) a).lease = some ((a.rearmedAt, pending),
          (claimPatch (claimAttemptAt snapshot now) a).leasePhase) := lease_of_payload hp
      rw [← hnew, ← current_of_row hrow, Outbox.lease, Outbox.lease, hclaims, hfinalized,
        List.map_append]
      rfl
    rw [hlease]
    refine .claim (c := DeliveryClaim.lease
      ⟨snapshot, pending, claimPatch (claimAttemptAt snapshot now) a, now⟩) hcurrent hnow rfl ?_ ?_
    · exact (le_max_left _ _).trans (le_max_left _ _)
    · exact Nat.lt_add_of_pos_right (by decide)
  | @finalized n result a c _ hold hc hn hkey hagree hrow hclaims hfinalized =>
    have hmem := List.mem_of_getElem? hc
    obtain ⟨-, hpending, -⟩ := h.pending c hmem
    have hstate := deliveryState_of_agree hpending hagree
    have hp : a.delivery.telegramPendingPayload = some c.pending :=
      (congrArg DeliveryState.telegramPendingPayload hstate).trans hpending
    have hgeneration : a.rearmedAt = c.claimed.rearmedAt :=
      congrArg DeliveryState.rearmedAt hstate
    have ha := h.history.valid id a hold
    have hcurrent := current_of_row hrow
    rcases finalizedRow_lease result ha hkey hp with ⟨-, hsettled⟩ | ⟨-, due, hdue, hlease⟩
    · rw [lease_eq (hcurrent.trans (lease_of_settled hsettled)) hclaims, hfinalized]
      exact .idle (.inr rfl) (List.subset_cons_self _ _)
    · rw [lease_eq (hcurrent.trans hlease) hclaims, hfinalized, hgeneration]
      have hget : (s.lease id).claims[n]? = some c.lease := by
        rw [Outbox.lease, List.getElem?_map, hc]
        rfl
      refine .release (c := c.lease) hget hn ?_ hdue
      rw [current_of_row hold, lease_of_deliveryState hstate, lease_of_payload hpending]
      rfl

theorem own_step (h : OutboxInv id s) (hchange : OutboxChange id s act s')
    (hseen : ∀ b ∈ s.history.seen, b ∈ s'.history.seen)
    (hrows : ∀ b, s'.row id = some b → b ∈ s'.history.seen) :
    s'.Own id ∧ ∀ c ∈ s'.claims, c.snapshot.delivery.telegramPendingPayload = some c.pending ∧
      c.claimed.delivery.telegramPendingPayload = some c.pending ∧
      c.claimed.rearmedAt = c.snapshot.rearmedAt := by
  have hkept (hclaims : s'.claims = s.claims) : s'.Own id ∧
      ∀ c ∈ s'.claims, c.snapshot.delivery.telegramPendingPayload = some c.pending ∧
        c.claimed.delivery.telegramPendingPayload = some c.pending ∧
        c.claimed.rearmedAt = c.snapshot.rearmedAt := by
    rw [Outbox.Own, hclaims]
    refine ⟨fun c hc => ?_, h.pending⟩
    obtain ⟨hid, hkey, hmem⟩ := h.own c hc
    exact ⟨hid, hkey, hseen _ hmem⟩
  cases hchange with
  | same _ hclaims => exact hkept hclaims
  | gone _ hclaims => exact hkept hclaims
  | renewed _ _ _ hclaims => exact hkept hclaims
  | evaluated _ _ _ hclaims => exact hkept hclaims
  | fired _ _ _ _ _ _ hclaims => exact hkept hclaims
  | finalized _ _ _ _ _ _ hclaims => exact hkept hclaims
  | claimed hold hid hkey hdue hagree hrow hclaims =>
    obtain ⟨hpending, -⟩ := dueDelivery_eq_some hdue
    have hstate := deliveryState_of_agree hpending hagree
    rw [Outbox.Own, hclaims]
    refine ⟨fun c hc => ?_, fun c hc => ?_⟩ <;> rcases List.mem_append.mp hc with hc | hc
    · obtain ⟨hid, hkey, hmem⟩ := h.own c hc
      exact ⟨hid, hkey, hseen _ hmem⟩
    · obtain rfl := List.mem_singleton.mp hc
      exact ⟨hid, hkey, hrows _ hrow⟩
    · exact h.pending c hc
    · obtain rfl := List.mem_singleton.mp hc
      exact ⟨hpending, (congrArg DeliveryState.telegramPendingPayload hstate).trans hpending,
        congrArg DeliveryState.rearmedAt hstate⟩

theorem fired_step (h : OutboxInv id s) (hchange : OutboxChange id s act s')
    (hseen : ∀ b ∈ s'.history.seen, b.id = id → b ∈ s.history.seen ∨ s'.row id = some b) :
    ∀ a, s'.row id = some a → ∀ b ∈ s'.history.seen, b.id = id → b.rearmedAt = a.rearmedAt →
      ∀ p, b.delivery.telegramPendingPayload = some p → FiredBefore a p := by
  cases hchange with
  | same hrow =>
    intro a ha
    exact h.fired_of_kept hseen (hrow ▸ ha) ha rfl rfl rfl rfl (fun _ hp => hp) a ha
  | gone hrow =>
    intro a ha
    exact absurd (hrow.symm.trans ha) (by simp)
  | renewed hrow hsettled hlater =>
    refine fired_of_row hseen hrow (fun b hb hid hgeneration => ?_) fun p hp => ?_
    · exact absurd hgeneration (hlater b hb hid).ne
    · exact absurd (hsettled.symm.trans hp) (by simp)
  | @evaluated _ a _ _ hold hpatch hrow =>
    obtain ⟨hgeneration, hdelivery, hlast, hkind, harmed⟩ := hpatch.runtime a
    exact h.fired_of_kept hseen hold hrow hgeneration hlast hkind harmed
      fun p hp => hdelivery ▸ hp
  | @fired snapshot a payload patch now _ hold hfiring hkind hlater hagree hrow =>
    obtain ⟨hgeneration, hlast, hkind', harmed, htrigger⟩ := hfiring.runtime a
    refine fired_of_row hseen hrow (fun b hb hid hb' p hp => ?_) fun p hp => ?_
    · obtain ⟨hnot, hlt⟩ := h.fresh hold hfiring hkind hlater hagree hb hid
        (hb'.trans hgeneration) hp
      refine ⟨⟨now, hlast, (htrigger ▸ hlt).le⟩, fun hprice => ?_⟩
      exact absurd (hkind.trans (hkind'.symm.trans hprice)) hnot
    · obtain rfl : payload = p := Option.some.inj hp
      exact ⟨⟨now, hlast, htrigger.le⟩, fun hprice =>
        harmed (hkind.trans (hkind'.symm.trans hprice))⟩
  | claimed hold _ _ _ _ hrow =>
    exact h.fired_of_kept hseen hold hrow rfl rfl rfl rfl fun p hp => hp
  | @finalized n result a c _ hold hc _ hkey hagree hrow =>
    have hpending := (h.pending c (List.mem_of_getElem? hc)).2.1
    have hp : a.delivery.telegramPendingPayload = some c.pending :=
      (congrArg DeliveryState.telegramPendingPayload
        (deliveryState_of_agree hpending hagree)).trans hpending
    refine h.fired_of_kept hseen hold hrow rfl rfl rfl rfl fun p hp' => ?_
    rcases finalizedRow_lease result (h.history.valid id a hold) hkey hp with
      ⟨-, hsettled⟩ | ⟨hsame, -⟩
    · exact absurd (hsettled.symm.trans hp') (by simp)
    · rw [hp, ← hsame]
      exact hp'

theorem step (h : OutboxInv id s) (hok : s.Allowed id act) : OutboxInv id (s.step act) := by
  have hhistory := Outbox.historyInv_step h.history h.own hok
  have hchange := Outbox.change h.history h.own hok
  obtain ⟨hown, hpending⟩ := h.own_step hchange (fun b hb => Outbox.seen_step hb)
    fun b hb => hhistory.seen id b hb
  refine ⟨hhistory, hown, hpending, h.fired_step hchange fun b hb hid => ?_,
    h.lease.step (h.leaseStep hchange)⟩
  rcases Outbox.mem_seen_step hb with hb | ⟨j, hb⟩
  · exact .inl hb
  · obtain rfl : j = id := (hhistory.id_eq j b hb).symm.trans hid
    exact .inr hb

end OutboxInv

/-! ### Runs -/

theorem outboxInv_of_run {id : String} {s s' : Outbox} {acts : List OutboxAct}
    (hrun : Run (Guarded (Outbox.Allowed id) OutboxStep) s acts s') (h : OutboxInv id s) :
    OutboxInv id s' := by
  refine hrun.invariant ?_ h
  rintro s act s' hs ⟨hok, rfl⟩
  exact hs.step hok

/-- The steps that end what the alert owes: a send of the message that is finalised as a success, a
command that writes or deletes the row, and a later firing. -/
def Outbox.Ends (id : String) (p : TelegramPayload) (s : Outbox) : OutboxAct → Prop
  | .call act => (s.step (.call act)).row id ≠ s.row id
  | .fire snapshot payload patch now =>
    (s.step (.fire snapshot payload patch now)).row id ≠ s.row id
  | .finalize n result =>
    (s.step (.finalize n result)).row id ≠ s.row id ∧ result.ok = true ∧
      ∃ c, s.claims[n]? = some c ∧ c.pending = p
  | .evaluate .. => False
  | .claim .. => False

/-- The alert owes the message `p`. -/
structure OutboxOwes (id : String) (p : TelegramPayload) (s : Outbox) : Prop extends
    OutboxInv id s where
  owes : ∃ a, s.row id = some a ∧ a.delivery.telegramPendingPayload = some p

/-- What is owed stays owed through every step that does not end it. -/
theorem OutboxOwes.step {id : String} {s : Outbox} {act : OutboxAct} {p : TelegramPayload}
    (h : OutboxOwes id p s) (hok : s.Allowed id act) (hkeep : ¬ s.Ends id p act) :
    OutboxOwes id p (s.step act) := by
  refine ⟨h.toOutboxInv.step hok, ?_⟩
  obtain ⟨a, ha, hp⟩ := h.owes
  have hsame (hrow : (s.step act).row id = s.row id) :
      ∃ a, (s.step act).row id = some a ∧ a.delivery.telegramPendingPayload = some p :=
    ⟨a, hrow.trans ha, hp⟩
  have hchange := Outbox.change h.history h.own hok
  generalize hstep : s.step act = s' at hchange hsame ⊢
  cases hchange with
  | same hrow => exact hsame hrow
  | gone =>
    subst hstep
    exact hsame (by_contra hkeep)
  | renewed =>
    subst hstep
    exact hsame (by_contra hkeep)
  | fired =>
    subst hstep
    exact hsame (by_contra hkeep)
  | @evaluated _ b _ _ hold hpatch hrow =>
    obtain rfl := Option.some.inj (hold.symm.trans ha)
    exact ⟨_, hrow, by rw [(hpatch.runtime b).2.1, hp]⟩
  | claimed hold _ _ _ _ hrow =>
    obtain rfl := Option.some.inj (hold.symm.trans ha)
    exact ⟨_, hrow, hp⟩
  | @finalized n result b c _ hold hc hn hkey hagree hrow =>
    obtain rfl := Option.some.inj (hold.symm.trans ha)
    have hpending := (h.pending c (List.mem_of_getElem? hc)).2.1
    have hp' : b.delivery.telegramPendingPayload = some c.pending :=
      (congrArg DeliveryState.telegramPendingPayload
        (deliveryState_of_agree hpending hagree)).trans hpending
    obtain rfl : c.pending = p := Option.some.inj (hp'.symm.trans hp)
    rcases OutboxInv.finalizedRow_lease result (h.history.valid id b hold) hkey hp with
      ⟨hok, -⟩ | ⟨hsame', -⟩
    · subst hstep
      exact hsame (by_contra fun hne => hkeep ⟨hne, hok, c, hc, rfl⟩)
    · exact ⟨_, hrow, hsame'⟩

/-- **The outbox of an alert.** In every run of firings, claims, finalisations and commands: no two
claims that succeeded were made from one stored state; a finalisation that changes the row finds it
in the state that its claim left, no claim having succeeded after it; and a message that is owed
stays pending or being delivered through every step that does not end it. -/
theorem outbox_claims {id : String} {acts : List OutboxAct} {s : Outbox}
    (hrun : Run (Guarded (Outbox.Allowed id) OutboxStep) .empty acts s) :
    s.claims.Pairwise (fun c c' => c.snapshot.deliveryState ≠ c'.snapshot.deliveryState) ∧
      (∀ n result, (s.step (.finalize n result)).row id ≠ s.row id →
        ∃ c a, s.claims[n]? = some c ∧ n + 1 = s.claims.length ∧ n ∉ s.finalized ∧
          s.row id = some a ∧ a.deliveryState = c.claimed.deliveryState) ∧
      ∀ a p, s.row id = some a → a.delivery.telegramPendingPayload = some p → ∀ acts' s',
        Run (Guarded (fun s act => s.Allowed id act ∧ ¬ s.Ends id p act) OutboxStep) s acts' s' →
        ∃ a', s'.row id = some a' ∧ a'.delivery.telegramPendingPayload = some p ∧
          (a'.delivery.telegramDeliveryStatus = .pending ∨
            a'.delivery.telegramDeliveryStatus = .delivering) := by
  have hinv := outboxInv_of_run hrun .empty
  refine ⟨?_, fun n result hchanged => ?_, fun a p ha hp acts' s' hrun' => ?_⟩
  · have hpairwise := List.pairwise_map.mp hinv.lease.pairwise
    refine hpairwise.imp_of_mem fun {c c'} hc hc' hne hstate => ?_
    obtain ⟨hpending, -, hgeneration⟩ := hinv.pending c hc
    obtain ⟨hpending', -, hgeneration'⟩ := hinv.pending c' hc'
    have hlease := lease_of_deliveryState hstate
    rw [lease_of_payload hpending, lease_of_payload hpending'] at hlease
    obtain ⟨hepoch, hphase⟩ := Prod.mk.inj (Option.some.inj hlease)
    refine hne ?_ hphase
    show (c.claimed.rearmedAt, c.pending) = (c'.claimed.rearmedAt, c'.pending)
    rw [hgeneration, hgeneration', hepoch]
  · have hchange : OutboxChange id s (.finalize n result) (s.step (.finalize n result)) :=
      Outbox.change hinv.history hinv.own trivial
    generalize s.step (.finalize n result) = s' at hchange hchanged
    cases hchange with
    | same hrow => exact absurd hrow hchanged
    | @finalized _ _ a c _ hold hc hn hkey hagree =>
      have hpending := (hinv.pending c (List.mem_of_getElem? hc)).2.1
      have hstate := deliveryState_of_agree hpending hagree
      have hget : (s.lease id).claims[n]? = some c.lease := by
        rw [Outbox.lease, List.getElem?_map, hc]
        rfl
      have hlast := hinv.lease.is_last hget hn (by
        rw [OutboxInv.current_of_row hold, lease_of_deliveryState hstate, lease_of_payload hpending]
        rfl)
      have hlength : (s.lease id).claims.length = s.claims.length := List.length_map _
      exact ⟨c, a, hc, hlast.trans hlength, hn, hold, hstate⟩
  · have hstart : OutboxOwes id p s := ⟨hinv, a, ha, hp⟩
    have hend : OutboxOwes id p s' := by
      refine hrun'.invariant ?_ hstart
      rintro u act u' hu ⟨⟨hok, hkeep⟩, rfl⟩
      exact hu.step hok hkeep
    obtain ⟨a', ha', hp'⟩ := hend.owes
    exact ⟨a', ha', hp', (hend.history.valid id a' ha').status_of_payload hp'⟩

namespace OutboxExample

open SecondFiring

theorem allowed_create {id : String} {s : Outbox} (request : PriceAlertRequest) (now rearmedAt : ℕ)
    (hseen : s.history.seen = []) :
    s.Allowed id (.call (.createOrRearm (request.candidate now) rearmedAt)) := by
  refine ⟨⟨.createOrRearm _ _, fun _ b hb => ?_⟩,
    fun _ _ _ _ h => AlertAct.noConfusion h, ?_⟩
  · rw [hseen] at hb
    exact absurd hb (List.not_mem_nil)
  · rintro candidate rearmedAt ⟨⟩
    exact ⟨request, now, rfl⟩

/-- An alert that was created and fired, and whose message is claimed. -/
def acts : List OutboxAct :=
  [ .call (.createOrRearm created 1000),
    .fire created payload (crossFiredPatch created 5001 2000) 2000,
    .claim fired 2500 ]

theorem run_acts : Run (Guarded (Outbox.Allowed "pa-1") OutboxStep) .empty acts
    (acts.foldl Outbox.step .empty) := by
  refine .cons ⟨?_, rfl⟩ (.cons ⟨?_, rfl⟩ (.single ⟨?_, rfl⟩))
  · exact allowed_create _ _ _ (by simp [Outbox.empty, AlertHistory.empty])
  · exact ⟨by decide +kernel, .cross rfl 5001 2000000, fun hkind => absurd rfl hkind⟩
  · exact ⟨by decide +kernel, rfl⟩

end OutboxExample

open OutboxExample in
theorem outbox_claims_finalized :
    ∃ c a, (acts.foldl Outbox.step .empty).claims[0]? = some c ∧
      (acts.foldl Outbox.step .empty).row "pa-1" = some a ∧
      a.deliveryState = c.claimed.deliveryState := by
  obtain ⟨-, hfinalize, -⟩ := outbox_claims run_acts
  have hchanged : ((acts.foldl Outbox.step .empty).step (.finalize 0 ⟨true, .sent, ""⟩)).row "pa-1" ≠
      (acts.foldl Outbox.step .empty).row "pa-1" := by
    decide +kernel
  obtain ⟨c, a, hc, -, -, ha, hstate⟩ := hfinalize 0 _ hchanged
  exact ⟨c, a, hc, ha, hstate⟩

end AefTerminal
