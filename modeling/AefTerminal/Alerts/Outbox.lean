import AefTerminal.Alerts.History
import AefTerminal.Foundation.Lease

/-!
# The outbox of one alert

A firing leaves a message in the row of its alert. Any number of delivery workers act on rows they
read before, from the registry: a worker whose snapshot is due by its own clock claims the message,
sends it and finalises the claim. The monitor and the commands write the same row in between.

The clocks of the workers are not related to each other. The monitor evaluates an alert of a
dynamic kind again only after a pause, so its clock stands later than at the last firing it sees.

## Main definitions

* `Outbox`, `OutboxAct`, `Outbox.step`
* `Outbox.Allowed`: snapshots were stored, and the monitor and the commands call as they do
* `OutboxChange`: what a step does to the row of the alert

## Main results

* `Outbox.change`: the inversion lemma
-/

namespace AefTerminal

open Foundation

/-- A claim that succeeded, by the worker that will finalise it. -/
structure DeliveryClaim where
  snapshot : PriceAlert
  pending : TelegramPayload
  claimed : PriceAlert
  now : ℕ

/-- The stored alerts, with the claims of one of them. -/
structure Outbox where
  history : AlertHistory
  claims : List DeliveryClaim
  /-- The claims whose finalisation ran, by their place. -/
  finalized : List ℕ

inductive OutboxAct
  /-- A command, or an update of another alert. -/
  | call (act : AlertAct)
  /-- The monitor stores what it evaluated. -/
  | evaluate (snapshot : PriceAlert) (patch : PriceAlert → PriceAlert)
  | fire (snapshot : PriceAlert) (payload : TelegramPayload) (patch : PriceAlert → PriceAlert)
      (now : ℕ)
  | claim (snapshot : PriceAlert) (now : ℕ)
  | finalize (n : ℕ) (result : TelegramSendResult)

/-- The message a worker sets out to deliver from a snapshot. -/
def dueDelivery (snapshot : PriceAlert) (now : ℕ) : Option TelegramPayload :=
  match telegramDeliveryDue snapshot now with
  | .ok true => snapshot.delivery.telegramPendingPayload
  | _ => none

/-- The claimed row, where the claim succeeded. -/
def claimedRow : Except AlertError AlertCommit → Option PriceAlert
  | .error _ => none
  | .ok m => m.answer

namespace Outbox

def empty : Outbox := ⟨.empty, [], []⟩

def table (s : Outbox) : PriceAlertTable := s.history.table

def row (s : Outbox) (id : String) : Option PriceAlert := s.history.table.get? id

def claim (s : Outbox) (snapshot : PriceAlert) (pending : TelegramPayload) (now : ℕ) : Outbox :=
  let outcome := claimPriceTelegramDelivery s.table snapshot pending now
  { s with
    history := s.history.commit outcome
    claims := s.claims ++ ((claimedRow outcome).map (⟨snapshot, pending, ·, now⟩)).toList }

def finalize (s : Outbox) (n : ℕ) (c : DeliveryClaim) (result : TelegramSendResult) : Outbox :=
  { s with
    history := s.history.commit
      (finalizePriceTelegramDelivery s.table c.snapshot c.claimed c.pending result c.now)
    finalized := n :: s.finalized }

def step (s : Outbox) : OutboxAct → Outbox
  | .call act => { s with history := s.history.after act }
  | .evaluate snapshot patch =>
    { s with history := s.history.commit (persistAlertEvaluationState s.table snapshot patch) }
  | .fire snapshot payload patch now =>
    { s with
      history := s.history.commit (persistPriceAlertDelivery s.table snapshot payload patch now) }
  | .claim snapshot now =>
    match dueDelivery snapshot now with
    | none => s
    | some pending => s.claim snapshot pending now
  | .finalize n result =>
    match s.claims[n]? with
    | none => s
    | some c => if n ∈ s.finalized then s else s.finalize n c result

end Outbox

/-- The patch of an evaluation that does not fire. -/
inductive EvaluationPatch (s : PriceAlert) : (PriceAlert → PriceAlert) → Prop
  | dynamic (hkind : s.kind = .ema233Touch) (state : EmaTouchGuideState)
      (direction : TouchDirection) : EvaluationPatch s (dynamicStatePatch state direction)
  | vsa (hkind : s.kind = .vsaFuel) (eventTs : Option Time) :
      EvaluationPatch s (vsaStatePatch eventTs)

/-- The steps of the outbox of the alert `id`. -/
def Outbox.Allowed (id : String) (s : Outbox) : OutboxAct → Prop
  | .call act =>
    s.history.Orderly act ∧
      (∀ instrumentId routeFingerprint guard patch,
        act ≠ .update id instrumentId routeFingerprint guard patch) ∧ act.Requested
  | .evaluate snapshot patch => snapshot ∈ s.history.seen ∧ EvaluationPatch snapshot patch
  | .fire snapshot payload patch now =>
    snapshot ∈ s.history.seen ∧ MonitorFiring snapshot now payload patch ∧
      (snapshot.kind ≠ .price → ∀ last, snapshot.lastFiredAt = some last → last < now)
  | .claim snapshot _ => snapshot ∈ s.history.seen ∧ snapshot.id = id
  | .finalize _ _ => True

def OutboxStep (s : Outbox) (act : OutboxAct) (s' : Outbox) : Prop := s.step act = s'

theorem EvaluationPatch.issued {s : PriceAlert} {patch : PriceAlert → PriceAlert}
    (h : EvaluationPatch s patch) : Issued s (evaluationGuard s) patch := by
  cases h with
  | dynamic hkind state direction => exact .dynamicSeen hkind state direction
  | vsa hkind eventTs => exact .vsaSeen hkind eventTs

/-! ### What a step does -/

/-- The claims are about the alert `id`. -/
def Outbox.Own (id : String) (s : Outbox) : Prop :=
  ∀ c ∈ s.claims, c.snapshot.id = id ∧ c.claimed.key = c.snapshot.key ∧ c.claimed ∈ s.history.seen

/-- What a step does to the row of the alert `id` and to its claims. -/
inductive OutboxChange (id : String) (s : Outbox) : OutboxAct → Outbox → Prop
  | same {act : OutboxAct} {s' : Outbox} (hrow : s'.row id = s.row id)
      (hclaims : s'.claims = s.claims) (hfinalized : s.finalized ⊆ s'.finalized) :
      OutboxChange id s act s'
  /-- The alert is deleted or disabled. -/
  | gone {act : AlertAct} {s' : Outbox} (hrow : s'.row id = none) (hclaims : s'.claims = s.claims)
      (hfinalized : s'.finalized = s.finalized) : OutboxChange id s (.call act) s'
  /-- The alert is created or re-armed, in a later generation. -/
  | renewed {act : AlertAct} {s' : Outbox} {a' : PriceAlert} (hrow : s'.row id = some a')
      (hsettled : a'.delivery.telegramPendingPayload = none)
      (hlater : ∀ b ∈ s.history.seen, b.id = id → b.rearmedAt < a'.rearmedAt)
      (hclaims : s'.claims = s.claims) (hfinalized : s'.finalized = s.finalized) :
      OutboxChange id s (.call act) s'
  | evaluated {snapshot a : PriceAlert} {patch : PriceAlert → PriceAlert} {s' : Outbox}
      (hold : s.row id = some a) (hpatch : EvaluationPatch snapshot patch)
      (hrow : s'.row id = some (patch a)) (hclaims : s'.claims = s.claims)
      (hfinalized : s'.finalized = s.finalized) :
      OutboxChange id s (.evaluate snapshot patch) s'
  | fired {snapshot a : PriceAlert} {payload : TelegramPayload} {patch : PriceAlert → PriceAlert}
      {now : ℕ} {s' : Outbox} (hold : s.row id = some a)
      (hfiring : MonitorFiring snapshot now payload patch) (hkind : snapshot.kind = a.kind)
      (hlater : snapshot.kind ≠ .price → ∀ last, snapshot.lastFiredAt = some last → last < now)
      (hagree : (firingGuard snapshot).agree a = true)
      (hrow : s'.row id = some (firingPatch snapshot payload patch now a))
      (hclaims : s'.claims = s.claims) (hfinalized : s'.finalized = s.finalized) :
      OutboxChange id s (.fire snapshot payload patch now) s'
  | claimed {snapshot a : PriceAlert} {pending : TelegramPayload} {now : ℕ} {s' : Outbox}
      (hold : s.row id = some a) (hid : snapshot.id = id) (hkey : a.key = snapshot.key)
      (hdue : dueDelivery snapshot now = some pending)
      (hagree : (deliveryGuard snapshot pending).agree a = true)
      (hrow : s'.row id = some (claimPatch (claimAttemptAt snapshot now) a))
      (hclaims : s'.claims = s.claims ++
        [⟨snapshot, pending, claimPatch (claimAttemptAt snapshot now) a, now⟩])
      (hfinalized : s'.finalized = s.finalized) :
      OutboxChange id s (.claim snapshot now) s'
  | finalized {n : ℕ} {result : TelegramSendResult} {a : PriceAlert} {c : DeliveryClaim}
      {s' : Outbox} (hold : s.row id = some a) (hc : s.claims[n]? = some c) (hn : n ∉ s.finalized)
      (hkey : a.key = c.snapshot.key)
      (hagree : (deliveryGuard c.claimed c.pending).agree a = true)
      (hrow : s'.row id = some (finalizePatch
        (.attempted result (deliveryPayload c.snapshot c.pending) c.now
          c.claimed.delivery.telegramRetryCount (some c.claimed.delivery.telegramPendingSince))
        (result.recorded c.now) a))
      (hclaims : s'.claims = s.claims) (hfinalized : s'.finalized = n :: s.finalized) :
      OutboxChange id s (.finalize n result) s'

namespace Outbox

variable {id : String} {s s' : Outbox}

theorem change_call (hinv : HistoryInv s.history) {act : AlertAct}
    (hok : s.Allowed id (.call act)) : OutboxChange id s (.call act) (s.step (.call act)) := by
  obtain ⟨hop, hother, hcandidate⟩ := hok
  rcases hinv.row_call hop hcandidate id with hsame | hgone | ⟨a', hrow, hrenewed, hlater⟩ |
    ⟨instrumentId, routeFingerprint, guard, patch, a, hact, -⟩
  · exact .same hsame rfl (List.Subset.refl _)
  · exact .gone hgone rfl rfl
  · exact .renewed hrow hrenewed.settled hlater rfl rfl
  · exact absurd hact (hother instrumentId routeFingerprint guard patch)

variable {snapshot : PriceAlert}

theorem change_evaluate (hinv : HistoryInv s.history)
    {patch : PriceAlert → PriceAlert} (hok : s.Allowed id (.evaluate snapshot patch)) :
    OutboxChange id s (.evaluate snapshot patch) (s.step (.evaluate snapshot patch)) := by
  obtain ⟨-, hpatch⟩ := hok
  have hrow := hinv.row_commit hpatch.issued (fun m hm =>
    persistAlertEvaluationState_commit (t := s.history.table) (s := snapshot) hm) id
  rcases hrow with hsame | ⟨a, ha, -, -, -, hrow⟩
  · exact .same hsame rfl (List.Subset.refl _)
  · exact .evaluated ha hpatch hrow rfl rfl

theorem change_fire (hinv : HistoryInv s.history)
    {payload : TelegramPayload} {patch : PriceAlert → PriceAlert} {now : ℕ}
    (hok : s.Allowed id (.fire snapshot payload patch now)) :
    OutboxChange id s (.fire snapshot payload patch now)
      (s.step (.fire snapshot payload patch now)) := by
  obtain ⟨hs, hfiring, hlater⟩ := hok
  have hrow := hinv.row_commit hfiring.issued (fun m hm =>
    persistPriceAlertDelivery_commit (t := s.history.table) (s := snapshot) hm) id
  rcases hrow with hsame | ⟨a, ha, hid, hkey, hagree, hrow⟩
  · exact .same hsame rfl (List.Subset.refl _)
  · have hkind := hinv.kind_eq ha hs (congrArg AlertKey.alertId hkey).symm
      (hfiring.issued.generation_eq hagree)
    exact .fired ha hfiring hkind hlater hagree hrow rfl rfl

theorem change_claim (hinv : HistoryInv s.history) {now : ℕ}
    (hok : s.Allowed id (.claim snapshot now)) :
    OutboxChange id s (.claim snapshot now) (s.step (.claim snapshot now)) := by
  obtain ⟨-, hid⟩ := hok
  rw [step]
  split
  · exact .same rfl rfl (List.Subset.refl _)
  rename_i pending hdue
  rw [claim]
  generalize houtcome : claimPriceTelegramDelivery s.table snapshot pending now = outcome
  cases outcome with
  | error e => exact .same rfl (by simp [claimedRow]) (List.Subset.refl _)
  | ok m =>
    have hm := claimPriceTelegramDelivery_commit houtcome
    rcases (Issued.claimed pending now).row hinv.toTableInv hm with
      ⟨hanswer, hsame⟩ | ⟨a, ha, hkey, hagree, hanswer, hrow, -⟩
    · refine .same ?_ (by simp [claimedRow, hanswer]) (List.Subset.refl _)
      exact congrArg (Dict.get? · id) hsame
    · refine .claimed (hid ▸ ha) hid hkey hdue hagree (hid ▸ hrow) ?_ rfl
      simp [claimedRow, hanswer]

theorem change_finalize (hinv : HistoryInv s.history) (hown : s.Own id) {n : ℕ}
    {result : TelegramSendResult} :
    OutboxChange id s (.finalize n result) (s.step (.finalize n result)) := by
  rw [step]
  split
  · exact .same rfl rfl (List.Subset.refl _)
  rename_i c hc
  split
  · exact .same rfl rfl (List.Subset.refl _)
  rename_i hn
  have hkey := (hown c (List.mem_of_getElem? hc)).2.1
  have hcommit (m : AlertCommit) (hm : finalizePriceTelegramDelivery s.history.table c.snapshot
      c.claimed c.pending result c.now = .ok m) := finalizePriceTelegramDelivery_commit hkey hm
  have hrow := hinv.row_commit (.finalized c.pending _ _) (fun m hm => .inr (hcommit m hm)) id
  rcases hrow with hsame | ⟨a, ha, -, hclaimed, hagree, hrow⟩
  · exact .same hsame rfl (List.subset_cons_self _ _)
  · exact .finalized ha hc hn (hclaimed.trans hkey) hagree hrow rfl rfl

variable {act : OutboxAct}

/-- The inversion lemma. -/
theorem change (hinv : HistoryInv s.history) (hown : s.Own id)
    (hok : s.Allowed id act) : OutboxChange id s act (s.step act) := by
  cases act with
  | call act => exact change_call hinv hok
  | evaluate snapshot patch => exact change_evaluate hinv hok
  | fire snapshot payload patch now => exact change_fire hinv hok
  | claim snapshot now => exact change_claim hinv hok
  | finalize n result => exact change_finalize hinv hown

/-! ### The history of a step -/

theorem historyInv_step (hinv : HistoryInv s.history) (hown : s.Own id)
    (hok : s.Allowed id act) : HistoryInv (s.step act).history := by
  have hcommit {snapshot : PriceAlert} {guard : PayloadGuard} {patch : PriceAlert → PriceAlert}
      {outcome : Except AlertError AlertCommit} (hs : snapshot ∈ s.history.seen)
      (hissued : Issued snapshot guard patch)
      (h : ∀ m, outcome = .ok m → m = .unchanged s.history.table none ∨
        s.history.table.perform (.updateOf snapshot guard patch) = .ok m) :
      HistoryInv (s.history.commit outcome) := by
    refine hinv.commit fun m hm => ?_
    rcases h m hm with rfl | hm
    · exact .inl rfl
    · exact .inr ⟨_, ⟨.issued hs hissued, trivial⟩, hm⟩
  cases act with
  | call act => exact hinv.after hok.1
  | evaluate snapshot patch =>
    exact hcommit hok.1 hok.2.issued fun m hm => persistAlertEvaluationState_commit hm
  | fire snapshot payload patch now =>
    exact hcommit hok.1 hok.2.1.issued fun m hm => persistPriceAlertDelivery_commit hm
  | claim snapshot now =>
    rw [step]
    split
    · exact hinv
    · rename_i pending _
      exact hcommit hok.1 (.claimed pending now) fun m hm =>
        .inr (claimPriceTelegramDelivery_commit hm)
  | finalize n result =>
    rw [step]
    split
    · exact hinv
    rename_i c hc
    split
    · exact hinv
    · obtain ⟨-, hkey, hseen⟩ := hown c (List.mem_of_getElem? hc)
      exact hcommit hseen (.finalized c.pending _ _) fun m hm =>
        .inr (finalizePriceTelegramDelivery_commit hkey hm)

/-- A step records the rows it stores and no others. -/
theorem mem_seen_step {b : PriceAlert} (hb : b ∈ (s.step act).history.seen) :
    b ∈ s.history.seen ∨ ∃ id, (s.step act).row id = some b := by
  cases act with
  | call act => exact HistoryInv.mem_seen_after hb
  | evaluate | fire => exact mem_seen_commit hb
  | claim snapshot now =>
    rw [step] at hb ⊢
    split at hb
    · exact .inl hb
    · exact mem_seen_commit hb
  | finalize n result =>
    rw [step] at hb ⊢
    split at hb
    · exact .inl hb
    by_cases hn : n ∈ s.finalized
    · rw [if_pos hn] at hb
      exact .inl hb
    · rw [if_neg hn] at hb ⊢
      exact mem_seen_commit hb

theorem seen_step {b : PriceAlert} (hb : b ∈ s.history.seen) :
    b ∈ (s.step act).history.seen := by
  have hcommit (outcome : Except AlertError AlertCommit) :
      b ∈ (s.history.commit outcome).seen := by
    cases outcome with
    | error e => exact hb
    | ok m => exact List.mem_append_left _ hb
  cases act with
  | call act => exact List.mem_append_left _ hb
  | evaluate | fire => exact hcommit _
  | claim snapshot now =>
    rw [step]
    split
    · exact hb
    · exact hcommit _
  | finalize n result =>
    rw [step]
    split
    · exact hb
    split
    · exact hb
    · exact hcommit _

end Outbox

end AefTerminal
