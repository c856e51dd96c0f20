import AefTerminal.Alerts.Firing
import AefTerminal.Alerts.Generations

/-!
# Calls of the monitor and the workers on a history

The functions of the monitor and of the delivery workers commit one issued update, or nothing, or
raise. Here is what such a call does to the rows stored so far and to the row of one alert.

## Main definitions

* `AlertHistory.commit`: the history after such a call

## Main results

* `HistoryInv.commit`: the invariant of the history
* `HistoryInv.row_commit`: the row of one alert after the call
* `HistoryInv.row_call`: the row of one alert after any of the calls that reach the table
-/

namespace AefTerminal

open Foundation

/-- The table after a call that may have raised, with the rows it stored. -/
def AlertHistory.commit (h : AlertHistory) : Except AlertError AlertCommit → AlertHistory
  | .error _ => h
  | .ok m => ⟨m.table, h.seen ++ m.table.entries.map Prod.snd⟩

variable {m : AlertCommit} {h : AlertHistory}

theorem AlertHistory.commit_of_perform {act : AlertAct}
    (hm : h.table.perform act = .ok m) : h.commit (.ok m) = h.after act := by
  simp only [AlertHistory.commit, AlertHistory.after, PriceAlertTable.after, hm]

variable {outcome : Except AlertError AlertCommit}

/-- A call that commits one of the known operations, or nothing. -/
theorem HistoryInv.commit (hinv : HistoryInv h)
    (hcommit : ∀ m, outcome = .ok m → m.table = h.table ∨
      ∃ act, h.Orderly act ∧ h.table.perform act = .ok m) : HistoryInv (h.commit outcome) := by
  cases outcome with
  | error e => exact hinv
  | ok m =>
    rcases hcommit m rfl with hsame | ⟨act, hop, hm⟩
    · -- the rows are recorded once more, as by a call that raises
      have hraises : h.after (.delete "" "" "" none) = h.commit (.ok m) := by
        rw [AlertHistory.commit, hsame]
        rfl
      exact hraises ▸ hinv.after ⟨.delete _ _ _ _, trivial⟩
    · exact AlertHistory.commit_of_perform hm ▸ hinv.after hop

theorem mem_seen_commit {b : PriceAlert} (hb : b ∈ (h.commit outcome).seen) :
    b ∈ h.seen ∨ ∃ id, (h.commit outcome).table.get? id = some b := by
  cases outcome with
  | error e => exact .inl hb
  | ok m =>
    rcases List.mem_append.mp hb with hb | hb
    · exact .inl hb
    · obtain ⟨⟨id, b⟩, he, rfl⟩ := List.mem_map.mp hb
      exact .inr ⟨id, Dict.get?_eq_some_iff.mpr he⟩

variable {patch : PriceAlert → PriceAlert}

variable {guard : PayloadGuard}

/-- What a payload update does, by its answer. -/
theorem updatePriceAlertPayloadExact_row {t : PriceAlertTable}
    {alertId instrumentId routeFingerprint : String} (hinv : TableInv t)
    (hretain : ∀ a, guard.agree a = true → a.retain = true → (patch a).retain = true)
    (h : updatePriceAlertPayloadExact t alertId instrumentId routeFingerprint guard patch = .ok m) :
    (m.answer = none ∧ m.table = t) ∨
      ∃ a, t.exact alertId instrumentId routeFingerprint = some a ∧ guard.agree a = true ∧
        m.answer = some (patch a) ∧ m.table.get? alertId = some (patch a) ∧
        ∀ j, j ≠ alertId → m.table.get? j = t.get? j := by
  obtain ⟨⟨⟩, -, h⟩ := bind_eq_ok.mp h
  split at h
  · obtain rfl := pure_eq_ok.mp h
    exact .inl ⟨rfl, rfl⟩
  rename_i a hfound
  have hrow := TableInv.get?_of_exact hfound
  obtain ⟨updated, hupdated, h⟩ := bind_eq_ok.mp h
  obtain ⟨-, hupdated⟩ := updatePriceAlertPayload_eq_ok hupdated
  split at h
  · obtain rfl := pure_eq_ok.mp h
    exact .inl ⟨rfl, rfl⟩
  obtain ⟨hagree, rfl, -⟩ := hupdated _ rfl
  have hkept := hretain a hagree (hinv.retain _ a hrow)
  refine .inr ⟨a, hfound, hagree, ?_⟩
  split at h
  · rename_i hsame
    obtain rfl := pure_eq_ok.mp h
    rw [hsame]
    exact ⟨rfl, hrow, fun _ _ => rfl⟩
  obtain rfl := pure_eq_ok.mp h
  exact ⟨rfl, Dict.get?_insert_self _ _ _, fun j hj => Dict.get?_insert_of_ne t hj _⟩

/-- An update issued from a snapshot writes the row of the snapshot, or nothing. -/
theorem Issued.row {t : PriceAlertTable} {snapshot : PriceAlert} (h : Issued snapshot guard patch)
    (hinv : TableInv t) (hm : t.perform (.updateOf snapshot guard patch) = .ok m) :
    (m.answer = none ∧ m.table = t) ∨
      ∃ a, t.get? snapshot.id = some a ∧ a.key = snapshot.key ∧ guard.agree a = true ∧
        m.answer = some (patch a) ∧ m.table.get? snapshot.id = some (patch a) ∧
        ∀ j, j ≠ snapshot.id → m.table.get? j = t.get? j := by
  rcases updatePriceAlertPayloadExact_row hinv (fun a hagree => h.retain hagree) hm with
    hsame | ⟨a, hfound, hagree, hanswer, hrow, hother⟩
  · exact .inl hsame
  · obtain ⟨hget, hinstrument, hroute⟩ := PriceAlertTable.exact_eq_some.mp hfound
    have hkey : a.key = snapshot.key := by
      rw [PriceAlert.key, PriceAlert.key, hinv.id_eq _ a hget, hinstrument, hroute]
    exact .inr ⟨a, hget, hkey, hagree, hanswer, hrow, hother⟩

theorem MonitorFiring.issued {s : PriceAlert} {now : ℕ} {payload : TelegramPayload}
    (h : MonitorFiring s now payload patch) :
    Issued s (firingGuard s) (firingPatch s payload patch now) := by
  cases h with
  | cross hkind current ts => exact .crossFired hkind current now ts
  | dynamic hkind _ current ts state => exact .dynamicFired hkind state _ _ current now ts
  | vsa hkind eventTs level current ts => exact .vsaFired hkind eventTs level current now ts

/-- The row after a call that commits one issued update, or nothing. -/
theorem HistoryInv.row_commit (hinv : HistoryInv h) {snapshot : PriceAlert}
    (hissued : Issued snapshot guard patch)
    (hcommit : ∀ m, outcome = .ok m → m = .unchanged h.table none ∨
      h.table.perform (.updateOf snapshot guard patch) = .ok m) (id : String) :
    (h.commit outcome).table.get? id = h.table.get? id ∨
      ∃ a, h.table.get? id = some a ∧ snapshot.id = id ∧ a.key = snapshot.key ∧
        guard.agree a = true ∧ (h.commit outcome).table.get? id = some (patch a) := by
  cases outcome with
  | error e => exact .inl rfl
  | ok m =>
    rcases hcommit m rfl with rfl | hm
    · exact .inl rfl
    rcases hissued.row hinv.toTableInv hm with ⟨-, hsame⟩ | ⟨a, ha, hkey, hagree, -, hrow, hother⟩
    · exact .inl (congrArg (Dict.get? · id) hsame)
    · by_cases hid : id = snapshot.id
      · subst hid
        exact .inr ⟨a, ha, rfl, hkey, hagree, hrow⟩
      · exact .inl (hother id hid)

/-- A firing that did not raise: it stored nothing, or the patched row, and then it answers. -/
theorem HistoryInv.firing_row (hinv : HistoryInv h) {a : PriceAlert}
    {payload : TelegramPayload} {now : ℕ}
    (hissued : Issued a (firingGuard a) (firingPatch a payload patch now))
    (hm : persistPriceAlertDelivery h.table a payload patch now = .ok m) :
    (m.answer = none ∧ m.table = h.table) ∨
      ∃ r, h.table.get? a.id = some r ∧ a.id = r.id ∧ (firingGuard a).agree r = true ∧
        m.answer.isSome = true ∧ m.table.get? a.id = some (firingPatch a payload patch now r) := by
  rcases persistPriceAlertDelivery_commit hm with rfl | hm
  · exact .inl ⟨rfl, rfl⟩
  rcases hissued.row hinv.toTableInv hm with hsame | ⟨r, hr, hkey, hagree, hanswer, hrow, -⟩
  · exact .inl hsame
  · exact .inr ⟨r, hr, (congrArg AlertKey.alertId hkey).symm, hagree, by rw [hanswer]; rfl, hrow⟩

/-- Candidates are built by the command that creates alerts. -/
def AlertAct.Requested (act : AlertAct) : Prop :=
  ∀ candidate rearmedAt, act = .createOrRearm candidate rearmedAt →
    ∃ request now, candidate = PriceAlertRequest.candidate request now

/-- Armed by a command. -/
structure PriceAlert.Renewed (a : PriceAlert) : Prop where
  armed : a.armed = true
  cooldown : a.cooldownUntil = 0
  settled : a.delivery.telegramPendingPayload = none

theorem PriceAlert.Renewed.of_rearmed (a : PriceAlert) (generation : ℕ) :
    (a.rearmed generation).Renewed :=
  ⟨rfl, rfl, rfl⟩

/-- The row of an alert after a call: as it was, deleted, armed in a later generation, or changed
by an update of this alert. -/
theorem HistoryInv.row_call (hinv : HistoryInv h) {act : AlertAct}
    (hop : h.Orderly act) (hrequested : act.Requested) (id : String) :
    (h.after act).table.get? id = h.table.get? id ∨ (h.after act).table.get? id = none ∨
      (∃ a', (h.after act).table.get? id = some a' ∧ a'.Renewed ∧
        ∀ b ∈ h.seen, b.id = id → b.rearmedAt < a'.rearmedAt) ∨
      ∃ instrumentId routeFingerprint guard patch a,
        act = .update id instrumentId routeFingerprint guard patch ∧ h.table.get? id = some a ∧
          guard.agree a = true ∧ (h.after act).table.get? id = some (patch a) := by
  refine after_induct (P := fun t => t.get? id = h.table.get? id ∨ t.get? id = none ∨
    (∃ a', t.get? id = some a' ∧ a'.Renewed ∧
      ∀ b ∈ h.seen, b.id = id → b.rearmedAt < a'.rearmedAt) ∨
    ∃ instrumentId routeFingerprint guard patch a,
      act = .update id instrumentId routeFingerprint guard patch ∧ h.table.get? id = some a ∧
        guard.agree a = true ∧ t.get? id = some (patch a)) act (.inl rfl) fun m hm => ?_
  have hchange := hinv.rowChange hm id
  generalize hold : h.table.get? id = old at hchange
  generalize m.table.get? id = new at hchange ⊢
  cases hchange with
  | same => exact .inl rfl
  | removed => exact .inr (.inl rfl)
  | inert => exact .inr (.inl rfl)
  | @created candidate rearmedAt hact hid =>
    obtain ⟨request, now, rfl⟩ := hrequested candidate rearmedAt hact
    subst hact
    exact .inr (.inr (.inl ⟨_, rfl, ⟨rfl, rfl, rfl⟩,
      fun b hb hb' => hop.2 (hid ▸ hold) b hb (hb'.trans hid.symm)⟩))
  | @rewritten a a' hrewrite =>
    have hlater (requested : ℕ) (b : PriceAlert) (hb : b ∈ h.seen) (hb' : b.id = id) :
        b.rearmedAt < nextAlertGeneration a requested :=
      lt_of_le_of_lt (hinv.generation_le id a hold b hb hb') (lt_nextAlertGeneration a _)
    cases hrewrite with
    | @updated alertId instrumentId routeFingerprint guard patch _ hid hagree =>
      obtain rfl : alertId = id := hid.symm.trans (hinv.id_eq id a hold)
      exact .inr (.inr (.inr ⟨instrumentId, routeFingerprint, guard, patch, a, rfl, rfl, hagree,
        rfl⟩))
    | matched => exact .inr (.inr (.inl ⟨_, rfl, .of_rearmed _ _, hlater _⟩))
    | rearmed => exact .inr (.inr (.inl ⟨_, rfl, .of_rearmed _ _, hlater _⟩))
    | enabled => exact .inr (.inr (.inl ⟨_, rfl, .of_rearmed _ _, hlater _⟩))

end AefTerminal
