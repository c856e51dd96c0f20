import AefTerminal.Alerts.Issued

/-!
# Definitions stay unique, generations move forward

Uniqueness is checked where a definition is written, by a creation and by a redefinition. The
other writers leave the definition of a row alone: an issued update applies in the generation of
its snapshot only, and in one generation an alert has one frame. That invariant needs the rows
that were stored before, because a snapshot may be older than the row it is applied to, and it
needs that an id which was deleted is not created again in a generation it had already reached.

## Main definitions

* `AlertHistory`: the table, with every row that was ever stored
* `Orderly`: the calls, with the updates issued from stored rows and no generation used again
* `HistoryInv`: the invariant

## Main results

* `generations_forward`: what holds along a run of such calls
-/

namespace AefTerminal

open Foundation

/-- The table and the rows stored so far. -/
structure AlertHistory where
  table : PriceAlertTable
  seen : List PriceAlert

namespace AlertHistory

def empty : AlertHistory := ⟨Dict.empty, []⟩

def after (h : AlertHistory) (act : AlertAct) : AlertHistory where
  table := h.table.after act
  seen := h.seen ++ (h.table.after act).entries.map Prod.snd

/-- An id that is not stored is created in a generation beyond all it had. -/
def Fresh (h : AlertHistory) : AlertAct → Prop
  | .createOrRearm candidate _ => h.table.get? candidate.id = none →
      ∀ b ∈ h.seen, b.id = candidate.id → b.rearmedAt < candidate.rearmedAt
  | _ => True

/-- An operation whose snapshots were stored and whose creations are fresh. -/
def Orderly (h : AlertHistory) (act : AlertAct) : Prop :=
  AlertOperation (· ∈ h.seen) act ∧ h.Fresh act

end AlertHistory

def HistoryStep (h : AlertHistory) (act : AlertAct) (h' : AlertHistory) : Prop := h.after act = h'

/-- No two rows have one definition. -/
def UniqueDefinitions (t : PriceAlertTable) : Prop :=
  ∀ i j a b, t.get? i = some a → t.get? j = some b →
    a.definitionIdentity = b.definitionIdentity → i = j

/-- What is stored, against what was. -/
structure HistoryInv (h : AlertHistory) : Prop extends TableInv h.table where
  unique : UniqueDefinitions h.table
  seen : ∀ id a, h.table.get? id = some a → a ∈ h.seen
  generation_le : ∀ id a, h.table.get? id = some a → ∀ b ∈ h.seen, b.id = id →
    b.rearmedAt ≤ a.rearmedAt
  frame_eq : ∀ id a, h.table.get? id = some a → ∀ b ∈ h.seen, b.id = id →
    b.rearmedAt = a.rearmedAt → b.frame = a.frame

/-! ### One row -/

/-- The definition of a row, its generation left out. -/
def PriceAlert.definition (a : PriceAlert) : AlertFrame := { a.frame with rearmedAt := 0 }

/-- The commands that arm an alert. -/
def AlertAct.rearms : AlertAct → Bool
  | .createOrRearm .. => true
  | .rearm .. => true
  | .setEnabled _ _ _ enabled _ _ => enabled
  | _ => false

theorem lt_nextAlertGeneration (a : PriceAlert) (requested : ℕ) :
    a.rearmedAt < nextAlertGeneration a requested :=
  lt_of_lt_of_le (Nat.lt_succ_self _) (le_max_right _ _)

variable {a : PriceAlert}

/-- A write keeps the frame of the row and arms nothing, or it starts a later generation in which
nothing is owed. -/
theorem RowRewrite.moves {known : PriceAlert → Prop} {act : AlertAct} {a' : PriceAlert}
    (h : RowRewrite act a a') (hop : AlertOperation known act)
    (hkind : ∀ s, known s → s.id = a.id → s.rearmedAt = a.rearmedAt → s.kind = a.kind) :
    (act.rearms = false ∧ a'.frame = a.frame ∧ (a'.armed = true → a.armed = true)) ∨
      (a.rearmedAt < a'.rearmedAt ∧ a'.delivery.telegramPendingPayload = none) := by
  cases h with
  | updated hid hagree =>
    cases hop with
    | issued hs hissued =>
      have hgeneration := hissued.generation_eq hagree
      exact .inl ⟨rfl, hissued.frame_eq (hkind _ hs hid.symm hgeneration), hissued.armed hagree⟩
  | matched | rearmed | enabled => exact .inr ⟨lt_nextAlertGeneration a _, rfl⟩

/-- An alert that takes a candidate's definition had it already. -/
theorem definitionIdentity_redefinedAs {candidate : PriceAlert} {generation : ℕ}
    (h : a.definitionIdentity = candidate.definitionIdentity) :
    ((a.redefinedAs candidate).rearmed generation).definitionIdentity = a.definitionIdentity := by
  simp only [PriceAlert.definitionIdentity, PriceAlertIdentity.mk.injEq] at h
  obtain ⟨hinstrument, hroute, htimeframe, hkind, hdirection, hprice, hatr, hpoints⟩ := h
  simp only [PriceAlert.definitionIdentity, PriceAlert.rearmed, cancelPendingAlertDelivery,
    PriceAlert.redefinedAs, PriceAlertIdentity.mk.injEq, true_and]
  exact ⟨hkind.symm, hdirection.symm, hprice.symm, hatr.symm, hpoints.symm⟩

variable {id : String} {t : PriceAlertTable}

/-- Where definitions are unique after one row takes a new definition that no other row has, they
were and stay unique. -/
theorem UniqueDefinitions.insert (h : UniqueDefinitions t)
    (hother : ∀ j b, t.get? j = some b → j ≠ id → b.definitionIdentity ≠ a.definitionIdentity) :
    UniqueDefinitions (t.insert id a) := by
  intro i j b c hb hc heq
  rw [Dict.get?_insert] at hb hc
  split at hb <;> split at hc
  · rename_i hi hj
    rw [hi, hj]
  · rename_i hi hj
    cases hb
    exact absurd heq.symm (hother j c hc hj)
  · rename_i hi hj
    cases hc
    exact absurd heq (hother i b hb hi)
  · exact h i j b c hb hc heq

theorem UniqueDefinitions.insert_same (h : UniqueDefinitions t)
    {a' : PriceAlert} (hrow : t.get? id = some a)
    (heq : a'.definitionIdentity = a.definitionIdentity) : UniqueDefinitions (t.insert id a') :=
  h.insert fun j b hb hj hsame => hj (h j id b a hb hrow (hsame.trans heq))

theorem UniqueDefinitions.mono {t' : PriceAlertTable} (h : UniqueDefinitions t)
    (hsub : ∀ id a, t'.get? id = some a → t.get? id = some a) : UniqueDefinitions t' :=
  fun i j a b ha hb => h i j a b (hsub i a ha) (hsub j b hb)

theorem get?_of_erase {j : String} (h : (t.erase id).get? j = some a) : t.get? j = some a := by
  rw [Dict.get?_erase] at h
  split at h
  · exact absurd h (by simp)
  · exact h

/-- A row with the definition of `a` is in the scope of `a`. -/
theorem mem_scope_of_definitionIdentity {b : PriceAlert}
    (hrow : t.get? id = some b) (h : b.definitionIdentity = a.definitionIdentity) :
    b ∈ t.scope a.instrumentId a.routeFingerprint a.timeframe := by
  simp only [PriceAlert.definitionIdentity, PriceAlertIdentity.mk.injEq] at h
  exact PriceAlertTable.mem_scope.mpr ⟨id, hrow, h.1, h.2.1, h.2.2.1⟩

/-- A payload update that leaves the definition of the row it is applied to as it is. -/
def AlertAct.KeepsDefinition (t : PriceAlertTable) : AlertAct → Prop
  | .update alertId instrumentId routeFingerprint guard patch => ∀ a,
      t.exact alertId instrumentId routeFingerprint = some a → guard.agree a = true →
        (patch a).definitionIdentity = a.definitionIdentity
  | _ => True

/-- Every writer keeps definitions unique, if no payload update changes one. -/
theorem UniqueDefinitions.effect {act : AlertAct} {m : AlertCommit}
    (h : UniqueDefinitions t) (hinv : TableInv t) (hact : act.KeepsDefinition t)
    (hm : AlertEffect t act m) : UniqueDefinitions m.table := by
  cases hm with
  | unchanged => exact h
  | @updated _ _ _ _ _ current hfound hagree =>
    exact h.insert_same (TableInv.get?_of_exact hfound) (hact current hfound hagree)
  | inert => exact h.mono fun _ _ => get?_of_erase
  | @matched candidate a _ _ hmem hidentity =>
    obtain ⟨id, hget, -⟩ := PriceAlertTable.mem_scope.mp hmem
    have hrow : t.get? a.id = some a := (hinv.id_eq id a hget).symm ▸ hget
    exact h.insert_same hrow (definitionIdentity_redefinedAs hidentity)
  | created _ _ _ hfresh =>
    refine h.insert fun j b hb _ hsame => ?_
    exact hfresh b (mem_scope_of_definitionIdentity hb hsame) hsame
  | @rearmed alertId _ _ _ _ _ current updated hfound hupdated _ hunique =>
    obtain ⟨hrow, rfl, rfl⟩ := PriceAlertTable.exact_eq_some.mp hfound
    refine h.insert fun j b hb hj hsame => ?_
    have hid := hinv.id_eq _ current hrow
    have hbid := hinv.id_eq j b hb
    have hcurrent : current ∈ t.scope current.instrumentId current.routeFingerprint
        current.timeframe := PriceAlertTable.mem_scope.mpr ⟨alertId, hrow, rfl, rfl, rfl⟩
    have hother : b ∈ t.scope current.instrumentId current.routeFingerprint current.timeframe := by
      subst hupdated
      have hscope := mem_scope_of_definitionIdentity hb hsame
      exact hscope
    -- the checked list names the definition of each row of the scope once
    have heq := List.inj_on_of_nodup_map hunique hcurrent hother
      (by rw [if_pos hid, if_neg (hbid ▸ hj)]; exact hsame.symm)
    exact hj (hbid.symm.trans (heq ▸ hid))
  | enabled hfound => exact h.insert_same (TableInv.get?_of_exact hfound) rfl
  | disabled => exact h.mono fun _ _ => get?_of_erase
  | deleted => exact h.mono fun _ _ => get?_of_erase
  | deletedScope =>
    refine h.mono fun id a ha => ?_
    rw [Dict.get?_eraseAll] at ha
    split at ha
    · exact absurd ha (by simp)
    · exact ha

namespace HistoryInv

variable {h : AlertHistory} {act : AlertAct} {m : AlertCommit}

theorem empty : HistoryInv .empty :=
  ⟨.empty, by simp [UniqueDefinitions, AlertHistory.empty], by simp [AlertHistory.empty],
    by simp [AlertHistory.empty], by simp [AlertHistory.empty]⟩

/-- In one generation an alert has one kind. -/
theorem kind_eq (hinv : HistoryInv h) {id : String} {a : PriceAlert}
    (hrow : h.table.get? id = some a) {b : PriceAlert} (hb : b ∈ h.seen) (hid : b.id = a.id)
    (hgeneration : b.rearmedAt = a.rearmedAt) : b.kind = a.kind :=
  congrArg AlertFrame.kind
    (hinv.frame_eq id a hrow b hb (hid.trans (hinv.id_eq id a hrow)) hgeneration)

theorem keepsDefinition (hinv : HistoryInv h) (hop : AlertOperation (· ∈ h.seen) act) :
    act.KeepsDefinition h.table := by
  cases hop with
  | issued hs hissued =>
    intro current hfound hagree
    have hrow := TableInv.get?_of_exact hfound
    have hid := hinv.id_eq _ current hrow
    have hkind := hinv.kind_eq hrow hs hid.symm (hissued.generation_eq hagree)
    exact PriceAlert.definitionIdentity_eq_of_frame (hissued.frame_eq hkind)
  | createOrRearm | rearm | setEnabled | delete | deleteScope => trivial

/-- What a row after a call is to the row before it and to the rows stored so far. -/
theorem row_after (hinv : HistoryInv h) (hop : h.Orderly act)
    (hm : AlertEffect h.table act m) {id : String} {a' : PriceAlert}
    (ha' : m.table.get? id = some a') :
    h.table.get? id = some a' ∨
      (∀ b ∈ h.seen, b.id = id → b.rearmedAt < a'.rearmedAt) ∨
      ∃ a, h.table.get? id = some a ∧ a'.frame = a.frame := by
  have hchange := hinv.rowChange hm id
  rw [ha'] at hchange
  generalize hold : h.table.get? id = old at hchange
  cases hchange with
  | same => exact .inl rfl
  | created hact hid =>
    subst hact
    exact .inr (.inl fun b hb hb' => hop.2 (hid ▸ hold) b hb (hb'.trans hid.symm))
  | @rewritten a _ hrewrite =>
    have hid := hinv.id_eq id a hold
    have hkind (s : PriceAlert) (hs : s ∈ h.seen) (hsid : s.id = a.id)
        (hgeneration : s.rearmedAt = a.rearmedAt) : s.kind = a.kind :=
      hinv.kind_eq hold hs hsid hgeneration
    rcases hrewrite.moves hop.1 hkind with ⟨-, hframe, -⟩ | ⟨hlt, -⟩
    · exact .inr (.inr ⟨a, rfl, hframe⟩)
    · refine .inr (.inl fun b hb hb' => ?_)
      exact lt_of_le_of_lt (hinv.generation_le id a hold b hb hb') hlt

theorem mem_seen_after {b : PriceAlert} (hb : b ∈ (h.after act).seen) :
    b ∈ h.seen ∨ ∃ id, (h.after act).table.get? id = some b := by
  rcases List.mem_append.mp hb with hb | hb
  · exact .inl hb
  · obtain ⟨⟨id, b⟩, he, rfl⟩ := List.mem_map.mp hb
    exact .inr ⟨id, Dict.get?_eq_some_iff.mpr he⟩

theorem after (hinv : HistoryInv h) (hop : h.Orderly act) : HistoryInv (h.after act) := by
  have htable : TableInv (h.after act).table := hinv.toTableInv.after hop.1.keepsKey
  have hunique : UniqueDefinitions (h.after act).table :=
    after_induct act hinv.unique fun m hm =>
      hinv.unique.effect hinv.toTableInv (hinv.keepsDefinition hop.1) hm
  have hold {id : String} {a' : PriceAlert} (ha' : (h.after act).table.get? id = some a') :
      ∀ b ∈ h.seen, b.id = id →
        b.rearmedAt ≤ a'.rearmedAt ∧ (b.rearmedAt = a'.rearmedAt → b.frame = a'.frame) := by
    have hrow : h.table.get? id = some a' ∨
        (∀ b ∈ h.seen, b.id = id → b.rearmedAt < a'.rearmedAt) ∨
        ∃ a, h.table.get? id = some a ∧ a'.frame = a.frame := by
      refine after_induct (P := fun t => t.get? id = some a' → _) act .inl
        (fun m hm ha' => hinv.row_after hop hm ha') ha'
    intro b hb hid
    rcases hrow with hsame | hlater | ⟨a, ha, hframe⟩
    · exact ⟨hinv.generation_le id a' hsame b hb hid, hinv.frame_eq id a' hsame b hb hid⟩
    · have hlt := hlater b hb hid
      exact ⟨hlt.le, fun heq => absurd heq hlt.ne⟩
    · have hgeneration : a'.rearmedAt = a.rearmedAt := congrArg AlertFrame.rearmedAt hframe
      rw [hgeneration, hframe]
      exact ⟨hinv.generation_le id a ha b hb hid, hinv.frame_eq id a ha b hb hid⟩
  have hnew {id : String} {a' b : PriceAlert} (ha' : (h.after act).table.get? id = some a')
      (hb : b ∈ (h.after act).seen) (hid : b.id = id) :
      b.rearmedAt ≤ a'.rearmedAt ∧ (b.rearmedAt = a'.rearmedAt → b.frame = a'.frame) := by
    rcases mem_seen_after hb with hb | ⟨j, hb⟩
    · exact hold ha' b hb hid
    · obtain rfl : j = id := (htable.id_eq j b hb).symm.trans hid
      cases (hb.symm.trans ha')
      exact ⟨le_rfl, fun _ => rfl⟩
  refine ⟨htable, hunique, fun id a ha => ?_, fun id a ha b hb hid => (hnew ha hb hid).1,
    fun id a ha b hb hid => (hnew ha hb hid).2⟩
  exact List.mem_append_right _ (List.mem_map.mpr ⟨(id, a), Dict.get?_eq_some_iff.mp ha, rfl⟩)

end HistoryInv

/-! ### Runs -/

theorem historyInv_of_run {h h' : AlertHistory} {acts : List AlertAct}
    (hrun : Run (Guarded AlertHistory.Orderly HistoryStep) h acts h') (hinv : HistoryInv h) :
    HistoryInv h' := by
  refine hrun.invariant ?_ hinv
  rintro s act s' hs ⟨hop, rfl⟩
  exact hs.after hop

theorem seen_of_run {h h' : AlertHistory} {acts : List AlertAct}
    (hrun : Run (Guarded AlertHistory.Orderly HistoryStep) h acts h')
    (ha : a ∈ h.seen) : a ∈ h'.seen := by
  induction hrun with
  | nil => exact ha
  | cons hstep _ ih =>
    obtain ⟨-, rfl⟩ := hstep
    exact ih (List.mem_append_left _ ha)

/-- The call arms the row, by a command that wrote it or by any other, or changes its
definition. -/
def Rearms (act : AlertAct) (a a' : PriceAlert) : Prop :=
  (act.rearms = true ∧ a' ≠ a) ∨ (a.armed = false ∧ a'.armed = true) ∨ a'.definition ≠ a.definition

/-- Whatever arms a row or changes its definition starts a later generation, in which nothing is
owed. -/
theorem HistoryInv.rearms {h : AlertHistory} {act : AlertAct} (hinv : HistoryInv h)
    (hop : h.Orderly act) {a' : PriceAlert} (ha : h.table.get? id = some a)
    (ha' : (h.after act).table.get? id = some a') (hrearms : Rearms act a a') :
    a.rearmedAt < a'.rearmedAt ∧ a'.delivery.telegramPendingPayload = none := by
  have hsame : ¬ Rearms act a a := by
    rintro (⟨-, hne⟩ | ⟨hold, hnew⟩ | hne)
    · exact hne rfl
    · exact absurd (hold.symm.trans hnew) (by simp)
    · exact hne rfl
  refine after_induct (P := fun t => t.get? id = some a' → _) act ?_ (fun m hm ha' => ?_) ha'
  · intro ha'
    cases (ha.symm.trans ha')
    exact absurd hrearms hsame
  · have hchange := hinv.rowChange hm id
    rw [ha, ha'] at hchange
    cases hchange with
    | same => exact absurd hrearms hsame
    | rewritten hrewrite =>
      have hid := hinv.id_eq id a ha
      rcases hrewrite.moves hop.1 fun s hs hsid hgeneration =>
        hinv.kind_eq ha hs hsid hgeneration with ⟨hact, hframe, harmed⟩ | hlater
      · exfalso
        rcases hrearms with ⟨hact', -⟩ | ⟨hold, hnew⟩ | hne
        · exact absurd (hact.symm.trans hact') (by simp)
        · exact absurd (hold.symm.trans (harmed hnew)) (by simp)
        · exact hne (congrArg (fun f : AlertFrame => { f with rearmedAt := 0 }) hframe)
      · exact hlater

/-- **Definitions stay unique and generations move forward.** In a run whose snapshots were stored
and that creates no deleted id again in a generation it had, no two stored alerts have one
definition; the generation of an id never goes back, in any continuation of the run; and a call
that arms a row or changes its definition starts a later generation in which nothing is owed. -/
theorem generations_forward {h : AlertHistory} {acts : List AlertAct}
    (hrun : Run (Guarded AlertHistory.Orderly HistoryStep) .empty acts h) :
    UniqueDefinitions h.table ∧
      (∀ acts' h', Run (Guarded AlertHistory.Orderly HistoryStep) h acts' h' → ∀ id a a',
        h.table.get? id = some a → h'.table.get? id = some a' → a.rearmedAt ≤ a'.rearmedAt) ∧
      ∀ act, h.Orderly act → ∀ id a a', h.table.get? id = some a →
        (h.after act).table.get? id = some a' → Rearms act a a' →
        a.rearmedAt < a'.rearmedAt ∧ a'.delivery.telegramPendingPayload = none := by
  have hinv := historyInv_of_run hrun .empty
  refine ⟨hinv.unique, fun acts' h' hrun' id a a' ha ha' => ?_,
    fun act hop id a a' ha ha' hrearms => hinv.rearms hop ha ha' hrearms⟩
  have hinv' := historyInv_of_run hrun' hinv
  exact hinv'.generation_le id a' ha' a (seen_of_run hrun' (hinv.seen id a ha))
    (hinv.id_eq id a ha)

namespace GenerationExample

def created : PriceAlert :=
  PriceAlertRequest.candidate
    { id := "pa-1"
      instrumentId := "ibkr|1|ES"
      routeFingerprint := "ibkr|1|ES"
      provider := "ibkr"
      providerContractId := "1"
      symbol := "ES"
      timeframe := "5m"
      direction := .above
      price := 5000 } 1000

def create : AlertAct := .createOrRearm created 1000

def relabel : AlertAct :=
  .rearm "pa-1" "ibkr|1|ES" "ibkr|1|ES" 1000 { label := some "high" } none

def delete : AlertAct := .delete "pa-1" "ibkr|1|ES" "ibkr|1|ES" none

theorem run_create : Run (Guarded AlertHistory.Orderly HistoryStep) .empty [create]
    (AlertHistory.empty.after create) :=
  .single ⟨⟨.createOrRearm _ _, by simp [AlertHistory.Fresh, create, AlertHistory.empty]⟩, rfl⟩

end GenerationExample

open GenerationExample in
theorem generations_forward_relabel :
    ∃ a', ((AlertHistory.empty.after create).after relabel).table.get? "pa-1" = some a' ∧
      created.rearmedAt < a'.rearmedAt ∧ a'.delivery.telegramPendingPayload = none := by
  obtain ⟨-, -, hrearms⟩ := generations_forward run_create
  have hrow : ((AlertHistory.empty.after create).after relabel).table.get? "pa-1" =
      some ((created.redefined { label := some "high" }).rearmed 1001) := by
    decide +kernel
  exact ⟨_, hrow, hrearms relabel ⟨.rearm _ _ _ _ _ _, trivial⟩ "pa-1" created _ (by decide +kernel)
    hrow (.inl ⟨rfl, by decide +kernel⟩)⟩

open GenerationExample in
/-- An id that is deleted and created again within one millisecond starts in a generation behind
the one it had reached. -/
theorem generation_of_recreated_id :
    ¬ ∀ acts h acts' h',
      Run (Guarded (fun h act => AlertOperation (· ∈ h.seen) act) HistoryStep) .empty acts h →
      Run (Guarded (fun h act => AlertOperation (· ∈ h.seen) act) HistoryStep) h acts' h' →
      ∀ id a a', h.table.get? id = some a → h'.table.get? id = some a' →
        a.rearmedAt ≤ a'.rearmedAt := by
  intro hclaim
  have hle := hclaim [create, relabel] _ [delete, create] _
    (.cons ⟨.createOrRearm _ _, rfl⟩ (.single ⟨.rearm _ _ _ _ _ _, rfl⟩))
    (.cons ⟨.delete _ _ _ _, rfl⟩ (.single ⟨.createOrRearm _ _, rfl⟩)) "pa-1"
    ((created.redefined { label := some "high" }).rearmed 1001) created (by decide +kernel)
    (by decide +kernel)
  exact absurd hle (by decide)

end AefTerminal
