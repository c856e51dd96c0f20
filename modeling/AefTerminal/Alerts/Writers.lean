import AefTerminal.Alerts.Repository
import AefTerminal.Foundation.Run

/-!
# What a writer of the alert table can do

One inversion lemma for the six writers: whatever commits is one of the effects of `AlertEffect`,
with everything the writer checked. The invariants of the table are derived from it and from
nothing else.

## Main definitions

* `AlertAct`, `AlertStep`: one call, and the table after it
* `AlertEffect`: what a call that commits has done

## Main results

* `perform_effect`: the inversion lemma
* `requireUniquePriceAlertDefinitions_eq_ok`: what the uniqueness check establishes
* `TableInv.after`: every stored row is valid, retained and under its own id
-/

namespace AefTerminal

open Foundation

/-! ### The uniqueness check -/

variable {a a' : PriceAlert}

theorem priceAlertDefinitionIdentity_eq_ok {identity : PriceAlertIdentity} :
    priceAlertDefinitionIdentity a = .ok identity ↔
      validatePriceAlertDefinition a = .ok () ∧ a.definitionIdentity = identity := by
  rw [priceAlertDefinitionIdentity, bind_eq_ok]
  exact ⟨fun ⟨⟨⟩, hvalid, h⟩ => ⟨hvalid, pure_eq_ok.mp h⟩,
    fun ⟨hvalid, h⟩ => ⟨(), hvalid, pure_eq_ok.mpr h⟩⟩

variable {seen : Dict PriceAlertIdentity String}

theorem ownDefinition_eq_ok {seen' : Dict PriceAlertIdentity String}
    (h : ownDefinition seen a = .ok seen') :
    a.definitionIdentity ∉ seen.keys ∧ seen' = seen.insert a.definitionIdentity a.id := by
  obtain ⟨identity, hidentity, h⟩ := bind_eq_ok.mp h
  obtain ⟨-, rfl⟩ := priceAlertDefinitionIdentity_eq_ok.mp hidentity
  obtain ⟨-, -, h⟩ := bind_eq_ok.mp h
  split at h
  · exact absurd h (by simp)
  · rename_i hnone
    exact ⟨Dict.notMem_keys_iff.mpr hnone, (pure_eq_ok.mp h).symm⟩

theorem ownDefinition_of_fresh
    (hvalid : validatePriceAlertDefinition a = .ok ()) (hfresh : a.definitionIdentity ∉ seen.keys) :
    ownDefinition seen a = .ok (seen.insert a.definitionIdentity a.id) := by
  obtain ⟨hid, -⟩ := validatePriceAlertDefinition_texts hvalid
  have hidentity := priceAlertDefinitionIdentity_eq_ok.mpr ⟨hvalid, rfl⟩
  have htext : exactIdentityText a.id "PRICE_ALERT_ID" = .ok () := exactIdentityText_eq_ok.mpr hid
  simp only [ownDefinition, hidentity, htext, bind, Except.bind, Dict.notMem_keys_iff.mp hfresh]
  rfl

variable {alerts : List PriceAlert}

/-- The check passes over `alerts` exactly where they add no definition twice. -/
theorem foldlM_ownDefinition (hvalid : ∀ a ∈ alerts, validatePriceAlertDefinition a = .ok ()) :
    (∃ seen', alerts.foldlM ownDefinition seen = .ok seen') ↔
      (alerts.map PriceAlert.definitionIdentity).Nodup ∧
        ∀ a ∈ alerts, a.definitionIdentity ∉ seen.keys := by
  induction alerts generalizing seen with
  | nil => exact ⟨fun _ => ⟨List.nodup_nil, by simp⟩, fun _ => ⟨seen, rfl⟩⟩
  | cons a alerts ih =>
    rw [List.forall_mem_cons] at hvalid
    simp only [List.foldlM_cons, List.map_cons, List.nodup_cons, List.forall_mem_cons]
    constructor
    · rintro ⟨seen', h⟩
      obtain ⟨seen₁, h₁, h⟩ := bind_eq_ok.mp h
      obtain ⟨hfresh, rfl⟩ := ownDefinition_eq_ok h₁
      obtain ⟨hnodup, hrest⟩ := (ih hvalid.2).mp ⟨_, h⟩
      refine ⟨⟨fun hmem => ?_, hnodup⟩, hfresh, fun b hb hkey => ?_⟩
      · obtain ⟨b, hb, heq⟩ := List.mem_map.mp hmem
        exact hrest b hb (Dict.mem_keys_insert.mpr (.inl heq))
      · exact hrest b hb (Dict.mem_keys_insert.mpr (.inr hkey))
    · rintro ⟨⟨hnot, hnodup⟩, hfresh, hrest⟩
      rw [ownDefinition_of_fresh hvalid.1 hfresh]
      refine (ih hvalid.2).mpr ⟨hnodup, fun b hb hkey => ?_⟩
      rcases Dict.mem_keys_insert.mp hkey with heq | hkey
      · exact hnot (heq ▸ List.mem_map_of_mem hb)
      · exact hrest b hb hkey

/-- The uniqueness check passes over valid rows exactly where no definition occurs twice. -/
theorem requireUniquePriceAlertDefinitions_eq_ok
    (hvalid : ∀ a ∈ alerts, validatePriceAlertDefinition a = .ok ()) :
    requireUniquePriceAlertDefinitions alerts = .ok () ↔
      (alerts.map PriceAlert.definitionIdentity).Nodup := by
  have hfold : (∃ seen, alerts.foldlM ownDefinition Dict.empty = .ok seen) ↔
      (alerts.map PriceAlert.definitionIdentity).Nodup ∧
        ∀ a ∈ alerts, a.definitionIdentity ∉ Dict.empty.keys := foldlM_ownDefinition hvalid
  simp only [Dict.keys_empty, List.not_mem_nil, not_false_eq_true, implies_true, and_true] at hfold
  rw [← hfold, requireUniquePriceAlertDefinitions, bind_eq_ok]
  simp

/-- What a passed check says without knowing that the rows are valid. -/
theorem nodup_of_requireUniquePriceAlertDefinitions {u : Unit}
    (h : requireUniquePriceAlertDefinitions alerts = .ok u) :
    (alerts.map PriceAlert.definitionIdentity).Nodup := by
  obtain ⟨seen, hseen, -⟩ := bind_eq_ok.mp h
  suffices hvalid : ∀ a ∈ alerts, validatePriceAlertDefinition a = .ok () from
    ((foldlM_ownDefinition hvalid).mp ⟨seen, hseen⟩).1
  clear h
  generalize Dict.empty = start at hseen
  induction alerts generalizing start with
  | nil => simp
  | cons a alerts ih =>
    rw [List.foldlM_cons] at hseen
    obtain ⟨seen₁, h₁, hseen⟩ := bind_eq_ok.mp hseen
    obtain ⟨identity, hidentity, -⟩ := bind_eq_ok.mp h₁
    exact List.forall_mem_cons.mpr
      ⟨(priceAlertDefinitionIdentity_eq_ok.mp hidentity).1, ih seen₁ hseen⟩

/-! ### Calls -/

inductive AlertAct
  | update (alertId instrumentId routeFingerprint : String) (guard : PayloadGuard)
      (patch : PriceAlert → PriceAlert)
  | createOrRearm (candidate : PriceAlert) (rearmedAt : ℕ)
  | rearm (alertId instrumentId routeFingerprint : String) (rearmedAt : ℕ)
      (definitionPatch : DefinitionPatch) (expectedRearmedAt : Option ℕ)
  | setEnabled (alertId instrumentId routeFingerprint : String) (enabled : Bool) (rearmedAt : ℕ)
      (expectedRearmedAt : Option ℕ)
  | delete (alertId instrumentId routeFingerprint : String) (expectedRearmedAt : Option ℕ)
  | deleteScope (instrumentId routeFingerprint timeframe : String)

namespace PriceAlertTable

def perform (t : PriceAlertTable) : AlertAct → Except AlertError AlertCommit
  | .update alertId instrumentId routeFingerprint guard patch =>
    updatePriceAlertPayloadExact t alertId instrumentId routeFingerprint guard patch
  | .createOrRearm candidate rearmedAt => createOrRearmPriceAlertExact t candidate rearmedAt
  | .rearm alertId instrumentId routeFingerprint rearmedAt definitionPatch expectedRearmedAt =>
    rearmPriceAlertExact t alertId instrumentId routeFingerprint rearmedAt definitionPatch
      expectedRearmedAt
  | .setEnabled alertId instrumentId routeFingerprint enabled rearmedAt expectedRearmedAt =>
    setPriceAlertEnabledExact t alertId instrumentId routeFingerprint enabled rearmedAt
      expectedRearmedAt
  | .delete alertId instrumentId routeFingerprint expectedRearmedAt =>
    deletePriceAlertExact t alertId instrumentId routeFingerprint expectedRearmedAt
  | .deleteScope instrumentId routeFingerprint timeframe =>
    deletePriceAlertScopeExact t instrumentId routeFingerprint timeframe

/-- The table after a call: a call that raises is rolled back. -/
def after (t : PriceAlertTable) (act : AlertAct) : PriceAlertTable :=
  match t.perform act with
  | .error _ => t
  | .ok m => m.table

theorem exact_eq_some {t : PriceAlertTable} {alertId instrumentId routeFingerprint : String}
    {a : PriceAlert} : t.exact alertId instrumentId routeFingerprint = some a ↔
      t.get? alertId = some a ∧ a.instrumentId = instrumentId ∧
        a.routeFingerprint = routeFingerprint := by
  simp [exact, Option.filter_eq_some_iff]

theorem mem_scope {t : PriceAlertTable} {instrumentId routeFingerprint timeframe : String}
    {a : PriceAlert} : a ∈ t.scope instrumentId routeFingerprint timeframe ↔
      ∃ id, t.get? id = some a ∧ a.instrumentId = instrumentId ∧
        a.routeFingerprint = routeFingerprint ∧ a.timeframe = timeframe := by
  simp [scope, scopeRows, Dict.mem_select, PriceAlert.inScope, and_assoc]

end PriceAlertTable

/-- One call, and the table after it. -/
def AlertStep (t : PriceAlertTable) (act : AlertAct) (t' : PriceAlertTable) : Prop :=
  t.after act = t'

/-- The run of a list of calls. -/
theorem run_after (t : PriceAlertTable) (acts : List AlertAct) :
    Run AlertStep t acts (acts.foldl PriceAlertTable.after t) := by
  induction acts generalizing t with
  | nil => exact .nil t
  | cons act acts ih => exact .cons rfl (ih _)

/-! ### Effects -/

/-- What a call that commits has done, with what it checked. -/
inductive AlertEffect (t : PriceAlertTable) : AlertAct → AlertCommit → Prop
  | unchanged (act : AlertAct) (answer : Option PriceAlert) :
      AlertEffect t act (.unchanged t answer)
  | updated {alertId instrumentId routeFingerprint : String} {guard : PayloadGuard}
      {patch : PriceAlert → PriceAlert} {current : PriceAlert}
      (hfound : t.exact alertId instrumentId routeFingerprint = some current)
      (hagree : guard.agree current = true) (hvalid : (patch current).Valid)
      (hretain : (patch current).retain = true) :
      AlertEffect t (.update alertId instrumentId routeFingerprint guard patch)
        ⟨t.insert alertId (patch current), some (patch current), some (.publish (patch current))⟩
  | inert {alertId instrumentId routeFingerprint : String} {guard : PayloadGuard}
      {patch : PriceAlert → PriceAlert} {current : PriceAlert}
      (hfound : t.exact alertId instrumentId routeFingerprint = some current)
      (hagree : guard.agree current = true) (hvalid : (patch current).Valid)
      (hinert : (patch current).retain = false) :
      AlertEffect t (.update alertId instrumentId routeFingerprint guard patch)
        ⟨t.erase alertId, some (patch current), some (.publish (patch current))⟩
  | matched {candidate a : PriceAlert} {rearmedAt : ℕ} (hcandidate : candidate.Valid)
      (hmem : a ∈ t.scope candidate.instrumentId candidate.routeFingerprint candidate.timeframe)
      (hidentity : a.definitionIdentity = candidate.definitionIdentity)
      (hvalid : ((a.redefinedAs candidate).rearmed (nextAlertGeneration a rearmedAt)).Valid) :
      AlertEffect t (.createOrRearm candidate rearmedAt)
        ⟨t.insert a.id ((a.redefinedAs candidate).rearmed (nextAlertGeneration a rearmedAt)),
          some ((a.redefinedAs candidate).rearmed (nextAlertGeneration a rearmedAt)),
          some (.publish ((a.redefinedAs candidate).rearmed (nextAlertGeneration a rearmedAt)))⟩
  | created {candidate : PriceAlert} {rearmedAt : ℕ} (hcandidate : candidate.Valid)
      (hretain : candidate.retain = true) (hfree : t.get? candidate.id = none)
      (hfresh : ∀ a ∈ t.scope candidate.instrumentId candidate.routeFingerprint candidate.timeframe,
        a.definitionIdentity ≠ candidate.definitionIdentity) :
      AlertEffect t (.createOrRearm candidate rearmedAt)
        ⟨t.insert candidate.id candidate, some candidate, some (.publish candidate)⟩
  | rearmed {alertId instrumentId routeFingerprint : String} {rearmedAt : ℕ}
      {definitionPatch : DefinitionPatch} {expectedRearmedAt : Option ℕ}
      {current updated : PriceAlert}
      (hfound : t.exact alertId instrumentId routeFingerprint = some current)
      (hupdated : updated =
        (current.redefined definitionPatch).rearmed (nextAlertGeneration current rearmedAt))
      (hvalid : updated.Valid)
      (hunique : ((t.scope instrumentId routeFingerprint current.timeframe).map fun a =>
        if a.id = alertId then updated.definitionIdentity else a.definitionIdentity).Nodup) :
      AlertEffect t
        (.rearm alertId instrumentId routeFingerprint rearmedAt definitionPatch expectedRearmedAt)
        ⟨t.insert alertId updated, some updated, some (.publish updated)⟩
  | enabled {alertId instrumentId routeFingerprint : String} {rearmedAt : ℕ}
      {expectedRearmedAt : Option ℕ} {current : PriceAlert}
      (hfound : t.exact alertId instrumentId routeFingerprint = some current)
      (hvalid : (current.rearmed (nextAlertGeneration current rearmedAt)).Valid) :
      AlertEffect t
        (.setEnabled alertId instrumentId routeFingerprint true rearmedAt expectedRearmedAt)
        ⟨t.insert alertId (current.rearmed (nextAlertGeneration current rearmedAt)),
          some (current.rearmed (nextAlertGeneration current rearmedAt)),
          some (.publish (current.rearmed (nextAlertGeneration current rearmedAt)))⟩
  | disabled {alertId instrumentId routeFingerprint : String} {rearmedAt : ℕ}
      {expectedRearmedAt : Option ℕ} {current : PriceAlert}
      (hfound : t.exact alertId instrumentId routeFingerprint = some current) :
      AlertEffect t
        (.setEnabled alertId instrumentId routeFingerprint false rearmedAt expectedRearmedAt)
        ⟨t.erase alertId, some (current.disabled (nextAlertGeneration current rearmedAt)),
          some (.remove ⟨alertId, instrumentId, routeFingerprint⟩)⟩
  | deleted {alertId instrumentId routeFingerprint : String} {expectedRearmedAt : Option ℕ}
      {current : PriceAlert}
      (hfound : t.exact alertId instrumentId routeFingerprint = some current) :
      AlertEffect t (.delete alertId instrumentId routeFingerprint expectedRearmedAt)
        ⟨t.erase alertId, some current, some (.remove ⟨alertId, instrumentId, routeFingerprint⟩)⟩
  | deletedScope (instrumentId routeFingerprint timeframe : String)
      (hinstrument : instrumentId ≠ "") (hroute : routeFingerprint ≠ "")
      (htimeframe : timeframe ≠ "") :
      AlertEffect t (.deleteScope instrumentId routeFingerprint timeframe)
        ⟨t.eraseAll ((t.scopeRows instrumentId routeFingerprint timeframe).map Prod.fst), none,
          some (.removeScope instrumentId routeFingerprint timeframe)⟩

section Perform

variable {t : PriceAlertTable} {m : AlertCommit} {alertId instrumentId routeFingerprint : String}

theorem updatePriceAlertPayload_eq_ok {current : PriceAlert} {guard : PayloadGuard}
    {patch : PriceAlert → PriceAlert} {updated : Option PriceAlert}
    (h : updatePriceAlertPayload current guard patch = .ok updated) :
    current.Valid ∧ ∀ a, updated = some a →
      guard.agree current = true ∧ a = patch current ∧ (patch current).Valid := by
  obtain ⟨⟨⟩, hcurrent, h⟩ := bind_eq_ok.mp h
  refine ⟨validatePriceAlert_eq_ok.mp hcurrent, fun a ha => ?_⟩
  subst ha
  split at h
  · rename_i hagree
    obtain ⟨⟨⟩, hvalid, h⟩ := bind_eq_ok.mp h
    exact ⟨hagree, (Option.some.inj (pure_eq_ok.mp h)).symm, validatePriceAlert_eq_ok.mp hvalid⟩
  · exact absurd (pure_eq_ok.mp h) (by simp)

theorem updatePriceAlertPayloadExact_effect {guard : PayloadGuard}
    {patch : PriceAlert → PriceAlert}
    (h : updatePriceAlertPayloadExact t alertId instrumentId routeFingerprint guard patch = .ok m) :
    AlertEffect t (.update alertId instrumentId routeFingerprint guard patch) m := by
  obtain ⟨⟨⟩, -, h⟩ := bind_eq_ok.mp h
  split at h
  · exact pure_eq_ok.mp h ▸ .unchanged _ _
  rename_i current hfound
  obtain ⟨updated, hupdated, h⟩ := bind_eq_ok.mp h
  obtain ⟨-, hupdated⟩ := updatePriceAlertPayload_eq_ok hupdated
  split at h
  · exact pure_eq_ok.mp h ▸ .unchanged _ _
  obtain ⟨hagree, rfl, hvalid⟩ := hupdated _ rfl
  split at h
  · exact pure_eq_ok.mp h ▸ .unchanged _ _
  split at h
  · rename_i hretain
    exact pure_eq_ok.mp h ▸ .updated hfound hagree hvalid hretain
  · rename_i hinert
    exact pure_eq_ok.mp h ▸ .inert hfound hagree hvalid (by simpa using hinert)

variable {rearmedAt : ℕ}

theorem createOrRearmPriceAlertExact_effect {candidate : PriceAlert}
    (h : createOrRearmPriceAlertExact t candidate rearmedAt = .ok m) :
    AlertEffect t (.createOrRearm candidate rearmedAt) m := by
  obtain ⟨⟨⟩, -, h⟩ := bind_eq_ok.mp h
  obtain ⟨⟨⟩, -, h⟩ := bind_eq_ok.mp h
  obtain ⟨⟨⟩, -, h⟩ := bind_eq_ok.mp h
  obtain ⟨⟨⟩, -, h⟩ := bind_eq_ok.mp h
  obtain ⟨⟨⟩, -, h⟩ := bind_eq_ok.mp h
  obtain ⟨⟨⟩, hcandidate, h⟩ := bind_eq_ok.mp h
  obtain ⟨identity, hidentity, h⟩ := bind_eq_ok.mp h
  obtain ⟨-, rfl⟩ := priceAlertDefinitionIdentity_eq_ok.mp hidentity
  obtain ⟨⟨⟩, hretain, h⟩ := bind_eq_ok.mp h
  obtain ⟨⟨⟩, -, h⟩ := bind_eq_ok.mp h
  obtain ⟨⟨⟩, -, h⟩ := bind_eq_ok.mp h
  have hcandidate := validatePriceAlert_eq_ok.mp hcandidate
  split at h
  · rename_i a hfind
    obtain ⟨⟨⟩, hvalid, h⟩ := bind_eq_ok.mp h
    exact pure_eq_ok.mp h ▸ .matched hcandidate (List.mem_of_find?_eq_some hfind)
      (by simpa using List.find?_some hfind) (validatePriceAlert_eq_ok.mp hvalid)
  · rename_i hfind
    obtain ⟨⟨⟩, hfree, h⟩ := bind_eq_ok.mp h
    exact pure_eq_ok.mp h ▸ .created hcandidate (require_eq_ok.mp hretain)
      (require_eq_ok.mp hfree) (by simpa using hfind)

variable {expected : Option ℕ}

theorem rearmPriceAlertExact_effect {definitionPatch : DefinitionPatch}
    (h : rearmPriceAlertExact t alertId instrumentId routeFingerprint rearmedAt definitionPatch
      expected = .ok m) :
    AlertEffect t (.rearm alertId instrumentId routeFingerprint rearmedAt definitionPatch expected)
      m := by
  obtain ⟨⟨⟩, -, h⟩ := bind_eq_ok.mp h
  split at h
  · exact pure_eq_ok.mp h ▸ .unchanged _ _
  rename_i current hfound
  obtain ⟨⟨⟩, -, h⟩ := bind_eq_ok.mp h
  split at h
  · exact pure_eq_ok.mp h ▸ .unchanged _ _
  split at h
  · exact pure_eq_ok.mp h ▸ .unchanged _ _
  obtain ⟨⟨⟩, hvalid, h⟩ := bind_eq_ok.mp h
  obtain ⟨⟨⟩, -, h⟩ := bind_eq_ok.mp h
  obtain ⟨⟨⟩, hunique, h⟩ := bind_eq_ok.mp h
  have hunique := nodup_of_requireUniquePriceAlertDefinitions hunique
  rw [List.map_map] at hunique
  refine pure_eq_ok.mp h ▸ .rearmed hfound rfl (validatePriceAlert_eq_ok.mp hvalid) ?_
  refine (congrArg List.Nodup (List.map_congr_left fun a _ => ?_)).mp hunique
  simp only [Function.comp]
  split <;> rfl

theorem setPriceAlertEnabledExact_effect {enabled : Bool}
    (h : setPriceAlertEnabledExact t alertId instrumentId routeFingerprint enabled rearmedAt
      expected = .ok m) :
    AlertEffect t (.setEnabled alertId instrumentId routeFingerprint enabled rearmedAt expected)
      m := by
  obtain ⟨⟨⟩, -, h⟩ := bind_eq_ok.mp h
  split at h
  · exact pure_eq_ok.mp h ▸ .unchanged _ _
  rename_i current hfound
  obtain ⟨⟨⟩, -, h⟩ := bind_eq_ok.mp h
  split at h
  · exact pure_eq_ok.mp h ▸ .unchanged _ _
  cases enabled with
  | true =>
    simp only [if_true] at h
    split at h
    · exact pure_eq_ok.mp h ▸ .unchanged _ _
    obtain ⟨⟨⟩, hvalid, h⟩ := bind_eq_ok.mp h
    exact pure_eq_ok.mp h ▸ .enabled hfound (validatePriceAlert_eq_ok.mp hvalid)
  | false =>
    obtain ⟨⟨⟩, -, h⟩ := bind_eq_ok.mp h
    exact pure_eq_ok.mp h ▸ .disabled hfound

theorem deletePriceAlertExact_effect
    (h : deletePriceAlertExact t alertId instrumentId routeFingerprint expected = .ok m) :
    AlertEffect t (.delete alertId instrumentId routeFingerprint expected) m := by
  obtain ⟨⟨⟩, -, h⟩ := bind_eq_ok.mp h
  split at h
  · exact pure_eq_ok.mp h ▸ .unchanged _ _
  rename_i current hfound
  obtain ⟨⟨⟩, -, h⟩ := bind_eq_ok.mp h
  split at h
  · exact pure_eq_ok.mp h ▸ .unchanged _ _
  · exact pure_eq_ok.mp h ▸ .deleted hfound

/-- The inversion lemma: what a call that commits has done. -/
theorem perform_effect {act : AlertAct} (h : t.perform act = .ok m) : AlertEffect t act m := by
  cases act with
  | update => exact updatePriceAlertPayloadExact_effect h
  | createOrRearm => exact createOrRearmPriceAlertExact_effect h
  | rearm => exact rearmPriceAlertExact_effect h
  | setEnabled => exact setPriceAlertEnabledExact_effect h
  | delete => exact deletePriceAlertExact_effect h
  | deleteScope =>
    obtain ⟨⟨⟩, hinstrument, h⟩ := bind_eq_ok.mp h
    obtain ⟨⟨⟩, hroute, h⟩ := bind_eq_ok.mp h
    obtain ⟨⟨⟩, htimeframe, h⟩ := bind_eq_ok.mp h
    obtain ⟨⟨⟩, -, h⟩ := bind_eq_ok.mp h
    exact pure_eq_ok.mp h ▸ .deletedScope _ _ _ (exactIdentityText_eq_ok.mp hinstrument)
      (exactIdentityText_eq_ok.mp hroute) (exactIdentityText_eq_ok.mp htimeframe)

/-- What holds of the table and of every effect on it holds of the table after a call. -/
theorem after_induct {P : PriceAlertTable → Prop} (act : AlertAct) (hrollback : P t)
    (heffect : ∀ m, AlertEffect t act m → P m.table) : P (t.after act) := by
  unfold PriceAlertTable.after
  split
  · exact hrollback
  · rename_i m hm
    exact heffect m (perform_effect hm)

end Perform

/-! ### One row -/

/-- What a call that writes a stored row makes of it. -/
inductive RowRewrite : AlertAct → PriceAlert → PriceAlert → Prop
  | updated {alertId instrumentId routeFingerprint : String} {guard : PayloadGuard}
      {patch : PriceAlert → PriceAlert} {a : PriceAlert} (hid : a.id = alertId)
      (hagree : guard.agree a = true) (hvalid : (patch a).Valid)
      (hretain : (patch a).retain = true) :
      RowRewrite (.update alertId instrumentId routeFingerprint guard patch) a (patch a)
  | matched {candidate a : PriceAlert} {rearmedAt : ℕ} (hcandidate : candidate.Valid)
      (hidentity : a.definitionIdentity = candidate.definitionIdentity)
      (hvalid : ((a.redefinedAs candidate).rearmed (nextAlertGeneration a rearmedAt)).Valid) :
      RowRewrite (.createOrRearm candidate rearmedAt) a
        ((a.redefinedAs candidate).rearmed (nextAlertGeneration a rearmedAt))
  | rearmed {alertId instrumentId routeFingerprint : String} {rearmedAt : ℕ}
      {definitionPatch : DefinitionPatch} {expectedRearmedAt : Option ℕ} {a : PriceAlert}
      (hid : a.id = alertId) (hvalid : ((a.redefined definitionPatch).rearmed (nextAlertGeneration a rearmedAt)).Valid) :
      RowRewrite
        (.rearm alertId instrumentId routeFingerprint rearmedAt definitionPatch expectedRearmedAt) a
        ((a.redefined definitionPatch).rearmed (nextAlertGeneration a rearmedAt))
  | enabled {alertId instrumentId routeFingerprint : String} {rearmedAt : ℕ}
      {expectedRearmedAt : Option ℕ} {a : PriceAlert} (hid : a.id = alertId)
      (hvalid : (a.rearmed (nextAlertGeneration a rearmedAt)).Valid) :
      RowRewrite (.setEnabled alertId instrumentId routeFingerprint true rearmedAt expectedRearmedAt)
        a (a.rearmed (nextAlertGeneration a rearmedAt))

/-- The calls that delete rows outright. -/
def AlertAct.removes : AlertAct → Bool
  | .setEnabled _ _ _ enabled _ _ => !enabled
  | .delete .. => true
  | .deleteScope .. => true
  | _ => false

/-- What a call does to the row under one id. -/
inductive RowChange (act : AlertAct) (id : String) : Option PriceAlert → Option PriceAlert → Prop
  | same (row : Option PriceAlert) : RowChange act id row row
  | removed (hact : act.removes = true) (a : PriceAlert) : RowChange act id (some a) none
  | inert {alertId instrumentId routeFingerprint : String} {guard : PayloadGuard}
      {patch : PriceAlert → PriceAlert}
      (hact : act = .update alertId instrumentId routeFingerprint guard patch) {a : PriceAlert}
      (hagree : guard.agree a = true) (hvalid : (patch a).Valid)
      (hinert : (patch a).retain = false) : RowChange act id (some a) none
  | created {candidate : PriceAlert} {rearmedAt : ℕ}
      (hact : act = .createOrRearm candidate rearmedAt) (hid : candidate.id = id)
      (hvalid : candidate.Valid) (hretain : candidate.retain = true) : RowChange act id none (some candidate)
  | rewritten {a a' : PriceAlert} (h : RowRewrite act a a') : RowChange act id (some a) (some a')

/-- Every row is stored under its own id, valid and retained. -/
structure TableInv (t : PriceAlertTable) : Prop where
  id_eq : ∀ id a, t.get? id = some a → a.id = id
  valid : ∀ id a, t.get? id = some a → a.Valid
  retain : ∀ id a, t.get? id = some a → a.retain = true

/-- A payload update that leaves the key of a row as it is. -/
def AlertAct.KeepsKey : AlertAct → Prop
  | .update _ _ _ _ patch => ∀ a, (patch a).key = a.key
  | _ => True

variable {act : AlertAct}

theorem RowRewrite.valid (h : RowRewrite act a a') :
    a'.Valid := by
  cases h <;> assumption

theorem RowRewrite.retain (h : RowRewrite act a a') :
    a'.retain = true := by
  cases h with
  | updated _ _ _ hretain => exact hretain
  | matched | rearmed | enabled => rfl

theorem RowRewrite.key_eq (h : RowRewrite act a a') (hact : act.KeepsKey) : a'.key = a.key := by
  cases h with
  | updated => exact hact a
  | matched | rearmed | enabled => rfl

namespace TableInv

variable {t : PriceAlertTable} {act : AlertAct} {m : AlertCommit}

theorem empty : TableInv Dict.empty := ⟨by simp, by simp, by simp⟩

variable {a : PriceAlert}

theorem get?_of_exact {alertId instrumentId routeFingerprint : String}
    (hfound : t.exact alertId instrumentId routeFingerprint = some a) : t.get? alertId = some a :=
  (PriceAlertTable.exact_eq_some.mp hfound).1

variable {id : String}

theorem exact_of_get? (hinv : TableInv t)
    (h : t.get? id = some a) : t.exact a.id a.instrumentId a.routeFingerprint = some a :=
  PriceAlertTable.exact_eq_some.mpr ⟨(hinv.id_eq id a h).symm ▸ h, rfl, rfl⟩

/-- A write to one row changes that row and no other. -/
theorem rowChange_insert {a' : PriceAlert} (h : t.get? id = some a)
    (hrewrite : RowRewrite act a a') (j : String) :
    RowChange act j (t.get? j) ((t.insert id a').get? j) := by
  by_cases hj : j = id
  · subst hj
    rw [h, Dict.get?_insert_self]
    exact .rewritten hrewrite
  · rw [Dict.get?_insert_of_ne _ hj]
    exact .same _

theorem rowChange_erase (h : t.get? id = some a)
    (hgone : RowChange act id (some a) none) (j : String) :
    RowChange act j (t.get? j) ((t.erase id).get? j) := by
  by_cases hj : j = id
  · subst hj
    rw [h, Dict.get?_erase_self]
    exact hgone
  · rw [Dict.get?_erase_of_ne _ hj]
    exact .same _

/-- What a committed call does to the row under `j`. -/
theorem rowChange (hinv : TableInv t) (h : AlertEffect t act m) (j : String) :
    RowChange act j (t.get? j) (m.table.get? j) := by
  cases h with
  | unchanged => exact .same _
  | updated hfound hagree hvalid hretain =>
    exact rowChange_insert (get?_of_exact hfound)
      (.updated (hinv.id_eq _ _ (get?_of_exact hfound)) hagree hvalid hretain) j
  | inert hfound hagree hvalid hinert =>
    exact rowChange_erase (get?_of_exact hfound) (.inert rfl hagree hvalid hinert) j
  | matched hcandidate hmem hidentity hvalid =>
    obtain ⟨id, hget, -⟩ := PriceAlertTable.mem_scope.mp hmem
    refine rowChange_insert ?_ (.matched hcandidate hidentity hvalid) j
    rw [hinv.id_eq id _ hget]
    exact hget
  | @created candidate _ hcandidate hretain hfree =>
    by_cases hj : j = candidate.id
    · subst hj
      rw [hfree, Dict.get?_insert_self]
      exact .created rfl rfl hcandidate hretain
    · rw [Dict.get?_insert_of_ne _ hj]
      exact .same _
  | rearmed hfound hupdated hvalid =>
    subst hupdated
    exact rowChange_insert (get?_of_exact hfound)
      (.rearmed (hinv.id_eq _ _ (get?_of_exact hfound)) hvalid) j
  | enabled hfound hvalid =>
    exact rowChange_insert (get?_of_exact hfound)
      (.enabled (hinv.id_eq _ _ (get?_of_exact hfound)) hvalid) j
  | disabled hfound => exact rowChange_erase (get?_of_exact hfound) (.removed rfl _) j
  | deleted hfound => exact rowChange_erase (get?_of_exact hfound) (.removed rfl _) j
  | deletedScope =>
    dsimp only
    rw [Dict.get?_eraseAll]
    split
    · cases t.get? j with
      | none => exact .same _
      | some a => exact .removed rfl a
    · exact .same _

/-- The invariant of the table is kept by every call whose patch keeps the key of a row. -/
theorem after_effect (hinv : TableInv t) (hact : act.KeepsKey) (hm : AlertEffect t act m) :
    TableInv m.table := by
  have hrow (id : String) (a' : PriceAlert) (h : m.table.get? id = some a') :
      a'.id = id ∧ a'.Valid ∧ a'.retain = true := by
    have hchange := hinv.rowChange hm id
    rw [h] at hchange
    generalize hold : t.get? id = old at hchange
    cases hchange with
    | same => exact ⟨hinv.id_eq id a' hold, hinv.valid id a' hold, hinv.retain id a' hold⟩
    | created _ hid hvalid hretain => exact ⟨hid, hvalid, hretain⟩
    | rewritten h =>
      have hkey := congrArg AlertKey.alertId (h.key_eq hact)
      exact ⟨hkey.trans (hinv.id_eq id _ hold), h.valid, h.retain⟩
  exact ⟨fun id a h => (hrow id a h).1, fun id a h => (hrow id a h).2.1,
    fun id a h => (hrow id a h).2.2⟩

theorem after (hinv : TableInv t) (hact : act.KeepsKey) : TableInv (t.after act) :=
  after_induct act hinv fun _ hm => hinv.after_effect hact hm

end TableInv

end AefTerminal
