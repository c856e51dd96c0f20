import AefTerminal.Alerts.Registry

/-!
# The registry converges to the stored alerts

The publications in the order of their commits are a log of changes of the table, and the registry
replays it as far as it was delivered. That explains a hydration as well: the rows it read contain
the beginning of the log, and the buffer repeats a part of it that ends where the delivery stands.

All of it needs the publications to run in the order of their commits, and the hydration to end
after everything in its rows was published. Nothing in the source enforces either.

## Main definitions

* `SoundView`: rows that may stand beside each other in the registry
* `InOrder`: the steps that keep to the order of the commits
* `SystemInv`: the registry against the delivered part of the log

## Main results

* `view_of_effect`: what a commit publishes is the change of the table
* `registry_converges`: no publication raises, and a hydrated registry is the delivered state
-/

namespace AefTerminal

open Foundation

/-! ### Sound rows -/

/-- Valid rows under their own keys, no two with one definition. -/
structure SoundView (v : AlertKey → Option PriceAlert) : Prop where
  key_eq : ∀ k a, v k = some a → a.key = k
  valid : ∀ k a, v k = some a → a.Valid
  retain : ∀ k a, v k = some a → a.retain = true
  unique : ∀ k l a b, v k = some a → v l = some b →
    a.definitionIdentity = b.definitionIdentity → k = l

theorem SoundView.part {v w : AlertKey → Option PriceAlert} (h : SoundView w) (hpart : PartOf v w) :
    SoundView v :=
  ⟨fun k a ha => h.key_eq k a (hpart k a ha), fun k a ha => h.valid k a (hpart k a ha),
    fun k a ha => h.retain k a (hpart k a ha),
    fun k l a b ha hb => h.unique k l a b (hpart k a ha) (hpart l b hb)⟩

variable {t : PriceAlertTable}

theorem SoundView.of_table (hinv : TableInv t) (h : UniqueDefinitions t) :
    SoundView t.view where
  key_eq _ _ ha := (PriceAlertTable.view_eq_some.mp ha).2
  valid _ a ha := hinv.valid _ a (PriceAlertTable.view_eq_some.mp ha).1
  retain _ a ha := hinv.retain _ a (PriceAlertTable.view_eq_some.mp ha).1
  unique k l a b ha hb heq := by
    obtain ⟨hgetA, rfl⟩ := PriceAlertTable.view_eq_some.mp ha
    obtain ⟨hgetB, rfl⟩ := PriceAlertTable.view_eq_some.mp hb
    have hid : a.key.alertId = b.key.alertId := h _ _ a b hgetA hgetB heq
    rw [hid] at hgetA
    rw [Option.some.inj (hgetA.symm.trans hgetB)]

/-- Sound rows pass the uniqueness check of the registry. -/
theorem requireUnique_of_soundView {d : Dict AlertKey PriceAlert} (h : SoundView d.get?) :
    requireUniquePriceAlertDefinitions (d.entries.map Prod.snd) = .ok () := by
  have hvalid : ∀ a ∈ d.entries.map Prod.snd, validatePriceAlertDefinition a = .ok () := by
    intro a ha
    obtain ⟨⟨k, a⟩, he, rfl⟩ := List.mem_map.mp ha
    exact (h.valid k a (Dict.get?_eq_some_iff.mpr he)).definition
  rw [requireUniquePriceAlertDefinitions_eq_ok hvalid, List.map_map]
  refine List.Nodup.map_on ?_ (List.Nodup.of_map Prod.fst d.nodup_keys)
  rintro ⟨k, a⟩ ha ⟨l, b⟩ hb heq
  have hgetA := Dict.get?_eq_some_iff.mpr ha
  have hgetB := Dict.get?_eq_some_iff.mpr hb
  obtain rfl := h.unique k l a b hgetA hgetB heq
  rw [Option.some.inj (hgetA.symm.trans hgetB)]

/-! ### What a commit publishes -/

/-- A payload update that leaves the row it is applied to in the table. -/
def AlertAct.KeepsRetained (t : PriceAlertTable) : AlertAct → Prop
  | .update alertId instrumentId routeFingerprint guard patch => ∀ a,
      t.exact alertId instrumentId routeFingerprint = some a → guard.agree a = true →
        (patch a).retain = true
  | _ => True

/-- A write under the key of the row is the change it publishes. -/
theorem view_insert {a : PriceAlert} (hrow : ∀ b, t.get? a.id = some b → b.key = a.key) :
    PriceAlertTable.view (t.insert a.id a) =
      replay [AlertPublication.change (.publish a)] t.view := by
  funext k
  show PriceAlertTable.view _ k = (AlertPublication.change (.publish a) k).apply (t.view k)
  rw [AlertPublication.change]
  split
  · rename_i hk
    subst hk
    exact PriceAlertTable.view_eq_some.mpr ⟨Dict.get?_insert_self _ _ _, rfl⟩
  · rename_i hk
    have hkeep (x : Option PriceAlert) : (CellChange.keep fun _ : PriceAlert => true).apply x = x := by
      cases x <;> rfl
    rw [hkeep]
    by_cases hid : k.alertId = a.id
    · -- the row has one key, and it is not `k`
      refine Option.ext fun b => ?_
      rw [PriceAlertTable.view_eq_some, PriceAlertTable.view_eq_some, hid, Dict.get?_insert_self]
      constructor
      · rintro ⟨hb, hkey⟩
        exact absurd (Option.some.inj hb ▸ hkey).symm hk
      · rintro ⟨hb, hkey⟩
        exact absurd (hkey.symm.trans (hrow b hb)) hk
    · rw [PriceAlertTable.view, PriceAlertTable.view, Dict.get?_insert_of_ne _ hid]

theorem view_erase {a : PriceAlert} (hrow : t.get? a.id = some a) :
    PriceAlertTable.view (t.erase a.id) =
      replay [AlertPublication.change (.remove a.key)] t.view := by
  funext k
  show PriceAlertTable.view _ k = (AlertPublication.change (.remove a.key) k).apply (t.view k)
  rw [AlertPublication.change]
  split
  · rename_i hk
    subst hk
    rw [PriceAlertTable.view, show a.key.alertId = a.id from rfl, Dict.get?_erase_self]
    rfl
  · rename_i hk
    have hkeep (x : Option PriceAlert) : (CellChange.keep fun _ : PriceAlert => true).apply x = x := by
      cases x <;> rfl
    rw [hkeep]
    by_cases hid : k.alertId = a.id
    · rw [PriceAlertTable.view, PriceAlertTable.view, hid, Dict.get?_erase_self, hrow,
        Option.filter_some, if_neg (by simpa using Ne.symm hk)]
      rfl
    · rw [PriceAlertTable.view, PriceAlertTable.view, Dict.get?_erase_of_ne _ hid]

theorem view_eraseScope (instrumentId routeFingerprint timeframe : String) :
    PriceAlertTable.view
        (t.eraseAll ((t.scopeRows instrumentId routeFingerprint timeframe).map Prod.fst)) =
      replay [AlertPublication.change (.removeScope instrumentId routeFingerprint timeframe)]
        t.view := by
  funext k
  show PriceAlertTable.view _ k = (t.view k).filter fun a =>
    !a.inScope instrumentId routeFingerprint timeframe
  refine Option.ext fun a => ?_
  rw [PriceAlertTable.view_eq_some, Option.filter_eq_some_iff, PriceAlertTable.view_eq_some,
    Dict.get?_eraseAll]
  have hmem (h : t.get? k.alertId = some a) :
      k.alertId ∈ (t.scopeRows instrumentId routeFingerprint timeframe).map Prod.fst ↔
        a.inScope instrumentId routeFingerprint timeframe = true := by
    constructor
    · intro hk
      obtain ⟨⟨id, b⟩, hb, hid⟩ := List.mem_map.mp hk
      obtain ⟨hget, hscope⟩ := Dict.mem_select.mp hb
      rw [show id = k.alertId from hid, h] at hget
      exact Option.some.inj hget ▸ hscope
    · exact fun hscope => List.mem_map.mpr ⟨(k.alertId, a), Dict.mem_select.mpr ⟨h, hscope⟩, rfl⟩
  constructor
  · rintro ⟨h, hkey⟩
    split at h
    · exact absurd h (by simp)
    · rename_i hout
      exact ⟨⟨h, hkey⟩, by simpa using mt (hmem h).mpr hout⟩
  · rintro ⟨⟨h, hkey⟩, hscope⟩
    refine ⟨?_, hkey⟩
    rw [if_neg (by rw [hmem h]; simpa using hscope)]
    exact h

/-- What a commit publishes is the change of the table. -/
theorem view_of_effect {act : AlertAct} {m : AlertCommit} (hinv : TableInv t)
    (hkey : act.KeepsKey) (hretain : act.KeepsRetained t) (hm : AlertEffect t act m) :
    m.table.view = replay (m.publication.toList.map AlertPublication.change) t.view := by
  have hwrite {id : String} {a a' : PriceAlert} (hrow : t.get? id = some a) (h : a'.key = a.key) :
      PriceAlertTable.view (t.insert id a') =
        replay [AlertPublication.change (.publish a')] t.view := by
    have hid : a'.id = id := (congrArg AlertKey.alertId h).trans (hinv.id_eq id a hrow)
    subst hid
    refine view_insert fun b hb => ?_
    rw [Option.some.inj (hb.symm.trans hrow), h]
  have hdelete {id instrumentId routeFingerprint : String} {a : PriceAlert}
      (hfound : t.exact id instrumentId routeFingerprint = some a) :
      PriceAlertTable.view (t.erase id) =
        replay [AlertPublication.change (.remove ⟨id, instrumentId, routeFingerprint⟩)] t.view := by
    obtain ⟨hrow, rfl, rfl⟩ := PriceAlertTable.exact_eq_some.mp hfound
    obtain rfl := hinv.id_eq id a hrow
    exact view_erase hrow
  cases hm with
  | unchanged => rfl
  | updated hfound => exact hwrite (TableInv.get?_of_exact hfound) (hkey _)
  | inert hfound hagree _ hinert =>
    exact absurd ((hretain _ hfound hagree).symm.trans hinert) (by simp)
  | @matched _ a _ _ hmem =>
    obtain ⟨id, hget, -⟩ := PriceAlertTable.mem_scope.mp hmem
    have hrow : t.get? a.id = some a := (hinv.id_eq id a hget).symm ▸ hget
    exact hwrite hrow rfl
  | created _ _ hfree => exact view_insert fun b hb => absurd (hfree.symm.trans hb) (by simp)
  | rearmed hfound hupdated => exact hwrite (TableInv.get?_of_exact hfound) (hupdated ▸ rfl)
  | enabled hfound => exact hwrite (TableInv.get?_of_exact hfound) rfl
  | disabled hfound => exact hdelete hfound
  | deleted hfound => exact hdelete hfound
  | deletedScope => exact view_eraseScope _ _ _

/-! ### Publications that do not raise -/

/-- A publication of a committed call. -/
def AlertPublication.WellFormed : AlertPublication → Prop
  | .publish a => a.Valid ∧ a.retain = true
  | .remove key => key.alertId ≠ "" ∧ key.instrumentId ≠ "" ∧ key.routeFingerprint ≠ ""
  | .removeScope instrumentId routeFingerprint timeframe =>
    instrumentId ≠ "" ∧ routeFingerprint ≠ "" ∧ timeframe ≠ ""

theorem wellFormed_of_effect {act : AlertAct} {m : AlertCommit}
    (hinv : TableInv t) (hretain : act.KeepsRetained t) (hm : AlertEffect t act m) :
    ∀ p ∈ m.publication, p.WellFormed := by
  have hremove {id instrumentId routeFingerprint : String} {a : PriceAlert}
      (hfound : t.exact id instrumentId routeFingerprint = some a) :
      (AlertPublication.remove ⟨id, instrumentId, routeFingerprint⟩).WellFormed := by
    obtain ⟨hrow, rfl, rfl⟩ := PriceAlertTable.exact_eq_some.mp hfound
    obtain ⟨hid, hinstrument, hroute, -⟩ :=
      validatePriceAlertDefinition_texts (hinv.valid id a hrow).definition
    exact ⟨hinv.id_eq id a hrow ▸ hid, hinstrument, hroute⟩
  cases hm with
  | unchanged => simp [AlertCommit.unchanged]
  | updated _ _ hvalid hkept =>
    rintro p ⟨⟩
    exact ⟨hvalid, hkept⟩
  | inert hfound hagree _ hinert =>
    exact absurd ((hretain _ hfound hagree).symm.trans hinert) (by simp)
  | matched _ _ _ hvalid =>
    rintro p ⟨⟩
    exact ⟨hvalid, rfl⟩
  | created hvalid hkept =>
    rintro p ⟨⟩
    exact ⟨hvalid, hkept⟩
  | rearmed _ hupdated hvalid =>
    rintro p ⟨⟩
    exact ⟨hvalid, hupdated ▸ rfl⟩
  | enabled _ hvalid =>
    rintro p ⟨⟩
    exact ⟨hvalid, rfl⟩
  | disabled hfound | deleted hfound =>
    rintro p ⟨⟩
    exact hremove hfound
  | deletedScope _ _ _ hinstrument hroute htimeframe =>
    rintro p ⟨⟩
    exact ⟨hinstrument, hroute, htimeframe⟩

/-- A well formed publication that leaves sound rows does not raise, and is replayed. -/
theorem receive_eq_ok {r : AlertRegistry} {p : AlertPublication} (hp : p.WellFormed)
    (hsound : SoundView (AlertRegistry.replayMutation r.alerts p).get?) :
    r.receive p = .ok { r with
      alerts := AlertRegistry.replayMutation r.alerts p
      hydrationMutations := r.buffered p } := by
  cases p with
  | publish a =>
    have hvalid := validatePriceAlert_eq_ok (u := ()).mpr hp.1
    have hunique := requireUnique_of_soundView hsound
    simp only [AlertRegistry.replayMutation] at hunique
    simp only [AlertRegistry.receive, AlertRegistry.publishCommitted, hvalid, hp.2, hunique, require,
      if_true, bind, Except.bind]
    rfl
  | remove key =>
    obtain ⟨hid, hinstrument, hroute⟩ := hp
    have h₁ : exactIdentityText key.alertId "PRICE_ALERT_ID" = .ok () :=
      exactIdentityText_eq_ok.mpr hid
    have h₂ : exactIdentityText key.instrumentId "PRICE_ALERT_INSTRUMENT_ID" = .ok () :=
      exactIdentityText_eq_ok.mpr hinstrument
    have h₃ : exactIdentityText key.routeFingerprint "PRICE_ALERT_ROUTE_FINGERPRINT" = .ok () :=
      exactIdentityText_eq_ok.mpr hroute
    simp only [AlertRegistry.receive, AlertRegistry.removeCommitted, h₁, h₂, h₃, bind, Except.bind]
    rfl
  | removeScope instrumentId routeFingerprint timeframe =>
    obtain ⟨hinstrument, hroute, htimeframe⟩ := hp
    have h₁ : exactIdentityText instrumentId "PRICE_ALERT_INSTRUMENT_ID" = .ok () :=
      exactIdentityText_eq_ok.mpr hinstrument
    have h₂ : exactIdentityText routeFingerprint "PRICE_ALERT_ROUTE_FINGERPRINT" = .ok () :=
      exactIdentityText_eq_ok.mpr hroute
    have h₃ : exactIdentityText timeframe "PRICE_ALERT_TIMEFRAME" = .ok () :=
      exactIdentityText_eq_ok.mpr htimeframe
    simp only [AlertRegistry.receive, AlertRegistry.removeScopeCommitted, h₁, h₂, h₃, bind,
      Except.bind]
    rfl

/-! ### The rows of a snapshot -/

theorem foldlM_hydrateRow {rows : List PriceAlert} {next : Dict AlertKey PriceAlert}
    (hvalid : ∀ a ∈ rows, a.Valid ∧ a.retain = true) (hnodup : (rows.map PriceAlert.key).Nodup)
    (hfree : ∀ a ∈ rows, next.get? a.key = none) :
    ∃ next', rows.foldlM AlertRegistry.hydrateRow next = .ok next' ∧
      ∀ k a, next'.get? k = some a ↔ next.get? k = some a ∨ (a ∈ rows ∧ a.key = k) := by
  induction rows generalizing next with
  | nil => exact ⟨next, rfl, by simp⟩
  | cons a rows ih =>
    rw [List.forall_mem_cons] at hvalid hfree
    rw [List.map_cons, List.nodup_cons] at hnodup
    have hrow : AlertRegistry.hydrateRow next a = .ok (next.insert a.key a) := by
      have ha := validatePriceAlert_eq_ok (u := ()).mpr hvalid.1.1
      simp only [AlertRegistry.hydrateRow, ha, hvalid.1.2, hfree.1, require, if_true, bind,
        Except.bind]
      rfl
    have hkeys : ∀ b ∈ rows, b.key ≠ a.key := fun b hb heq =>
      hnodup.1 (heq ▸ List.mem_map_of_mem hb)
    have hfree' : ∀ b ∈ rows, (next.insert a.key a).get? b.key = none := by
      intro b hb
      rw [Dict.get?_insert_of_ne _ (hkeys b hb)]
      exact hfree.2 b hb
    obtain ⟨next', hnext', hget⟩ := ih hvalid.2 hnodup.2 hfree'
    refine ⟨next', ?_, fun k b => ?_⟩
    · rw [List.foldlM_cons, hrow]
      exact hnext'
    · rw [hget, Dict.get?_insert]
      by_cases hk : k = a.key
      · subst hk
        rw [if_pos rfl, hfree.1, List.mem_cons]
        constructor
        · rintro (h | ⟨hb, hkey⟩)
          · exact .inr ⟨.inl (Option.some.inj h).symm, by rw [Option.some.inj h]⟩
          · exact .inr ⟨.inr hb, hkey⟩
        · rintro (h | ⟨rfl | hb, hkey⟩)
          · exact absurd h (by simp)
          · exact .inl rfl
          · exact .inr ⟨hb, hkey⟩
      · rw [if_neg hk, List.mem_cons]
        constructor
        · rintro (h | ⟨hb, hkey⟩)
          · exact .inl h
          · exact .inr ⟨.inr hb, hkey⟩
        · rintro (h | ⟨rfl | hb, hkey⟩)
          · exact .inl h
          · exact absurd hkey.symm hk
          · exact .inr ⟨hb, hkey⟩

/-- The snapshot of a table hydrates to its view. -/
theorem hydrateRows_of_table (hinv : TableInv t) {rows : List PriceAlert}
    (h : readPriceAlertRuntimeSnapshot t = .ok rows) :
    ∃ next, rows.foldlM AlertRegistry.hydrateRow .empty = .ok next ∧ next.get? = t.view := by
  have hrows : rows = t.entries.map Prod.snd := by
    refine eq_map_of_mapM_eq_ok (fun e _ a he => ?_) h
    obtain ⟨⟨⟩, -, he⟩ := bind_eq_ok.mp he
    obtain ⟨⟨⟩, -, he⟩ := bind_eq_ok.mp he
    obtain ⟨⟨⟩, -, he⟩ := bind_eq_ok.mp he
    exact (pure_eq_ok.mp he).symm
  subst hrows
  have hmem (a : PriceAlert) (ha : a ∈ t.entries.map Prod.snd) : t.get? a.id = some a := by
    obtain ⟨⟨id, a⟩, he, rfl⟩ := List.mem_map.mp ha
    have hget := Dict.get?_eq_some_iff.mpr he
    exact (hinv.id_eq id a hget).symm ▸ hget
  have hkeys : ((t.entries.map Prod.snd).map PriceAlert.key).Nodup := by
    refine List.Nodup.of_map AlertKey.alertId ?_
    rw [List.map_map, List.map_map]
    refine (congrArg List.Nodup (List.map_congr_left fun e he => ?_)).mp t.nodup_keys
    exact (hinv.id_eq e.1 e.2 (Dict.get?_eq_some_iff.mpr he)).symm
  obtain ⟨next, hnext, hget⟩ := foldlM_hydrateRow
    (fun a ha => ⟨hinv.valid _ a (hmem a ha), hinv.retain _ a (hmem a ha)⟩) hkeys
    (fun _ _ => Dict.get?_empty _)
  refine ⟨next, hnext, funext fun k => Option.ext fun a => ?_⟩
  rw [hget, PriceAlertTable.view_eq_some]
  constructor
  · rintro (h | ⟨ha, rfl⟩)
    · exact absurd h (by simp)
    · exact ⟨hmem a ha, rfl⟩
  · rintro ⟨hrow, hkey⟩
    exact .inr ⟨List.mem_map.mpr ⟨(k.alertId, a), Dict.get?_eq_some_iff.mp hrow, rfl⟩, hkey⟩

/-! ### The log of the commits -/

/-- The rows stored after the first `n` publications were committed. -/
def storedAfter (v : AlertKey → Option PriceAlert) (log : List AlertPublication) (n : ℕ) :
    AlertKey → Option PriceAlert :=
  replay ((log.take n).map AlertPublication.change) v

section StoredAfter

variable {v : AlertKey → Option PriceAlert} {log : List AlertPublication} {n b c d : ℕ}

theorem storedAfter_append_of_le (l : List AlertPublication) (h : n ≤ log.length) :
    storedAfter v (log ++ l) n = storedAfter v log n := by
  rw [storedAfter, List.take_append_of_le_length h, storedAfter]

theorem storedAfter_of_length_le (h : log.length ≤ n) :
    storedAfter v log n = storedAfter v log log.length := by
  rw [storedAfter, List.take_of_length_le h, storedAfter, List.take_length]

theorem take_succ_of_get? {p : AlertPublication} (h : log[n]? = some p) :
    log.take (n + 1) = log.take n ++ [p] := by
  rw [List.take_add_one, h]
  rfl

theorem storedAfter_succ {p : AlertPublication} (h : log[n]? = some p) :
    storedAfter v log (n + 1) = replay [p.change] (storedAfter v log n) := by
  rw [storedAfter, take_succ_of_get? h, List.map_append, replay_append]
  rfl

/-- Rows that already contain a part of the buffer are brought up to date by the buffer. -/
theorem replay_buffer (hb : b ≤ c) (hc : c ≤ d) (hd : d ≤ log.length) :
    replay (((log.take d).drop b).map AlertPublication.change) (storedAfter v log c) =
      storedAfter v log d := by
  obtain ⟨y, hy⟩ : log.take b <+: log.take c := List.take_prefix_take_left hb
  obtain ⟨z, hz⟩ : log.take c <+: log.take d := List.take_prefix_take_left hc
  have hlength : (log.take b).length = b := List.length_take_of_le (hb.trans (hc.trans hd))
  have hbuffer : (log.take d).drop b = y ++ z := by
    rw [← hz, ← hy, List.append_assoc, List.drop_left' hlength]
  rw [storedAfter, storedAfter, hbuffer, ← hz, ← hy]
  simp only [List.map_append, replay_append, replay_replay]

end StoredAfter

/-! ### The invariant -/

namespace AlertSystem

/-- The step keeps to the order of the commits. A payload update keeps the identity and the
definition of the row and does not drop it. -/
def InOrder (s : AlertSystem) : RegistryAct → Prop
  | .commit act => act.KeepsKey ∧ act.KeepsDefinition s.table ∧ act.KeepsRetained s.table
  | .deliver n => ∀ m < n, m ∈ s.delivered
  | .hydrate => ∀ token c rows, s.hydration = some ⟨token, some (c, rows)⟩ →
      ∀ m < c, m ∈ s.delivered
  | _ => True

end AlertSystem

/-- A hydration that is going on over the first `d` publications. -/
structure HydrationInv (v : AlertKey → Option PriceAlert) (s : AlertSystem) (d : ℕ)
    (h : Hydration) : Prop where
  active : s.registry.activeHydration = some h.token
  buffer : ∃ b ≤ d, s.registry.hydrationMutations = (s.log.take d).drop b ∧
    ∀ c rows, h.snapshot = some (c, rows) → b ≤ c ∧ c ≤ s.log.length ∧
      ∃ next, rows.foldlM AlertRegistry.hydrateRow .empty = .ok next ∧
        next.get? = storedAfter v s.log c

/-- The registry against the log, `v` being the rows the process started over. -/
structure SystemInv (v : AlertKey → Option PriceAlert) (s : AlertSystem) : Prop where
  table : TableInv s.table
  unique : UniqueDefinitions s.table
  wellFormed : ∀ p ∈ s.log, p.WellFormed
  view : s.table.view = storedAfter v s.log s.log.length
  sound : ∀ n, SoundView (storedAfter v s.log n)
  delivered : s.delivered = List.range s.delivered.length
  delivered_le : s.delivered.length ≤ s.log.length
  registry : PartOf s.registry.alerts.get? (storedAfter v s.log s.delivered.length)
  hydrated : s.registry.hydrated = true →
    s.registry.alerts.get? = storedAfter v s.log s.delivered.length
  hydration : ∀ h, s.hydration = some h → HydrationInv v s s.delivered.length h
  idle : s.hydration = none → s.registry.activeHydration = none
  quiet : s.raised = false

namespace SystemInv

variable {v : AlertKey → Option PriceAlert} {s s' : AlertSystem}

theorem start {t : PriceAlertTable} (hinv : TableInv t) (h : UniqueDefinitions t) :
    SystemInv t.view (AlertSystem.start t) where
  table := hinv
  unique := h
  wellFormed := by simp [AlertSystem.start]
  view := rfl
  sound n := by
    rw [storedAfter, AlertSystem.start, List.take_nil]
    exact .of_table hinv h
  delivered := rfl
  delivered_le := le_rfl
  registry k a ha := absurd ha (by simp [AlertSystem.start, AlertRegistry.empty])
  hydrated h := absurd h (by simp [AlertSystem.start, AlertRegistry.empty])
  hydration h hh := absurd hh (by simp [AlertSystem.start])
  idle _ := rfl
  quiet := rfl

theorem mem_delivered (h : SystemInv v s) {n : ℕ} : n ∈ s.delivered ↔ n < s.delivered.length := by
  conv_lhs => rw [h.delivered]
  exact List.mem_range

theorem commit (h : SystemInv v s) {act : AlertAct} (hok : s.InOrder (.commit act)) :
    SystemInv v (s.commit act) := by
  obtain ⟨hkey, hdefinition, hretain⟩ := hok
  rw [AlertSystem.commit]
  split
  · exact h
  rename_i m hm
  have heffect := perform_effect hm
  have htable := h.table.after_effect hkey heffect
  have hunique := h.unique.effect h.table hdefinition heffect
  have hview : m.table.view = storedAfter v (s.log ++ m.publication.toList)
      (s.log ++ m.publication.toList).length := by
    rw [view_of_effect h.table hkey hretain heffect, h.view, storedAfter, storedAfter,
      List.take_length, List.take_length, List.map_append, replay_append]
  have hold {n : ℕ} (hn : n ≤ s.log.length) :
      storedAfter v (s.log ++ m.publication.toList) n = storedAfter v s.log n :=
    storedAfter_append_of_le _ hn
  have hlength : (s.log ++ m.publication.toList).length ≤ s.log.length + 1 := by
    cases m.publication <;> simp
  refine ⟨htable, hunique, ?_, hview, fun n => ?_, h.delivered, ?_, ?_, fun hh => ?_,
    fun hydration hh => ?_, h.idle, h.quiet⟩
  · intro p hp
    rcases List.mem_append.mp hp with hp | hp
    · exact h.wellFormed p hp
    · exact wellFormed_of_effect h.table hretain heffect p (Option.mem_toList.mp hp)
  · by_cases hn : n ≤ s.log.length
    · rw [hold hn]
      exact h.sound n
    · have hall : (s.log ++ m.publication.toList).length ≤ n := by omega
      rw [storedAfter_of_length_le hall, ← hview]
      exact .of_table htable hunique
  · exact h.delivered_le.trans (by simp)
  · rw [hold h.delivered_le]
    exact h.registry
  · rw [hold h.delivered_le]
    exact h.hydrated hh
  · obtain ⟨hactive, b, hb, hbuffer, hsnapshot⟩ := h.hydration hydration hh
    refine ⟨hactive, b, hb, ?_, fun c rows hc => ?_⟩
    · rw [List.take_append_of_le_length h.delivered_le]
      exact hbuffer
    · obtain ⟨hbc, hle, next, hnext, hget⟩ := hsnapshot c rows hc
      refine ⟨hbc, hle.trans (by simp), next, hnext, ?_⟩
      rw [hold hle]
      exact hget

theorem deliver (h : SystemInv v s) {n : ℕ} {p : AlertPublication} (hok : s.InOrder (.deliver n))
    (hn : n ∉ s.delivered) (hp : s.log[n]? = some p) : SystemInv v (s.deliver n p) := by
  -- the publication is the first that did not run
  have hnext : n = s.delivered.length := by
    have hle : s.delivered.length ≤ n := by simpa [h.mem_delivered] using hn
    refine le_antisymm ?_ hle
    by_contra hlt
    have := h.mem_delivered.mp (hok s.delivered.length (by omega))
    omega
  subst hnext
  have hlt : s.delivered.length < s.log.length := (List.getElem?_eq_some_iff.mp hp).1
  have hpart : PartOf (AlertRegistry.replayMutation s.registry.alerts p).get?
      (storedAfter v s.log (s.delivered.length + 1)) := by
    rw [storedAfter_succ hp, funext (replayMutation_get? s.registry.alerts p)]
    exact replay_mono h.registry [p.change]
  have hreceive := receive_eq_ok (h.wellFormed p (List.mem_of_getElem? hp))
    ((h.sound (s.delivered.length + 1)).part hpart)
  have hlength : (s.delivered ++ [s.delivered.length]).length = s.delivered.length + 1 := by simp
  rw [AlertSystem.deliver, hreceive]
  refine ⟨h.table, h.unique, h.wellFormed, h.view, h.sound, ?_, ?_, ?_, fun hh => ?_,
    fun hydration hh => ?_, h.idle, h.quiet⟩
  · show s.delivered ++ [s.delivered.length] = List.range _
    rw [hlength, List.range_succ, ← h.delivered]
  · show (s.delivered ++ [s.delivered.length]).length ≤ s.log.length
    omega
  · show PartOf _ (storedAfter v s.log (s.delivered ++ [s.delivered.length]).length)
    rw [hlength]
    exact hpart
  · show (AlertRegistry.replayMutation s.registry.alerts p).get? =
      storedAfter v s.log (s.delivered ++ [s.delivered.length]).length
    rw [hlength, storedAfter_succ hp, ← h.hydrated hh]
    exact funext (replayMutation_get? s.registry.alerts p)
  · obtain ⟨hactive, b, hb, hbuffer, hsnapshot⟩ := h.hydration hydration hh
    refine ⟨hactive, b, hb.trans (by simp), ?_, hsnapshot⟩
    show s.registry.buffered p = (s.log.take (s.delivered ++ [s.delivered.length]).length).drop b
    rw [AlertRegistry.buffered, hactive, hbuffer, hlength, take_succ_of_get? hp,
      List.drop_append_of_le_length (by rwa [List.length_take_of_le hlt.le])]
    rfl

theorem beginHydration (h : SystemInv v s) {token : ℕ} {r : AlertRegistry}
    (hr : s.registry.beginHydration = .ok (token, r)) :
    SystemInv v { s with
      registry := r
      hydration := some ⟨token, none⟩ } := by
  obtain ⟨⟨⟩, -, hr⟩ := bind_eq_ok.mp hr
  cases (pure_eq_ok.mp hr)
  refine ⟨h.table, h.unique, h.wellFormed, h.view, h.sound, h.delivered, h.delivered_le,
    h.registry, h.hydrated, ?_, nofun, h.quiet⟩
  rintro hydration ⟨⟩
  refine ⟨rfl, s.delivered.length, le_rfl, ?_, nofun⟩
  show [] = (s.log.take s.delivered.length).drop s.delivered.length
  rw [List.drop_eq_nil_of_le (by simp)]

theorem readSnapshot (h : SystemInv v s) {hydration : Hydration} {rows : List PriceAlert}
    (hh : s.hydration = some hydration) (hrows : readPriceAlertRuntimeSnapshot s.table = .ok rows) :
    SystemInv v { s with
      hydration := some { hydration with snapshot := some (s.log.length, rows) } } := by
  refine ⟨h.table, h.unique, h.wellFormed, h.view, h.sound, h.delivered, h.delivered_le,
    h.registry, h.hydrated, ?_, nofun, h.quiet⟩
  rintro hydration' ⟨⟩
  obtain ⟨hactive, b, hb, hbuffer, -⟩ := h.hydration hydration hh
  refine ⟨hactive, b, hb, hbuffer, ?_⟩
  rintro c rows ⟨⟩
  obtain ⟨next, hnext, hget⟩ := hydrateRows_of_table h.table hrows
  exact ⟨hb.trans h.delivered_le, le_rfl, next, hnext, hget.trans h.view⟩

/-- The hydration does not raise, and ends with the delivered state. -/
theorem hydrate_eq_ok (h : SystemInv v s) (hok : s.InOrder .hydrate) {token c : ℕ}
    {rows : List PriceAlert} (hh : s.hydration = some ⟨token, some (c, rows)⟩) :
    ∃ d, s.registry.hydrate rows token = .ok { s.registry with
        alerts := d
        hydrated := true
        activeHydration := none
        hydrationMutations := [] } ∧
      d.get? = storedAfter v s.log s.delivered.length := by
  obtain ⟨hactive, b, -, hbuffer, hsnapshot⟩ := h.hydration _ hh
  obtain ⟨hbc, -, next, hnext, hget⟩ := hsnapshot c rows rfl
  have hc : c ≤ s.delivered.length := by
    by_contra hlt
    have := h.mem_delivered.mp (hok token c rows hh s.delivered.length (by omega))
    omega
  have hreplayed : (s.registry.hydrationMutations.foldl AlertRegistry.replayMutation next).get? =
      storedAfter v s.log s.delivered.length := by
    rw [foldl_replayMutation_get?, hget, hbuffer, replay_buffer hbc hc h.delivered_le]
  have hunique := requireUnique_of_soundView (hreplayed ▸ h.sound s.delivered.length)
  refine ⟨_, ?_, hreplayed⟩
  simp only [AlertRegistry.hydrate, hnext, hactive, hunique, require, if_true, bind, Except.bind]
  rfl

theorem hydrate (h : SystemInv v s) (hok : s.InOrder .hydrate)
    (hs' : s.step .hydrate = some s') : SystemInv v s' := by
  rw [AlertSystem.step] at hs'
  split at hs'
  · rename_i token c rows hh
    obtain ⟨d, hd, hget⟩ := h.hydrate_eq_ok hok hh
    rw [hd] at hs'
    cases hs'
    refine ⟨h.table, h.unique, h.wellFormed, h.view, h.sound, h.delivered, h.delivered_le, ?_,
      fun _ => hget, nofun, fun _ => rfl, h.quiet⟩
    show PartOf d.get? _
    rw [hget]
    exact .refl _
  · cases hs'

theorem cancelHydration (h : SystemInv v s) {hydration : Hydration}
    (hh : s.hydration = some hydration) :
    SystemInv v { s with
      registry := s.registry.cancelHydration hydration.token
      hydration := none } := by
  have hcancel : s.registry.cancelHydration hydration.token = { s.registry with
      activeHydration := none
      hydrationMutations := [] } := by
    rw [AlertRegistry.cancelHydration, if_pos (h.hydration hydration hh).active]
  rw [hcancel]
  exact ⟨h.table, h.unique, h.wellFormed, h.view, h.sound, h.delivered, h.delivered_le,
    h.registry, h.hydrated, nofun, fun _ => rfl, h.quiet⟩

theorem step (h : SystemInv v s) {act : RegistryAct} (hok : s.InOrder act)
    (hs' : s.step act = some s') : SystemInv v s' := by
  cases act with
  | commit act =>
    cases hs'
    exact h.commit hok
  | deliver n =>
    rw [AlertSystem.step] at hs'
    split at hs'
    · cases hs'
    · rename_i hn
      obtain ⟨p, hp, rfl⟩ := Option.map_eq_some_iff.mp hs'
      exact h.deliver hok hn hp
  | beginHydration =>
    rw [AlertSystem.step] at hs'
    split at hs'
    · cases hs'
    · rename_i hr
      cases hs'
      exact h.beginHydration hr
  | readSnapshot =>
    rw [AlertSystem.step] at hs'
    split at hs'
    · rename_i hh hrows
      cases hs'
      exact h.readSnapshot hh hrows
    · cases hs'
  | hydrate => exact h.hydrate hok hs'
  | cancelHydration =>
    obtain ⟨hydration, hh, rfl⟩ := Option.map_eq_some_iff.mp hs'
    exact h.cancelHydration hh

end SystemInv

theorem systemInv_of_run (ht : TableInv t) (hunique : UniqueDefinitions t)
    {acts : List RegistryAct} {s : AlertSystem}
    (hrun : Run (Guarded AlertSystem.InOrder (StepOf AlertSystem.step)) (.start t) acts s) :
    SystemInv t.view s := by
  refine hrun.invariant ?_ (SystemInv.start ht hunique)
  rintro s act s' hs ⟨hok, hs'⟩
  exact hs.step hok hs'

/-- A key that is not stored and is not published again stays out of the rows. -/
theorem storedAfter_eq_none {v : AlertKey → Option PriceAlert} {log : List AlertPublication}
    {n d : ℕ} {k : AlertKey} (hnd : n ≤ d) (hnone : storedAfter v log n k = none)
    (hfresh : ∀ m a, n ≤ m → log[m]? = some (.publish a) → a.key ≠ k) :
    storedAfter v log d k = none := by
  induction d, hnd using Nat.le_induction with
  | base => exact hnone
  | succ m hm ih =>
    cases hp : log[m]? with
    | none =>
      have hlength : log.length ≤ m := List.getElem?_eq_none_iff.mp hp
      rw [storedAfter_of_length_le (hlength.trans (Nat.le_succ m)),
        ← storedAfter_of_length_le hlength]
      exact ih
    | some p =>
      rw [storedAfter_succ hp]
      show (p.change k).apply (storedAfter v log m k) = none
      rw [ih]
      cases p with
      | publish a => rw [AlertPublication.change, if_neg (hfresh m a hm hp).symm]; rfl
      | remove key => rw [AlertPublication.change]; split <;> rfl
      | removeScope => rfl

/-- **The registry converges.** In a run that keeps to the order of the commits nothing raises; a
hydrated registry holds exactly the stored rows as soon as every publication ran; and a row whose
removal ran is not in the registry until its key is published again. -/
theorem registry_converges {t : PriceAlertTable} (ht : TableInv t) (hunique : UniqueDefinitions t)
    {acts : List RegistryAct} {s : AlertSystem}
    (hrun : Run (Guarded AlertSystem.InOrder (StepOf AlertSystem.step)) (.start t) acts s) :
    s.raised = false ∧
      (s.registry.hydrated = true → (∀ n < s.log.length, n ∈ s.delivered) → ∀ k a,
        s.registry.alerts.get? k = some a ↔
          s.table.get? k.alertId = some a ∧ a.key = k ∧ a.retain = true) ∧
      ∀ n ∈ s.delivered, ∀ k, storedAfter t.view s.log (n + 1) k = none →
        (∀ m a, n < m → s.log[m]? = some (.publish a) → a.key ≠ k) →
        s.registry.alerts.get? k = none := by
  have hinv := systemInv_of_run ht hunique hrun
  refine ⟨hinv.quiet, fun hhydrated hall k a => ?_, fun n hn k hnone hfresh => ?_⟩
  · have hlength : s.delivered.length = s.log.length := by
      refine le_antisymm hinv.delivered_le ?_
      by_contra hlt
      have := hinv.mem_delivered.mp (hall s.delivered.length (by omega))
      omega
    rw [hinv.hydrated hhydrated, hlength, ← hinv.view, PriceAlertTable.view_eq_some]
    exact ⟨fun ⟨hrow, hkey⟩ => ⟨hrow, hkey, hinv.table.retain _ a hrow⟩,
      fun ⟨hrow, hkey, _⟩ => ⟨hrow, hkey⟩⟩
  · have hgone := storedAfter_eq_none (hinv.mem_delivered.mp hn) hnone hfresh
    refine Option.eq_none_iff_forall_ne_some.mpr fun a ha => ?_
    exact absurd ((hinv.registry k a ha).symm.trans hgone) (by simp)

namespace ConvergenceExample

open GenerationExample (created create delete)

/-- A process that hydrated its registry over no alerts. -/
def hydrated : AlertSystem where
  table := .empty
  log := []
  delivered := []
  registry := { AlertRegistry.empty with
    hydrated := true
    hydrationGeneration := 1 }
  hydration := none
  raised := false

theorem run_hydrated : Run (Guarded AlertSystem.InOrder (StepOf AlertSystem.step)) (.start .empty)
    [.beginHydration, .readSnapshot, .hydrate] hydrated := by
  refine .cons ⟨trivial, rfl⟩ (.cons ⟨trivial, rfl⟩ (.single ⟨?_, rfl⟩))
  rintro token c rows ⟨⟩ m hm
  exact absurd hm (Nat.not_lt_zero m)

theorem run_published : Run (Guarded AlertSystem.InOrder (StepOf AlertSystem.step)) (.start .empty)
    [.beginHydration, .readSnapshot, .hydrate, .commit create, .deliver 0]
    ((hydrated.commit create).deliver 0 (.publish created)) := by
  have hlog : (hydrated.commit create).log[0]? = some (.publish created) := by decide +kernel
  refine run_hydrated.append (.cons ⟨⟨trivial, trivial, trivial⟩, rfl⟩ (.single ⟨?_, ?_⟩))
  · exact fun m hm => absurd hm (Nat.not_lt_zero m)
  · show AlertSystem.step _ (.deliver 0) = _
    have hfirst : 0 ∉ (hydrated.commit create).delivered := by decide +kernel
    rw [AlertSystem.step, if_neg hfirst, hlog]
    rfl

/-- An alert that is created and deleted while its two publications change places. -/
def overtaken : List RegistryAct :=
  [.beginHydration, .readSnapshot, .hydrate, .commit create, .commit delete, .deliver 1, .deliver 0]

end ConvergenceExample

open ConvergenceExample GenerationExample in
theorem registry_converges_create :
    ((hydrated.commit create).deliver 0 (.publish created)).registry.alerts.get? created.key =
      some created := by
  obtain ⟨-, hrows, -⟩ := registry_converges .empty (by simp [UniqueDefinitions]) run_published
  exact (hrows (by decide +kernel) (by decide +kernel) created.key created).mpr (by decide +kernel)

open ConvergenceExample GenerationExample in
/-- The publication of a deleted alert that runs after its removal puts it back for good. -/
theorem late_publication_returns :
    ¬ ∀ acts s, Run (StepOf AlertSystem.step) (.start .empty) acts s →
      s.registry.hydrated = true → (∀ n < s.log.length, n ∈ s.delivered) → ∀ k a,
        s.registry.alerts.get? k = some a →
          s.table.get? k.alertId = some a ∧ a.key = k ∧ a.retain = true := by
  intro hclaim
  have hend : (overtaken.foldlM AlertSystem.step (.start .empty)).map (fun s =>
      (s.registry.hydrated, s.log.length, s.delivered, s.registry.alerts.get? created.key,
        s.table.get? "pa-1")) = some (true, 2, [1, 0], some created, none) := by
    decide +kernel
  obtain ⟨s, hs, heq⟩ := Option.map_eq_some_iff.mp hend
  simp only [Prod.mk.injEq] at heq
  obtain ⟨hhydrated, hlength, hdelivered, hrow, hgone⟩ := heq
  have hall : ∀ n < s.log.length, n ∈ s.delivered := by
    rw [hlength, hdelivered]
    decide
  have hstored := hclaim overtaken s (.of_foldlM hs) hhydrated hall created.key created hrow
  exact absurd (hgone.symm.trans hstored.1) (by simp)

end AefTerminal
