import AefTerminal.Foundation.Cover
import AefTerminal.Paper.FillOutcome

/-!
# What the protective orders of a position cover

A position is protected by its pending reduce-only orders. They fall into groups, and of a group at
most one order is meant to fill, so a group covers what its largest order covers. The loop that
brings the orders in line admits the groups one after the other, each up to the quantity that is
still uncovered; a group that gets nothing is cancelled, and an order that is within the tolerance
of what its group got is left as it is.

## Main definitions

* `Protects`, `ProtectionCovered`
* `Shrinks`: every protective order left was one before, and its group covered no less

## Main results

* `syncPaperProtectiveOrders_open`: an open position is covered, and no group grew
* `syncPaperProtectiveOrders_closed`: nothing is left for a closed one
-/

namespace AefTerminal

open Foundation

/-- A pending reduce-only order for the position. -/
structure Protects (orders : Dict String OrderRow) (positionId : String) (o : SavedOrder) :
    Prop where
  stored : orders.get? o.id = some o.row
  position_eq : o.row.positionId = some positionId
  reduceOnly : o.row.reduceOnly = true
  pending : o.row.status = .pending

def OrderRow.scope (row : OrderRow) : PaperScope := row.document.identity.scope

/-- What the protective orders of the position cover, group by group, is within the budget. -/
abbrev ProtectionCovered (orders : Dict String OrderRow) (positionId : String) (budget : ℚ) : Prop :=
  Covered (Protects orders positionId) SavedOrder.groupKey (fun o => |o.row.qty|) paperTolerance
    budget

/-! ### Writes that add no protection -/

/-- `row'` protects no more than `row`: it is for the same position, in the same group. -/
structure OrderRow.Weaker (row' row : OrderRow) : Prop where
  position_eq : row'.positionId = row.positionId
  reduceOnly_eq : row'.reduceOnly = row.reduceOnly
  oco_eq : row'.ocoGroupId = row.ocoGroupId
  parent_eq : row'.parentOrderId = row.parentOrderId
  scope_eq : row'.scope = row.scope
  pending : row'.status = .pending → row.status = .pending
  qty_eq : row'.status = .pending → row'.qty = row.qty

theorem OrderRow.Weaker.refl (row : OrderRow) : row.Weaker row :=
  ⟨rfl, rfl, rfl, rfl, rfl, id, fun _ => rfl⟩

theorem SavedOrder.groupKey_congr {id : String} {row row' : OrderRow}
    (hoco : row'.ocoGroupId = row.ocoGroupId) (hparent : row'.parentOrderId = row.parentOrderId) :
    (SavedOrder.mk id row').groupKey = (SavedOrder.mk id row).groupKey := by
  simp only [SavedOrder.groupKey, hoco, hparent]

/-- Every protective order of `orders'` was one, of its group and scope; and an order of its group
weighed no less. -/
def Shrinks (orders orders' : Dict String OrderRow) : Prop :=
  ∀ positionId o', Protects orders' positionId o' →
    (∃ row, Protects orders positionId ⟨o'.id, row⟩ ∧ o'.row.scope = row.scope) ∧
    ∃ o, Protects orders positionId o ∧ o.groupKey = o'.groupKey ∧ |o'.row.qty| ≤ |o.row.qty|

namespace Shrinks

variable {orders orders' orders'' : Dict String OrderRow} {id : String} {row : OrderRow}

theorem refl (orders : Dict String OrderRow) : Shrinks orders orders :=
  fun _ o' h => ⟨⟨o'.row, h, rfl⟩, o', h, rfl, le_rfl⟩

theorem trans (h : Shrinks orders orders') (k : Shrinks orders' orders'') :
    Shrinks orders orders'' := by
  intro positionId o'' ho''
  obtain ⟨⟨row', hrow', hscope'⟩, o', ho', hkey', hqty'⟩ := k positionId o'' ho''
  obtain ⟨⟨row, hrow, hscope⟩, -⟩ := h positionId _ hrow'
  obtain ⟨-, o, ho, hkey, hqty⟩ := h positionId o' ho'
  exact ⟨⟨row, hrow, hscope'.trans hscope⟩, o, ho, hkey.trans hkey', hqty'.trans hqty⟩

/-- Where every row is weaker than the one it replaces, protection shrinks. -/
theorem of_weaker (h : ∀ id row', orders'.get? id = some row' → row'.status = .pending →
    ∃ row, orders.get? id = some row ∧ row'.Weaker row) : Shrinks orders orders' := by
  intro positionId o' ho'
  obtain ⟨row, hrow, hweaker⟩ := h o'.id o'.row ho'.stored ho'.pending
  have hprotects : Protects orders positionId ⟨o'.id, row⟩ :=
    ⟨hrow, hweaker.position_eq.symm.trans ho'.position_eq,
      hweaker.reduceOnly_eq.symm.trans ho'.reduceOnly, hweaker.pending ho'.pending⟩
  refine ⟨⟨row, hprotects, hweaker.scope_eq⟩, ⟨o'.id, row⟩, hprotects, ?_, ?_⟩
  · exact (SavedOrder.groupKey_congr hweaker.oco_eq hweaker.parent_eq).symm
  · rw [hweaker.qty_eq ho'.pending]

/-- One row is written, and is weaker than before or not pending. -/
theorem insert {row' : OrderRow}
    (h : row'.status = .pending → ∃ row, orders.get? id = some row ∧ row'.Weaker row) :
    Shrinks orders (orders.insert id row') := by
  refine of_weaker fun j r hr hpending => ?_
  rw [Dict.get?_insert] at hr
  split at hr
  · rename_i hj
    cases hr
    exact hj ▸ h hpending
  · exact ⟨r, hr, .refl r⟩

theorem of_rewritten (h : Rewritten orders orders' id row) (hstatus : row.status ≠ .pending) :
    Shrinks orders orders' := by
  refine of_weaker fun j r hr hpending => ?_
  by_cases hj : j = id
  · subst hj
    rw [h.self] at hr
    exact absurd (Option.some.inj hr ▸ hpending) hstatus
  · exact ⟨r, (h.other j hj).symm.trans hr, .refl r⟩

theorem updateWhere {p : String → OrderRow → Bool} {change : OrderRow → OrderRow}
    (h : ∀ row, (change row).status = .pending → (change row).Weaker row) :
    Shrinks orders (orders.updateWhere p change) := by
  refine of_weaker fun j r hr hpending => ?_
  rw [Dict.get?_updateWhere] at hr
  obtain ⟨row, hrow, rfl⟩ := Option.map_eq_some_iff.mp hr
  refine ⟨row, hrow, ?_⟩
  split at hpending
  · rename_i hp
    rw [if_pos hp]
    exact h row hpending
  · rename_i hp
    rw [if_neg hp]
    exact .refl row

theorem covered {positionId : String} {budget : ℚ} (h : Shrinks orders orders')
    (hcovered : ProtectionCovered orders positionId budget) :
    ProtectionCovered orders' positionId budget :=
  hcovered.mono fun o' ho' => (h positionId o' ho').2

theorem none {positionId : String} (h : Shrinks orders orders')
    (hnone : ∀ o, ¬ Protects orders positionId o) (o' : SavedOrder) :
    ¬ Protects orders' positionId o' :=
  fun ho' => (h positionId o' ho').1.elim fun _ hrow => hnone _ hrow.1

end Shrinks

theorem OrderRow.dropped_status (row : OrderRow) (ts : Time) :
    (row.dropped ts).status ≠ .pending := by simp [OrderRow.dropped]

theorem cancelWhere_shrinks {orders orders' : Dict String OrderRow}
    {p : String → OrderRow → Bool} {ts : Time} {cancelled : List SavedOrder}
    (h : cancelWhere orders p ts = .ok (cancelled, orders')) : Shrinks orders orders' := by
  unfold cancelWhere at h
  obtain ⟨_, -, h⟩ := bind_eq_ok.mp h
  obtain ⟨-, rfl⟩ := Prod.mk.inj (pure_eq_ok.mp h)
  exact .updateWhere fun row hpending => absurd hpending (row.dropped_status ts)

/-! ### The groups -/

theorem get?_protectiveGroups_fold (pending : List SavedOrder)
    (groups : Dict String (List SavedOrder)) (k : String) :
    (pending.foldl (fun groups o =>
      groups.insert o.groupKey ((groups.get? o.groupKey).getD [] ++ [o])) groups).get? k =
      if pending.filter (fun o => o.groupKey = k) = [] then groups.get? k
      else some ((groups.get? k).getD [] ++ pending.filter fun o => o.groupKey = k) := by
  induction pending generalizing groups with
  | nil => simp
  | cons o pending ih =>
    rw [List.foldl_cons, ih, Dict.get?_insert]
    by_cases hk : o.groupKey = k
    · subst hk
      by_cases hrest : pending.filter (fun p => p.groupKey = o.groupKey) = []
      · simp [hrest]
      · simp [hrest]
    · have hk' : k ≠ o.groupKey := fun h => hk h.symm
      simp [hk, hk']

/-- The group of a key holds the orders that have it. -/
theorem get?_protectiveGroups {pending group : List SavedOrder} {k : String} :
    (protectiveGroups pending).get? k = some group ↔
      group ≠ [] ∧ group = pending.filter fun o => o.groupKey = k := by
  unfold protectiveGroups
  rw [get?_protectiveGroups_fold]
  by_cases hnone : pending.filter (fun o => o.groupKey = k) = []
  · rw [if_pos hnone, hnone]
    simp
  · rw [if_neg hnone]
    simp only [Dict.get?_empty, Option.getD_none, List.nil_append, Option.some.injEq]
    constructor
    · rintro rfl
      exact ⟨hnone, rfl⟩
    · exact fun h => h.2.symm

/-! ### The loop -/

/-- What the loop makes of an order whose group got `admitted`: it is cancelled, or left within the
tolerance, or resized. -/
def SyncedAt (admitted : ℚ) (o : SavedOrder) (r : Option OrderRow) : Prop :=
  ∃ row, r = some row ∧ row.facts = o.row.facts ∧ (row.status = .pending →
    paperTolerance < admitted ∧
      ((row.qty = o.row.qty ∧ |(|o.row.qty| - admitted)| ≤ paperTolerance) ∨ row.qty = admitted))

/-- A pending order of the scope that is synchronized. -/
structure ReadyToSync (scope : PaperScope) (o : SavedOrder) : Prop where
  scope_eq : o.row.scope = scope
  pending : o.row.status = .pending

section Loop

variable {scope : PaperScope} {updatedAt : Time} {admitted : ℚ} {s s' : ProtectiveSync}
  {o : SavedOrder}

theorem scope_of_facts {row row' : OrderRow} (h : row.facts = row'.facts) :
    row.document.identity = row'.document.identity :=
  congrArg (fun r => r.document.identity) h

theorem syncProtectiveOrder_synced (hready : ReadyToSync scope o)
    (hrow : s.orders.get? o.id = some o.row ∨ SyncedAt admitted o (s.orders.get? o.id))
    (h : syncProtectiveOrder scope updatedAt admitted s o = .ok s') :
    SyncedAt admitted o (s'.orders.get? o.id) ∧
      (∀ j, j ≠ o.id → s'.orders.get? j = s.orders.get? j) ∧
      s'.remainingQty = s.remainingQty := by
  obtain ⟨row, hrow, hfacts, hqty⟩ : ∃ row, s.orders.get? o.id = some row ∧
      row.facts = o.row.facts ∧ (row.status = .pending → row.qty = o.row.qty ∨
        row.qty = admitted) := by
    rcases hrow with hrow | ⟨row, hrow, hfacts, hqty⟩
    · exact ⟨o.row, hrow, rfl, fun _ => .inl rfl⟩
    · exact ⟨row, hrow, hfacts, fun hpending => (hqty hpending).2.imp And.left id⟩
  have hscope : row.document.identity.scope = scope := scope_of_facts hfacts ▸ hready.scope_eq
  unfold syncProtectiveOrder at h
  split at h
  · rename_i hsmall
    dsimp only [cancelIfPendingWithCursor] at h
    rw [hrow] at h
    dsimp only at h
    by_cases hpending : row.status = .pending
    · rw [if_pos ⟨by simpa using hscope, hpending⟩] at h
      obtain ⟨saved, -, h⟩ := bind_eq_ok.mp h
      obtain rfl := pure_eq_ok.mp h
      refine ⟨⟨_, Dict.get?_insert_self .., hfacts, fun habs => ?_⟩, fun j hj => ?_, rfl⟩
      · exact absurd habs (by simp [OrderRow.cancelled])
      · exact Dict.get?_insert_of_ne _ hj _
    · rw [if_neg fun hand => hpending hand.2] at h
      obtain rfl := pure_eq_ok.mp h
      exact ⟨⟨row, hrow, hfacts, fun habs => absurd habs hpending⟩, fun _ _ => rfl, rfl⟩
  · rename_i hlarge
    push Not at hlarge
    split at h
    · rename_i hclose
      obtain rfl := pure_eq_ok.mp h
      refine ⟨⟨row, hrow, hfacts, fun hpending => ⟨hlarge, ?_⟩⟩, fun _ _ => rfl, rfl⟩
      exact (hqty hpending).imp (fun heq => ⟨heq, hclose⟩) id
    · obtain ⟨command, -, h⟩ := bind_eq_ok.mp h
      obtain ⟨payload, hpayload, h⟩ := bind_eq_ok.mp h
      rw [hrow] at h
      dsimp only at h
      split at h
      · obtain rfl := pure_eq_ok.mp h
        have hp : payload = row.document.payload := by
          rw [payload_of_facts hfacts]
          exact (Option.some.inj (PaperOrder.protection_eq_ok.mp hpayload).1).symm
        subst hp
        refine ⟨⟨_, Dict.get?_insert_self .., hfacts, fun _ => ⟨hlarge, .inr rfl⟩⟩,
          fun j hj => Dict.get?_insert_of_ne _ hj _, rfl⟩
      · exact absurd h (by simp)

/-- The orders of one group, one after the other. An order that comes twice is synchronized twice,
to the same quantity. -/
theorem syncProtectiveOrders_synced {group : List SavedOrder}
    (hids : ∀ o ∈ group, ∀ o' ∈ group, o.id = o'.id → o = o')
    (hready : ∀ o ∈ group, ReadyToSync scope o) (todo : List SavedOrder) (hsub : todo ⊆ group)
    (hrow : ∀ o ∈ group, s.orders.get? o.id = some o.row ∨
      SyncedAt admitted o (s.orders.get? o.id))
    (h : todo.foldlM (syncProtectiveOrder scope updatedAt admitted) s = .ok s') :
    (∀ o ∈ group, SyncedAt admitted o (s.orders.get? o.id) ∨ o ∈ todo →
      SyncedAt admitted o (s'.orders.get? o.id)) ∧
      (∀ j, (∀ o ∈ todo, o.id ≠ j) → s'.orders.get? j = s.orders.get? j) ∧
      s'.remainingQty = s.remainingQty := by
  induction todo generalizing s with
  | nil =>
    obtain rfl := pure_eq_ok.mp h
    exact ⟨fun o _ ho => ho.resolve_right (by simp), fun _ _ => rfl, rfl⟩
  | cons a todo ih =>
    rw [List.foldlM_cons] at h
    obtain ⟨s₁, hs₁, h⟩ := bind_eq_ok.mp h
    have ha : a ∈ group := hsub (List.mem_cons_self ..)
    obtain ⟨hsynced, hframe, hremaining⟩ :=
      syncProtectiveOrder_synced (hready a ha) (hrow a ha) hs₁
    -- an order with the id of `a` is `a`, any other row is as it was
    have hstep : ∀ o ∈ group, (SyncedAt admitted o (s.orders.get? o.id) ∨ o = a →
        SyncedAt admitted o (s₁.orders.get? o.id)) ∧ (s₁.orders.get? o.id = some o.row ∨
          SyncedAt admitted o (s₁.orders.get? o.id)) := by
      intro o ho
      by_cases hid : o.id = a.id
      · obtain rfl := hids o ho a ha hid
        exact ⟨fun _ => hsynced, .inr hsynced⟩
      · rw [hframe _ hid]
        refine ⟨fun hor => hor.resolve_right ?_, hrow o ho⟩
        rintro rfl
        exact hid rfl
    obtain ⟨hdone, hframe', hremaining'⟩ := ih (fun o ho => hsub (List.mem_cons_of_mem _ ho))
      (fun o ho => (hstep o ho).2) h
    refine ⟨fun o ho hor => hdone o ho ?_, fun j hj => ?_, hremaining'.trans hremaining⟩
    · rcases hor with hor | hor
      · exact .inl ((hstep o ho).1 (.inl hor))
      · rcases List.mem_cons.mp hor with rfl | hor
        · exact .inl ((hstep o ho).1 (.inr rfl))
        · exact .inr hor
    · rw [hframe' j fun o ho => hj o (List.mem_cons_of_mem _ ho)]
      exact hframe j fun hja => hj a (List.mem_cons_self ..) hja.symm

/-- What the largest order of a group is for. -/
def groupQty (group : List SavedOrder) : ℚ := heaviest (group.map fun o => |o.row.qty|)

/-- The groups, one after the other: what they got sums to no more than there was. -/
theorem syncProtectiveGroups_synced (groups : List (String × List SavedOrder))
    (hkeys : (groups.map Prod.fst).Nodup)
    (hgroup : ∀ e ∈ groups, ∀ o ∈ e.2, o.groupKey = e.1 ∧ ReadyToSync scope o ∧
      s.orders.get? o.id = some o.row)
    (hremaining : 0 ≤ s.remainingQty)
    (h : groups.foldlM (fun s e => syncProtectiveGroup scope updatedAt s e.2) s = .ok s') :
    ∃ cap : String → ℚ, (∀ k, 0 ≤ cap k) ∧
      (groups.map fun e => cap e.1).sum ≤ s.remainingQty ∧
      (∀ e ∈ groups, cap e.1 ≤ groupQty e.2 ∧
        ∀ o ∈ e.2, SyncedAt (cap e.1) o (s'.orders.get? o.id)) ∧
      ∀ j, (∀ e ∈ groups, ∀ o ∈ e.2, o.id ≠ j) → s'.orders.get? j = s.orders.get? j := by
  induction groups generalizing s with
  | nil =>
    obtain rfl := pure_eq_ok.mp h
    exact ⟨fun _ => 0, fun _ => le_rfl, hremaining, by simp, fun _ _ => rfl⟩
  | cons e groups ih =>
    rw [List.foldlM_cons] at h
    obtain ⟨s₁, hs₁, h⟩ := bind_eq_ok.mp h
    obtain ⟨hfresh, hkeys⟩ := List.nodup_cons.mp hkeys
    have hhead := hgroup e (List.mem_cons_self ..)
    -- orders with one id are one row of the table
    have hsame : ∀ o o' : SavedOrder, s.orders.get? o.id = some o.row →
        s.orders.get? o'.id = some o'.row → o.id = o'.id → o = o' := by
      rintro ⟨id, row⟩ ⟨id', row'⟩ ho ho' rfl
      exact congrArg (SavedOrder.mk id) (Option.some.inj (ho.symm.trans ho'))
    replace hs₁ : e.2.foldlM
        (syncProtectiveOrder scope updatedAt (min (groupQty e.2) s.remainingQty))
        { s with remainingQty := max 0 (s.remainingQty - min (groupQty e.2) s.remainingQty) } =
          .ok s₁ := hs₁
    have hids : ∀ o ∈ e.2, ∀ o' ∈ e.2, o.id = o'.id → o = o' := fun o ho o' ho' =>
      hsame o o' (hhead o ho).2.2 (hhead o' ho').2.2
    have hready : ∀ o ∈ e.2, ReadyToSync scope o := fun o ho => (hhead o ho).2.1
    have hloop := fun hrow =>
      syncProtectiveOrders_synced hids hready e.2 (List.Subset.refl _) hrow hs₁
    obtain ⟨hdone, hframe, hrest⟩ := hloop fun o ho => .inl (hhead o ho).2.2
    have hnonneg : 0 ≤ min (groupQty e.2) s.remainingQty :=
      le_min (heaviest_nonneg _) hremaining
    have hleft : s₁.remainingQty = s.remainingQty - min (groupQty e.2) s.remainingQty := by
      rw [hrest]
      exact max_eq_right (sub_nonneg.mpr (min_le_right ..))
    -- the other groups hold other orders
    have hother : ∀ e' ∈ groups, ∀ o' ∈ e'.2, ∀ o ∈ e.2, o.id ≠ o'.id := by
      intro e' he' o' ho' o ho hid
      obtain ⟨hkey', -, hrow'⟩ := hgroup e' (List.mem_cons_of_mem _ he') o' ho'
      obtain rfl := hsame o o' (hhead o ho).2.2 hrow' hid
      exact hfresh (List.mem_map.mpr ⟨e', he', hkey'.symm.trans (hhead o ho).1⟩)
    obtain ⟨cap, hcap, hsum, hsynced, hframe'⟩ := ih hkeys (fun e' he' o' ho' => by
      obtain ⟨hkey', hready', hrow'⟩ := hgroup e' (List.mem_cons_of_mem _ he') o' ho'
      exact ⟨hkey', hready', (hframe o'.id (hother e' he' o' ho')).trans hrow'⟩)
      (hleft ▸ sub_nonneg.mpr (min_le_right ..)) h
    let admitted := min (groupQty e.2) s.remainingQty
    have hrestcap : ∀ e' ∈ groups, Function.update cap e.1 admitted e'.1 = cap e'.1 := by
      intro e' he'
      refine Function.update_of_ne (fun heq => ?_) _ _
      exact hfresh (List.mem_map.mpr ⟨e', he', heq⟩)
    refine ⟨Function.update cap e.1 admitted, fun k => ?_, ?_, fun e' he' => ?_, fun j hj => ?_⟩
    · by_cases hk : k = e.1
      · rw [hk, Function.update_self]
        exact hnonneg
      · rw [Function.update_of_ne hk]
        exact hcap k
    · rw [List.map_cons, List.sum_cons, Function.update_self, List.map_congr_left hrestcap]
      linarith
    · rcases List.mem_cons.mp he' with rfl | he'
      · rw [Function.update_self]
        refine ⟨min_le_left .., fun o ho => ?_⟩
        rw [hframe' o.id fun e' he' o' ho' hid => hother e' he' o' ho' o ho hid.symm]
        exact hdone o ho (.inr ho)
      · rw [hrestcap e' he']
        exact hsynced e' he'
    · rw [hframe' j fun e' he' => hj e' (List.mem_cons_of_mem _ he')]
      exact hframe j (hj e (List.mem_cons_self ..))

end Loop

/-! ### Bringing the orders of a position in line -/

section Sync

variable {orders orders' : Dict String OrderRow} {positionId : String} {qty : ℚ}
  {status : PaperPositionStatus} {scope : PaperScope} {updatedAt : Time}
  {cancelled : List SavedOrder}

theorem isPendingProtective_iff {o : SavedOrder} (hstored : orders.get? o.id = some o.row) :
    isPendingProtective (fun i => i.scope = scope) positionId o.row = true ↔
      Protects orders positionId o ∧ o.row.scope = scope := by
  simp only [isPendingProtective, Bool.and_eq_true, decide_eq_true_eq]
  constructor
  · rintro ⟨⟨⟨hposition, hscope⟩, hreduce⟩, hpending⟩
    exact ⟨⟨hstored, hposition, hreduce, hpending⟩, hscope⟩
  · rintro ⟨⟨-, hposition, hreduce, hpending⟩, hscope⟩
    exact ⟨⟨⟨hposition, hscope⟩, hreduce⟩, hpending⟩

/-- A row with the facts of another is for the same position, in the same group. -/
theorem protects_of_facts {o o' : SavedOrder} {positionId' : String} (hid : o.id = o'.id)
    (hfacts : o'.row.facts = o.row.facts) (ho : Protects orders positionId o)
    (ho' : Protects orders' positionId' o') :
    positionId' = positionId ∧ o.groupKey = o'.groupKey ∧ o'.row.scope = o.row.scope := by
  have hposition : o'.row.positionId = o.row.positionId :=
    congrArg (fun r => r.positionId) hfacts
  have hoco : o.row.ocoGroupId = o'.row.ocoGroupId :=
    congrArg (fun r => r.ocoGroupId) hfacts.symm
  have hparent : o.row.parentOrderId = o'.row.parentOrderId :=
    congrArg (fun r => r.parentOrderId) hfacts.symm
  refine ⟨?_, ?_, congrArg PaperIdentity.scope (scope_of_facts hfacts)⟩
  · rw [ho.position_eq, ho'.position_eq] at hposition
    exact Option.some.inj hposition
  · obtain ⟨id, row⟩ := o
    obtain ⟨id', row'⟩ := o'
    obtain rfl : id = id' := hid
    exact SavedOrder.groupKey_congr hoco hparent

/-- What a synchronized order of a group still weighs. -/
theorem SyncedAt.qty_le {cap : ℚ} {o : SavedOrder} {row : OrderRow} (hcap : 0 ≤ cap)
    (h : SyncedAt cap o (some row)) (hpending : row.status = .pending) :
    |row.qty| ≤ cap + paperTolerance ∧ (row.qty = o.row.qty ∨ |row.qty| = cap) := by
  obtain ⟨row', hrow', -, hqty⟩ := h
  cases hrow'
  rcases (hqty hpending).2 with ⟨heq, hclose⟩ | heq
  · refine ⟨?_, .inl heq⟩
    rw [heq]
    linarith [le_abs_self (|o.row.qty| - cap)]
  · rw [heq, abs_of_nonneg hcap]
    refine ⟨?_, .inr rfl⟩
    have hpos : (0 : ℚ) ≤ paperTolerance := by norm_num [paperTolerance]
    linarith

/-- **An open position is covered**, and no group covers more than it did. -/
theorem syncPaperProtectiveOrders_open
    (hscope : ∀ o, Protects orders positionId o → o.row.scope = scope)
    (hopen : status = .open ∧ |qty| > paperTolerance)
    (h : syncPaperProtectiveOrders orders positionId qty status scope updatedAt =
      .ok (cancelled, orders')) :
    Shrinks orders orders' ∧ ProtectionCovered orders' positionId |qty| := by
  unfold syncPaperProtectiveOrders at h
  dsimp only at h
  rw [if_pos hopen] at h
  obtain ⟨pending, hpending, h⟩ := bind_eq_ok.mp h
  obtain ⟨s, hs, h⟩ := bind_eq_ok.mp h
  obtain ⟨-, rfl⟩ := Prod.mk.inj (pure_eq_ok.mp h)
  have hmem : ∀ o, o ∈ pending ↔ Protects orders positionId o := by
    intro o
    rw [eq_map_of_mapM_eq_ok (g := id) (fun o _ b hb => (paperOrderFromRow_eq_ok.mp hb).1) hpending,
      List.map_id, List.mem_insertionSort, List.mem_map]
    constructor
    · rintro ⟨⟨id, row⟩, hrow, rfl⟩
      obtain ⟨hstored, hprotects⟩ := Dict.mem_select.mp hrow
      exact ((isPendingProtective_iff (o := ⟨id, row⟩) hstored).mp hprotects).1
    · intro ho
      refine ⟨(o.id, o.row), Dict.mem_select.mpr ⟨ho.stored, ?_⟩, rfl⟩
      exact (isPendingProtective_iff ho.stored).mpr ⟨ho, hscope o ho⟩
  have hgroup : ∀ e ∈ (protectiveGroups pending).entries, ∀ o ∈ e.2,
      o.groupKey = e.1 ∧ Protects orders positionId o := by
    rintro ⟨k, group⟩ he o ho
    obtain ⟨-, rfl⟩ := get?_protectiveGroups.mp (Dict.get?_eq_some_iff.mpr he)
    obtain ⟨ho, hkey⟩ := List.mem_filter.mp ho
    exact ⟨by simpa using hkey, (hmem o).mp ho⟩
  rw [List.foldlM_map] at hs
  have hready : ∀ e ∈ (protectiveGroups pending).entries, ∀ o ∈ e.2, o.groupKey = e.1 ∧
      ReadyToSync scope o ∧ orders.get? o.id = some o.row := fun e he o ho =>
    have hprotects := (hgroup e he o ho).2
    ⟨(hgroup e he o ho).1, ⟨hscope o hprotects, hprotects.pending⟩, hprotects.stored⟩
  obtain ⟨cap, hcap, hsum, hsynced, hframe⟩ := syncProtectiveGroups_synced
    (s := ⟨orders, |qty|, []⟩) _ (protectiveGroups pending).nodup_keys hready (abs_nonneg qty) hs
  -- a protective order that is left comes from a group, or was not touched
  have hcases : ∀ positionId' o', Protects s.orders positionId' o' →
      Protects orders positionId' o' ∧ positionId' ≠ positionId ∨
      ∃ e ∈ (protectiveGroups pending).entries, ∃ o ∈ e.2, o.id = o'.id ∧
        Protects orders positionId o ∧ SyncedAt (cap e.1) o (some o'.row) ∧
        positionId' = positionId ∧ o.groupKey = o'.groupKey ∧ o'.row.scope = o.row.scope := by
    intro positionId' o' ho'
    by_cases hin : ∃ e ∈ (protectiveGroups pending).entries, ∃ o ∈ e.2, o.id = o'.id
    · obtain ⟨e, he, o, ho, hid⟩ := hin
      have hat := (hsynced e he).2 o ho
      rw [hid, ho'.stored] at hat
      obtain ⟨row, hrow, hfacts, -⟩ := id hat
      cases hrow
      have hprotects := (hgroup e he o ho).2
      exact .inr ⟨e, he, o, ho, hid, hprotects, hat, protects_of_facts hid hfacts hprotects ho'⟩
    · push Not at hin
      have hstored := (hframe o'.id hin).symm.trans ho'.stored
      have hprotects : Protects orders positionId' o' :=
        ⟨hstored, ho'.position_eq, ho'.reduceOnly, ho'.pending⟩
      refine .inl ⟨hprotects, ?_⟩
      rintro rfl
      have hfilter : o' ∈ pending.filter fun o => o.groupKey = o'.groupKey :=
        List.mem_filter.mpr ⟨(hmem o').mpr hprotects, by simp⟩
      have hget := get?_protectiveGroups.mpr ⟨List.ne_nil_of_mem hfilter, rfl⟩
      exact hin _ (Dict.get?_eq_some_iff.mp hget) o' hfilter rfl
  constructor
  · intro positionId' o' ho'
    rcases hcases positionId' o' ho' with
      ⟨ho, -⟩ | ⟨e, he, o, ho, hid, hprotects, hat, rfl, hkey, hsc⟩
    · exact ⟨⟨o'.row, ho, rfl⟩, o', ho, rfl, le_rfl⟩
    · refine ⟨⟨o.row, hid ▸ hprotects, hsc⟩, ?_⟩
      rcases (hat.qty_le (hcap _) ho'.pending).2 with heq | heq
      · exact ⟨o, hprotects, hkey, by rw [heq]⟩
      · -- some order of the group is the largest
        obtain ⟨o₂, ho₂, hmax⟩ := List.mem_map.mp (heaviest_mem
          (e.2.map fun o => |o.row.qty|) (by simpa using List.ne_nil_of_mem ho)
          (fun w hw => by
            obtain ⟨o, -, rfl⟩ := List.mem_map.mp hw
            exact abs_nonneg _))
        refine ⟨o₂, (hgroup e he o₂ ho₂).2, ?_, ?_⟩
        · rw [(hgroup e he o₂ ho₂).1, ← (hgroup e he o ho).1, hkey]
        · rw [heq]
          exact (hsynced e he).1.trans hmax.ge
  · refine ⟨((protectiveGroups pending).entries.map Prod.fst).toFinset, cap, hcap, ?_,
      fun o' ho' => ?_⟩
    · rw [List.sum_toFinset _ (protectiveGroups pending).nodup_keys, List.map_map]
      exact hsum
    · rcases hcases positionId o' ho' with
        ⟨-, habs⟩ | ⟨e, he, o, ho, hid, hprotects, hat, -, hkey, -⟩
      · exact absurd rfl habs
      · have hkey' : o'.groupKey = e.1 := hkey.symm.trans (hgroup e he o ho).1
        rw [hkey']
        exact ⟨List.mem_toFinset.mpr (List.mem_map_of_mem he),
          (hat.qty_le (hcap _) ho'.pending).1⟩

/-- **Nothing is left** for a position that is closed, or too small to count. -/
theorem syncPaperProtectiveOrders_closed
    (hscope : ∀ o, Protects orders positionId o → o.row.scope = scope)
    (hclosed : ¬ (status = .open ∧ |qty| > paperTolerance))
    (h : syncPaperProtectiveOrders orders positionId qty status scope updatedAt =
      .ok (cancelled, orders')) :
    Shrinks orders orders' ∧ ∀ o, ¬ Protects orders' positionId o := by
  unfold syncPaperProtectiveOrders at h
  dsimp only at h
  rw [if_neg hclosed] at h
  have hshrinks := cancelWhere_shrinks h
  unfold cancelWhere at h
  obtain ⟨_, -, h⟩ := bind_eq_ok.mp h
  obtain ⟨-, rfl⟩ := Prod.mk.inj (pure_eq_ok.mp h)
  refine ⟨hshrinks, fun o ho => ?_⟩
  have hstored := ho.stored
  rw [Dict.get?_updateWhere] at hstored
  obtain ⟨row, hrow, hnew⟩ := Option.map_eq_some_iff.mp hstored
  split at hnew
  · exact (row.dropped_status updatedAt) (hnew ▸ ho.pending)
  · rename_i hkept
    obtain rfl := hnew
    have hprotects : Protects orders positionId o :=
      ⟨hrow, ho.position_eq, ho.reduceOnly, ho.pending⟩
    exact hkept ((isPendingProtective_iff hrow).mpr ⟨hprotects, hscope o hprotects⟩)

end Sync

end AefTerminal
