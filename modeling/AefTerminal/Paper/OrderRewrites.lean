import AefTerminal.Paper.Orders
import Mathlib.Logic.Relation

/-!
# What the order operations write

Every write to an order row that keeps its two stored copies in step, one constructor each. Placing
is the only way to a new id; the other three apply to pending rows only, so a row that left
`pending` is never written again.

The operations are chains of these writes, id by id (`Chained`). Two operations are not among
them: a pending update, which takes the row's facts from its caller, and a protective-level update,
which leaves the stored command behind.

## Main definitions

* `OrderRewrite`, `Chained`, `Rewrites`
* `OrderRow.InStep`: the stored execution command is the command of the row as it is read back

## Main results

* `OrderRewrite.decodes`, `OrderRewrite.inStep`: a rewritten row decodes and stays in step
* `upsertPaperOrder_rewrites`, `cancelWhere_rewrites`, `syncPaperProtectiveOrders_rewrites`
-/

namespace AefTerminal

open Foundation

/-! ### Copies -/

/-- The stored execution command is the command recomputed from the row as it is read back. -/
def OrderRow.InStep (id : String) (row : OrderRow) : Prop :=
  paperOrderCommandPayload (SavedOrder.mk id row).toOrder = .ok row.document.executionCommand

/-- The stored create command is in canonical form. -/
def OrderRow.CreateCanonical (row : OrderRow) : Prop :=
  paperOrderCommandPayload row.document.createCommand.toOrder = .ok row.document.createCommand

variable {o : PaperOrder}

theorem PaperOrder.protection_eq_ok {payload : PaperOrderPayload} :
    o.protection = .ok payload ↔ o.payload = some payload ∧
      ∃ us ut, o.useStopLoss = some us ∧ o.useTarget = some ut ∧
        Protected us ut o.stopLoss o.target payload :=
  requirePaperOrderProtection_eq_ok

/-- The command of an order agrees with the order's own payload and contract. -/
theorem commandAgrees_of_ok {c : PaperCommand} {payload : PaperOrderPayload}
    (hc : paperOrderCommandPayload o = .ok c) (hp : o.payload = some payload) :
    CommandAgrees c.paperContract payload c := by
  obtain ⟨hdraft, -, -, -, hacc⟩ := paperOrderCommandPayload_eq_ok.mp hc
  have hpayload : c.payload = payload.withoutExecutionConfig := by
    rw [hdraft]
    simp [PaperOrder.draftCommand, hp]
  exact ⟨hacc.protection, by rw [hpayload]; rfl, rfl, hacc.provider_eq,
    hacc.providerContractId_eq⟩

theorem PaperOrder.identity_valid {c : PaperCommand}
    (hc : paperOrderCommandPayload o = .ok c) : (o.identity c.paperContract).Valid := by
  obtain ⟨hdraft, -, hprov, -, hacc⟩ := paperOrderCommandPayload_eq_ok.mp hc
  have hinst : o.instrumentId = c.instrumentId := by rw [hdraft]; rfl
  have hroute : o.routeFingerprint = c.routeFingerprint := by rw [hdraft]; rfl
  have hpcid : o.providerContractId = c.providerContractId := by rw [hdraft]; rfl
  have hi : o.instrumentId ≠ "" := hinst ▸ hacc.instrumentId_ne
  have hr : o.routeFingerprint ≠ "" := hroute ▸ hacc.routeFingerprint_ne
  exact ⟨hi, hr, hprov, hpcid.trans hacc.providerContractId_eq⟩

theorem PaperOrder.reservation_eq_ok {shape : PaperSide × ℚ × ℚ} (h : o.reservation = .ok shape) :
    o.side = some shape.1 ∧ o.qty = some shape.2.1 ∧ o.entry = some shape.2.2 := by
  unfold PaperOrder.reservation at h
  split at h
  · rename_i hside hqty hentry
    split at h
    · cases h
      exact ⟨hside, hqty, hentry⟩
    · exact absurd h (by simp)
  · exact absurd h (by simp)

/-- An absent id column reads as the empty text, which counts as absent again. -/
theorem optionalId_getD (id : Option String) :
    optionalId (some ((optionalId id).getD "")) = optionalId id := by
  cases id with
  | none => rfl
  | some text => by_cases h : text = "" <;> simp [optionalId, h]

/-! ### The facts of a row -/

/-- The columns and keys that a resize and a cancellation leave alone. -/
def OrderRow.facts (row : OrderRow) : OrderRow :=
  { row with
    qty := 0
    status := .pending
    updatedAt := 0
    document := { row.document with
      executionCommand := row.document.createCommand
      cancelledAt := none
      executionRejection := none } }

variable {id : String} {row : OrderRow}

/-- A command is computed from the facts and the quantity. -/
theorem command_of_facts {row' : OrderRow} (h : row.facts = row'.facts) (qty : ℚ) :
    paperOrderCommandPayload (SavedOrder.mk id { row with qty }).toOrder =
      paperOrderCommandPayload (SavedOrder.mk id { row' with qty }).toOrder := by
  have hrow : ∀ row : OrderRow,
      paperOrderCommandPayload (SavedOrder.mk id { row with qty }).toOrder =
        paperOrderCommandPayload (SavedOrder.mk id { row.facts with qty }).toOrder := fun _ => rfl
  rw [hrow row, hrow row', h]

theorem payload_of_facts {row' : OrderRow} (h : row.facts = row'.facts) :
    row.document.payload = row'.document.payload :=
  congrArg (fun r => r.document.payload) h

/-! ### Writes -/

/-- The row an accepted order is inserted as. -/
def PaperOrder.placedRow (o : PaperOrder) (command : PaperCommand) (shape : PaperSide × ℚ × ℚ)
    (payload : PaperOrderPayload) (createdAt updatedAt : Time) : OrderRow :=
  pendingRow command shape createdAt updatedAt
    (o.document command.paperContract payload command command)

/-- One write to the row of `id`. -/
inductive OrderRewrite (id : String) : Option OrderRow → Option OrderRow → Prop
  | placed {o : PaperOrder} {command : PaperCommand} {shape : PaperSide × ℚ × ℚ}
      {payload : PaperOrderPayload} (createdAt updatedAt : Time) (hid : o.id = id)
      (hcommand : paperOrderCommandPayload o = .ok command) (hshape : o.reservation = .ok shape)
      (hpayload : o.protection = .ok payload) :
      OrderRewrite id none (some (o.placedRow command shape payload createdAt updatedAt))
  | cancelled {row : OrderRow} (ts : Time) (rejection : Option PaperRejection)
      (hpending : row.status = .pending) :
      OrderRewrite id (some row) (some (row.cancelled ts rejection))
  | dropped {row : OrderRow} (ts : Time) (hpending : row.status = .pending) :
      OrderRewrite id (some row) (some (row.dropped ts))
  | resized {row : OrderRow} {qty : ℚ} {command : PaperCommand} (updatedAt : Time)
      (hpending : row.status = .pending)
      (hcommand : paperOrderCommandPayload (SavedOrder.mk id { row with qty }).toOrder =
        .ok command) :
      OrderRewrite id (some row)
        (some (row.resized qty updatedAt row.document.payload command))

namespace OrderRewrite

variable {id : String} {old new : Option OrderRow} {row : OrderRow}

/-- Only a pending row is written to. -/
theorem pending (h : OrderRewrite id (some row) new) : row.status = .pending := by
  cases h <;> assumption

/-- No write fills an order, and none removes a row. -/
theorem not_filled (h : OrderRewrite id old new) : ∃ row, new = some row ∧ row.status ≠ .filled := by
  cases h with
  | placed => exact ⟨_, rfl, by simp [PaperOrder.placedRow, pendingRow]⟩
  | cancelled => exact ⟨_, rfl, by simp [OrderRow.cancelled]⟩
  | dropped => exact ⟨_, rfl, by simp [OrderRow.dropped]⟩
  | resized ts hpending => exact ⟨_, rfl, by simp [OrderRow.resized, hpending]⟩

theorem placed_decodes {o : PaperOrder} {command : PaperCommand} {shape : PaperSide × ℚ × ℚ}
    {payload : PaperOrderPayload} {createdAt updatedAt : Time}
    (hcommand : paperOrderCommandPayload o = .ok command) (hpayload : o.protection = .ok payload) :
    (o.placedRow command shape payload createdAt updatedAt).Decodes o.id := by
  obtain ⟨hp, us, ut, hus, hut, hprot⟩ := PaperOrder.protection_eq_ok.mp hpayload
  have hagrees := commandAgrees_of_ok hcommand hp
  have hvalid := o.identity_valid hcommand
  obtain ⟨hdraft, -, -, -, hacc⟩ := paperOrderCommandPayload_eq_ok.mp hcommand
  have hid : o.id = command.id := by rw [hdraft]; rfl
  refine ⟨hid ▸ hacc.id_ne, hvalid, ?_, hagrees, hagrees⟩
  have hcus : command.useStopLoss = us := by rw [hdraft]; simp [PaperOrder.draftCommand, hus]
  have hcut : command.useTarget = ut := by rw [hdraft]; simp [PaperOrder.draftCommand, hut]
  have hsl : command.stopLoss = o.stopLoss := by rw [hdraft]; rfl
  have htg : command.target = o.target := by rw [hdraft]; rfl
  simp only [PaperOrder.placedRow, pendingRow, PaperOrder.document, hcus, hcut, hsl, htg]
  exact hprot

/-- **Every write leaves a row that decodes.** -/
theorem decodes (h : OrderRewrite id old new)
    (hold : ∀ row, old = some row → row.Decodes id) :
    ∀ row, new = some row → row.Decodes id := by
  rintro row hrow
  cases h with
  | placed createdAt updatedAt hid hcommand hshape hpayload =>
    cases hrow
    exact hid ▸ placed_decodes hcommand hpayload
  | cancelled =>
    cases hrow
    have hd := hold _ rfl
    exact ⟨hd.id_ne, hd.identity, hd.protection, hd.createCommand, hd.executionCommand⟩
  | dropped =>
    cases hrow
    have hd := hold _ rfl
    exact ⟨hd.id_ne, hd.identity, hd.protection, hd.createCommand, hd.executionCommand⟩
  | resized ts hpending hcommand =>
    cases hrow
    have hd := hold _ rfl
    obtain ⟨-, hcontract, -, -, -⟩ := paperOrderCommandPayload_eq_ok.mp hcommand
    have hagrees := commandAgrees_of_ok hcommand rfl
    rw [← Option.some.inj hcontract] at hagrees
    exact ⟨hd.id_ne, hd.identity, hd.protection, hd.createCommand, hagrees⟩

theorem placed_inStep {o : PaperOrder} {command : PaperCommand} {shape : PaperSide × ℚ × ℚ}
    {payload : PaperOrderPayload} {createdAt updatedAt : Time}
    (hcommand : paperOrderCommandPayload o = .ok command) (hshape : o.reservation = .ok shape)
    (hpayload : o.protection = .ok payload) :
    (o.placedRow command shape payload createdAt updatedAt).InStep o.id := by
  obtain ⟨hdraft, -, hprov, -, hacc⟩ := paperOrderCommandPayload_eq_ok.mp hcommand
  obtain ⟨hside, hqty, hentry⟩ := PaperOrder.reservation_eq_ok hshape
  have hp := (PaperOrder.protection_eq_ok.mp hpayload).1
  refine paperOrderCommandPayload_eq_ok.mpr ⟨?_, rfl, hprov, rfl, hacc⟩
  change command = PaperOrder.draftCommand _ command.paperContract
  generalize hcontract : command.paperContract = contract at hdraft ⊢
  subst hdraft
  generalize hread : (SavedOrder.mk o.id (o.placedRow (o.draftCommand contract) shape payload
    createdAt updatedAt)).toOrder = read
  have hmanual : read.manualClose = o.manualClose := by rw [← hread]; rfl
  simp only [PaperOrder.draftCommand, hmanual]
  subst hread
  simp [PaperOrder.draftCommand, SavedOrder.toOrder, PaperOrder.placedRow, pendingRow, PaperOrder.document,
    PaperOrder.identity, hside, hqty, hentry, hp, PaperOrder.roleOrEntry,
    PaperOrder.reduceOnlyOrRole, optionalId_getD]

/-- **Every write leaves the stored command in step with the row.** -/
theorem inStep (h : OrderRewrite id old new) (hold : ∀ row, old = some row → row.InStep id) :
    ∀ row, new = some row → row.InStep id := by
  rintro row hrow
  cases h with
  | placed createdAt updatedAt hid hcommand hshape hpayload =>
    cases hrow
    exact hid ▸ placed_inStep hcommand hshape hpayload
  | cancelled =>
    cases hrow
    have hd := hold _ rfl
    exact hd
  | dropped =>
    cases hrow
    have hd := hold _ rfl
    exact hd
  | resized ts hpending hcommand =>
    cases hrow
    exact hcommand

theorem createCanonical (h : OrderRewrite id old new)
    (hold : ∀ row, old = some row → row.CreateCanonical) :
    ∀ row, new = some row → row.CreateCanonical := by
  rintro row hrow
  cases h with
  | placed createdAt updatedAt hid hcommand =>
    cases hrow
    exact paperOrderCommandPayload_toOrder hcommand
  | cancelled =>
    cases hrow
    have hd := hold _ rfl
    exact hd
  | dropped =>
    cases hrow
    have hd := hold _ rfl
    exact hd
  | resized =>
    cases hrow
    have hd := hold _ rfl
    exact hd

end OrderRewrite

/-! ### Chains of writes -/

/-- The rows of `orders'` come from those of `orders` by writes of `W`, id by id. -/
def Chained (W : String → Option OrderRow → Option OrderRow → Prop)
    (orders orders' : Dict String OrderRow) : Prop :=
  ∀ id, Relation.ReflTransGen (W id) (orders.get? id) (orders'.get? id)

namespace Chained

variable {W W' : String → Option OrderRow → Option OrderRow → Prop}
  {orders orders' orders'' : Dict String OrderRow} {id : String} {row : OrderRow}

theorem refl (orders : Dict String OrderRow) : Chained W orders orders :=
  fun _ => .refl

theorem trans (h : Chained W orders orders') (k : Chained W orders' orders'') :
    Chained W orders orders'' :=
  fun id => (h id).trans (k id)

theorem mono (hsub : ∀ id old new, W id old new → W' id old new) (h : Chained W orders orders') :
    Chained W' orders orders' :=
  fun id => Relation.ReflTransGen.mono (hsub id) _ _ (h id)

theorem insert (h : W id (orders.get? id) (some row)) :
    Chained W orders (orders.insert id row) := by
  intro j
  by_cases hj : j = id
  · subst hj
    rw [Dict.get?_insert_self]
    exact .single h
  · rw [Dict.get?_insert_of_ne _ hj]

theorem updateWhere {p : String → OrderRow → Bool} {change : OrderRow → OrderRow}
    (h : ∀ id row, p id row → W id (some row) (some (change row))) :
    Chained W orders (orders.updateWhere p change) := by
  intro id
  rw [Dict.get?_updateWhere]
  cases orders.get? id with
  | none => exact .refl
  | some row =>
    by_cases hp : p id row
    · simpa [hp] using Relation.ReflTransGen.single (h id row hp)
    · simp [hp, Relation.ReflTransGen.refl]

/-- What every write establishes holds of every row. -/
theorem forall_row {P : String → OrderRow → Prop}
    (hP : ∀ id old new, W id old new → (∀ row, old = some row → P id row) →
      ∀ row, new = some row → P id row)
    (h : Chained W orders orders') (horders : ∀ id row, orders.get? id = some row → P id row) :
    ∀ id row, orders'.get? id = some row → P id row := by
  intro id
  have hchain : ∀ new, Relation.ReflTransGen (W id) (orders.get? id) new →
      ∀ row, new = some row → P id row := by
    intro new hnew
    induction hnew with
    | refl => exact horders id
    | tail _ hstep ih => exact hP id _ _ hstep ih
  exact hchain _ (h id)

/-- Where only pending rows are written to, a row that is not pending is kept as it is. -/
theorem frozen (hW : ∀ id row new, W id (some row) new → row.status = .pending)
    (h : Chained W orders orders') (hrow : orders.get? id = some row)
    (hstatus : row.status ≠ .pending) : orders'.get? id = some row := by
  have hchain := h id
  rw [hrow] at hchain
  rcases Relation.ReflTransGen.cases_head hchain with heq | ⟨_, hstep, _⟩
  · exact heq.symm
  · exact absurd (hW _ _ _ hstep) hstatus

/-- Where no write fills an order, a row that is filled was filled before. -/
theorem of_filled (hW : ∀ id old new, W id old new → ∃ row, new = some row ∧ row.status ≠ .filled)
    (h : Chained W orders orders') (hrow : orders'.get? id = some row)
    (hstatus : row.status = .filled) : orders.get? id = some row := by
  have hchain := h id
  rw [hrow] at hchain
  rcases Relation.ReflTransGen.cases_tail hchain with heq | ⟨_, _, hstep⟩
  · exact heq.symm
  · obtain ⟨_, hnew, hne⟩ := hW _ _ _ hstep
    exact absurd (Option.some.inj hnew ▸ hstatus) hne

end Chained

/-- Chains of the writes above. -/
abbrev Rewrites : Dict String OrderRow → Dict String OrderRow → Prop := Chained OrderRewrite

/-! ### The operations -/

theorem PaperTables.appendEvent_eq_ok {t t' : PaperTables} {event : TradeEvent}
    (h : t.appendEvent event = .ok t') : t' = { t with events := t.events ++ [event] } := by
  unfold PaperTables.appendEvent at h
  split at h
  · exact absurd h (by simp)
  · exact (Except.ok.inj h).symm

/-- The stored order is the order asked for. -/
structure OrderRow.Admits (row : OrderRow) (o : PaperOrder) : Prop where
  command_eq : paperOrderCommandPayload o = .ok row.document.createCommand
  instrumentId_eq : row.document.identity.instrumentId = o.instrumentId
  routeFingerprint_eq : row.document.identity.routeFingerprint = o.routeFingerprint

/-- Everything `upsertPaperOrder` can do: place a new order, or find the one it stored. -/
theorem upsertPaperOrder_eq_ok {t t' : PaperTables} {now : Time} {saved : SavedOrder}
    (h : upsertPaperOrder t o now = .ok (saved, t')) :
    (∃ row event, t.orders.get? o.id = none ∧ OrderRewrite o.id none (some row) ∧
      event.eventType = .orderPlaced ∧
      t' = { t with orders := t.orders.insert o.id row, events := t.events ++ [event] } ∧
      saved = ⟨o.id, row⟩ ∧ row.Admits o ∧
      row.reduceOnly = row.document.createCommand.reduceOnly) ∨
    (t' = t ∧ ∃ row, t.orders.get? o.id = some row ∧ saved = ⟨o.id, row⟩ ∧ row.Admits o) := by
  unfold upsertPaperOrder at h
  obtain ⟨command, hcommand, h⟩ := bind_eq_ok.mp h
  obtain ⟨shape, hshape, h⟩ := bind_eq_ok.mp h
  obtain ⟨payload, hpayload, h⟩ := bind_eq_ok.mp h
  obtain ⟨-, -, h⟩ := bind_eq_ok.mp h
  split at h
  · rename_i hnone
    obtain ⟨s, hs, h⟩ := bind_eq_ok.mp h
    obtain ⟨t₁, ht₁, h⟩ := bind_eq_ok.mp h
    cases (pure_eq_ok.mp h)
    exact .inl ⟨_, _, hnone, .placed _ _ rfl hcommand hshape hpayload, rfl,
      PaperTables.appendEvent_eq_ok ht₁, (paperOrderFromRow_eq_ok.mp hs).1, ⟨hcommand, rfl, rfl⟩, rfl⟩
  · rename_i existing hsome
    obtain ⟨s, hs, h⟩ := bind_eq_ok.mp h
    obtain ⟨_, hroute, h⟩ := bind_eq_ok.mp h
    obtain ⟨_, hcreate, h⟩ := bind_eq_ok.mp h
    cases (pure_eq_ok.mp h)
    obtain ⟨hinstrument, hfingerprint⟩ := require_eq_ok.mp hroute
    exact .inr ⟨rfl, existing, hsome, (paperOrderFromRow_eq_ok.mp hs).1,
      by rw [hcommand, require_eq_ok.mp hcreate], hinstrument, hfingerprint⟩

variable {ts : Time} {orders : Dict String OrderRow} {admits : PaperIdentity → Bool}

variable {rejection : Option PaperRejection}

theorem cancelIfPendingWithCursor_eq_none
    (h : (cancelIfPendingWithCursor orders id ts admits rejection).1 = none) :
    (cancelIfPendingWithCursor orders id ts admits rejection).2 = orders := by
  unfold cancelIfPendingWithCursor at h ⊢
  split at h
  · rfl
  · split at h
    · exact absurd h (by simp)
    · rename_i hpending
      simp [hpending]

theorem cancelIfPendingWithCursor_eq_some {new : OrderRow}
    (h : (cancelIfPendingWithCursor orders id ts admits rejection).1 = some new) :
    ∃ row, orders.get? id = some row ∧ row.status = .pending ∧ new = row.cancelled ts rejection ∧
      (cancelIfPendingWithCursor orders id ts admits rejection).2 = orders.insert id new := by
  unfold cancelIfPendingWithCursor at h ⊢
  split at h
  · exact absurd h (by simp)
  · rename_i row hrow
    split at h
    · rename_i hpending
      cases h
      exact ⟨row, hrow, hpending.2, rfl, by simp [hpending]⟩
    · exact absurd h (by simp)

theorem cancelWhere_rewrites {orders' : Dict String OrderRow}
    {p : String → OrderRow → Bool} {cancelled : List SavedOrder}
    (hp : ∀ id row, p id row → row.status = .pending)
    (h : cancelWhere orders p ts = .ok (cancelled, orders')) : Rewrites orders orders' := by
  unfold cancelWhere at h
  obtain ⟨_, -, h⟩ := bind_eq_ok.mp h
  obtain ⟨-, rfl⟩ := Prod.mk.inj (pure_eq_ok.mp h)
  exact .updateWhere fun id row hrow => .dropped ts (hp id row hrow)

theorem isPendingProtective_pending {positionId : String}
    (h : isPendingProtective admits positionId row) : row.status = .pending := by
  simp only [isPendingProtective, Bool.and_eq_true, decide_eq_true_eq] at h
  exact h.2

variable {pending : List SavedOrder}

theorem mem_protectiveGroups {group : List SavedOrder} {o : SavedOrder}
    (hgroup : group ∈ (protectiveGroups pending).entries.map Prod.snd) (ho : o ∈ group) :
    o ∈ pending := by
  -- every group collected so far consists of orders already seen
  have hfold : ∀ (todo : List SavedOrder) (groups : Dict String (List SavedOrder)),
      (∀ o ∈ todo, o ∈ pending) → (∀ k g, groups.get? k = some g → ∀ o ∈ g, o ∈ pending) →
      ∀ k g, (todo.foldl (fun groups o =>
        groups.insert o.groupKey ((groups.get? o.groupKey).getD [] ++ [o])) groups).get? k = some g →
        ∀ o ∈ g, o ∈ pending := by
    intro todo
    induction todo with
    | nil => exact fun _ _ h => h
    | cons a todo ih =>
      intro groups htodo hgroups
      refine ih _ (fun o ho => htodo o (List.mem_cons_of_mem _ ho)) fun k g hk o ho => ?_
      rw [Dict.get?_insert] at hk
      split at hk
      · cases hk
        rcases List.mem_append.mp ho with ho | ho
        · cases hold : groups.get? a.groupKey with
          | none => simp [hold] at ho
          | some g => exact hgroups _ g hold o (by simpa [hold] using ho)
        · obtain rfl := List.mem_singleton.mp ho
          exact htodo _ (List.mem_cons_self ..)
      · exact hgroups k g hk o ho
  obtain ⟨⟨k, g⟩, hmem, rfl⟩ := List.mem_map.mp hgroup
  exact hfold pending .empty (fun _ h => h) (fun k g h => absurd h (by simp)) k g
    (Dict.get?_eq_some_iff.mpr hmem) o ho

/-- What the loop over the groups keeps: the table comes from the one it started with, and the rows
of the orders it goes through keep their facts. -/
structure SyncInv (orders : Dict String OrderRow) (pending : List SavedOrder)
    (s : ProtectiveSync) : Prop where
  rewrites : Rewrites orders s.orders
  facts : ∀ o ∈ pending, ∃ row, s.orders.get? o.id = some row ∧ row.facts = o.row.facts

theorem SyncInv.insert {s s' : ProtectiveSync} {new : OrderRow} (hs : SyncInv orders pending s)
    (hrow : s.orders.get? id = some row) (hwrite : OrderRewrite id (some row) (some new))
    (hfacts : new.facts = row.facts) (hs' : s'.orders = s.orders.insert id new) :
    SyncInv orders pending s' := by
  refine ⟨hs' ▸ hs.rewrites.trans (.insert (hrow ▸ hwrite)), fun o ho => ?_⟩
  obtain ⟨r, hr, hrf⟩ := hs.facts o ho
  rw [hs', Dict.get?_insert]
  by_cases hid : o.id = id
  · rw [hid, hrow] at hr
    cases hr
    exact ⟨new, if_pos hid, hfacts.trans hrf⟩
  · exact ⟨r, (if_neg hid).trans hr, hrf⟩

theorem syncProtectiveOrder_inv
    {scope : PaperScope} {updatedAt : Time} {admittedQty : ℚ} {s s' : ProtectiveSync}
    {o : SavedOrder} (ho : o ∈ pending) (hs : SyncInv orders pending s)
    (h : syncProtectiveOrder scope updatedAt admittedQty s o = .ok s') :
    SyncInv orders pending s' := by
  unfold syncProtectiveOrder at h
  split at h
  · dsimp only at h
    split at h
    · rename_i hnone
      obtain rfl := pure_eq_ok.mp h
      rw [cancelIfPendingWithCursor_eq_none hnone]
      exact hs
    · rename_i new hnew
      obtain ⟨saved, -, h⟩ := bind_eq_ok.mp h
      obtain rfl := pure_eq_ok.mp h
      obtain ⟨row, hrow, hpending, rfl, hins⟩ := cancelIfPendingWithCursor_eq_some hnew
      exact hs.insert hrow (.cancelled updatedAt none hpending) rfl hins
  · split at h
    · obtain rfl := pure_eq_ok.mp h
      exact hs
    · obtain ⟨command, hcommand, h⟩ := bind_eq_ok.mp h
      obtain ⟨payload, hpayload, h⟩ := bind_eq_ok.mp h
      split at h
      · exact absurd h (by simp)
      rename_i row hrow
      split at h
      · rename_i hpending
        obtain rfl := pure_eq_ok.mp h
        obtain ⟨row', hrow', hfacts⟩ := hs.facts o ho
        rw [hrow] at hrow'
        cases hrow'
        have hp : payload = row.document.payload := by
          rw [payload_of_facts hfacts]
          exact (Option.some.inj (PaperOrder.protection_eq_ok.mp hpayload).1).symm
        subst hp
        have hcommand' : paperOrderCommandPayload
            (SavedOrder.mk o.id { row with qty := admittedQty }).toOrder = .ok command :=
          (command_of_facts hfacts admittedQty).trans hcommand
        exact hs.insert hrow (.resized updatedAt hpending.2 hcommand') rfl rfl
      · exact absurd h (by simp)

theorem syncPaperProtectiveOrders_rewrites {orders' : Dict String OrderRow}
    {positionId : String} {qty : ℚ} {status : PaperPositionStatus} {scope : PaperScope}
    {updatedAt : Time} {cancelled : List SavedOrder}
    (h : syncPaperProtectiveOrders orders positionId qty status scope updatedAt =
      .ok (cancelled, orders')) : Rewrites orders orders' := by
  unfold syncPaperProtectiveOrders at h
  dsimp only at h
  split at h
  · obtain ⟨pending, hpending, h⟩ := bind_eq_ok.mp h
    obtain ⟨s, hs, h⟩ := bind_eq_ok.mp h
    obtain ⟨-, rfl⟩ := Prod.mk.inj (pure_eq_ok.mp h)
    have hstart : SyncInv orders pending ⟨orders, |qty|, []⟩ := by
      refine ⟨.refl _, fun o ho => ?_⟩
      obtain ⟨r, hr, hro⟩ := mem_of_mapM_eq_ok hpending ho
      obtain ⟨rfl, -⟩ := paperOrderFromRow_eq_ok.mp hro
      obtain ⟨⟨id, row⟩, he, rfl⟩ := List.mem_map.mp ((List.mem_insertionSort _).mp hr)
      exact ⟨row, (Dict.mem_select.mp he).1, rfl⟩
    have hsync : SyncInv orders pending s := by
      refine foldlM_induct (P := SyncInv orders pending) ?_ hstart hs
      intro s group s' hgroup hs hstep
      unfold syncProtectiveGroup at hstep
      dsimp only at hstep
      refine foldlM_induct (P := SyncInv orders pending) ?_ ?_ hstep
      · intro s o s' ho hs hstep
        exact syncProtectiveOrder_inv (mem_protectiveGroups hgroup ho) hs hstep
      · exact ⟨hs.rewrites, hs.facts⟩
    exact hsync.rewrites
  · exact cancelWhere_rewrites (fun _ _ => isPendingProtective_pending) h

end AefTerminal
