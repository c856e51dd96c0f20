import AefTerminal.Paper.Rejections
import AefTerminal.Paper.Repository

/-!
# Stored orders stay fillable

The facts of a pending order are stored in its columns and again in its execution command, and a
fill is admitted when its command is the stored one. So a stored order can be filled as long as the
two copies are in step.

Placing, resizing and cancelling keep them in step. A pending update writes the command of the
order it is given but only some of the columns: it keeps them in step when that order restates the
rest of the row. A level update writes the entry column and no command: it keeps them in step only
where it changes nothing.

## Main definitions

* `PaperOrder.Restates`, `PaperAct.RestatesRow`, `PaperAct.KeepsCommands`
* `OrderRow.Fillable`, `FillableWhere`, `StoredFillable`

## Main results

* `FillableWhere.step`: the calls that leave the orders of some roles fillable
* `stored_orders_fillable`, `stored_orders_not_fillable`
-/

namespace AefTerminal

open Foundation

/-- A fill for exactly the stored order, at some price and time. -/
def SavedOrder.filledOrder (o : SavedOrder) (fillPrice : Option ℚ) (filledAt : Option Time) :
    PaperOrder :=
  { o.toOrder with status := some .filled, fillPrice, filledAt }

/-- Both stored commands are what a fill for the stored order recomputes. -/
structure OrderRow.Fillable (id : String) (row : OrderRow) : Prop where
  inStep : row.InStep id
  createCanonical : row.CreateCanonical

/-- Every pending order can be filled. -/
def StoredFillable (orders : Dict String OrderRow) : Prop :=
  ∀ id row, orders.get? id = some row → row.status = .pending → row.Fillable id

/-! ### Admission -/

section Admission

variable {t : PaperTables} {id : String} {row : OrderRow} {fillPrice : Option ℚ}
  {filledAt : Option Time} {now : Time}

/-- The fill of a fillable order goes under its id and with its commands. -/
theorem OrderRow.Fillable.fillCommand (h : row.Fillable id) {f : PaperFillCommand}
    (hf : paperFillCommand ((SavedOrder.mk id row).filledOrder fillPrice filledAt) now = .ok f) :
    f.orderId = id ∧ f.command = row.document.executionCommand ∧
      f.createCommand = row.document.createCommand := by
  obtain ⟨horder, hmade⟩ := paperFillCommand_made hf
  have hcommand : paperOrderCommandPayload (SavedOrder.mk id row).toOrder = .ok f.command := by
    have hown := hmade.command
    rw [horder] at hown
    exact hown
  have hcreate : paperOrderCommandPayload row.document.createCommand.toOrder =
      .ok f.createCommand := by
    have hown := hmade.createCommand
    rw [horder] at hown
    exact hown
  refine ⟨?_, Except.ok.inj (hcommand.symm.trans h.inStep),
    Except.ok.inj (hcreate.symm.trans h.createCanonical)⟩
  obtain ⟨hdraft, -⟩ := paperOrderCommandPayload_eq_ok.mp hcommand
  rw [PaperFillCommand.orderId, hdraft]
  rfl

/-- A fill of a pending order goes on if its command is the stored one or a move of the levels. -/
theorem reservePaperFillOrder_admitted {f : PaperFillCommand}
    (hrow : t.orders.get? f.orderId = some row) (hpending : row.status = .pending)
    (hdecodes : row.Decodes f.orderId)
    (hroute : row.document.identity.instrumentId = f.command.instrumentId ∧
      row.document.identity.routeFingerprint = f.command.routeFingerprint)
    (hcreate : row.document.createCommand = f.createCommand)
    (hcommand : row.document.executionCommand = f.command ∨
      paperFillDistanceExecutionUpdateAllowed row.document f) :
    reservePaperFillOrder t f = .ok (none, t) := by
  have houtcome : paperFillExistingOrderOutcome t f row = .ok none := by
    refine bind_eq_ok.mpr ⟨_, hdecodes.fromRow, ?_⟩
    refine bind_eq_ok.mpr ⟨⟨⟩, require_eq_ok.mpr hroute, ?_⟩
    refine bind_eq_ok.mpr ⟨⟨⟩, require_eq_ok.mpr hcreate, ?_⟩
    rw [if_neg (by simp [hpending]), if_neg (by simp [hpending])]
    exact bind_eq_ok.mpr ⟨⟨⟩, require_eq_ok.mpr (hcommand.imp_right fun h => ⟨hpending, h⟩),
      bind_eq_ok.mpr ⟨⟨⟩, require_eq_ok.mpr hpending, rfl⟩⟩
  unfold reservePaperFillOrder
  rw [hrow]
  exact bind_eq_ok.mpr ⟨_, houtcome, rfl⟩

/-- A fillable pending order is admitted. -/
theorem OrderRow.Fillable.reserved (h : row.Fillable id) (hrow : t.orders.get? id = some row)
    (hpending : row.status = .pending) (hdecodes : row.Decodes id) {f : PaperFillCommand}
    (hf : paperFillCommand ((SavedOrder.mk id row).filledOrder fillPrice filledAt) now = .ok f) :
    reservePaperFillOrder t f = .ok (none, t) := by
  obtain ⟨hid, hcommand, hcreate⟩ := h.fillCommand hf
  have hroute : row.document.identity.instrumentId = f.command.instrumentId ∧
      row.document.identity.routeFingerprint = f.command.routeFingerprint := by
    obtain ⟨hdraft, -⟩ := paperOrderCommandPayload_eq_ok.mp h.inStep
    rw [hcommand, hdraft]
    exact ⟨rfl, rfl⟩
  subst hid
  exact reservePaperFillOrder_admitted hrow hpending hdecodes hroute hcreate.symm
    (.inl hcommand.symm)

/-- **A fillable pending order** is never refused for its command. -/
theorem OrderRow.Fillable.no_collision (h : row.Fillable id) (hrow : t.orders.get? id = some row)
    (hpending : row.status = .pending) (hdecodes : row.Decodes id) :
    applyFilledPaperOrder t ((SavedOrder.mk id row).filledOrder fillPrice filledAt) now ≠
      .error commandCollision := by
  refine applyFilledPaperOrder_avoids fun f hf => ?_
  rw [h.reserved hrow hpending hdecodes hf]
  exact .ok

end Admission

/-! ### Writers that keep the copies in step -/

/-- The pending orders of some roles can be filled. -/
def FillableWhere (P : PaperRole → Prop) (orders : Dict String OrderRow) : Prop :=
  ∀ id row, orders.get? id = some row → row.status = .pending → P row.role → row.Fillable id

theorem storedFillable_iff {orders : Dict String OrderRow} :
    StoredFillable orders ↔ FillableWhere (fun _ => True) orders := by
  simp [StoredFillable, FillableWhere]

/-- Placing, resizing and cancelling write to pending rows, and leave their role and commands. -/
theorem OrderRewrite.fillable {P : PaperRole → Prop} {id : String} {old new : Option OrderRow}
    (h : OrderRewrite id old new)
    (hold : ∀ row, old = some row → row.status = .pending → P row.role → row.Fillable id) :
    ∀ row, new = some row → row.status = .pending → P row.role → row.Fillable id := by
  intro row hrow _ hrole
  have hwritten : ∀ old', old = some old' → old'.Fillable id := by
    rintro old' rfl
    have hpending := h.pending
    cases h <;> obtain rfl := Option.some.inj hrow <;> exact hold _ rfl hpending hrole
  exact ⟨h.inStep (fun r hr => (hwritten r hr).inStep) row hrow,
    h.createCanonical (fun r hr => (hwritten r hr).createCanonical) row hrow⟩

namespace FillableWhere

variable {P : PaperRole → Prop} {t t' : PaperTables} {orders orders' : Dict String OrderRow}

theorem rewrites (h : FillableWhere P orders) (hw : Rewrites orders orders') :
    FillableWhere P orders' :=
  hw.forall_row (P := fun id row => row.status = .pending → P row.role → row.Fillable id)
    (fun _ _ _ hwrite => hwrite.fillable) h

/-- One order that left `pending`, the others as they were. -/
theorem rewritten {id : String} {row : OrderRow} (h : FillableWhere P orders)
    (hw : Rewritten orders orders' id row) (hstatus : row.status ≠ .pending) :
    FillableWhere P orders' := by
  intro j r hr hpending
  by_cases hj : j = id
  · subst hj
    rw [hw.self] at hr
    exact absurd (Option.some.inj hr ▸ hpending) hstatus
  · rw [hw.other j hj] at hr
    exact h j r hr hpending

/-- The application takes its own order out of `pending`. -/
theorem applied {f : PaperFillCommand} {now : Time} {result : PaperFillResult}
    (h : FillableWhere P t.orders) (ha : AppliedFill t f now result t') :
    FillableWhere P t'.orders := by
  cases ha with
  | replayed => exact h
  | cancelled _ horders => exact h.rewritten horders (by simp [OrderRow.cancelled])
  | filled _ _ _ _ _ _ _ _ _ _ _ horders hprotective =>
    exact (h.rewritten horders (by simp [OrderRow.filled])).rewrites hprotective

end FillableWhere

/-! ### The pending update -/

/-- The order restates what a pending update of the row does not write. A source, note or reason
that it leaves out stays in the document; a create command that it brings along is written. -/
structure PaperOrder.Restates (o : PaperOrder) (row : OrderRow) : Prop where
  symbol : strip o.symbol = strip row.symbol
  timeframe : strip o.timeframe = strip row.timeframe
  orderType : o.orderType = row.orderType
  role : o.roleOrEntry = row.role
  reduceOnly : o.reduceOnlyOrRole = row.reduceOnly
  side : o.manualClose = false → o.side = some row.side
  qty : o.manualClose = false → o.qty = some row.qty
  positionId : optionalId o.positionId = optionalId row.positionId
  parentOrderId : optionalId o.parentOrderId = optionalId row.parentOrderId
  ocoGroupId : optionalId o.ocoGroupId = optionalId row.ocoGroupId
  source : o.source = none → textOr row.document.source "manual" = "manual"
  note : o.note = none → textOr row.document.note "" = ""
  exitReason : o.exitReason = none → textOr row.document.exitReason "" = ""
  createCommand : ∀ c, o.createCommand = some c → paperOrderCommandPayload c.toOrder = .ok c

theorem optionalId_some_getD (id : Option String) : optionalId (some (id.getD "")) = optionalId id := by
  cases id <;> simp [optionalId]

theorem textOr_orElse {new old : Option String} {default : String}
    (h : new = none → textOr old default = default) :
    textOr (new <|> old) default = textOr new default := by
  cases new with
  | none => exact h rfl
  | some text => rfl

theorem ite_none_congr {α : Type} {b : Bool} {x y : Option α} (h : b = false → x = y) :
    (if b = true then none else x) = if b = true then none else y := by
  cases b with
  | false => exact h rfl
  | true => rfl

section Update

variable {o : PaperOrder} {row : OrderRow} {entry : ℚ} {command : PaperCommand}
  {payload : PaperOrderPayload} {ts : Time}

/-- A row updated by an order that restates it reads back as that order. -/
theorem PaperOrder.Restates.draftCommand_eq (h : o.Restates row)
    (hcommand : paperOrderCommandPayload o = .ok command) (hentry : o.entry = some entry)
    (hpayload : o.protection = .ok payload) :
    (SavedOrder.mk o.id (row.updated o entry command payload ts)).toOrder.draftCommand
      command.paperContract = command := by
  obtain ⟨hdraft, -⟩ := paperOrderCommandPayload_eq_ok.mp hcommand
  have hp := (PaperOrder.protection_eq_ok.mp hpayload).1
  have huseStop : command.useStopLoss = o.useStopLoss.getD o.stopLoss.isSome := by rw [hdraft]; rfl
  have huseTarget : command.useTarget = o.useTarget.getD o.target.isSome := by rw [hdraft]; rfl
  have hmanual : (SavedOrder.mk o.id (row.updated o entry command payload ts)).toOrder.manualClose =
      o.manualClose := by
    show (decide (row.role = .close) && row.reduceOnly) = _
    rw [PaperOrder.manualClose, h.role, h.reduceOnly]
  conv_rhs => rw [hdraft]
  simp only [PaperOrder.draftCommand, hmanual]
  congr 1
  case e_symbol => exact h.symbol.symm
  case e_timeframe => exact h.timeframe.symm
  case e_orderType => exact h.orderType.symm
  case e_role => exact h.role.symm
  case e_reduceOnly => exact h.reduceOnly.symm
  case e_positionId => exact (optionalId_some_getD _).trans h.positionId.symm
  case e_parentOrderId => exact (optionalId_some_getD _).trans h.parentOrderId.symm
  case e_ocoGroupId => exact (optionalId_some_getD _).trans h.ocoGroupId.symm
  case e_source => exact textOr_orElse h.source
  case e_note => exact textOr_orElse h.note
  case e_exitReason => exact textOr_orElse h.exitReason
  case e_payload => rw [hp]; rfl
  case e_side => exact ite_none_congr fun hm => (h.side hm).symm
  case e_qty => exact ite_none_congr fun hm => (h.qty hm).symm
  case e_entry => exact ite_none_congr fun _ => hentry.symm

theorem PaperOrder.Restates.fillable (h : o.Restates row) (hrow : row.Fillable o.id)
    (hcommand : paperOrderCommandPayload o = .ok command) (hentry : o.entry = some entry)
    (hpayload : o.protection = .ok payload) :
    (row.updated o entry command payload ts).Fillable o.id := by
  obtain ⟨-, -, hprovider, -, haccepted⟩ := paperOrderCommandPayload_eq_ok.mp hcommand
  refine ⟨paperOrderCommandPayload_eq_ok.mpr ⟨(h.draftCommand_eq hcommand hentry hpayload).symm,
    rfl, hprovider, rfl, haccepted⟩, ?_⟩
  -- the create command is the row's own, or came along in canonical form
  cases hcreate : o.createCommand with
  | none =>
    simp only [OrderRow.CreateCanonical, OrderRow.updated, OrderDocument.merge,
      PaperOrder.document, hcreate, Option.getD_none]
    exact hrow.createCanonical
  | some create =>
    simp only [OrderRow.CreateCanonical, OrderRow.updated, OrderDocument.merge,
      PaperOrder.document, hcreate, Option.getD_some]
    exact h.createCommand create hcreate

end Update

/-! ### The level update -/

section Levels

variable {id : String} {row : OrderRow} {level : ℚ} {now : Time} {trail : Bool}

/-- What is no close reads back with its entry. -/
theorem draftCommand_entry {r : OrderRow} {contract : PaperContractIdentity}
    (hrole : r.role ≠ .close) :
    ((SavedOrder.mk id r).toOrder.draftCommand contract).entry = some r.entry := by
  have hmanual : (SavedOrder.mk id r).toOrder.manualClose = false := by
    simp [PaperOrder.manualClose, PaperOrder.roleOrEntry, SavedOrder.toOrder, hrole]
  simp only [PaperOrder.draftCommand, hmanual]
  rfl

theorem levelled_fillable (h : row.Fillable id) :
    (row.levelled row.entry now trail).Fillable id :=
  ⟨h.inStep, h.createCanonical⟩

/-- A row after a level update is the row before, at the level if the update matched it. -/
theorem updateLevel_from {orders : Dict String OrderRow} {p : String → OrderRow → Bool}
    {level : Option ℚ} {row' : OrderRow}
    (h : (updateLevel orders p level now trail).2.get? id = some row') :
    ∃ row, orders.get? id = some row ∧
      (row' = row ∨ ∃ l, p id row ∧ level = some l ∧ row' = row.levelled l now trail) := by
  unfold updateLevel at h
  split at h
  · exact ⟨row', h, .inl rfl⟩
  · rename_i l
    rw [Dict.get?_updateWhere] at h
    obtain ⟨row, hrow, hnew⟩ := Option.map_eq_some_iff.mp h
    refine ⟨row, hrow, ?_⟩
    split at hnew
    · rename_i hp
      exact .inr ⟨l, hp, rfl, hnew.symm⟩
    · exact .inl hnew.symm

/-- A level update is harmless where every order it matches is at the level. -/
theorem StoredFillable.updateLevel {orders : Dict String OrderRow} {p : String → OrderRow → Bool}
    {level : Option ℚ} (h : StoredFillable orders)
    (hkept : ∀ id row, orders.get? id = some row → p id row → ∀ l, level = some l → row.entry = l) :
    StoredFillable (updateLevel orders p level now trail).2 := by
  intro id row' hrow' hpending
  obtain ⟨row, hrow, rfl | ⟨l, hp, hl, rfl⟩⟩ := updateLevel_from hrow'
  · exact h id _ hrow hpending
  · rw [← hkept id row hrow hp l hl]
    exact levelled_fillable (h id row hrow hpending)

end Levels

/-! ### Runs -/

/-- A pending update restates the columns of its row that it does not write. -/
def PaperAct.RestatesRow (t : PaperTables) : PaperAct → Prop
  | .updateIfPending o _ _ _ => ∀ row command, t.orders.get? o.id = some row →
      row.status = .pending → paperOrderCommandPayload o = .ok command →
      row.document.identity.scope = (o.identity command.paperContract).scope → o.Restates row
  | _ => True

/-- **Where the copies stay in step.** A pending update restates the row it is about; a level update
changes the entry of no order that it matches. -/
def PaperAct.KeepsCommands (t : PaperTables) : PaperAct → Prop
  | .updateIfPending o _ _ _ => ∀ row command, t.orders.get? o.id = some row →
      row.status = .pending → paperOrderCommandPayload o = .ok command →
      row.document.identity.scope = (o.identity command.paperContract).scope → o.Restates row
  | .updateLevels positionId filter stop target indicatorSource parentOrderId _ =>
      let sourceKey := lower (strip (indicatorSource.getD ""))
      let parentKey := strip (parentOrderId.getD "")
      ∀ id row, t.orders.get? id = some row →
        (isLevelTarget filter positionId parentKey sourceKey .stop row →
          ∀ level, stop = some level → row.entry = level) ∧
        (isLevelTarget filter positionId parentKey sourceKey .take row →
          ∀ level, target = some level → row.entry = level)
  | _ => True

theorem isLevelTarget_role {filter : PaperScopeFilter} {positionId parentKey sourceKey : String}
    {role : PaperRole} {row : OrderRow}
    (h : isLevelTarget filter positionId parentKey sourceKey role row) : row.role = role := by
  simp only [isLevelTarget, Bool.and_eq_true, decide_eq_true_eq] at h
  exact h.1.2

variable {t t' : PaperTables}

/-- **Every call** whose pending updates restate their rows leaves the orders of the roles fillable,
if its level updates do. -/
theorem FillableWhere.step {P : PaperRole → Prop} {a : PaperAct} (h : FillableWhere P t.orders)
    (hrestates : a.RestatesRow t)
    (hlevels : ∀ positionId filter stop target indicatorSource parentOrderId now,
      a = .updateLevels positionId filter stop target indicatorSource parentOrderId now →
      FillableWhere P (updatePaperProtectiveLevels t positionId filter stop target indicatorSource
        parentOrderId now).2.orders)
    (hstep : PaperStep t a t') : FillableWhere P t'.orders := by
  obtain rfl := hstep
  by_cases happly : ∃ o now, a = .apply o now
  · obtain ⟨o, now, rfl⟩ := happly
    rcases perform_apply t o now with hsame | ⟨f, result, -, -, -, happlied⟩
    · rw [hsame]
      exact h
    · exact h.applied happlied
  · push Not at happly
    obtain ⟨orders, events, hwrote, -, heq⟩ := perform_wrote (t := t) happly
    rw [heq]
    cases hwrote with
    | kept => exact h
    | placed hnone hwrite => exact h.rewrites (.insert (hnone ▸ hwrite))
    | @updated o _ _ _ row _ command _ hrow hpending hentry hcommand hpayload hscope _ =>
      have hrow' : o.Restates row := hrestates row command hrow hpending hcommand hscope
      intro id r hr hstatus hrole
      by_cases hid : id = o.id
      · subst hid
        rw [Dict.get?_insert_self] at hr
        cases hr
        exact hrow'.fillable (h _ row hrow hpending hrole) hcommand hentry hpayload
      · rw [Dict.get?_insert_of_ne _ hid] at hr
        exact h id r hr hstatus hrole
    | cancelled ts rejection hrow hpending =>
      exact h.rewrites (.insert (hrow ▸ .cancelled ts rejection hpending))
    | dropped => exact h.rewrites cancelPaperProtectiveOrders_rewrites
    | levels => exact hlevels _ _ _ _ _ _ _ rfl

theorem PaperAct.KeepsCommands.restatesRow {a : PaperAct} (h : a.KeepsCommands t) :
    a.RestatesRow t := by
  cases a with
  | updateIfPending => exact h
  | _ => trivial

namespace StoredFillable

/-- The take statement runs after the stop statement, which wrote stop orders only. -/
theorem updateLevels {positionId : String} {filter : PaperScopeFilter} {stop target : Option ℚ}
    {indicatorSource parentOrderId : Option String} {now : Time} (h : StoredFillable t.orders)
    (hkeeps : (PaperAct.updateLevels positionId filter stop target indicatorSource parentOrderId
      now).KeepsCommands t) :
    StoredFillable (updatePaperProtectiveLevels t positionId filter stop target indicatorSource
      parentOrderId now).2.orders := by
  refine StoredFillable.updateLevel (h.updateLevel fun id row hrow hp => (hkeeps id row hrow).1 hp)
    fun id row hrow hp => ?_
  obtain ⟨old, hold, rfl | ⟨l, hstop, -, rfl⟩⟩ := updateLevel_from hrow
  · exact (hkeeps id row hold).2 hp
  · have hrole : old.role = .take := isLevelTarget_role hp
    rw [isLevelTarget_role hstop] at hrole
    exact absurd hrole (by simp)

/-- **Every guarded call** leaves the pending orders fillable. -/
theorem step {a : PaperAct} (h : StoredFillable t.orders) (hkeeps : a.KeepsCommands t)
    (hstep : PaperStep t a t') : StoredFillable t'.orders := by
  refine storedFillable_iff.mpr
    ((storedFillable_iff.mp h).step hkeeps.restatesRow ?_ hstep)
  rintro positionId filter stop target indicatorSource parentOrderId now rfl
  exact storedFillable_iff.mp (h.updateLevels hkeeps)

end StoredFillable

/-- **Stored orders stay fillable.** After calls that keep the commands, the execution command of
every pending order is the command of the row as it is read back, and a fill for exactly that order
is not refused for its command. -/
theorem stored_orders_fillable {as : List PaperAct} {t : PaperTables}
    (hrun : Run (Guarded (fun t a => a.KeepsCommands t) PaperStep) .empty as t) :
    ∀ id row, t.orders.get? id = some row → row.status = .pending →
      paperOrderCommandPayload (SavedOrder.mk id row).toOrder = .ok row.document.executionCommand ∧
      ∀ fillPrice filledAt now,
        applyFilledPaperOrder t ((SavedOrder.mk id row).filledOrder fillPrice filledAt) now ≠
          .error ⟨"PAPER_ORDER_ID_COMMAND_COLLISION"⟩ := by
  have hguarded : ∀ s a u, StoredFillable s.orders →
      Guarded (fun t a => a.KeepsCommands t) PaperStep s a u → StoredFillable u.orders :=
    fun _ _ _ hinv hstep => hinv.step hstep.1 hstep.2
  have hempty : StoredFillable PaperTables.empty.orders := fun id row hrow => by
    simp [PaperTables.empty] at hrow
  have hfillable := hrun.invariant hguarded hempty
  have hread : Readable t :=
    hrun.unguard.invariant (fun _ _ _ hinv hstep => hinv.step hstep) .empty
  intro id row hrow hpending
  have hrowFillable := hfillable id row hrow hpending
  exact ⟨hrowFillable.inStep, fun _ _ _ =>
    hrowFillable.no_collision hrow hpending (hread.orders id row hrow)⟩

/-- An entry at 100 with a stop at 90. -/
def stoppedEntry : PaperOrder :=
  { entryOrder "e" .long 2 100 with
    stopLoss := some 90
    useStopLoss := some true
    payload := some ⟨false, some .absoluteStructure, none, some "config", none, []⟩ }

/-- The level update that leaves the stop where it is. -/
def stopLevel (level : ℚ) : PaperAct :=
  .updateLevels "pos-e" ⟨"AAPL", "route", some spotContract⟩ (some level) none none none 2

/-- The stop of a filled entry can be filled after a level update to its own level. -/
theorem stored_orders_fillable_stop :
    let t := (PaperTables.empty.perform (.apply stoppedEntry 1)).perform (stopLevel 90)
    ∃ row, t.orders.get? "stop-e" = some row ∧
      ∀ now, applyFilledPaperOrder t ((SavedOrder.mk "stop-e" row).filledOrder (some 90) none) now ≠
        .error ⟨"PAPER_ORDER_ID_COMMAND_COLLISION"⟩ := by
  intro t
  have hentry : (PaperTables.empty.perform (.apply stoppedEntry 1)).orders.entries.all
      (fun e => decide (e.2.role = .stop → e.2.entry = 90)) := by decide +kernel
  have hkeeps : (stopLevel 90).KeepsCommands (PaperTables.empty.perform (.apply stoppedEntry 1)) := by
    refine fun id row hrow => ⟨fun hp level hlevel => ?_, fun _ _ htarget => absurd htarget (by simp)⟩
    have hmem := List.all_eq_true.mp hentry _ (Dict.get?_eq_some_iff.mp hrow)
    rw [decide_eq_true_eq] at hmem
    exact (hmem (isLevelTarget_role hp)).trans (Option.some.inj hlevel)
  have hrun : Run (Guarded (fun t a => a.KeepsCommands t) PaperStep) .empty
      [.apply stoppedEntry 1, stopLevel 90] t :=
    .cons ⟨trivial, rfl⟩ (.cons ⟨hkeeps, rfl⟩ (.nil _))
  have hpending : (t.orders.get? "stop-e").map OrderRow.status = some .pending := by decide +kernel
  obtain ⟨row, hrow, hstatus⟩ := Option.map_eq_some_iff.mp hpending
  exact ⟨row, hrow, (stored_orders_fillable hrun "stop-e" row hrow hstatus).2 _ _⟩

/-- **A moved stop cannot be filled.** An entry with a stop at 90 is filled, the stop is moved to 95,
and then touched: the stored command still says 90, and the fill is refused. -/
theorem stored_orders_not_fillable :
    let t := (PaperTables.empty.perform (.apply stoppedEntry 1)).perform (stopLevel 95)
    ∃ row, t.orders.get? "stop-e" = some row ∧ row.status = .pending ∧
      paperOrderCommandPayload (SavedOrder.mk "stop-e" row).toOrder ≠
        .ok row.document.executionCommand ∧
      applyFilledPaperOrder t ((SavedOrder.mk "stop-e" row).filledOrder (some 95) (some 3)) 3 =
        .error ⟨"PAPER_ORDER_ID_COMMAND_COLLISION"⟩ := by
  intro t
  have hrow : ((t.orders.get? "stop-e").map fun row => (row.status, row.entry,
      row.document.executionCommand.entry,
      raised (applyFilledPaperOrder t
        ((SavedOrder.mk "stop-e" row).filledOrder (some 95) (some 3)) 3))) =
      some (.pending, 95, some 90, some ⟨"PAPER_ORDER_ID_COMMAND_COLLISION"⟩) := by
    decide +kernel
  obtain ⟨row, hget, hfacts⟩ := Option.map_eq_some_iff.mp hrow
  simp only [Prod.mk.injEq, raised_eq_some] at hfacts
  obtain ⟨hstatus, hentry, hcommand, hraise⟩ := hfacts
  refine ⟨row, hget, hstatus, fun hin => ?_, hraise⟩
  have hrole : row.role ≠ .close := by
    have hstop : (t.orders.get? "stop-e").map OrderRow.role = some .stop := by decide +kernel
    rw [hget] at hstop
    simp [Option.some.inj hstop]
  obtain ⟨hdraft, -⟩ := paperOrderCommandPayload_eq_ok.mp hin
  rw [hdraft, draftCommand_entry hrole, hentry] at hcommand
  exact absurd (Option.some.inj hcommand) (by decide)

end AefTerminal
