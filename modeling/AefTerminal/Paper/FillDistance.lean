import AefTerminal.Paper.Execution
import AefTerminal.Paper.Fillable
import AefTerminal.Paper.Positions

/-!
# Levels that move with the fill

An order that was placed with distances has its levels computed twice: when the snapshot fills it,
from the order, and when the journal admits the fill, from the document. The journal admits a
command other than the stored one only if the levels are where the distances put them.

Both compute the same level. A stop is a distance behind the fill and a target a distance ahead of
it, a level that is not enabled has no distance, and the order that is filled says the same of side
and flags as the command it is stored with. So for an order that is still stored with its own
commands the two agree at every price, provided it is no reduce-only order: these the journal does
not let move.

## Main definitions

* `SavedOrder.rebased`: the order with its levels at the fill
* `LevelNear`: equal up to the tolerance of the check
* `EntriesFillable`

## Main results

* `paperOrderAtFill_eq`: the levels that are computed at the fill
* `OrderRow.Fillable.allowed_iff`: the levels that the journal lets the fill move to
* `fill_distance_agreement`, `reduce_only_entry_refused`
-/

namespace AefTerminal

open Foundation

/-! ### One level -/

/-- How far from its place a level may be. -/
def levelTolerance (expected : ℚ) : ℚ := max paperTolerance (|expected| * (1 / 1000000000000))

/-- The level that is expected, up to the tolerance; none where none is expected. -/
def LevelNear (level expected : Option ℚ) : Prop :=
  match level, expected with
  | none, none => True
  | some level, some expected => |level - expected| ≤ levelTolerance expected
  | _, _ => False

theorem levelTolerance_nonneg (expected : ℚ) : 0 ≤ levelTolerance expected :=
  le_max_of_le_left paperTolerance_pos.le

theorem LevelNear.refl (level : Option ℚ) : LevelNear level level := by
  cases level with
  | none => trivial
  | some level =>
    show |level - level| ≤ levelTolerance level
    rw [sub_self, abs_zero]
    exact levelTolerance_nonneg level

/-- Where the distance puts a level. -/
def atDistance (points : Option ℚ) (fillPrice sign : ℚ) : Option ℚ :=
  points.map fun points => fillPrice + sign * points

section Level

variable {use : Bool} {points level : Option ℚ} {fillPrice sign : ℚ}

/-- The journal's check of one level. -/
theorem levelAtDistance_iff (h : PointsAgree use points) :
    levelAtDistance use level points fillPrice sign ↔
      LevelNear level (atDistance points fillPrice sign) := by
  cases use <;> cases points <;> cases level
  case true.none.none | true.none.some => exact h.elim
  case false.some.none | false.some.some => exact h.elim
  case false.none.none | false.none.some => simp [levelAtDistance, LevelNear, atDistance]
  case true.some.none => simp [levelAtDistance, LevelNear, atDistance]
  case true.some.some points level =>
    have hpos : 0 < points := h
    simp [levelAtDistance, LevelNear, atDistance, levelTolerance, hpos]

/-- The level that is computed for the fill. -/
theorem levelAt_eq (h : PointsAgree use points) :
    levelAt use points fillPrice sign = atDistance points fillPrice sign := by
  cases use <;> cases points
  case true.none | false.some => exact h.elim
  case false.none => rfl
  case true.some points =>
    have hpos : 0 < points := h
    simp [levelAt, atDistance, hpos]

theorem atDistance_isSome (h : PointsAgree use points) :
    (atDistance points fillPrice sign).isSome = use := by
  cases use <;> cases points
  case true.none | false.some => exact h.elim
  case false.none | true.some => rfl

theorem not_distanceMissing (h : PointsAgree use points) : ¬DistanceMissing use points := by
  cases use <;> cases points
  case true.none | false.some => exact h.elim
  case false.none => simp [DistanceMissing]
  case true.some points =>
    have hpos : 0 < points := h
    simp [DistanceMissing, hpos]

/-- What is disabled is computed as no level. -/
theorem ite_atDistance (h : PointsAgree use points) :
    (if use then atDistance points fillPrice sign else none) = atDistance points fillPrice sign := by
  cases use <;> cases points
  case true.none | false.some => exact h.elim
  case false.none | true.some => rfl

end Level

/-! ### The order at the fill -/

/-- The order with its levels where the distances put them from the fill. -/
def PaperOrder.rebased (o : PaperOrder) (side : PaperSide) (intent : PaperProtectionIntent)
    (fillPrice : ℚ) : PaperOrder :=
  { o with
    stopLoss := atDistance intent.stopPoints fillPrice (-side.sign)
    target := atDistance intent.targetPoints fillPrice side.sign }

/-- An order with distances from its fill. -/
structure PaperOrder.Distanced (o : PaperOrder) (side : PaperSide) (us ut : Bool)
    (payload : PaperOrderPayload) (intent : PaperProtectionIntent) : Prop where
  side_eq : o.side = some side
  useStopLoss_eq : o.useStopLoss = some us
  useTarget_eq : o.useTarget = some ut
  payload_eq : o.payload = some payload
  basis : payload.protectionBasis = some .fillDistance
  intent_eq : payload.protectionIntent = some intent
  protection : Protected us ut o.stopLoss o.target payload

section Distanced

variable {o : PaperOrder} {side : PaperSide} {us ut : Bool} {payload : PaperOrderPayload}
  {intent : PaperProtectionIntent}

theorem PaperOrder.Distanced.points (h : o.Distanced side us ut payload intent) :
    (us ∨ ut) ∧ PointsAgree us intent.stopPoints ∧ PointsAgree ut intent.targetPoints := by
  rcases h.protection.intent with ⟨habsolute, -⟩ | ⟨other, -, hother, hpoints⟩
  · exact absurd (h.basis.symm.trans habsolute) (by simp)
  · cases (h.intent_eq.symm.trans hother)
    exact hpoints

/-- The levels at the fill are as protected as those the order was placed with. -/
theorem PaperOrder.Distanced.rebased (h : o.Distanced side us ut payload intent) (fillPrice : ℚ) :
    (o.rebased side intent fillPrice).Distanced side us ut payload intent := by
  obtain ⟨hany, hstop, htarget⟩ := h.points
  exact ⟨h.side_eq, h.useStopLoss_eq, h.useTarget_eq, h.payload_eq, h.basis, h.intent_eq,
    h.protection.no_absoluteLevel, (atDistance_isSome hstop).symm, (atDistance_isSome htarget).symm,
    .inr ⟨intent, h.basis, h.intent_eq, hany, hstop, htarget⟩⟩

theorem PaperOrder.Distanced.protection_eq (h : o.Distanced side us ut payload intent) :
    o.protection = .ok payload :=
  PaperOrder.protection_eq_ok.mpr
    ⟨h.payload_eq, us, ut, h.useStopLoss_eq, h.useTarget_eq, h.protection⟩

/-- **The levels at the fill** are where the distances put them. -/
theorem paperOrderAtFill_eq (h : o.Distanced side us ut payload intent) (fillPrice : ℚ) :
    paperOrderAtFill o fillPrice = .ok (o.rebased side intent fillPrice) := by
  obtain ⟨hany, hstop, htarget⟩ := h.points
  have hflags : flagSet o.useStopLoss = us ∧ flagSet o.useTarget = ut := by
    rw [h.useStopLoss_eq, h.useTarget_eq]
    exact ⟨by simp [flagSet], by simp [flagSet]⟩
  have hlevels : paperManualProtectiveLevels
      ⟨some fillPrice, o.side, intent.stopPoints, intent.targetPoints, some us, some ut, none,
        none⟩ =
      some ⟨atDistance intent.stopPoints fillPrice (-side.sign),
        atDistance intent.targetPoints fillPrice side.sign⟩ := by
    simp only [paperManualProtectiveLevels, h.side_eq, Option.getD_some, levelAt_eq hstop,
      levelAt_eq htarget]
    simp [hany]
  refine bind_eq_ok.mpr ⟨payload, h.protection_eq, ?_⟩
  rw [if_neg (by simp [h.basis])]
  simp only [hflags.1, hflags.2, h.intent_eq, Option.bind_some]
  rw [if_neg (not_or.mpr ⟨not_distanceMissing hstop, not_distanceMissing htarget⟩), hlevels]
  simp only [ite_atDistance hstop, ite_atDistance htarget, ← h.useStopLoss_eq, ← h.useTarget_eq]
  rfl

end Distanced

/-! ### The fill of a stored order -/

section Stored

variable {id : String} {row : OrderRow} {intent : PaperProtectionIntent} {fillPrice : ℚ}
  {filledAt now : Time}

/-- A stored order with distances. -/
structure OrderRow.Distanced (id : String) (row : OrderRow) (intent : PaperProtectionIntent) :
    Prop where
  decodes : row.Decodes id
  fillable : row.Fillable id
  role : row.role = .entry
  basis : row.document.payload.protectionBasis = some .fillDistance
  intent_eq : row.document.payload.protectionIntent = some intent

theorem OrderRow.Distanced.toOrder (h : row.Distanced id intent) :
    (SavedOrder.mk id row).toOrder.Distanced row.side row.useStopLoss row.useTarget
      row.document.payload intent :=
  ⟨rfl, rfl, rfl, rfl, h.basis, h.intent_eq, h.decodes.protection⟩

/-- The order that the snapshot fills. -/
def OrderRow.rebasedFill (row : OrderRow) (id : String) (intent : PaperProtectionIntent)
    (fillPrice : ℚ) (filledAt : Time) : PaperOrder :=
  markOrderFilled ((SavedOrder.mk id row).toOrder.rebased row.side intent fillPrice) filledAt
    fillPrice

/-- The stored command with other levels. -/
def PaperCommand.withLevels (c : PaperCommand) (stopLoss target : Option ℚ) : PaperCommand :=
  { c with stopLoss, target }

@[simp] theorem PaperCommand.withLevels_withoutLevels (c : PaperCommand)
    (stopLoss target : Option ℚ) : (c.withLevels stopLoss target).withoutLevels = c.withoutLevels :=
  rfl

/-- The command of the fill is the stored one but for the levels. -/
theorem OrderRow.Distanced.command (h : row.Distanced id intent) :
    paperOrderCommandPayload (row.rebasedFill id intent fillPrice filledAt) =
      .ok (row.document.executionCommand.withLevels
        (atDistance intent.stopPoints fillPrice (-row.side.sign))
        (atDistance intent.targetPoints fillPrice row.side.sign)) := by
  obtain ⟨hdraft, hcontract, hprovider, hexit, haccepted⟩ :=
    paperOrderCommandPayload_eq_ok.mp h.fillable.inStep
  have hflags : row.document.executionCommand.useStopLoss = row.useStopLoss ∧
      row.document.executionCommand.useTarget = row.useTarget ∧
      row.document.executionCommand.payload = row.document.payload.withoutExecutionConfig := by
    rw [hdraft]
    exact ⟨rfl, rfl, rfl⟩
  have hprotected := (h.toOrder.rebased fillPrice).protection.withoutExecutionConfig
  rw [← hflags.1, ← hflags.2.1, ← hflags.2.2] at hprotected
  refine paperOrderCommandPayload_eq_ok.mpr ⟨?_, hcontract, hprovider, hexit,
    haccepted.id_ne, haccepted.instrumentId_ne, haccepted.routeFingerprint_ne,
    haccepted.provider_eq, haccepted.providerContractId_eq, ?_, haccepted.positionId_isSome,
    hprotected⟩
  · show _ = ((SavedOrder.mk id row).toOrder.draftCommand
      row.document.executionCommand.paperContract).withLevels _ _
    rw [← hdraft]
    rfl
  · exact ⟨haccepted.wellFormed.symbol_ne, haccepted.wellFormed.provider_ne,
      haccepted.wellFormed.timeframe_ne, haccepted.wellFormed.shape⟩

/-- A filled order makes a fill command of its own copies. -/
theorem paperFillCommand_eq_ok {o : PaperOrder} {command create : PaperCommand}
    {payload : PaperOrderPayload} (hcommand : paperOrderCommandPayload o = .ok command)
    (hpayload : o.protection = .ok payload) (hprice : o.fillPrice = some fillPrice)
    (hcreate : o.createCommandOr command = .ok create) :
    ∃ f, paperFillCommand o now = .ok f ∧ f.command = command ∧ f.protectionPayload = payload ∧
      f.price = fillPrice ∧ f.createCommand = create := by
  unfold paperFillCommand
  rw [hcommand, hpayload, hprice]
  exact ⟨_, bind_eq_ok.mpr ⟨_, rfl, bind_eq_ok.mpr ⟨_, rfl, bind_eq_ok.mpr ⟨_, hcreate, rfl⟩⟩⟩,
    rfl, rfl, rfl, rfl⟩

/-- **The fill that the snapshot makes** is a fill command, at the price of the snapshot. -/
theorem OrderRow.Distanced.fillCommand (h : row.Distanced id intent) :
    ∀ fillPrice filledAt now, ∃ f,
      paperFillCommand (row.rebasedFill id intent fillPrice filledAt) now = .ok f ∧
      f.command = row.document.executionCommand.withLevels
        (atDistance intent.stopPoints fillPrice (-row.side.sign))
        (atDistance intent.targetPoints fillPrice row.side.sign) ∧
      f.protectionPayload = row.document.payload ∧ f.price = fillPrice ∧
      f.createCommand = row.document.createCommand := fun fillPrice _ _ =>
  paperFillCommand_eq_ok h.command (h.toOrder.rebased fillPrice).protection_eq rfl
    h.fillable.createCanonical

/-- What the check asks of a fill: the stored commands but for the levels, the stored distances,
and each level where its distance puts it. -/
structure PaperFillCommand.MovesLevels (f : PaperFillCommand) (row : OrderRow)
    (intent : PaperProtectionIntent) : Prop where
  createCommand : row.document.createCommand = f.createCommand
  signature : row.document.payload.protectionSignature = f.protectionPayload.protectionSignature
  reduceOnly : row.reduceOnly = false
  command : row.document.executionCommand.withoutLevels = f.command.withoutLevels
  stop : LevelNear f.command.stopLoss (atDistance intent.stopPoints f.price (-row.side.sign))
  target : LevelNear f.command.target (atDistance intent.targetPoints f.price row.side.sign)

/-- **The levels that the journal lets a fill move to** are those within the tolerance of the
places of the distances. -/
theorem OrderRow.Distanced.allowed_iff (h : row.Distanced id intent) (f : PaperFillCommand) :
    paperFillDistanceExecutionUpdateAllowed row.document f ↔ f.MovesLevels row intent := by
  obtain ⟨hany, hstop, htarget⟩ := h.toOrder.points
  obtain ⟨hdraft, -⟩ := paperOrderCommandPayload_eq_ok.mp h.fillable.inStep
  have hmanual : (SavedOrder.mk id row).toOrder.manualClose = false := by
    simp [PaperOrder.manualClose, PaperOrder.roleOrEntry, SavedOrder.toOrder, h.role]
  have hstored : row.document.executionCommand.role = .entry ∧
      row.document.executionCommand.reduceOnly = row.reduceOnly ∧
      row.document.executionCommand.useStopLoss = row.useStopLoss ∧
      row.document.executionCommand.useTarget = row.useTarget ∧
      row.document.executionCommand.side = some row.side := by
    rw [hdraft]
    refine ⟨h.role, rfl, rfl, rfl, ?_⟩
    simp only [PaperOrder.draftCommand, hmanual]
    rfl
  obtain ⟨hrole, hreduce, huseStop, huseTarget, hside⟩ := hstored
  -- what the fill says of side and flags is what is stored
  have hsame : row.document.executionCommand.withoutLevels = f.command.withoutLevels →
      f.command.useStopLoss = row.useStopLoss ∧ f.command.useTarget = row.useTarget ∧
        f.command.side = some row.side := by
    intro hcommand
    refine ⟨?_, ?_, ?_⟩
    · exact (congrArg PaperCommand.useStopLoss hcommand).symm.trans huseStop
    · exact (congrArg PaperCommand.useTarget hcommand).symm.trans huseTarget
    · exact (congrArg PaperCommand.side hcommand).symm.trans hside
  constructor
  · intro hallowed
    simp only [paperFillDistanceExecutionUpdateAllowed, Bool.and_eq_true, decide_eq_true_eq,
      h.intent_eq] at hallowed
    obtain ⟨⟨⟨⟨⟨hcreate, hsignature⟩, -⟩, hnot⟩, hcommand⟩, hlevels⟩ := hallowed
    obtain ⟨hfStop, hfTarget, hfSide⟩ := hsame hcommand
    rw [hfSide, hfStop, hfTarget] at hlevels
    obtain ⟨hnearStop, hnearTarget⟩ := Bool.and_eq_true_iff.mp hlevels
    have hfixed : row.reduceOnly = false := by
      rw [← hreduce]
      simpa using hnot
    exact ⟨hcreate, hsignature, hfixed, hcommand, (levelAtDistance_iff hstop).mp hnearStop,
      (levelAtDistance_iff htarget).mp hnearTarget⟩
  · intro hmoves
    obtain ⟨hfStop, hfTarget, hfSide⟩ := hsame hmoves.command
    have hnearStop := (levelAtDistance_iff hstop).mpr hmoves.stop
    have hnearTarget := (levelAtDistance_iff htarget).mpr hmoves.target
    rw [← hfStop] at hnearStop
    rw [← hfTarget] at hnearTarget
    simp only [paperFillDistanceExecutionUpdateAllowed, Bool.and_eq_true, decide_eq_true_eq,
      h.intent_eq, hfSide]
    refine ⟨⟨⟨⟨⟨hmoves.createCommand, hmoves.signature⟩, hrole⟩, ?_⟩, hmoves.command⟩,
      hnearStop, hnearTarget⟩
    rw [hreduce, hmoves.reduceOnly]
    rfl

end Stored

/-! ### Runs -/

/-- The pending entries are stored with their own commands. -/
def EntriesFillable (orders : Dict String OrderRow) : Prop :=
  ∀ id row, orders.get? id = some row → row.status = .pending → row.role = .entry →
    row.Fillable id

namespace EntriesFillable

variable {t t' : PaperTables} {orders : Dict String OrderRow}

/-- The level statements write to stops and takes. -/
theorem updateLevel {filter : PaperScopeFilter} {positionId parentKey sourceKey : String}
    {role : PaperRole} {level : Option ℚ} {now : Time} {trail : Bool} (h : EntriesFillable orders)
    (hrole : role ≠ .entry) :
    EntriesFillable (updateLevel orders
      (fun _ row => isLevelTarget filter positionId parentKey sourceKey role row) level now
      trail).2 := by
  intro id row' hrow' hpending hentry
  obtain ⟨row, hrow, rfl | ⟨l, hp, -, rfl⟩⟩ := updateLevel_from hrow'
  · exact h id _ hrow hpending hentry
  · exact absurd ((isLevelTarget_role hp).symm.trans hentry) hrole

/-- **Every call** whose pending updates restate their rows leaves the entries fillable. -/
theorem step {a : PaperAct} (h : EntriesFillable t.orders) (hrestates : a.RestatesRow t)
    (hstep : PaperStep t a t') : EntriesFillable t'.orders :=
  FillableWhere.step (P := (· = .entry)) h hrestates
    (fun _ _ _ _ _ _ _ _ => (h.updateLevel (by simp)).updateLevel (by simp)) hstep

end EntriesFillable

/-- Both levels of a fill are, up to the tolerance, those of the order. -/
def PaperFillCommand.LevelsNear (f : PaperFillCommand) (o : PaperOrder) : Prop :=
  LevelNear f.command.stopLoss o.stopLoss ∧ LevelNear f.command.target o.target

/-- **Fill-distance agreement of the two layers.** In every journal whose pending updates restated
their rows, a pending entry that carries distances and is not reduce-only has its levels computed at
every fill price. The check accepts the fill with these levels, which is not refused as a command
collision; and it accepts no fill at that price whose levels differ from them by more than the
tolerance. -/
theorem fill_distance_agreement {as : List PaperAct} {t : PaperTables} {id : String}
    {row : OrderRow}
    (hrun : Run (Guarded (fun t a => a.RestatesRow t) PaperStep) .empty as t)
    (hrow : t.orders.get? id = some row) (hpending : row.status = .pending)
    (hrole : row.role = .entry) (hreduce : row.reduceOnly = false)
    (hbasis : row.document.payload.protectionBasis = some .fillDistance) (fillPrice : ℚ) :
    ∃ ready, paperOrderAtFill (SavedOrder.mk id row).toOrder fillPrice = .ok ready ∧
      (∀ filledAt now, ∃ f,
        paperFillCommand (markOrderFilled ready filledAt fillPrice) now = .ok f ∧
        paperFillDistanceExecutionUpdateAllowed row.document f ∧
        applyFilledPaperOrder t (markOrderFilled ready filledAt fillPrice) now ≠
          .error commandCollision) ∧
      ∀ f, f.price = fillPrice → ¬f.LevelsNear ready →
        paperFillDistanceExecutionUpdateAllowed row.document f = false := by
  have hguarded : ∀ s a u, EntriesFillable s.orders →
      Guarded (fun t a => a.RestatesRow t) PaperStep s a u → EntriesFillable u.orders :=
    fun _ _ _ hinv hstep => hinv.step hstep.1 hstep.2
  have hempty : EntriesFillable PaperTables.empty.orders := fun id row hrow => by
    simp [PaperTables.empty] at hrow
  have hfillable := hrun.invariant hguarded hempty id row hrow hpending hrole
  have hread : Readable t :=
    hrun.unguard.invariant (fun _ _ _ hinv hstep => hinv.step hstep) .empty
  have hdecodes := hread.orders id row hrow
  obtain ⟨intent, hintent⟩ : ∃ intent, row.document.payload.protectionIntent = some intent := by
    rcases hdecodes.protection.intent with ⟨habsolute, -⟩ | ⟨intent, -, hintent, -⟩
    · exact absurd (hbasis.symm.trans habsolute) (by simp)
    · exact ⟨intent, hintent⟩
  have hdistanced : row.Distanced id intent := ⟨hdecodes, hfillable, hrole, hbasis, hintent⟩
  refine ⟨_, paperOrderAtFill_eq hdistanced.toOrder fillPrice, fun filledAt now => ?_,
    fun f hprice hfar => ?_⟩
  · obtain ⟨f, hf, hcommand, hpayload, hprice, hcreate⟩ :=
      hdistanced.fillCommand fillPrice filledAt now
    have hallowed : paperFillDistanceExecutionUpdateAllowed row.document f := by
      refine (hdistanced.allowed_iff f).mpr ⟨hcreate.symm, by rw [hpayload], hreduce, ?_, ?_, ?_⟩
      · rw [hcommand, PaperCommand.withLevels_withoutLevels]
      · rw [hcommand, hprice]
        exact LevelNear.refl _
      · rw [hcommand, hprice]
        exact LevelNear.refl _
    refine ⟨f, hf, hallowed, applyFilledPaperOrder_avoids fun g hg => ?_⟩
    cases (hf.symm.trans hg)
    have hstored : f.orderId = id ∧
        row.document.identity.instrumentId = f.command.instrumentId ∧
        row.document.identity.routeFingerprint = f.command.routeFingerprint := by
      obtain ⟨hdraft, -⟩ := paperOrderCommandPayload_eq_ok.mp hfillable.inStep
      rw [PaperFillCommand.orderId, hcommand, hdraft]
      exact ⟨rfl, rfl, rfl⟩
    obtain ⟨rfl, hroute⟩ := hstored
    rw [reservePaperFillOrder_admitted hrow hpending hdecodes hroute hcreate.symm (.inr hallowed)]
    exact .ok
  · by_contra hallowed
    rw [Bool.not_eq_false] at hallowed
    have hmoves := (hdistanced.allowed_iff f).mp hallowed
    refine hfar ⟨?_, ?_⟩
    · have hstop := hmoves.stop
      rwa [hprice] at hstop
    · have htarget := hmoves.target
      rwa [hprice] at htarget

/-- An entry at 100 with a stop 5 behind the fill and a target 10 ahead of it. -/
def distancedEntry : PaperOrder :=
  { entryOrder "e" .long 2 100 with
    orderType := .limit
    stopLoss := some 95
    target := some 110
    useStopLoss := some true
    useTarget := some true
    payload := some ⟨false, some .fillDistance, some ⟨some 5, some 10⟩, some "config", none, []⟩ }

/-- The entry is filled at 99, with its levels at 94 and 109. -/
theorem fill_distance_agreement_at_99 :
    ∃ row, (PaperTables.empty.perform (.upsert distancedEntry 1)).orders.get? "e" = some row ∧
      ∃ ready, paperOrderAtFill (SavedOrder.mk "e" row).toOrder 99 = .ok ready ∧
        (∀ filledAt now, ∃ f, paperFillCommand (markOrderFilled ready filledAt 99) now = .ok f ∧
          paperFillDistanceExecutionUpdateAllowed row.document f ∧
          applyFilledPaperOrder (PaperTables.empty.perform (.upsert distancedEntry 1))
            (markOrderFilled ready filledAt 99) now ≠ .error commandCollision) ∧
        ∀ f, f.price = 99 → ¬f.LevelsNear ready →
          paperFillDistanceExecutionUpdateAllowed row.document f = false := by
  have hfacts : ((PaperTables.empty.perform (.upsert distancedEntry 1)).orders.get? "e").map
      (fun row => (row.status, row.role, row.reduceOnly, row.document.payload.protectionBasis)) =
      some (.pending, .entry, false, some .fillDistance) := by decide +kernel
  obtain ⟨row, hrow, hrowFacts⟩ := Option.map_eq_some_iff.mp hfacts
  simp only [Prod.mk.injEq] at hrowFacts
  obtain ⟨hpending, hrole, hreduce, hbasis⟩ := hrowFacts
  have hrun : Run (Guarded (fun t a => a.RestatesRow t) PaperStep) .empty
      [.upsert distancedEntry 1] (PaperTables.empty.perform (.upsert distancedEntry 1)) :=
    .cons ⟨trivial, rfl⟩ (.nil _)
  exact ⟨row, hrow, fill_distance_agreement hrun hrow hpending hrole hreduce hbasis 99⟩

/-- The same entry, placed as a reduce-only order of a position. -/
def reduceOnlyEntry : PaperOrder :=
  { distancedEntry with reduceOnly := some true, positionId := some "pos-x" }

/-- **A reduce-only entry is refused.** Its levels are moved to the fill at 99, and the journal
takes the move for another command. -/
theorem reduce_only_entry_refused :
    let t := PaperTables.empty.perform (.upsert reduceOnlyEntry 1)
    ∃ row ready, t.orders.get? "e" = some row ∧ row.status = .pending ∧ row.role = .entry ∧
      row.document.payload.protectionBasis = some .fillDistance ∧
      paperOrderAtFill (SavedOrder.mk "e" row).toOrder 99 = .ok ready ∧
      applyFilledPaperOrder t (markOrderFilled ready 2 99) 2 = .error commandCollision := by
  intro t
  have hfacts : (t.orders.get? "e").map
      (fun row => (row.status, row.role, row.document.payload.protectionBasis,
        (paperOrderAtFill (SavedOrder.mk "e" row).toOrder 99).toOption.map fun ready =>
          raised (applyFilledPaperOrder t (markOrderFilled ready 2 99) 2))) =
      some (.pending, .entry, some .fillDistance, some (some commandCollision)) := by
    decide +kernel
  obtain ⟨row, hrow, hrowFacts⟩ := Option.map_eq_some_iff.mp hfacts
  simp only [Prod.mk.injEq] at hrowFacts
  obtain ⟨hpending, hrole, hbasis, hraised⟩ := hrowFacts
  cases hready : paperOrderAtFill (SavedOrder.mk "e" row).toOrder 99 with
  | error e =>
    rw [hready] at hraised
    exact absurd hraised (by simp [Except.toOption])
  | ok ready =>
    rw [hready] at hraised
    exact ⟨row, ready, hrow, hpending, hrole, hbasis, hready,
      raised_eq_some.mp (Option.some.inj hraised)⟩

end AefTerminal
