import AefTerminal.Paper.Fillable
import AefTerminal.Paper.Protection
import Mathlib.Algebra.Order.Ring.Abs

/-!
# Protective orders never cover more than the position

What the protective orders of a position cover stays within what the position holds, over every run
in which protective orders are created by entries only. An entry that adds to a position creates
orders for what it adds; every fill brings the orders of the position in line with what it holds
now; no other call creates a protective order or lets one grow.

Of a closed position nothing is left: its orders are cancelled in the transaction that closes it,
and none is created for it later.

## Main definitions

* `protectiveOrders`, `protectiveKeys`, `coveredQty`: the measure
* `ProtectionInv`

## Main results

* `createPaperFillProtectiveOrders_adds`: what the orders of an entry cover
* `PositionMove.protection`: what the orders may cover after each move
* `ProtectionInv.step`, `protection_covered`
-/

namespace AefTerminal

open Foundation

def PositionRow.scope (row : PositionRow) : PaperScope := row.document.identity.scope

/-! ### The orders of an entry -/

/-- The group of the orders an entry creates. -/
def PaperFillCommand.childGroup (f : PaperFillCommand) : String :=
  textOr f.order.ocoGroupId ("oco-" ++ f.orderId)

theorem textOr_ne {text : Option String} {default : String} (h : default ≠ "") :
    textOr text default ≠ "" := by
  unfold textOr
  split
  · exact h
  · split
    · exact h
    · assumption

theorem PaperFillCommand.childGroup_ne (f : PaperFillCommand) : f.childGroup ≠ "" :=
  textOr_ne (by simp)

/-- `orders'` has the protective orders of `orders`, and orders of the fill's group for its
position, each of this quantity. -/
def AddsChildren (f : PaperFillCommand) (tr : PaperPositionTransition) (qty : ℚ)
    (orders orders' : Dict String OrderRow) : Prop :=
  ∀ positionId o, Protects orders' positionId o → Protects orders positionId o ∨
    (positionId = tr.positionId ∧ o.row.scope = f.scope ∧ o.groupKey = f.childGroup ∧
      |o.row.qty| ≤ |qty|)

variable {f : PaperFillCommand} {tr : PaperPositionTransition}

theorem createProtectiveChild_adds {qty : ℚ} {side : PaperSide} {orders : Dict String OrderRow}
    {s s' : List SavedOrder × PaperTables} {spec : PaperRole × PaperOrderType × ℚ}
    (hs : AddsChildren f tr qty orders s.2.orders)
    (h : createProtectiveChild f tr qty side f.childGroup s spec = .ok s') :
    AddsChildren f tr qty orders s'.2.orders := by
  unfold createProtectiveChild at h
  obtain ⟨intent, hintent, h⟩ := bind_eq_ok.mp h
  obtain ⟨command, hcommand, h⟩ := bind_eq_ok.mp h
  split at h
  · exact absurd h (by simp)
  dsimp only at h
  obtain ⟨saved, -, h⟩ := bind_eq_ok.mp h
  obtain rfl := pure_eq_ok.mp h
  obtain ⟨hdraft, -⟩ := paperOrderCommandPayload_eq_ok.mp hcommand
  unfold paperProtectiveChildIntent at hintent
  split at hintent
  · exact absurd hintent (by simp)
  cases hintent
  rintro positionId ⟨id, row⟩ ho
  have hstored := ho.stored
  dsimp only at hstored
  rw [Dict.get?_insert] at hstored
  split at hstored
  · cases hstored
    have hposition : command.positionId = optionalId (some tr.positionId) := by rw [hdraft]; rfl
    have hoco : command.ocoGroupId = optionalId (some f.childGroup) := by rw [hdraft]; rfl
    have hposition' : command.positionId = some positionId := ho.position_eq
    refine .inr ⟨?_, rfl, ?_, le_rfl⟩
    · rw [hposition] at hposition'
      by_cases hne : tr.positionId = ""
      · simp [optionalId, hne] at hposition'
      · simpa [optionalId, hne] using hposition'.symm
    · have hgroup : command.ocoGroupId = some f.childGroup := by
        rw [hoco]
        simp [optionalId, f.childGroup_ne]
      simp [SavedOrder.groupKey, pendingRow, hgroup, f.childGroup_ne]
  · exact hs positionId ⟨id, row⟩ ⟨hstored, ho.position_eq, ho.reduceOnly, ho.pending⟩

variable {t : PaperTables}

/-- Nothing is created, or orders for the quantity that was computed. -/
theorem createPaperFillProtectiveOrders_adds {t' : PaperTables}
    {current : SavedPosition} {reversed : Bool} {created : List SavedOrder}
    (h : createPaperFillProtectiveOrders t f tr current reversed = .ok (created, t')) :
    t' = t ∨ ∃ qty, fillProtectiveQty f tr current reversed = .ok (some qty) ∧
      AddsChildren f tr qty t.orders t'.orders := by
  unfold createPaperFillProtectiveOrders at h
  obtain ⟨protectiveQty, hqty, h⟩ := bind_eq_ok.mp h
  split at h
  · obtain ⟨-, rfl⟩ := Prod.mk.inj (pure_eq_ok.mp h)
    exact .inl rfl
  · rename_i qty
    refine .inr ⟨qty, hqty, ?_⟩
    exact foldlM_induct (P := fun s : List SavedOrder × PaperTables =>
      AddsChildren f tr qty t.orders s.2.orders)
      (fun _ _ _ _ hs hstep => createProtectiveChild_adds hs hstep) (fun _ _ ho => .inl ho) h

/-! ### The invariant -/

/-- Every protective order is for a position of its scope, those of an open position cover no more
than it holds, and a closed one has none. -/
structure ProtectionInv (t : PaperTables) : Prop where
  attached : ∀ positionId o, Protects t.orders positionId o →
    ∃ row, t.positions.get? positionId = some row ∧ o.row.scope = row.scope
  covered : ∀ positionId row, t.positions.get? positionId = some row → row.status = .open →
    ProtectionCovered t.orders positionId |row.qty|
  cleared : ∀ positionId row, t.positions.get? positionId = some row → row.status = .closed →
    ∀ o, ¬ Protects t.orders positionId o

namespace ProtectionInv

variable {t t' : PaperTables}

theorem empty : ProtectionInv .empty :=
  ⟨fun _ _ h => absurd h.stored (by simp [PaperTables.empty]),
    fun _ _ h => absurd h (by simp [PaperTables.empty]),
    fun _ _ h => absurd h (by simp [PaperTables.empty])⟩

theorem shrinks (h : ProtectionInv t) (hpositions : t'.positions = t.positions)
    (hshrinks : Shrinks t.orders t'.orders) : ProtectionInv t' := by
  refine ⟨fun positionId o ho => ?_, fun positionId row hrow hopen => ?_,
    fun positionId row hrow hclosed => ?_⟩
  · obtain ⟨⟨row, hprotects, hscope⟩, -⟩ := hshrinks positionId o ho
    obtain ⟨position, hposition, hscope'⟩ := h.attached positionId _ hprotects
    exact ⟨position, hpositions ▸ hposition, hscope.trans hscope'⟩
  · exact hshrinks.covered (h.covered positionId row (hpositions ▸ hrow) hopen)
  · exact hshrinks.none (h.cleared positionId row (hpositions ▸ hrow) hclosed)

end ProtectionInv

/-! ### Moves -/

/-- What protects a position that does not exist: nothing. -/
theorem ProtectionInv.not_protects (h : ProtectionInv t) {id : String}
    (hid : id ∉ t.positions.keys) (o : SavedOrder) : ¬ Protects t.orders id o := fun ho => by
  obtain ⟨row, hrow, -⟩ := h.attached id o ho
  exact hid (Dict.mem_keys_of_get? hrow)

/-- What an order for the locked position has for a scope. -/
theorem ProtectionInv.scope_of_locked {p : SavedPosition}
    (h : ProtectionInv t) (hp : Locked t f p) (o : SavedOrder) (ho : Protects t.orders p.id o) :
    o.row.scope = f.scope := by
  obtain ⟨row, hrow, hscope⟩ := h.attached p.id o ho
  cases (hp.stored.symm.trans hrow)
  exact hscope.trans hp.scope_eq

/-- What a move leaves to the protective orders. -/
structure MoveProtection (t : PaperTables) (f : PaperFillCommand) (tr : PaperPositionTransition)
    (positions : Dict String PositionRow) : Prop where
  /-- Orders for the position of the fill, and for one it closed, are of its scope. -/
  scope : ∀ o, Protects t.orders tr.positionId o → o.row.scope = f.scope
  scope_closed : ∀ p, tr.closedPosition = some p → p.id ≠ tr.positionId ∧
    (∀ row, positions.get? p.id = some row → row.status = .closed) ∧
    ∀ o, Protects t.orders p.id o → o.row.scope = f.scope
  /-- Every other position is as it was. -/
  frame : ∀ id row, positions.get? id = some row → id ≠ tr.positionId →
    (∀ p, tr.closedPosition = some p → id ≠ p.id) → t.positions.get? id = some row
  /-- What the orders of an entry are for fits in beside the orders there are. -/
  budget : ∀ current reversed qty, positions.get? tr.positionId = some current.row →
    reversed = tr.closedPosition.isSome →
    fillProtectiveQty f tr current reversed = .ok (some qty) →
    ∃ budget, ProtectionCovered t.orders tr.positionId budget ∧ budget + |qty| ≤ |current.row.qty|

theorem fillProtectiveQty_eq_some {current : SavedPosition} {reversed : Bool} {qty : ℚ}
    (h : fillProtectiveQty f tr current reversed = .ok (some qty)) : current.row.status = .open ∧
      ((reversed = true ∧ qty = |current.row.qty|) ∨
        (reversed = false ∧ (|tr.previousQty| ≤ paperTolerance ∨ 0 < tr.previousQty * tr.signedDelta) ∧
          qty = |tr.signedDelta|)) := by
  unfold fillProtectiveQty at h
  split at h
  · rename_i hentry
    refine ⟨hentry.1, ?_⟩
    unfold paperEntryProtectiveQty at h
    split at h
    · rename_i hreversed
      split at h
      · exact absurd h (by simp)
      · exact .inl ⟨hreversed, (Option.some.inj (Except.ok.inj h)).symm⟩
    · rename_i hkept
      split at h
      · rename_i hadds
        split at h
        · exact absurd h (by simp)
        · exact .inr ⟨by simpa using hkept, hadds, (Option.some.inj (Except.ok.inj h)).symm⟩
      · exact absurd h (by simp)
  · exact absurd h (by simp)

theorem PositionMove.protection {position : Option SavedPosition}
    {positions : Dict String PositionRow} (hinv : ProtectionInv t)
    (hlocked : lockedPaperFillPosition t f = .ok position)
    (h : PositionMove f t.positions position tr positions) :
    MoveProtection t f tr positions := by
  cases h with
  | @opened qty delta side hdelta hvalid hnew =>
    have hnone := hinv.not_protects hnew
    refine ⟨fun o ho => absurd ho (hnone o), fun p hp => absurd hp (by simp), fun id row hrow hid _ => ?_,
      fun current reversed q hcurrent hreversed hq => ⟨0, .of_none hnone le_rfl, ?_⟩⟩
    · rwa [Dict.get?_insert_of_ne _ hid] at hrow
    · rw [Dict.get?_insert_self] at hcurrent
      rw [← Option.some.inj hcurrent]
      obtain ⟨-, ⟨htrue, -⟩ | ⟨-, -, rfl⟩⟩ := fillProtectiveQty_eq_some hq
      · exact absurd (hreversed.symm.trans htrue) (by simp)
      · show 0 + |(|delta|)| ≤ |0 + delta|
        rw [abs_abs, zero_add, zero_add]
  | @increased p qty delta side hdelta hsame =>
    have hp := lockedPaperFillPosition_some hlocked
    refine ⟨hinv.scope_of_locked hp, fun p hp => absurd hp (by simp), fun id row hrow hid _ => ?_,
      fun current reversed q hcurrent hreversed hq =>
        ⟨|p.row.qty|, hinv.covered p.id p.row hp.stored hp.isOpen, ?_⟩⟩
    · rwa [Dict.get?_insert_of_ne _ hid] at hrow
    · rw [Dict.get?_insert_self] at hcurrent
      rw [← Option.some.inj hcurrent]
      obtain ⟨-, ⟨htrue, -⟩ | ⟨-, -, rfl⟩⟩ := fillProtectiveQty_eq_some hq
      · exact absurd (hreversed.symm.trans htrue) (by simp)
      · show |p.row.qty| + |(|delta|)| ≤ |p.row.qty + delta|
        rw [abs_abs]
        refine (abs_add_eq_add_abs_iff _ _).mpr ?_ |>.ge
        rcases hsame with hzero | hpos
        · rw [hzero]
          exact (le_total 0 delta).imp (fun h => ⟨le_rfl, h⟩) fun h => ⟨le_rfl, h⟩
        · exact (mul_pos_iff.mp hpos).imp (fun h => ⟨h.1.le, h.2.le⟩) fun h => ⟨h.1.le, h.2.le⟩
  | @reduced p qty delta side hdelta hagainst hleft hsign =>
    have hp := lockedPaperFillPosition_some hlocked
    refine ⟨hinv.scope_of_locked hp, fun p hp => absurd hp (by simp), fun id row hrow hid _ => ?_,
      fun current reversed q hcurrent hreversed hq => ?_⟩
    · rwa [Dict.get?_insert_of_ne _ hid] at hrow
    · -- what is taken from a position gets no orders
      obtain ⟨-, ⟨htrue, -⟩ | ⟨-, hadds, -⟩⟩ := fillProtectiveQty_eq_some hq
      · exact absurd (hreversed.symm.trans htrue) (by simp)
      · have hle : |p.row.qty + delta| ≤ |p.row.qty| := by
          refine sq_le_sq.mp ?_
          nlinarith
        rcases hadds with hsmall | hpos
        · exact absurd hleft (not_lt.mpr (hle.trans hsmall))
        · exact absurd hagainst (not_le.mpr hpos)
  | @closed p qty delta side hdelta hne hagainst hleft =>
    have hp := lockedPaperFillPosition_some hlocked
    refine ⟨hinv.scope_of_locked hp, fun p hp => absurd hp (by simp), fun id row hrow hid _ => ?_,
      fun current reversed q hcurrent hreversed hq => ?_⟩
    · rwa [Dict.get?_insert_of_ne _ hid] at hrow
    · rw [Dict.get?_insert_self] at hcurrent
      have hopen := (fillProtectiveQty_eq_some hq).1
      rw [← Option.some.inj hcurrent] at hopen
      exact absurd hopen (by simp [PositionRow.closedBy])
  | @reversed p qty delta side hdelta hne hagainst hleft hsign hvalid hnew =>
    have hp := lockedPaperFillPosition_some hlocked
    have hold : reversalPositionId f ∉ t.positions.keys := fun hmem =>
      hnew (Dict.mem_keys_insert.mpr (.inr hmem))
    have hnone := hinv.not_protects hold
    have hpid : p.id ≠ reversalPositionId f := fun heq =>
      hold (heq ▸ Dict.mem_keys_of_get? hp.stored)
    refine ⟨fun o ho => absurd ho (hnone o), fun p' hp' => ?_, fun id row hrow hid hother => ?_,
      fun current reversed q hcurrent hreversed hq => ⟨0, .of_none hnone le_rfl, ?_⟩⟩
    · cases hp'
      refine ⟨hpid, fun row hrow => ?_, hinv.scope_of_locked hp⟩
      rw [Dict.get?_insert_of_ne _ hpid, Dict.get?_insert_self] at hrow
      rw [← Option.some.inj hrow]
      rfl
    · rwa [Dict.get?_insert_of_ne _ hid, Dict.get?_insert_of_ne _ (hother p rfl)] at hrow
    · obtain ⟨-, ⟨-, rfl⟩ | ⟨hfalse, -⟩⟩ := fillProtectiveQty_eq_some hq
      · rw [abs_abs, zero_add]
      · exact absurd (hreversed.symm.trans hfalse) (by simp)

/-! ### The protective orders after a fill -/

/-- The protective orders of a fill, once they are in line with the positions. -/
structure InLine (f : PaperFillCommand) (tr : PaperPositionTransition) (current : SavedPosition)
    (orders orders' : Dict String OrderRow) : Prop where
  shrinks : Shrinks orders orders'
  covered : current.row.status = .open →
    ProtectionCovered orders' tr.positionId |current.row.qty|
  cleared : current.row.status = .closed → ∀ o, ¬ Protects orders' tr.positionId o
  closed : ∀ p, tr.closedPosition = some p → ∀ o, ¬ Protects orders' p.id o

theorem cancelOcoSiblings_shrinks {orders orders' : Dict String OrderRow}
    {cancelled : List SavedOrder} (h : cancelOcoSiblings orders f = .ok (cancelled, orders')) :
    Shrinks orders orders' := by
  unfold cancelOcoSiblings at h
  split at h
  · split at h
    · exact cancelWhere_shrinks h
    · obtain ⟨-, rfl⟩ := Prod.mk.inj (Except.ok.inj h)
      exact .refl _
  · obtain ⟨-, rfl⟩ := Prod.mk.inj (Except.ok.inj h)
    exact .refl _

/-- A scope that all orders for a position have, they keep. -/
theorem Shrinks.scope {orders orders' : Dict String OrderRow} {positionId : String}
    {scope : PaperScope} (h : Shrinks orders orders')
    (hscope : ∀ o, Protects orders positionId o → o.row.scope = scope) (o' : SavedOrder)
    (ho' : Protects orders' positionId o') : o'.row.scope = scope := by
  obtain ⟨⟨row, hrow, heq⟩, -⟩ := h positionId o' ho'
  exact heq.trans (hscope _ hrow)

theorem syncPaperFillProtectiveOrders_inLine {t' : PaperTables}
    {current : SavedPosition} {closed : Option SavedPosition}
    {cancelled : List SavedOrder} {positions : Dict String PositionRow}
    (hscope : ∀ o, Protects t.orders tr.positionId o → o.row.scope = f.scope)
    (hclosed : ∀ p, tr.closedPosition = some p → ∀ o, Protects t.orders p.id o →
      o.row.scope = f.scope) (hread : ClosedReadBack positions tr.closedPosition closed)
    (h : syncPaperFillProtectiveOrders t f tr current closed = .ok (cancelled, t')) :
    InLine f tr current t.orders t'.orders := by
  unfold syncPaperFillProtectiveOrders at h
  obtain ⟨⟨siblings, orders₁⟩, h₁, h⟩ := bind_eq_ok.mp h
  obtain ⟨⟨left, orders₂⟩, h₂, h⟩ := bind_eq_ok.mp h
  obtain ⟨⟨synced, orders₃⟩, h₃, h⟩ := bind_eq_ok.mp h
  obtain ⟨-, rfl⟩ := Prod.mk.inj (pure_eq_ok.mp h)
  have hs₁ : Shrinks t.orders orders₁ := cancelOcoSiblings_shrinks h₁
  -- a reversal leaves nothing for the position it closed
  obtain ⟨hs₂, hleft⟩ : Shrinks orders₁ orders₂ ∧
      ∀ p, tr.closedPosition = some p → ∀ o, ¬ Protects orders₂ p.id o := by
    unfold syncClosedPosition at h₂
    cases hcp : tr.closedPosition with
    | none =>
      obtain rfl : closed = none := by
        rw [hcp] at hread
        exact hread
      obtain ⟨-, rfl⟩ := Prod.mk.inj (Except.ok.inj h₂)
      exact ⟨.refl _, fun p hp => absurd hp (by simp)⟩
    | some p =>
      obtain ⟨row, rfl, -⟩ : ∃ row, closed = some ⟨p.id, row⟩ ∧ positions.get? p.id = some row := by
        rw [hcp] at hread
        exact hread
      obtain ⟨hshrinks, hnone⟩ := syncPaperProtectiveOrders_closed
        (hs₁.scope (hclosed p hcp)) (fun habs => absurd habs.1 (by simp)) h₂
      refine ⟨hshrinks, fun p' hp' => ?_⟩
      cases hp'
      exact hnone
  have hs₁₂ := hs₁.trans hs₂
  by_cases hopen : current.row.status = .open ∧ |current.row.qty| > paperTolerance
  · obtain ⟨hshrinks, hcovered⟩ := syncPaperProtectiveOrders_open (hs₁₂.scope hscope) hopen h₃
    exact ⟨hs₁₂.trans hshrinks, fun _ => hcovered,
      fun habs => absurd (hopen.1.symm.trans habs) (by simp),
      fun p hp => hshrinks.none (hleft p hp)⟩
  · obtain ⟨hshrinks, hnone⟩ := syncPaperProtectiveOrders_closed (hs₁₂.scope hscope) hopen h₃
    exact ⟨hs₁₂.trans hshrinks, fun _ => .of_none hnone (abs_nonneg _), fun _ => hnone,
      fun p hp => hshrinks.none (hleft p hp)⟩

namespace ProtectionInv

variable {t t' : PaperTables}

/-- A fill keeps the invariant: its sync brings the orders in line, and its children fit in. -/
theorem filled {f : PaperFillCommand} {now : Time} {result : PaperFillResult}
    (hinv : ProtectionInv t) (h : AppliedFill t f now result t') : ProtectionInv t' := by
  cases h with
  | replayed => exact hinv
  | cancelled _ horders =>
    exact hinv.shrinks rfl (.of_rewritten horders (by simp [OrderRow.cancelled]))
  | @filled row position tr positions orders orders' current closed created cancelled _ hlocked _
      hmove _ _ hcurrent hcurrentId hcurrentScope hread _ horders _ hfollow =>
    have hfilled : Shrinks t.orders orders :=
      .of_rewritten horders (by simp [OrderRow.filled])
    have hinv₀ : ProtectionInv { t with orders } := hinv.shrinks rfl hfilled
    obtain ⟨hscope, hclosedScope, hframe, hbudget⟩ :=
      hmove.protection (t := { t with orders }) hinv₀ hlocked
    obtain ⟨synced, hsync, hcreate⟩ := hfollow
    obtain ⟨hshrinks, hcovered, hcleared, hclosed⟩ := syncPaperFillProtectiveOrders_inLine
      (t := ⟨orders, positions, t.fills ++ [f.fillRow tr], t.events⟩) hscope
      (fun p hp => (hclosedScope p hp).2.2) hread hsync
    rw [hcurrentId] at hcurrent
    have hreversed : closed.isSome = tr.closedPosition.isSome := by
      cases hcp : tr.closedPosition with
      | none =>
        rw [hcp] at hread
        rw [show closed = none from hread]
      | some p =>
        rw [hcp] at hread
        obtain ⟨row, rfl, -⟩ := hread
        rfl
    -- what there is now: orders from before, or children of an open position
    have hadds : (∀ positionId o, Protects orders' positionId o → Protects synced positionId o) ∨
        ∃ qty, fillProtectiveQty f tr current closed.isSome = .ok (some qty) ∧
          AddsChildren f tr qty synced orders' := by
      rcases createPaperFillProtectiveOrders_adds hcreate with hsame | hqty
      · have horders' : orders' = synced := congrArg PaperTables.orders hsame
        exact .inl fun _ _ ho => horders' ▸ ho
      · exact .inr hqty
    have hkept : ∀ positionId, positionId ≠ tr.positionId → ∀ o, Protects orders' positionId o →
        Protects synced positionId o := by
      intro positionId hne o ho
      rcases hadds with hsame | ⟨qty, -, hchildren⟩
      · exact hsame positionId o ho
      · exact (hchildren positionId o ho).resolve_right fun hchild => hne hchild.1
    refine ⟨fun positionId o ho => ?_, fun positionId row hrow hopen => ?_,
      fun positionId row hrow hstatus => ?_⟩
    · have hold : Protects synced positionId o →
          ∃ row, positions.get? positionId = some row ∧ o.row.scope = row.scope := by
        intro hprotects
        obtain ⟨⟨r, hr, hrs⟩, -⟩ := hshrinks positionId o hprotects
        obtain ⟨p, hp, hps⟩ := hinv₀.attached positionId _ hr
        obtain ⟨p', hp', hdoc⟩ := hmove.document_kept hlocked positionId p hp
        refine ⟨p', hp', hrs.trans (hps.trans ?_)⟩
        rw [PositionRow.scope, PositionRow.scope, hdoc]
      rcases hadds with hsame | ⟨qty, -, hchildren⟩
      · exact hold (hsame positionId o ho)
      · rcases hchildren positionId o ho with hprotects | ⟨rfl, hchildScope, -, -⟩
        · exact hold hprotects
        · exact ⟨current.row, hcurrent, hchildScope.trans hcurrentScope.symm⟩
    · by_cases hid : positionId = tr.positionId
      · subst hid
        cases (hcurrent.symm.trans hrow)
        rcases hadds with hsame | ⟨qty, hqty, hchildren⟩
        · exact (hcovered hopen).mono fun o ho => ⟨o, hsame _ o ho, rfl, le_rfl⟩
        · obtain ⟨budget, hbefore, hfits⟩ := hbudget current closed.isSome qty hcurrent hreversed hqty
          refine Covered.budget_le hfits ((hshrinks.covered hbefore).add (k := f.childGroup)
            (by norm_num [paperTolerance]) (abs_nonneg qty) fun o ho => ?_)
          exact (hchildren _ o ho).imp id fun hchild => hchild.2.2
      · have hother : ∀ p, tr.closedPosition = some p → positionId ≠ p.id := by
          rintro p hp rfl
          exact absurd (hopen.symm.trans ((hclosedScope p hp).2.1 row hrow)) (by simp)
        have hcovered₀ := hinv₀.covered positionId row (hframe positionId row hrow hid hother) hopen
        exact (hshrinks.covered hcovered₀).mono fun o ho =>
          ⟨o, hkept positionId hid o ho, rfl, le_rfl⟩
    · by_cases hid : positionId = tr.positionId
      · subst hid
        cases (hcurrent.symm.trans hrow)
        rcases hadds with hsame | ⟨qty, hqty, -⟩
        · exact fun o ho => hcleared hstatus o (hsame _ o ho)
        · exact absurd ((fillProtectiveQty_eq_some hqty).1.symm.trans hstatus) (by simp)
      · by_cases hwas : ∃ p, tr.closedPosition = some p ∧ positionId = p.id
        · obtain ⟨p, hp, rfl⟩ := hwas
          exact fun o ho => hclosed p hp o (hkept _ hid o ho)
        · push Not at hwas
          have hcleared₀ := hinv₀.cleared positionId row (hframe positionId row hrow hid hwas) hstatus
          exact fun o ho => hshrinks.none hcleared₀ o (hkept positionId hid o ho)

end ProtectionInv

/-! ### The other calls -/

/-- The call creates no reduce-only order. -/
def PaperAct.CreatesNoProtection (t : PaperTables) : PaperAct → Prop
  | .upsert o _ => t.orders.get? o.id = none → ∀ command, paperOrderCommandPayload o = .ok command →
      command.reduceOnly = false
  | _ => True

section Calls

variable {t t' : PaperTables}

theorem updateLevel_shrinks {orders : Dict String OrderRow} {p : String → OrderRow → Bool}
    {level : Option ℚ} {now : Time} {trail : Bool} :
    Shrinks orders (updateLevel orders p level now trail).2 := by
  unfold updateLevel
  split
  · exact .refl _
  · rename_i level
    show Shrinks orders (orders.updateWhere p fun row => row.levelled level now trail)
    exact .updateWhere fun row _ => ⟨rfl, rfl, rfl, rfl, rfl, id, fun _ => rfl⟩

theorem perform_shrinks {a : PaperAct} (ha : ∀ o now, a ≠ .apply o now)
    (hcreates : a.CreatesNoProtection t) : Shrinks t.orders (t.perform a).orders := by
  obtain ⟨orders, events, hwrote, -, heq⟩ := perform_wrote (t := t) ha
  rw [heq]
  cases hwrote with
  | kept => exact .refl _
  | placed hnone _ hadmits hreduce =>
    intro positionId o' ho'
    have hstored := ho'.stored
    rw [Dict.get?_insert] at hstored
    split at hstored
    · have hnot := hreduce.trans (hcreates hnone _ hadmits.command_eq)
      rw [Option.some.inj hstored] at hnot
      exact absurd (ho'.reduceOnly.symm.trans hnot) (by simp)
    · have hprotects : Protects t.orders positionId o' :=
        ⟨hstored, ho'.position_eq, ho'.reduceOnly, ho'.pending⟩
      exact ⟨⟨o'.row, hprotects, rfl⟩, o', hprotects, rfl, le_rfl⟩
  | @updated _ _ _ _ row _ _ _ hrow hpending _ _ _ hscope _ =>
    exact .insert fun _ =>
      ⟨row, hrow, rfl, rfl, rfl, rfl, hscope.symm, fun _ => hpending, fun _ => rfl⟩
  | cancelled => exact .insert fun hpending => absurd hpending (by simp [OrderRow.cancelled])
  | dropped positionId filter now =>
    dsimp only [cancelPaperProtectiveOrders]
    exact .updateWhere fun row hpending => absurd hpending (row.dropped_status now)
  | levels => exact updateLevel_shrinks.trans updateLevel_shrinks

/-- **The step lemma.** -/
theorem ProtectionInv.step {a : PaperAct} (h : ProtectionInv t)
    (hcreates : a.CreatesNoProtection t) (hstep : PaperStep t a t') : ProtectionInv t' := by
  obtain rfl := hstep
  by_cases happly : ∃ o now, a = .apply o now
  · obtain ⟨o, now, rfl⟩ := happly
    rcases perform_apply t o now with hsame | ⟨f, result, -, -, -, happlied⟩
    · rw [hsame]
      exact h
    · exact h.filled happlied
  · push Not at happly
    exact h.shrinks (perform_edits happly).positions_eq (perform_shrinks happly hcreates)

end Calls

/-! ### Coverage -/

/-- The pending reduce-only orders for a position. -/
def protectiveOrders (t : PaperTables) (positionId : String) : List SavedOrder :=
  (t.orders.select fun _ row => row.positionId = some positionId ∧ row.reduceOnly = true ∧
    row.status = .pending).map fun e => ⟨e.1, e.2⟩

/-- The keys of their groups. -/
def protectiveKeys (t : PaperTables) (positionId : String) : Finset String :=
  ((protectiveOrders t positionId).map SavedOrder.groupKey).toFinset

/-- What the group of this key covers: the quantity of its largest order. -/
def coveredQty (t : PaperTables) (positionId key : String) : ℚ :=
  groupQty ((protectiveOrders t positionId).filter fun o => o.groupKey = key)

theorem mem_protectiveOrders {positionId : String} {o : SavedOrder} :
    o ∈ protectiveOrders t positionId ↔ Protects t.orders positionId o := by
  rw [protectiveOrders, List.mem_map]
  constructor
  · rintro ⟨⟨id, row⟩, hmem, rfl⟩
    obtain ⟨hstored, hrow⟩ := Dict.mem_select.mp hmem
    obtain ⟨hposition, hreduce, hpending⟩ := of_decide_eq_true hrow
    exact ⟨hstored, hposition, hreduce, hpending⟩
  · rintro ⟨hstored, hposition, hreduce, hpending⟩
    exact ⟨(o.id, o.row), Dict.mem_select.mpr
      ⟨hstored, decide_eq_true ⟨hposition, hreduce, hpending⟩⟩, rfl⟩

end AefTerminal
