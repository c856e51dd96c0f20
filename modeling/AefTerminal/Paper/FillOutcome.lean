import AefTerminal.Paper.Fill
import AefTerminal.Paper.OrderRewrites

/-!
# What applying a filled order can do

One inversion lemma for the whole transaction. Later results never unfold it: they go through the
three constructors of `AppliedFill` and, for a fill, the five of `PositionMove`.

## Main definitions

* `PositionMove`: the five things a fill does to the positions
* `Reserved`: the row an application goes on with
* `AppliedFill`: answered from the tables, cancelled, or filled

## Main results

* `transitionPaperPosition_move`, `applyPaperFillWithCursor_applied`
-/

namespace AefTerminal

open Foundation

/-! ### Positions -/

/-- The average entry once `delta` at `price` joins `qty` at `average`. -/
def weightedEntry (qty average delta price : ℚ) : ℚ :=
  (|qty| * average + |delta| * price) / max |qty + delta| paperTolerance

/-- The row of a position that was closed with `pnl`. -/
def PositionRow.closedBy (row : PositionRow) (f : PaperFillCommand) (pnl : ℚ) : PositionRow :=
  { row with
    qty := 0
    status := .closed
    closedAt := some f.filledAt
    updatedAt := f.filledAt
    realizedPnl := row.realizedPnl + pnl }

/-- The average entry a fill reckons with. -/
def SavedPosition.average (p : SavedPosition) (f : PaperFillCommand) : ℚ :=
  p.row.avgEntry.getD f.price

/-- The profit `f` takes by moving the position by `delta`. -/
def SavedPosition.pnl (p : SavedPosition) (f : PaperFillCommand) (delta : ℚ) : ℚ :=
  closePnl p.row.qty (p.average f) f.price (min |p.row.qty| |delta|)

/-- What a fill does to the positions, from the open position it found. -/
inductive PositionMove (f : PaperFillCommand) (positions : Dict String PositionRow) :
    Option SavedPosition → PaperPositionTransition → Dict String PositionRow → Prop
  | opened {qty delta : ℚ} {side : PaperSide} (hdelta : paperFillDelta f 0 = .ok (qty, side, delta))
      (hvalid : f.identity.Valid) (hnew : fillPositionId f none ∉ positions.keys) :
      PositionMove f positions none
        ⟨fillPositionId f none, 0, side, qty, delta, 0, none, true⟩
        (positions.insert (fillPositionId f none)
          (openedPosition f (0 + delta) (weightedEntry 0 f.price delta f.price)))
  | increased {p : SavedPosition} {qty delta : ℚ} {side : PaperSide}
      (hdelta : paperFillDelta f p.row.qty = .ok (qty, side, delta))
      (hsame : p.row.qty = 0 ∨ 0 < p.row.qty * delta) (hentry : f.reduceOnly = false) :
      PositionMove f positions (some p)
        ⟨p.id, p.row.qty, side, qty, delta, 0, none, false⟩
        (positions.insert p.id { p.row with
          qty := p.row.qty + delta
          avgEntry := some (weightedEntry p.row.qty (p.average f) delta f.price)
          updatedAt := f.filledAt })
  | reduced {p : SavedPosition} {qty delta : ℚ} {side : PaperSide}
      (hdelta : paperFillDelta f p.row.qty = .ok (qty, side, delta))
      (hagainst : p.row.qty * delta ≤ 0) (hleft : paperTolerance < |p.row.qty + delta|)
      (hsign : 0 < p.row.qty * (p.row.qty + delta)) :
      PositionMove f positions (some p)
        ⟨p.id, p.row.qty, side, qty, delta, p.pnl f delta, none, false⟩
        (positions.insert p.id { p.row with
          qty := p.row.qty + delta
          updatedAt := f.filledAt
          realizedPnl := p.row.realizedPnl + p.pnl f delta })
  | closed {p : SavedPosition} {qty delta : ℚ} {side : PaperSide}
      (hdelta : paperFillDelta f p.row.qty = .ok (qty, side, delta)) (hne : p.row.qty ≠ 0)
      (hagainst : p.row.qty * delta ≤ 0) (hleft : |p.row.qty + delta| ≤ paperTolerance) :
      PositionMove f positions (some p)
        ⟨p.id, p.row.qty, side, qty, delta, p.pnl f delta, none, false⟩
        (positions.insert p.id (p.row.closedBy f (p.pnl f delta)))
  | reversed {p : SavedPosition} {qty delta : ℚ} {side : PaperSide}
      (hdelta : paperFillDelta f p.row.qty = .ok (qty, side, delta)) (hne : p.row.qty ≠ 0)
      (hagainst : p.row.qty * delta ≤ 0) (hleft : paperTolerance < |p.row.qty + delta|)
      (hsign : p.row.qty * (p.row.qty + delta) ≤ 0) (hvalid : f.identity.Valid)
      (hnew : reversalPositionId f ∉
        (positions.insert p.id (p.row.closedBy f (p.pnl f delta))).keys) :
      PositionMove f positions (some p)
        ⟨reversalPositionId f, p.row.qty, side, qty, delta, p.pnl f delta, some p, true⟩
        ((positions.insert p.id (p.row.closedBy f (p.pnl f delta))).insert (reversalPositionId f)
          (openedPosition f (p.row.qty + delta) f.price))

variable {id : String} {f : PaperFillCommand}

variable {row : PositionRow}

theorem isFillPosition_iff :
    isFillPosition f id row ↔ row.document.identity.scope = f.scope ∧
      row.timeframe = f.command.timeframe ∧ row.status = .open ∧
      ∀ target, f.targetPositionId = some target → id = target := by
  unfold isFillPosition
  cases f.targetPositionId <;> simp [and_assoc]

/-- An open position of the scope that the fill applies to, as it is stored. -/
structure Locked (t : PaperTables) (f : PaperFillCommand) (p : SavedPosition) : Prop where
  stored : t.positions.get? p.id = some p.row
  scope_eq : p.row.document.identity.scope = f.scope
  timeframe_eq : p.row.timeframe = f.command.timeframe
  isOpen : p.row.status = .open
  target : ∀ target, f.targetPositionId = some target → p.id = target
  paperContract_eq : p.row.document.identity.paperContract = f.command.paperContract

variable {t t' : PaperTables}

variable {p : SavedPosition}

theorem lockedPaperFillPosition_some
    (h : lockedPaperFillPosition t f = .ok (some p)) : Locked t f p := by
  unfold lockedPaperFillPosition at h
  dsimp only at h
  split at h
  · exact absurd (pure_eq_ok.mp h) (by simp)
  · rename_i p' hhead
    obtain ⟨q, hq, h⟩ := bind_eq_ok.mp h
    obtain ⟨_, hcontract, h⟩ := bind_eq_ok.mp h
    cases (pure_eq_ok.mp h)
    obtain ⟨rfl, -, -⟩ := paperPositionFromRow_eq_ok.mp hq
    obtain ⟨⟨id, row⟩, he, rfl⟩ :=
      List.mem_map.mp ((List.mem_insertionSort _).mp (List.mem_of_mem_head? hhead))
    obtain ⟨hrow, hfill⟩ := Dict.mem_select.mp he
    obtain ⟨hscope, htf, hopen, htarget⟩ := isFillPosition_iff.mp hfill
    exact ⟨hrow, hscope, htf, hopen, htarget, require_eq_ok.mp hcontract⟩

theorem lockedPaperFillPosition_none (h : lockedPaperFillPosition t f = .ok none)
    (hrow : t.positions.get? id = some row) : ¬ isFillPosition f id row := by
  intro hfill
  unfold lockedPaperFillPosition at h
  dsimp only at h
  split at h
  · rename_i hhead
    have hmem : SavedPosition.mk id row ∈ ((t.positions.select (isFillPosition f)).map fun e =>
        SavedPosition.mk e.1 e.2).insertionSort fun a b => a.row.openedAt ≤ b.row.openedAt :=
      (List.mem_insertionSort _).mpr
        (List.mem_map.mpr ⟨(id, row), Dict.mem_select.mpr ⟨hrow, hfill⟩, rfl⟩)
    rw [List.head?_eq_none_iff.mp hhead] at hmem
    exact absurd hmem (by simp)
  · obtain ⟨_, -, h⟩ := bind_eq_ok.mp h
    obtain ⟨-, -, h⟩ := bind_eq_ok.mp h
    exact absurd (pure_eq_ok.mp h) (by simp)

theorem updatePosition_eq_ok {change : PositionRow → PositionRow}
    (hrow : t.positions.get? id = some row) (h : updatePosition t f id change = .ok t') :
    t' = { t with positions := t.positions.insert id (change row) } := by
  unfold updatePosition at h
  rw [hrow] at h
  dsimp only at h
  split at h
  · exact (Except.ok.inj h).symm
  · exact absurd h (by simp)

theorem PaperTables.insertPosition_eq_ok (h : t.insertPosition id row = .ok t') :
    id ∉ t.positions.keys ∧ t' = { t with positions := t.positions.insert id row } := by
  unfold PaperTables.insertPosition at h
  split at h
  · exact absurd h (by simp)
  · rename_i hid
    exact ⟨hid, (Except.ok.inj h).symm⟩

theorem PaperTables.insertFill_eq_ok {row : FillRow} (h : t.insertFill row = .ok t') :
    (∀ r ∈ t.fills, r.identity.paperContract.scopeKey = row.identity.paperContract.scopeKey →
      r.orderId ≠ row.orderId) ∧ t' = { t with fills := t.fills ++ [row] } := by
  unfold PaperTables.insertFill at h
  split at h
  · exact absurd h (by simp)
  · rename_i hfresh
    push Not at hfresh
    exact ⟨hfresh, (Except.ok.inj h).symm⟩

variable {closed : Option SavedPosition}

variable {qty : ℚ} {side : PaperSide}

/-- Reducing a position takes from it, closes it, or reverses it. -/
theorem reducePaperPosition_move {delta pnl : ℚ}
    {opened : Bool} (hrow : t.positions.get? p.id = some p.row)
    (hdelta : paperFillDelta f p.row.qty = .ok (qty, side, delta)) (hne : p.row.qty ≠ 0)
    (hagainst : p.row.qty * delta ≤ 0)
    (h : reducePaperPosition t f p p.id p.row.qty (p.average f) delta =
      .ok ((id, pnl, closed, opened), t')) :
    ∃ positions, t' = { t with positions } ∧ PositionMove f t.positions (some p)
      ⟨id, p.row.qty, side, qty, delta, pnl, closed, opened⟩ positions := by
  unfold reducePaperPosition closePaperPositionExact at h
  dsimp only at h
  split at h
  · rename_i hleft
    obtain ⟨t₁, ht₁, h⟩ := bind_eq_ok.mp h
    obtain ⟨heq, rfl⟩ := Prod.mk.inj (pure_eq_ok.mp h)
    cases heq
    exact ⟨_, updatePosition_eq_ok hrow ht₁, .closed hdelta hne hagainst hleft⟩
  · rename_i hleft
    push Not at hleft
    split at h
    · rename_i hsign
      obtain ⟨t₁, ht₁, h⟩ := bind_eq_ok.mp h
      obtain ⟨heq, rfl⟩ := Prod.mk.inj (pure_eq_ok.mp h)
      cases heq
      exact ⟨_, updatePosition_eq_ok hrow ht₁, .reduced hdelta hagainst hleft hsign⟩
    · rename_i hsign
      push Not at hsign
      obtain ⟨t₁, ht₁, h⟩ := bind_eq_ok.mp h
      obtain ⟨_, hvalid, h⟩ := bind_eq_ok.mp h
      obtain ⟨t₂, ht₂, h⟩ := bind_eq_ok.mp h
      obtain ⟨heq, rfl⟩ := Prod.mk.inj (pure_eq_ok.mp h)
      cases heq
      obtain rfl := updatePosition_eq_ok hrow ht₁
      obtain ⟨hnew, rfl⟩ := PaperTables.insertPosition_eq_ok ht₂
      exact ⟨_, rfl, .reversed hdelta hne hagainst hleft hsign
        (PaperIdentity.valid_of_decode hvalid) hnew⟩

variable {tr : PaperPositionTransition}

/-- **The transition is one of the five moves**, and writes to no other table. -/
theorem transitionPaperPosition_move {position : Option SavedPosition}
    (hstored : ∀ p, position = some p → t.positions.get? p.id = some p.row)
    (h : transitionPaperPosition t f position = .ok (tr, t')) :
    ∃ positions, t' = { t with positions } ∧ PositionMove f t.positions position tr positions := by
  unfold transitionPaperPosition at h
  dsimp only at h
  obtain ⟨⟨qty, side, delta⟩, hdelta, h⟩ := bind_eq_ok.mp h
  dsimp only at h
  cases position with
  | none =>
    simp only [Option.map_none, Option.getD_none, Option.bind_none, true_or, if_true] at h hdelta
    obtain ⟨⟨opened, t₁⟩, ht₁, h⟩ := bind_eq_ok.mp h
    cases (pure_eq_ok.mp h)
    unfold increasePaperPosition at ht₁
    dsimp only at ht₁
    obtain ⟨_, hvalid, ht₁⟩ := bind_eq_ok.mp ht₁
    obtain ⟨t₂, ht₂, ht₁⟩ := bind_eq_ok.mp ht₁
    cases (pure_eq_ok.mp ht₁)
    obtain ⟨hnew, rfl⟩ := PaperTables.insertPosition_eq_ok ht₂
    exact ⟨_, rfl, .opened hdelta (PaperIdentity.valid_of_decode hvalid) hnew⟩
  | some p =>
    have hrow := hstored p rfl
    simp only [Option.map_some, Option.getD_some, Option.bind_some] at h hdelta
    split at h
    · rename_i hsame
      obtain ⟨⟨opened, t₁⟩, ht₁, h⟩ := bind_eq_ok.mp h
      cases (pure_eq_ok.mp h)
      unfold increasePaperPosition at ht₁
      dsimp only at ht₁
      obtain ⟨_, hentry, ht₁⟩ := bind_eq_ok.mp ht₁
      obtain ⟨t₂, ht₂, ht₁⟩ := bind_eq_ok.mp ht₁
      cases (pure_eq_ok.mp ht₁)
      exact ⟨_, updatePosition_eq_ok hrow ht₂, .increased hdelta hsame (require_eq_ok.mp hentry)⟩
    · rename_i hagainst
      push Not at hagainst
      obtain ⟨⟨⟨id, pnl, closed, opened⟩, t₁⟩, ht₁, h⟩ := bind_eq_ok.mp h
      cases (pure_eq_ok.mp h)
      exact reducePaperPosition_move hrow hdelta hagainst.1 hagainst.2 ht₁

/-! ### The order table -/

/-- The row an application goes on with: reserved just now, or pending and agreeing. -/
inductive Reserved (t : PaperTables) (f : PaperFillCommand) : OrderRow → Prop
  | new (hnone : t.orders.get? f.orderId = none) : Reserved t f f.reservationRow
  | known {row : OrderRow} (hrow : t.orders.get? f.orderId = some row)
      (hpending : row.status = .pending)
      (houtcome : paperFillExistingOrderOutcome t f row = .ok none) : Reserved t f row

variable {row : OrderRow}

theorem Reserved.pending (h : Reserved t f row) : row.status = .pending := by
  cases h with
  | new => rfl
  | known _ hpending => exact hpending

/-- Apart from `id`, where it has `row`, the table is as it was. -/
structure Rewritten (orders orders' : Dict String OrderRow) (id : String) (row : OrderRow) :
    Prop where
  self : orders'.get? id = some row
  other : ∀ j, j ≠ id → orders'.get? j = orders.get? j

theorem Rewritten.insert {orders orders' : Dict String OrderRow}
    {row' : OrderRow} (h : Rewritten orders orders' id row) :
    Rewritten orders (orders'.insert id row') id row' :=
  ⟨Dict.get?_insert_self .., fun j hj => by rw [Dict.get?_insert_of_ne _ hj, h.other j hj]⟩

theorem paperFillExistingOrderOutcome_none (h : paperFillExistingOrderOutcome t f row = .ok none) :
    row.status = .pending := by
  unfold paperFillExistingOrderOutcome at h
  obtain ⟨_, -, h⟩ := bind_eq_ok.mp h
  obtain ⟨_, -, h⟩ := bind_eq_ok.mp h
  obtain ⟨_, -, h⟩ := bind_eq_ok.mp h
  split at h
  · obtain ⟨_, -, h⟩ := map_eq_ok.mp h
    exact absurd h (by simp)
  · split at h
    · obtain ⟨_, -, h⟩ := map_eq_ok.mp h
      exact absurd h (by simp)
    · obtain ⟨_, -, h⟩ := bind_eq_ok.mp h
      obtain ⟨_, hpending, -⟩ := bind_eq_ok.mp h
      exact require_eq_ok.mp hpending

theorem reservePaperFillOrder_eq_ok
    {replay : Option PaperFillResult} (h : reservePaperFillOrder t f = .ok (replay, t')) :
    (∃ row result, replay = some result ∧ t' = t ∧ t.orders.get? f.orderId = some row ∧
      paperFillExistingOrderOutcome t f row = .ok (some result)) ∨
    (replay = none ∧ ∃ row orders, Reserved t f row ∧ Rewritten t.orders orders f.orderId row ∧
      t' = { t with orders }) := by
  unfold reservePaperFillOrder at h
  split at h
  · rename_i hnone
    obtain ⟨rfl, rfl⟩ := Prod.mk.inj (Except.ok.inj h)
    exact .inr ⟨rfl, _, _, .new hnone, ⟨Dict.get?_insert_self .., fun j hj =>
      Dict.get?_insert_of_ne _ hj _⟩, rfl⟩
  · rename_i row hrow
    obtain ⟨outcome, houtcome, h⟩ := bind_eq_ok.mp h
    obtain ⟨rfl, rfl⟩ := Prod.mk.inj (pure_eq_ok.mp h)
    cases outcome with
    | none =>
      exact .inr ⟨rfl, row, t.orders, .known hrow (paperFillExistingOrderOutcome_none houtcome)
        houtcome, ⟨hrow, fun _ _ => rfl⟩, rfl⟩
    | some result => exact .inl ⟨row, result, rfl, rfl, hrow, houtcome⟩

theorem cancelReserved_eq_ok
    {rejection : Option PaperRejection} {missing : String} {cancelled : SavedOrder}
    (hrow : t.orders.get? f.orderId = some row)
    (h : cancelReserved t f rejection missing = .ok (cancelled, t')) :
    cancelled = ⟨f.orderId, row.cancelled f.filledAt rejection⟩ ∧
      (row.cancelled f.filledAt rejection).Decodes f.orderId ∧
      t' = { t with orders := t.orders.insert f.orderId (row.cancelled f.filledAt rejection) } := by
  unfold cancelReserved at h
  dsimp only at h
  split at h
  · exact absurd h (by simp)
  · rename_i new hnew
    obtain ⟨saved, hsaved, h⟩ := bind_eq_ok.mp h
    cases (pure_eq_ok.mp h)
    obtain ⟨row', hrow', -, rfl, hins⟩ := cancelIfPendingWithCursor_eq_some hnew
    rw [hrow] at hrow'
    cases hrow'
    obtain ⟨rfl, hdecodes⟩ := paperOrderFromRow_eq_ok.mp hsaved
    exact ⟨rfl, hdecodes, by rw [hins]⟩

theorem isOcoSibling_pending {group : String}
    (h : isOcoSibling f group id row) : row.status = .pending := by
  simp only [isOcoSibling, Bool.and_eq_true, decide_eq_true_eq] at h
  exact h.2

variable {current : SavedPosition}

theorem syncPaperFillProtectiveOrders_rewrites
    {cancelled : List SavedOrder}
    (h : syncPaperFillProtectiveOrders t f tr current closed = .ok (cancelled, t')) :
    ∃ orders, t' = { t with orders } ∧ Rewrites t.orders orders := by
  unfold syncPaperFillProtectiveOrders at h
  obtain ⟨⟨siblings, orders₁⟩, h₁, h⟩ := bind_eq_ok.mp h
  obtain ⟨⟨left, orders₂⟩, h₂, h⟩ := bind_eq_ok.mp h
  obtain ⟨⟨synced, orders₃⟩, h₃, h⟩ := bind_eq_ok.mp h
  obtain ⟨-, rfl⟩ := Prod.mk.inj (pure_eq_ok.mp h)
  have hw₁ : Rewrites t.orders orders₁ := by
    unfold cancelOcoSiblings at h₁
    split at h₁
    · split at h₁
      · exact cancelWhere_rewrites (fun _ _ => isOcoSibling_pending) h₁
      · obtain ⟨-, rfl⟩ := Prod.mk.inj (Except.ok.inj h₁)
        exact .refl _
    · obtain ⟨-, rfl⟩ := Prod.mk.inj (Except.ok.inj h₁)
      exact .refl _
  have hw₂ : Rewrites orders₁ orders₂ := by
    unfold syncClosedPosition at h₂
    split at h₂
    · exact syncPaperProtectiveOrders_rewrites h₂
    · obtain ⟨-, rfl⟩ := Prod.mk.inj (Except.ok.inj h₂)
      exact .refl _
  exact ⟨_, rfl, (hw₁.trans hw₂).trans (syncPaperProtectiveOrders_rewrites h₃)⟩

/-- The facts of a child order that its placement rests on. -/
structure ChildOrder (f : PaperFillCommand) (role : PaperRole) (entry qty : ℚ) (side : PaperSide)
    (o : PaperOrder) : Prop where
  role_eq : o.role = some role
  side_eq : o.side = some side
  qty_eq : o.qty = some qty
  entry_eq : o.entry = some entry
  paperContract_eq : o.paperContract = some f.command.paperContract
  protection_ok : o.protection = .ok (o.payload.getD .empty)

theorem paperProtectiveChildIntent_eq_ok {role : PaperRole} {orderType : PaperOrderType} {entry : ℚ}
    {ocoGroup : String} {o : PaperOrder}
    (h : paperProtectiveChildIntent f tr role orderType entry qty side ocoGroup = .ok o) :
    ChildOrder f role entry qty side o := by
  unfold paperProtectiveChildIntent at h
  split at h
  · exact absurd h (by simp)
  · cases h
    exact ⟨rfl, rfl, rfl, rfl, rfl, rfl⟩

theorem createProtectiveChild_rewrites {ocoGroup : String} {s s' : List SavedOrder × PaperTables}
    {spec : PaperRole × PaperOrderType × ℚ} (hrole : spec.1 ≠ .close)
    (h : createProtectiveChild f tr qty side ocoGroup s spec = .ok s') :
    ∃ orders, s'.2 = { s.2 with orders } ∧ Rewrites s.2.orders orders := by
  unfold createProtectiveChild at h
  obtain ⟨intent, hintent, h⟩ := bind_eq_ok.mp h
  obtain ⟨command, hcommand, h⟩ := bind_eq_ok.mp h
  split at h
  · exact absurd h (by simp)
  rename_i hnone
  dsimp only at h
  obtain ⟨saved, -, h⟩ := bind_eq_ok.mp h
  obtain rfl := pure_eq_ok.mp h
  have hchild := paperProtectiveChildIntent_eq_ok hintent
  refine ⟨_, rfl, .insert ?_⟩
  rw [hnone]
  obtain ⟨hdraft, hcontract, -, -, hacc⟩ := paperOrderCommandPayload_eq_ok.mp hcommand
  have hcontract' : f.command.paperContract = command.paperContract :=
    Option.some.inj (hchild.paperContract_eq.symm.trans hcontract)
  -- a stop or a take is not a manual close, so its quantity was checked
  have hqty : 0 < qty := by
    rcases hacc.wellFormed.shape with ⟨hclose, -⟩ | ⟨-, ⟨q, hq, hpos⟩, -⟩
    · rw [hdraft] at hclose
      have hrole' : intent.roleOrEntry = spec.1 := by simp [PaperOrder.roleOrEntry, hchild.role_eq]
      exact absurd (hrole'.symm.trans hclose) hrole
    · rw [hdraft] at hq
      simp [PaperOrder.draftCommand, PaperOrder.manualClose, PaperOrder.roleOrEntry,
        hchild.role_eq, hrole, hchild.qty_eq] at hq
      exact hq ▸ hpos
  have hshape : intent.reservation = .ok (side, qty, spec.2.2) := by
    simp [PaperOrder.reservation, hchild.side_eq, hchild.qty_eq, hchild.entry_eq, hqty]
  have hplaced := OrderRewrite.placed f.filledAt f.filledAt rfl hcommand hshape
    hchild.protection_ok
  rw [PaperOrder.placedRow, ← hcontract'] at hplaced
  exact hplaced

theorem childSpecs_role {spec : PaperRole × PaperOrderType × ℚ}
    (h : spec ∈ childSpecs f) : spec.1 ≠ .close := by
  unfold childSpecs at h
  rcases List.mem_append.mp h with h | h
  · obtain ⟨level, -, rfl⟩ := Option.map_eq_some_iff.mp (Option.mem_toList.mp h)
    simp
  · obtain ⟨level, -, rfl⟩ := Option.map_eq_some_iff.mp (Option.mem_toList.mp h)
    simp

/-- The protective orders of an entry are placed, and their quantity was checked. -/
theorem createPaperFillProtectiveOrders_rewrites {reversed : Bool} {created : List SavedOrder}
    (h : createPaperFillProtectiveOrders t f tr current reversed = .ok (created, t')) :
    (∃ orders, t' = { t with orders } ∧ Rewrites t.orders orders) ∧
      (current.row.status = .open → f.reduceOnly = false → f.command.role = .entry →
        ∃ q, paperEntryProtectiveQty tr.signedDelta current.row.qty tr.previousQty reversed =
          .ok q) := by
  unfold createPaperFillProtectiveOrders at h
  obtain ⟨protectiveQty, hqty, h⟩ := bind_eq_ok.mp h
  constructor
  · split at h
    · obtain ⟨-, rfl⟩ := Prod.mk.inj (pure_eq_ok.mp h)
      exact ⟨_, rfl, .refl _⟩
    · refine foldlM_induct (P := fun s : List SavedOrder × PaperTables =>
        ∃ orders, s.2 = { t with orders } ∧ Rewrites t.orders orders) ?_ ⟨_, rfl, .refl _⟩ h
      rintro s spec s' hspec ⟨orders, hs, hw⟩ hstep
      obtain ⟨orders', hs', hw'⟩ := createProtectiveChild_rewrites (childSpecs_role hspec) hstep
      rw [hs] at hs' hw'
      exact ⟨orders', hs', hw.trans hw'⟩
  · intro hopen hentry hrole
    rw [fillProtectiveQty, if_pos ⟨hopen, hentry, hrole⟩] at hqty
    exact ⟨_, hqty⟩

/-! ### The whole application -/

/-- The events of a fill. -/
def fillEvents (f : PaperFillCommand) (order : SavedOrder) (current : SavedPosition)
    (fill : FillRow) (closed : Option SavedPosition) (now : Time) : List TradeEvent :=
  (closed.map fun c => positionEvent .positionClosed f order c fill now).toList ++
    [positionEvent (if current.row.status = .closed then .positionClosed else .positionFilled) f
      order current fill now]

/-- The position a reversal closed, read back. -/
def ClosedReadBack (positions : Dict String PositionRow) :
    Option SavedPosition → Option SavedPosition → Prop
  | none, closed => closed = none
  | some p, closed => ∃ row, closed = some ⟨p.id, row⟩ ∧ positions.get? p.id = some row

/-- What a completed application did. -/
inductive AppliedFill (t : PaperTables) (f : PaperFillCommand) (now : Time) :
    PaperFillResult → PaperTables → Prop
  | replayed {row : OrderRow} {result : PaperFillResult}
      (hrow : t.orders.get? f.orderId = some row)
      (houtcome : paperFillExistingOrderOutcome t f row = .ok (some result)) :
      AppliedFill t f now result t
  | cancelled {row : OrderRow} {rejection : Option PaperRejection}
      {orders : Dict String OrderRow} {events : List TradeEvent} {result : PaperFillResult}
      (hreserved : Reserved t f row)
      (horders : Rewritten t.orders orders f.orderId (row.cancelled f.filledAt rejection))
      (hdecodes : (row.cancelled f.filledAt rejection).Decodes f.orderId)
      (hevents : ∀ e ∈ events, e.eventType ≠ .positionClosed) :
      AppliedFill t f now result { t with orders, events := t.events ++ events }
  | filled {row : OrderRow} {position : Option SavedPosition} {tr : PaperPositionTransition}
      {positions : Dict String PositionRow} {orders orders' : Dict String OrderRow}
      {current : SavedPosition} {closed : Option SavedPosition}
      {created cancelled : List SavedOrder}
      (hreserved : Reserved t f row) (hlocked : lockedPaperFillPosition t f = .ok position)
      (hreduce : f.reduceOnly = true → position.isSome)
      (hmove : PositionMove f t.positions position tr positions)
      (hdecodes : (row.filled f tr).Decodes f.orderId)
      (hfirst : ∀ r ∈ t.fills, r.identity.paperContract.scopeKey =
        (f.fillRow tr).identity.paperContract.scopeKey → r.orderId ≠ f.orderId)
      (hcurrent : positions.get? current.id = some current.row)
      (hcurrentId : current.id = tr.positionId)
      (hcurrentScope : current.row.document.identity.scope = f.scope)
      (hclosed : ClosedReadBack positions tr.closedPosition closed)
      (hqty : current.row.status = .open → f.reduceOnly = false → f.command.role = .entry →
        ∃ q, paperEntryProtectiveQty tr.signedDelta current.row.qty tr.previousQty closed.isSome =
          .ok q)
      (horders : Rewritten t.orders orders f.orderId (row.filled f tr))
      (hprotective : Rewrites orders orders')
      (hfollow : ∃ synced, syncPaperFillProtectiveOrders
          ⟨orders, positions, t.fills ++ [f.fillRow tr], t.events⟩ f tr current closed =
            .ok (cancelled, ⟨synced, positions, t.fills ++ [f.fillRow tr], t.events⟩) ∧
        createPaperFillProtectiveOrders
          ⟨synced, positions, t.fills ++ [f.fillRow tr], t.events⟩ f tr current closed.isSome =
            .ok (created, ⟨orders', positions, t.fills ++ [f.fillRow tr], t.events⟩)) :
      AppliedFill t f now
        ⟨.filled, ⟨f.orderId, row.filled f tr⟩, some current, some (f.fillRow tr), created,
          cancelled, closed, tr.openedNewPosition⟩
        ⟨orders', positions, t.fills ++ [f.fillRow tr],
          t.events ++ fillEvents f ⟨f.orderId, row.filled f tr⟩ current (f.fillRow tr) closed now⟩

theorem paperPositionById_some {scope : PaperScope}
    (h : paperPositionById t scope (some id) = .ok (some p)) :
    p.id = id ∧ t.positions.get? id = some p.row ∧ p.row.document.identity.scope = scope := by
  unfold paperPositionById at h
  dsimp only at h
  split at h
  · exact absurd h (by simp)
  · rename_i row hrow
    split at h
    · rename_i hscope
      obtain ⟨q, hq, hp⟩ := map_eq_ok.mp h
      cases hp
      obtain ⟨rfl, -⟩ := paperPositionFromRow_eq_ok.mp hq
      exact ⟨rfl, hrow, hscope⟩
    · exact absurd h (by simp)

theorem paperFillPositionResults_eq_ok
    (h : paperFillPositionResults t f tr = .ok (current, closed)) :
    current.id = tr.positionId ∧ t.positions.get? current.id = some current.row ∧
      current.row.document.identity.scope = f.scope ∧
      ClosedReadBack t.positions tr.closedPosition closed := by
  unfold paperFillPositionResults at h
  obtain ⟨current?, hcurrent, h⟩ := bind_eq_ok.mp h
  split at h
  · exact absurd h (by simp)
  rename_i c
  obtain ⟨hid, hrow, hscope⟩ := paperPositionById_some hcurrent
  split at h
  · rename_i hnone
    cases (pure_eq_ok.mp h)
    exact ⟨hid, hid ▸ hrow, hscope, by rw [hnone]; rfl⟩
  · rename_i p hsome
    obtain ⟨closed?, hclosed, h⟩ := bind_eq_ok.mp h
    split at h
    · exact absurd h (by simp)
    rename_i q
    cases (pure_eq_ok.mp h)
    obtain ⟨hqid, hqrow, -⟩ := paperPositionById_some hclosed
    refine ⟨hid, hid ▸ hrow, hscope, ?_⟩
    rw [hsome]
    exact ⟨q.row, by rw [← hqid], hqrow⟩

theorem persistPaperFillRecords_eq_ok {saved : SavedOrder} {fill : FillRow}
    (hrow : t.orders.get? f.orderId = some row)
    (h : persistPaperFillRecords t f tr = .ok ((saved, fill), t')) :
    saved = ⟨f.orderId, row.filled f tr⟩ ∧ fill = f.fillRow tr ∧
      (row.filled f tr).Decodes f.orderId ∧
      (∀ r ∈ t.fills, r.identity.paperContract.scopeKey =
        (f.fillRow tr).identity.paperContract.scopeKey → r.orderId ≠ f.orderId) ∧
      t' = { t with
        orders := t.orders.insert f.orderId (row.filled f tr)
        fills := t.fills ++ [f.fillRow tr] } := by
  unfold persistPaperFillRecords at h
  rw [hrow] at h
  dsimp only at h
  obtain ⟨_, -, h⟩ := bind_eq_ok.mp h
  obtain ⟨s, hs, h⟩ := bind_eq_ok.mp h
  obtain ⟨t₁, ht₁, h⟩ := bind_eq_ok.mp h
  obtain ⟨r, hr, h⟩ := bind_eq_ok.mp h
  obtain ⟨heq, rfl⟩ := Prod.mk.inj (pure_eq_ok.mp h)
  cases heq
  obtain ⟨rfl, hdecodes⟩ := paperOrderFromRow_eq_ok.mp hs
  obtain ⟨rfl, -⟩ := paperFillFromRow_eq_ok.mp hr
  obtain ⟨hfirst, rfl⟩ := PaperTables.insertFill_eq_ok ht₁
  exact ⟨rfl, rfl, hdecodes, hfirst, rfl⟩

variable {now : Time}

theorem appendPaperFillEvents_eq_ok {order : SavedOrder} {fill : FillRow}
    (h : appendPaperFillEvents t f order current fill closed now = .ok t') :
    t' = { t with events := t.events ++ fillEvents f order current fill closed now } := by
  unfold appendPaperFillEvents at h
  obtain ⟨t₁, ht₁, h⟩ := bind_eq_ok.mp h
  obtain rfl := PaperTables.appendEvent_eq_ok h
  cases closed with
  | none =>
    cases ht₁
    rfl
  | some c =>
    obtain rfl := PaperTables.appendEvent_eq_ok ht₁
    simp [fillEvents]

variable {result : PaperFillResult}

/-- The order of an answer has the status the outcome says. -/
def PaperFillResult.StatusAgrees (result : PaperFillResult) : Prop :=
  match result.outcome with
  | .filled => result.order.row.status = .filled
  | .cancelled => result.order.row.status = .cancelled
  | .noOp => result.order.row.status ≠ .pending

/-- An order that is answered from the tables is the stored one, and is settled. -/
theorem paperFillExistingOrderOutcome_some
    (h : paperFillExistingOrderOutcome t f row = .ok (some result)) :
    result.outcome = .noOp ∧ result.order = ⟨f.orderId, row⟩ ∧ row.status ≠ .pending := by
  obtain ⟨existing, hexisting, h⟩ := bind_eq_ok.mp h
  obtain ⟨rfl, -⟩ := paperOrderFromRow_eq_ok.mp hexisting
  obtain ⟨_, -, h⟩ := bind_eq_ok.mp h
  obtain ⟨_, -, h⟩ := bind_eq_ok.mp h
  split at h
  · rename_i hfilled
    obtain ⟨answer, hanswer, hsome⟩ := map_eq_ok.mp h
    cases hsome
    refine and_assoc.mp ⟨?_, by rw [hfilled]; decide⟩
    unfold paperFillReplayOutcome at hanswer
    split at hanswer
    · obtain ⟨fill, -, hanswer⟩ := bind_eq_ok.mp hanswer
      obtain ⟨positionId, -, hanswer⟩ := bind_eq_ok.mp hanswer
      obtain ⟨position, -, hanswer⟩ := bind_eq_ok.mp hanswer
      obtain ⟨_, -, hanswer⟩ := bind_eq_ok.mp hanswer
      obtain rfl := pure_eq_ok.mp hanswer
      exact ⟨rfl, rfl⟩
    · cases hanswer
  · split at h
    · rename_i hcancelled
      obtain ⟨answer, hanswer, hsome⟩ := map_eq_ok.mp h
      cases hsome
      refine and_assoc.mp ⟨?_, by rw [hcancelled.1]; decide⟩
      obtain ⟨position, -, hanswer⟩ := bind_eq_ok.mp hanswer
      split at hanswer
      · cases hanswer
      · obtain ⟨_, -, hanswer⟩ := bind_eq_ok.mp hanswer
        obtain rfl := pure_eq_ok.mp hanswer
        exact ⟨rfl, rfl⟩
    · obtain ⟨_, -, h⟩ := bind_eq_ok.mp h
      obtain ⟨_, -, h⟩ := bind_eq_ok.mp h
      exact absurd (pure_eq_ok.mp h) (by simp)

/-- A completed application is answered with the order as it is stored. -/
def Answers (t : PaperTables) (f : PaperFillCommand) (result : PaperFillResult) : Prop :=
  result.order.id = f.orderId ∧ t.orders.get? f.orderId = some result.order.row ∧
    result.StatusAgrees

theorem fillPaperOrder_applied {t₁ : PaperTables} {position : Option SavedPosition}
    {orders : Dict String OrderRow} (hreserved : Reserved t f row)
    (horders : Rewritten t.orders orders f.orderId row) (ht₁ : t₁ = { t with orders })
    (hlocked : lockedPaperFillPosition t f = .ok position)
    (hreduce : f.reduceOnly = true → position.isSome)
    (h : fillPaperOrder t₁ f position now = .ok (result, t')) :
    AppliedFill t f now result t' ∧ Answers t' f result := by
  subst ht₁
  unfold fillPaperOrder at h
  obtain ⟨⟨tr, t₂⟩, ht₂, h⟩ := bind_eq_ok.mp h
  obtain ⟨⟨⟨saved, fill⟩, t₃⟩, ht₃, h⟩ := bind_eq_ok.mp h
  obtain ⟨⟨current, closed⟩, hread, h⟩ := bind_eq_ok.mp h
  obtain ⟨⟨cancelled, t₄⟩, ht₄, h⟩ := bind_eq_ok.mp h
  obtain ⟨⟨created, t₅⟩, ht₅, h⟩ := bind_eq_ok.mp h
  obtain ⟨t₆, ht₆, h⟩ := bind_eq_ok.mp h
  cases (pure_eq_ok.mp h)
  have hstored : ∀ p, position = some p →
      ({ t with orders } : PaperTables).positions.get? p.id = some p.row := by
    rintro p rfl
    exact (lockedPaperFillPosition_some hlocked).stored
  obtain ⟨positions, rfl, hmove⟩ := transitionPaperPosition_move hstored ht₂
  obtain ⟨rfl, rfl, hdecodes, hfirst, rfl⟩ := persistPaperFillRecords_eq_ok horders.self ht₃
  obtain ⟨hid, hrow, hscope, hclosed⟩ := paperFillPositionResults_eq_ok hread
  obtain ⟨orders₄, rfl, hw₄⟩ := syncPaperFillProtectiveOrders_rewrites ht₄
  obtain ⟨⟨orders₅, rfl, hw₅⟩, hqty⟩ := createPaperFillProtectiveOrders_rewrites ht₅
  obtain rfl := appendPaperFillEvents_eq_ok ht₆
  -- protective orders are other orders: a filled row is not written again
  have hfilled := (hw₄.trans hw₅).frozen (fun _ _ _ hw => hw.pending) horders.insert.self
    (by simp [OrderRow.filled])
  exact ⟨.filled hreserved hlocked hreduce hmove hdecodes hfirst hrow hid hscope hclosed hqty
    horders.insert (hw₄.trans hw₅) ⟨orders₄, ht₄, ht₅⟩, rfl, hfilled, rfl⟩

theorem rejectionEvent_type (o : SavedOrder) (rejection : PaperRejection) (now : Time) :
    (rejectionEvent o rejection now).eventType = .orderExecutionRejected := rfl

/-- **Everything a completed application can do.** -/
theorem applyPaperFillWithCursor_applied (h : applyPaperFillWithCursor t f now = .ok (result, t')) :
    AppliedFill t f now result t' ∧ Answers t' f result := by
  unfold applyPaperFillWithCursor at h
  obtain ⟨⟨replay, t₁⟩, ht₁, hrest⟩ := bind_eq_ok.mp h
  clear h
  rcases reservePaperFillOrder_eq_ok ht₁ with
    ⟨row, r, rfl, rfl, hrow, houtcome⟩ | ⟨rfl, row, orders, hreserved, horders, rfl⟩
  · cases (pure_eq_ok.mp hrest)
    obtain ⟨hnoOp, horder, hstatus⟩ := paperFillExistingOrderOutcome_some houtcome
    refine ⟨.replayed hrow houtcome, by rw [horder], by rw [horder]; exact hrow, ?_⟩
    simp only [PaperFillResult.StatusAgrees, hnoOp, horder]
    exact hstatus
  dsimp only at hrest
  obtain ⟨position, hlocked, h⟩ := bind_eq_ok.mp hrest
  obtain ⟨early, hearly, h⟩ := bind_eq_ok.mp h
  unfold paperPositionExpectationOutcome at hearly
  split at hearly
  · obtain rfl := pure_eq_ok.mp hearly
    dsimp only at h
    obtain ⟨stale, hstale, h⟩ := bind_eq_ok.mp h
    unfold paperStaleReduceOnlyOutcome at hstale
    split at hstale
    · rename_i hgo
      obtain rfl := pure_eq_ok.mp hstale
      have hreduce : f.reduceOnly = true → position.isSome := by
        intro hr
        simpa [hr] using hgo
      exact fillPaperOrder_applied hreserved horders rfl hlocked hreduce h
    · obtain ⟨⟨cancelled, t₂⟩, ht₂, hstale⟩ := bind_eq_ok.mp hstale
      obtain ⟨current, -, hstale⟩ := bind_eq_ok.mp hstale
      obtain rfl := pure_eq_ok.mp hstale
      cases (pure_eq_ok.mp h)
      obtain ⟨rfl, hdecodes, rfl⟩ := cancelReserved_eq_ok horders.self ht₂
      -- no event is recorded for an order that came too late
      have hdone : ∀ result, AppliedFill t f now result
          { t with
            orders := orders.insert f.orderId (row.cancelled f.filledAt none)
            events := t.events ++ [] } :=
        fun _ => .cancelled hreserved horders.insert hdecodes (by simp)
      refine ⟨by simpa using hdone _, rfl, Dict.get?_insert_self .., ?_⟩
      -- a manual close that came too late is a no-op, and is stored as cancelled
      unfold PaperFillResult.StatusAgrees
      by_cases hclose : f.manualClose = true <;> simp [hclose, OrderRow.cancelled]
  · rename_i rejection _
    obtain ⟨⟨cancelled, t₂⟩, ht₂, hearly⟩ := bind_eq_ok.mp hearly
    obtain ⟨t₃, ht₃, hearly⟩ := bind_eq_ok.mp hearly
    obtain rfl := pure_eq_ok.mp hearly
    cases (pure_eq_ok.mp h)
    obtain ⟨rfl, hdecodes, rfl⟩ := cancelReserved_eq_ok horders.self ht₂
    obtain rfl := PaperTables.appendEvent_eq_ok ht₃
    exact ⟨.cancelled hreserved horders.insert hdecodes (by simp [rejectionEvent_type]), rfl,
      Dict.get?_insert_self .., rfl⟩

end AefTerminal
