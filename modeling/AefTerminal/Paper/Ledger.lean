import AefTerminal.Paper.Positions
import Mathlib.Algebra.BigOperators.Ring.List
import Mathlib.Tactic.FieldSimp
import Mathlib.Tactic.Ring

/-!
# The paper ledger

Money is conserved, market by market. What the fills of a market paid and received, with its open
quantity at any mark, is what its positions realised and have open at that mark; and the profits
recorded on fills are those recorded on positions.

One number carries the proof: a position row *books* its realised profit less the cost of what it
has open. Whatever a fill does to the positions, the books change by the cash it moves.

The tolerance breaks the balance: a position closed with a remainder of at most 1e-9 drops the
remainder. The runs considered leave no such remainder.

## Main definitions

* `Market`, `cash`, `pnlPoints`, `realized`, `openQty`, `openProfit`
* `PaperAct.Measured`: no quantity falls within the tolerance

## Main results

* `PositionMove.books`: a move changes the books by its cash
* `ledger_conserved`
-/

namespace AefTerminal

open Foundation

/-- Instrument, route, contract and timeframe. -/
abbrev Market := PaperScope × String

def PositionRow.market (r : PositionRow) : Market := (r.document.identity.scope, r.timeframe)

def FillRow.market (r : FillRow) : Market := (r.identity.scope, r.timeframe)

def PaperFillCommand.market (f : PaperFillCommand) : Market := (f.scope, f.command.timeframe)

namespace PaperTables

variable (t : PaperTables) (m : Market)

/-- What the fills of the market brought in. -/
def cash : ℚ :=
  ((t.fills.filter fun r => r.market = m).map fun r => -signedQty r.side r.qty * r.price).sum

/-- The profits recorded on the fills. -/
def pnlPoints : ℚ := ((t.fills.filter fun r => r.market = m).map fun r => r.pnlPoints.getD 0).sum

/-- The profits recorded on the positions. -/
def realized : ℚ := t.positions.total fun _ r => if r.market = m then r.realizedPnl else 0

/-- The signed quantity the market has open. -/
def openQty : ℚ :=
  t.positions.total fun _ r => if r.market = m ∧ r.status = .open then r.qty else 0

/-- Its profit at a mark, against the average entry. -/
def openProfit (mark : ℚ) : ℚ :=
  t.positions.total fun _ r =>
    if r.market = m ∧ r.status = .open then (mark - r.avgEntry.getD 0) * r.qty else 0

end PaperTables

/-- The open quantity an application computes, from the position it finds. -/
def resultingQty (t : PaperTables) (o : PaperOrder) (now : Time) : Except PaperError ℚ := do
  let f ← paperFillCommand o now
  let position ← lockedPaperFillPosition t f
  let positionQty := (position.map fun p => p.row.qty).getD 0
  let delta ← paperFillDelta f positionQty
  return positionQty + delta.2.2

/-- An application leaves nothing open, or more than the tolerance. -/
def PaperAct.Measured (t : PaperTables) : PaperAct → Prop
  | .apply o now => ∀ left, resultingQty t o now = .ok left → left = 0 ∨ paperTolerance < |left|
  | _ => True

/-- The same, computed. -/
def isMeasured (left : Except PaperError ℚ) : Bool :=
  match left with
  | .ok left => decide (left = 0 ∨ paperTolerance < |left|)
  | .error _ => true

variable {t : PaperTables}

theorem measured_of_isMeasured {o : PaperOrder} {now : Time}
    (h : isMeasured (resultingQty t o now)) : (PaperAct.apply o now).Measured t := by
  intro left hleft
  rw [hleft] at h
  simpa [isMeasured] using h

/-! ### Books -/

/-- The realised profit of a row, less the cost of what it has open. -/
def PositionRow.book (m : Market) (r : PositionRow) : ℚ :=
  if r.market = m then
    r.realizedPnl - if r.status = .open then r.avgEntry.getD 0 * r.qty else 0
  else 0

def PositionRow.realizedIn (m : Market) (r : PositionRow) : ℚ :=
  if r.market = m then r.realizedPnl else 0

variable {delta qty : ℚ}

/-- The weighted average is the average of the costs. -/
theorem weightedEntry_mul (average price : ℚ) (hsame : qty = 0 ∨ 0 < qty * delta)
    (hsize : qty + delta = 0 ∨ paperTolerance < |qty + delta|) :
    weightedEntry qty average delta price * (qty + delta) = average * qty + price * delta := by
  rcases hsize with hzero | hsize
  · rw [hzero, mul_zero]
    rcases hsame with rfl | hsame
    · obtain rfl : delta = 0 := by linarith
      simp
    · obtain rfl : delta = -qty := by linarith
      nlinarith [mul_self_nonneg qty]
  · have hpos : 0 < |qty + delta| := paperTolerance_pos.trans hsize
    have hne : qty + delta ≠ 0 := abs_pos.mp hpos
    rw [weightedEntry, max_eq_left hsize.le]
    -- both quantities have the sign of their sum
    rcases lt_or_gt_of_ne hne with hneg | hpos'
    · have hq : qty ≤ 0 ∧ delta ≤ 0 := by
        rcases hsame with rfl | hsame
        · exact ⟨le_rfl, by linarith⟩
        · rcases mul_pos_iff.mp hsame with ⟨h₁, h₂⟩ | ⟨h₁, h₂⟩
          · linarith
          · exact ⟨h₁.le, h₂.le⟩
      rw [abs_of_neg hneg, abs_of_nonpos hq.1, abs_of_nonpos hq.2]
      field_simp
      ring
    · have hq : 0 ≤ qty ∧ 0 ≤ delta := by
        rcases hsame with rfl | hsame
        · exact ⟨le_rfl, by linarith⟩
        · rcases mul_pos_iff.mp hsame with ⟨h₁, h₂⟩ | ⟨h₁, h₂⟩
          · exact ⟨h₁.le, h₂.le⟩
          · linarith
      rw [abs_of_pos hpos', abs_of_nonneg hq.1, abs_of_nonneg hq.2]
      field_simp

/-- Taking part of a position realises the move from the average on that part. -/
theorem closePnl_partial {average price : ℚ} (hagainst : qty * delta ≤ 0)
    (hsign : 0 < qty * (qty + delta)) :
    closePnl qty average price (min |qty| |delta|) = (average - price) * delta := by
  have hne : qty ≠ 0 := by
    rintro rfl
    simp at hsign
  unfold closePnl
  rcases lt_or_gt_of_ne hne with hneg | hpos
  · have hd : 0 ≤ delta := by nlinarith
    have hle : delta ≤ -qty := by nlinarith
    rw [if_neg hneg.le.not_gt, abs_of_neg hneg, abs_of_nonneg hd, min_eq_right hle]
  · have hd : delta ≤ 0 := by nlinarith
    have hle : -delta ≤ qty := by nlinarith
    rw [if_pos hpos, abs_of_pos hpos, abs_of_nonpos hd, min_eq_right hle]
    ring

/-- Taking all of a position realises the move from the average on the position. -/
theorem closePnl_whole {average price : ℚ} (hne : qty ≠ 0) (hsign : qty * (qty + delta) ≤ 0) :
    closePnl qty average price (min |qty| |delta|) = (price - average) * qty := by
  unfold closePnl
  rcases lt_or_gt_of_ne hne with hneg | hpos
  · have hle : -qty ≤ delta := by nlinarith
    have hd : 0 ≤ delta := by linarith
    rw [if_neg hneg.le.not_gt, abs_of_neg hneg, abs_of_nonneg hd, min_eq_left hle]
    ring
  · have hle : qty ≤ -delta := by nlinarith
    have hd : delta ≤ 0 := by linarith
    rw [if_pos hpos, abs_of_pos hpos, abs_of_nonpos hd, min_eq_left hle]

/-- Open positions have an average entry. -/
def Priced (positions : Dict String PositionRow) : Prop :=
  ∀ id row, positions.get? id = some row → row.status = .open → row.avgEntry.isSome

variable {positions : Dict String PositionRow}

variable {id : String}

theorem Priced.insert {row : PositionRow}
    (h : Priced positions) (hrow : row.status = .open → row.avgEntry.isSome) :
    Priced (positions.insert id row) := by
  intro j r hr hopen
  rw [Dict.get?_insert] at hr
  split at hr
  · cases hr
    exact hrow hopen
  · exact h j r hr hopen

theorem total_rewrite {old row : PositionRow}
    (hold : positions.get? id = some old) (g : PositionRow → ℚ) :
    (positions.insert id row).total (fun _ => g) = positions.total (fun _ => g) + (g row - g old) := by
  have h := Dict.total_insert_of_get? hold row (fun _ => g)
  linarith

namespace PositionRow

variable {m : Market} {r : PositionRow}

theorem book_of_open (hm : r.market = m) (hopen : r.status = .open) :
    r.book m = r.realizedPnl - r.avgEntry.getD 0 * r.qty := by
  rw [book, if_pos hm, if_pos hopen]

theorem book_of_closed (hm : r.market = m) (hclosed : r.status = .closed) :
    r.book m = r.realizedPnl := by
  simp [book, hm, hclosed]

theorem book_of_ne (hm : r.market ≠ m) : r.book m = 0 := if_neg hm

theorem realizedIn_of_eq (hm : r.market = m) : r.realizedIn m = r.realizedPnl := if_pos hm

theorem realizedIn_of_ne (hm : r.market ≠ m) : r.realizedIn m = 0 := if_neg hm

end PositionRow

variable {f : PaperFillCommand}

/-- What rewriting the locked position books, by what it realises and what it has open. -/
theorem Locked.rewrite {p : SavedPosition} (m : Market)
    (row : PositionRow) (books pnl : ℚ) (hp : Locked t f p) (hpriced : Priced t.positions)
    (hmarket : row.market = p.row.market) (hpnl : row.realizedPnl = p.row.realizedPnl + pnl)
    (hbooks : row.market = m → row.book m =
      p.row.realizedPnl - p.average f * p.row.qty + books) :
    (t.positions.insert p.id row).total (fun _ => PositionRow.book m) =
        t.positions.total (fun _ => PositionRow.book m) + (if f.market = m then books else 0) ∧
      (t.positions.insert p.id row).total (fun _ => PositionRow.realizedIn m) =
        t.positions.total (fun _ => PositionRow.realizedIn m) +
          (if f.market = m then pnl else 0) := by
  have hfm : p.row.market = f.market := Prod.ext hp.scope_eq hp.timeframe_eq
  obtain ⟨average, haverage⟩ := Option.isSome_iff_exists.mp (hpriced _ _ hp.stored hp.isOpen)
  have hp_average : p.average f = p.row.avgEntry.getD 0 := by
    simp [SavedPosition.average, haverage]
  rw [total_rewrite hp.stored, total_rewrite hp.stored]
  by_cases hm : f.market = m
  · have hpm : p.row.market = m := hfm.trans hm
    have hrm : row.market = m := hmarket.trans hpm
    rw [if_pos hm, if_pos hm, hbooks hrm, PositionRow.book_of_open hpm hp.isOpen,
      PositionRow.realizedIn_of_eq hrm, PositionRow.realizedIn_of_eq hpm, hpnl, hp_average]
    constructor <;> ring
  · have hpm : p.row.market ≠ m := fun h => hm (hfm.symm.trans h)
    have hrm : row.market ≠ m := fun h => hpm (hmarket.symm.trans h)
    rw [if_neg hm, if_neg hm, PositionRow.book_of_ne hpm, PositionRow.book_of_ne hrm,
      PositionRow.realizedIn_of_ne hpm, PositionRow.realizedIn_of_ne hrm]
    constructor <;> ring

/-- What opening a position books. -/
theorem opened_books (qty average : ℚ) (m : Market) (hid : id ∉ positions.keys) :
    (positions.insert id (openedPosition f qty average)).total (fun _ => PositionRow.book m) =
        positions.total (fun _ => PositionRow.book m) +
          (if f.market = m then -(average * qty) else 0) ∧
      (positions.insert id (openedPosition f qty average)).total
          (fun _ => PositionRow.realizedIn m) =
        positions.total (fun _ => PositionRow.realizedIn m) := by
  rw [Dict.total_insert_of_notMem hid, Dict.total_insert_of_notMem hid]
  have hmarket : (openedPosition f qty average).market = f.market := rfl
  by_cases hm : f.market = m
  · rw [PositionRow.book_of_open (hmarket.trans hm) rfl,
      PositionRow.realizedIn_of_eq (hmarket.trans hm), if_pos hm]
    simp [openedPosition]
  · have hne : (openedPosition f qty average).market ≠ m := hm
    rw [PositionRow.book_of_ne hne, PositionRow.realizedIn_of_ne hne, if_neg hm]
    simp

/-- **A move changes the books by its cash**, and what is realised by its profit. -/
theorem PositionMove.books {position : Option SavedPosition} {tr : PaperPositionTransition}
    {m : Market} (hpriced : Priced t.positions)
    (hlocked : lockedPaperFillPosition t f = .ok position)
    (hmeasured : (position.map fun p => p.row.qty).getD 0 + tr.signedDelta = 0 ∨
      paperTolerance < |(position.map fun p => p.row.qty).getD 0 + tr.signedDelta|)
    (h : PositionMove f t.positions position tr positions) :
    positions.total (fun _ => PositionRow.book m) =
        t.positions.total (fun _ => PositionRow.book m) +
          (if f.market = m then -tr.signedDelta * f.price else 0) ∧
      positions.total (fun _ => PositionRow.realizedIn m) =
        t.positions.total (fun _ => PositionRow.realizedIn m) +
          (if f.market = m then tr.pnl else 0) ∧
      Priced positions := by
  cases h with
  | @opened qty delta side hdelta hvalid hnew =>
    obtain ⟨hbooks, hrealized⟩ := opened_books (f := f) (0 + delta)
      (weightedEntry 0 f.price delta f.price) m hnew
    have hweighted := weightedEntry_mul f.price f.price (.inl rfl) hmeasured
    refine ⟨?_, ?_, hpriced.insert fun _ => rfl⟩
    · rw [hbooks, hweighted]
      congr 1
      split <;> ring
    · rw [hrealized]
      simp
  | @increased p qty delta side hdelta hsame hentry =>
    have hp := lockedPaperFillPosition_some hlocked
    have hweighted := weightedEntry_mul (p.average f) f.price hsame hmeasured
    obtain ⟨hbooks, hrealized⟩ := hp.rewrite m
      { p.row with
        qty := p.row.qty + delta
        avgEntry := some (weightedEntry p.row.qty (p.average f) delta f.price)
        updatedAt := f.filledAt } (-delta * f.price) 0 hpriced rfl (by simp) (by
        intro hm
        rw [PositionRow.book_of_open hm hp.isOpen, Option.getD_some, hweighted]
        ring)
    exact ⟨hbooks, hrealized, hpriced.insert fun _ => rfl⟩
  | @reduced p qty delta side hdelta hagainst hleft hsign =>
    have hp := lockedPaperFillPosition_some hlocked
    have hsome := hpriced _ _ hp.stored hp.isOpen
    have hpnl : p.pnl f delta = (p.average f - f.price) * delta := closePnl_partial hagainst hsign
    obtain ⟨average, haverage⟩ := Option.isSome_iff_exists.mp hsome
    have hp_average : p.average f = average := by simp [SavedPosition.average, haverage]
    obtain ⟨hbooks, hrealized⟩ := hp.rewrite m
      { p.row with
        qty := p.row.qty + delta
        updatedAt := f.filledAt
        realizedPnl := p.row.realizedPnl + p.pnl f delta } (-delta * f.price) (p.pnl f delta)
      hpriced rfl rfl (by
        intro hm
        rw [PositionRow.book_of_open hm hp.isOpen, hpnl, hp_average]
        simp only [haverage, Option.getD_some]
        ring)
    exact ⟨hbooks, hrealized, hpriced.insert fun _ => hsome⟩
  | @closed p qty delta side hdelta hne hagainst hleft =>
    have hp := lockedPaperFillPosition_some hlocked
    -- nothing within the tolerance is left, so nothing is
    have hzero : p.row.qty + delta = 0 :=
      hmeasured.resolve_right fun hlt => absurd hleft (not_le.mpr hlt)
    have hpnl : p.pnl f delta = (f.price - p.average f) * p.row.qty :=
      closePnl_whole hne (by rw [hzero, mul_zero])
    obtain ⟨hbooks, hrealized⟩ := hp.rewrite m (p.row.closedBy f (p.pnl f delta))
      (-delta * f.price) (p.pnl f delta) hpriced rfl rfl (by
        intro hm
        obtain rfl : delta = -p.row.qty := by linarith
        rw [PositionRow.book_of_closed hm rfl]
        simp only [PositionRow.closedBy, hpnl]
        ring)
    exact ⟨hbooks, hrealized, hpriced.insert (by simp [PositionRow.closedBy])⟩
  | @reversed p qty delta side hdelta hne hagainst hleft hsign hvalid hnew =>
    have hp := lockedPaperFillPosition_some hlocked
    have hpnl : p.pnl f delta = (f.price - p.average f) * p.row.qty := closePnl_whole hne hsign
    obtain ⟨hbooks, hrealized⟩ := hp.rewrite m (p.row.closedBy f (p.pnl f delta))
      (f.price * p.row.qty) (p.pnl f delta) hpriced rfl rfl (by
        intro hm
        rw [PositionRow.book_of_closed hm rfl]
        simp only [PositionRow.closedBy, hpnl]
        ring)
    obtain ⟨hbooks', hrealized'⟩ := opened_books (f := f) (p.row.qty + delta) f.price m hnew
    refine ⟨?_, hrealized'.trans hrealized, ?_⟩
    · rw [hbooks', hbooks, add_assoc]
      congr 1
      split <;> ring
    · exact (hpriced.insert (by simp [PositionRow.closedBy])).insert fun _ => rfl

/-! ### Conservation -/

/-- The books of a market are its cash, and its fills record what its positions realised. -/
structure Balanced (m : Market) (t : PaperTables) : Prop where
  priced : Priced t.positions
  books : t.positions.total (fun _ => PositionRow.book m) = t.cash m
  profits : t.positions.total (fun _ => PositionRow.realizedIn m) = t.pnlPoints m

namespace Balanced

variable {m : Market} {t t' : PaperTables}

theorem empty : Balanced m .empty :=
  ⟨fun _ _ h => absurd h (by simp [PaperTables.empty]), rfl, rfl⟩

theorem edits (h : Balanced m t) (he : EditsOrders t t') : Balanced m t' := by
  obtain ⟨hpriced, hbooks, hprofits⟩ := h
  refine ⟨?_, ?_, ?_⟩
  · rw [he.positions_eq]
    exact hpriced
  · rw [he.positions_eq, hbooks, PaperTables.cash, PaperTables.cash, he.fills_eq]
  · rw [he.positions_eq, hprofits, PaperTables.pnlPoints, PaperTables.pnlPoints, he.fills_eq]

variable {f : PaperFillCommand} {tr : PaperPositionTransition}

/-- The delta of a move is the side and quantity it records. -/
theorem move_signed {position : Option SavedPosition}
    {positions positions' : Dict String PositionRow} (hf : f.Made)
    (h : PositionMove f positions position tr positions') :
    paperFillDelta f ((position.map fun p => p.row.qty).getD 0) =
        .ok (tr.qty, tr.side, tr.signedDelta) ∧ tr.signedDelta = signedQty tr.side tr.qty := by
  cases h with
  | opened hdelta => exact ⟨hdelta, paperFillDelta_signed hf hdelta⟩
  | increased hdelta => exact ⟨hdelta, paperFillDelta_signed hf hdelta⟩
  | reduced hdelta => exact ⟨hdelta, paperFillDelta_signed hf hdelta⟩
  | closed hdelta => exact ⟨hdelta, paperFillDelta_signed hf hdelta⟩
  | reversed hdelta => exact ⟨hdelta, paperFillDelta_signed hf hdelta⟩

theorem fillRow_market (hf : f.Made) :
    (f.fillRow tr).market = f.market := by
  have hidentity : (f.fillRow tr).identity = f.identity := hf.identity_eq
  rw [FillRow.market, hidentity]
  rfl

/-- A fill that is recorded has a recorded profit exactly when it has one. -/
theorem fillRow_pnlPoints :
    (f.fillRow tr).pnlPoints.getD 0 = tr.pnl := by
  by_cases h : tr.pnl = 0 <;> simp [PaperFillCommand.fillRow, h]

theorem step {a : PaperAct} (ha : a.Measured t) (h : Balanced m t) (hstep : PaperStep t a t') :
    Balanced m t' := by
  obtain rfl := hstep
  by_cases happly : ∃ o now, a = .apply o now
  · obtain ⟨o, now, rfl⟩ := happly
    rcases perform_apply t o now with hsame | ⟨f, result, -, hf, hcommand, happlied⟩
    · rw [hsame]
      exact h
    generalize t.perform (.apply o now) = t' at happlied
    cases happlied with
    | replayed => exact h
    | cancelled => exact ⟨h.priced, h.books, h.profits⟩
    | @filled _ position tr _ _ _ _ _ _ _ _ hlocked _ hmove =>
      obtain ⟨hdelta, hsigned⟩ := move_signed hf hmove
      have hmeasured := ha _ (bind_eq_ok.mpr ⟨f, hcommand, bind_eq_ok.mpr ⟨position, hlocked,
        bind_eq_ok.mpr ⟨_, hdelta, rfl⟩⟩⟩)
      obtain ⟨hbooks, hrealized, hpriced⟩ := hmove.books (m := m) h.priced hlocked hmeasured
      have hmarket : (f.fillRow tr).market = f.market := fillRow_market hf
      refine ⟨hpriced, ?_, ?_⟩
      · rw [hbooks, h.books, PaperTables.cash, PaperTables.cash, List.filter_append,
          List.map_append, List.sum_append]
        congr 1
        by_cases hm : f.market = m
        · simp only [List.filter_singleton, hmarket, hm, decide_true, cond_true, List.map_singleton,
            List.sum_singleton, if_true, hsigned]
          rfl
        · simp [hmarket, hm]
      · rw [hrealized, h.profits, PaperTables.pnlPoints, PaperTables.pnlPoints, List.filter_append,
          List.map_append, List.sum_append]
        congr 1
        by_cases hm : f.market = m
        · simp [hmarket, hm, fillRow_pnlPoints]
        · simp [hmarket, hm]
  · push Not at happly
    exact h.edits (perform_edits happly)

theorem run {as : List PaperAct} (hrun : Run (Guarded PaperAct.Measured PaperStep) t as t')
    (h : Balanced m t) : Balanced m t' :=
  hrun.invariant (fun _ _ _ hs hstep => step hstep.1 hs hstep.2) h

end Balanced

/-- Marking what is open to a price: its profit at the mark is its value less its cost. -/
theorem PaperTables.openQty_mul (t : PaperTables) (m : Market) (mark : ℚ) :
    t.positions.total (fun _ => PositionRow.book m) + t.openQty m * mark =
      t.realized m + t.openProfit m mark := by
  simp only [PaperTables.openQty, PaperTables.realized, PaperTables.openProfit, Dict.total]
  rw [← List.sum_map_mul_right, ← List.sum_map_add, ← List.sum_map_add]
  refine congrArg List.sum (List.map_congr_left fun e _ => ?_)
  unfold PositionRow.book
  by_cases hm : e.2.market = m <;> by_cases hopen : e.2.status = .open <;>
    simp only [hm, hopen, and_true, and_false, if_true, if_false] <;> ring

/-- **Conservation.** In every state that repository calls reach from empty tables, in every market
and at every mark: what the fills brought in, plus the open quantity at the mark, is what the
positions realised plus what they have open at the mark; and the profits on fills are the profits
on positions. -/
theorem ledger_conserved {as : List PaperAct} {t : PaperTables}
    (hrun : Run (Guarded PaperAct.Measured PaperStep) .empty as t) (m : Market) :
    (∀ mark, t.cash m + t.openQty m * mark = t.realized m + t.openProfit m mark) ∧
      t.pnlPoints m = t.realized m := by
  have h : Balanced m t := Balanced.run hrun .empty
  exact ⟨fun mark => h.books ▸ t.openQty_mul m mark, h.profits.symm⟩

/-- Two long at 100, three sold at 103, the rest closed at 101: the fills brought in 8, which is what
the two positions realised. -/
theorem ledger_conserved_reversal :
    let m : Market := (⟨"AAPL", "route", spotContract.scopeKey⟩, "1m")
    let t := ((PaperTables.empty.perform (.apply (entryOrder "a" .long 2 100) 1)).perform
      (.apply (entryOrder "b" .short 3 103) 2)).perform
        (.apply (closeOrder "c" "pos-b-rev" 101) 3)
    t.cash m = 8 ∧ t.openQty m = 0 ∧
      ∀ mark, t.cash m + t.openQty m * mark = t.realized m + t.openProfit m mark := by
  have hrun : Run (Guarded PaperAct.Measured PaperStep) .empty
      [.apply (entryOrder "a" .long 2 100) 1, .apply (entryOrder "b" .short 3 103) 2,
        .apply (closeOrder "c" "pos-b-rev" 101) 3] _ :=
    .cons ⟨measured_of_isMeasured (by decide +kernel), rfl⟩ <|
      .cons ⟨measured_of_isMeasured (by decide +kernel), rfl⟩ <|
        .cons ⟨measured_of_isMeasured (by decide +kernel), rfl⟩ (.nil _)
  exact ⟨by decide +kernel, by decide +kernel, (ledger_conserved hrun _).1⟩

end AefTerminal
