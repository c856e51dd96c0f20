import AefTerminal.Paper.Repository
import Mathlib.Algebra.Order.Ring.Abs
import Mathlib.Tactic.Linarith

/-!
# Positions

What holds of every position row, and of the rows together: an open position is not empty, lies on
the side its document says and is the only one of its scope and timeframe; a closed one is empty
and dated.

The size of an opened position rests on two checks. A fill that opens one is an entry, and an entry
whose quantity is within the tolerance has its transaction rolled back by the protective-quantity
check, even when it carries no level.

## Main definitions

* `PositionRow.Sound`, `PositionsSound`

## Main results

* `paperFillDelta_signed`, `paperFillDelta_reduceOnly`: what the clamp does
* `PositionMove.sound`: every move keeps the positions sound
* `PositionMove.reduceOnly`: a reduce-only fill shrinks one position and opens none
-/

namespace AefTerminal

open Foundation

/-! ### The signed quantity of a fill -/

def signedQty (side : PaperSide) (qty : ℚ) : ℚ :=
  match side with
  | .long => qty
  | .short => -qty

theorem paperTolerance_pos : 0 < paperTolerance := by norm_num [paperTolerance]

variable {f : PaperFillCommand}

/-- Except for a manual close, an accepted command has a side and a positive quantity. -/
theorem PaperFillCommand.shape (hf : f.Made) (hmanual : f.manualClose = false) :
    ∃ side qty, f.command.side = some side ∧ f.command.qty = some qty ∧ 0 < qty ∧
      f.signedDelta = signedQty side qty := by
  rcases hf.accepted.wellFormed.shape with ⟨hrole, hreduce⟩ | ⟨hside, ⟨qty, hqty, hpos⟩, -⟩
  · simp [PaperFillCommand.manualClose, hrole, hreduce] at hmanual
  · obtain ⟨side, hside⟩ := Option.isSome_iff_exists.mp hside
    refine ⟨side, qty, hside, hqty, hpos, ?_⟩
    cases side <;> simp [PaperFillCommand.signedDelta, hmanual, hside, hqty, signedQty]

variable {qty : ℚ}

/-- The clamped delta of a reduce-only fill points against the position and is no larger. -/
theorem paperFillDelta_reduceOnly {positionQty delta : ℚ}
    {side : PaperSide} (hreduce : f.reduceOnly = true)
    (h : paperFillDelta f positionQty = .ok (qty, side, delta)) :
    positionQty * delta < 0 ∧ |delta| ≤ |positionQty| := by
  unfold paperFillDelta at h
  rw [if_pos hreduce] at h
  split at h
  · exact absurd h (by simp)
  rename_i hsize
  push Not at hsize
  have hne : positionQty ≠ 0 := abs_pos.mp (paperTolerance_pos.trans hsize)
  split at h
  · obtain ⟨-, -, rfl⟩ : |positionQty| = qty ∧ exitSide positionQty = side ∧ -positionQty = delta := by
      simpa using h
    exact ⟨by nlinarith [mul_self_pos.mpr hne], by rw [abs_neg]⟩
  split at h
  · exact absurd h (by simp)
  rename_i hagainst
  push Not at hagainst
  have hdelta : f.signedDelta ≠ 0 := by
    rintro hzero
    rw [hzero, mul_zero] at hagainst
    exact lt_irrefl _ hagainst
  have hmin : 0 < min |positionQty| |f.signedDelta| := lt_min (abs_pos.mpr hne) (abs_pos.mpr hdelta)
  dsimp only at h
  split at h
  · exact absurd h (by simp)
  obtain ⟨-, -, rfl⟩ : _ ∧ _ ∧ (if 0 < positionQty then -min |positionQty| |f.signedDelta|
      else min |positionQty| |f.signedDelta|) = delta := by simpa using h
  split
  · rename_i hpos
    exact ⟨by nlinarith, by rw [abs_neg, abs_of_pos hmin]; exact min_le_left ..⟩
  · rename_i hneg
    have hlt : positionQty < 0 := lt_of_le_of_ne (not_lt.mp hneg) hne
    exact ⟨by nlinarith, by rw [abs_of_pos hmin]; exact min_le_left ..⟩

/-- The recorded side and quantity of a fill are its signed delta. -/
theorem paperFillDelta_signed {positionQty delta : ℚ} {side : PaperSide}
    (hf : f.Made) (h : paperFillDelta f positionQty = .ok (qty, side, delta)) :
    delta = signedQty side qty := by
  unfold paperFillDelta at h
  split at h
  · split at h
    · exact absurd h (by simp)
    rename_i hsize
    push Not at hsize
    have hne : positionQty ≠ 0 := abs_pos.mp (paperTolerance_pos.trans hsize)
    split at h
    · obtain ⟨rfl, rfl, rfl⟩ : |positionQty| = qty ∧ exitSide positionQty = side ∧
        -positionQty = delta := by simpa using h
      unfold exitSide
      split
      · rename_i hpos
        simp [signedQty, abs_of_pos hpos]
      · rename_i hneg
        simp [signedQty, abs_of_nonpos (not_lt.mp hneg)]
    · rename_i hmanual
      obtain ⟨cside, cqty, hside, hqty, hpos, hsigned⟩ := f.shape hf (by simpa using hmanual)
      split at h
      · exact absurd h (by simp)
      rename_i hagainst
      push Not at hagainst
      rw [hside] at h
      obtain ⟨rfl, rfl, rfl⟩ : min |positionQty| |f.signedDelta| = qty ∧ cside = side ∧
        (if 0 < positionQty then -min |positionQty| |f.signedDelta|
          else min |positionQty| |f.signedDelta|) = delta := by simpa using h
      rw [hsigned] at hagainst ⊢
      -- the order is on the side that leaves the position
      cases cside with
      | long =>
        have hneg : ¬ 0 < positionQty := fun hp => absurd (mul_pos hp hpos) (not_lt.mpr hagainst.le)
        simp [signedQty, hneg]
      | short =>
        have hp : 0 < positionQty := by
          simp only [signedQty] at hagainst
          by_contra hle
          have := mul_nonneg_of_nonpos_of_nonpos (not_lt.mp hle) (neg_nonpos.mpr hpos.le)
          exact absurd hagainst (not_lt.mpr this)
        simp [signedQty, hp]
  · rename_i hreduce
    obtain ⟨cside, cqty, hside, hqty, hpos, hsigned⟩ :=
      f.shape hf (by simp [PaperFillCommand.manualClose]; simp_all [PaperFillCommand.reduceOnly])
    rw [hqty, hside] at h
    obtain ⟨rfl, rfl, rfl⟩ : cqty = qty ∧ cside = side ∧ f.signedDelta = delta := by simpa using h
    exact hsigned

/-! ### Sound positions -/

structure PositionRow.Sound (row : PositionRow) : Prop where
  open_qty : row.status = .open → paperTolerance < |row.qty|
  open_side : row.status = .open → row.document.side = positionSide row.qty
  closed_qty : row.status = .closed → row.qty = 0
  closed_at : row.status = .closed → row.closedAt.isSome

/-- Two rows are positions of one instrument, route, contract and timeframe. -/
def PositionRow.SameMarket (r s : PositionRow) : Prop :=
  r.document.identity.scope = s.document.identity.scope ∧ r.timeframe = s.timeframe

structure PositionsSound (positions : Dict String PositionRow) : Prop where
  row : ∀ id row, positions.get? id = some row → row.Sound
  one_open : ∀ i j r s, positions.get? i = some r → positions.get? j = some s →
    r.status = .open → s.status = .open → r.SameMarket s → i = j

/-- Writing one row keeps positions sound if no other open position shares its market. -/
theorem PositionsSound.insert {positions : Dict String PositionRow} {id : String}
    {row : PositionRow} (h : PositionsSound positions) (hrow : row.Sound)
    (hone : row.status = .open → ∀ j s, positions.get? j = some s → s.status = .open →
      row.SameMarket s → j = id) : PositionsSound (positions.insert id row) := by
  constructor
  · intro j s hs
    rw [Dict.get?_insert] at hs
    split at hs
    · cases hs
      exact hrow
    · exact h.row j s hs
  · intro i j r s hr hs hro hso hmarket
    rw [Dict.get?_insert] at hr hs
    split at hr <;> split at hs
    · rename_i hi hj
      exact hi.trans hj.symm
    · rename_i hi hj
      cases hr
      exact absurd (hone hro j s hs hso hmarket) hj
    · rename_i hi hj
      cases hs
      exact absurd (hone hso i r hr hro ⟨hmarket.1.symm, hmarket.2.symm⟩) hi
    · exact h.one_open i j r s hr hs hro hso hmarket

theorem positionSide_of_mul_pos {a b : ℚ} (h : 0 < a * b) : positionSide a = positionSide b := by
  unfold positionSide
  rcases mul_pos_iff.mp h with ⟨ha, hb⟩ | ⟨ha, hb⟩
  · rw [if_pos ha, if_pos hb]
  · rw [if_neg ha.le.not_gt, if_neg hb.le.not_gt]

theorem openedPosition_sound {average : ℚ}
    (hqty : paperTolerance < |qty|) : (openedPosition f qty average).Sound :=
  ⟨fun _ => hqty, fun _ => rfl, by simp [openedPosition], by simp [openedPosition]⟩

variable {t : PaperTables}

theorem Locked.sameMarket {p : SavedPosition}
    (h : Locked t f p) {average : ℚ} : (openedPosition f qty average).SameMarket p.row :=
  ⟨h.scope_eq.symm, h.timeframe_eq.symm⟩

/-- No other open position is where the locked one is. -/
theorem PositionsSound.locked_only {p : SavedPosition}
    (h : PositionsSound t.positions) (hp : Locked t f p) {j : String} {s : PositionRow}
    (hs : t.positions.get? j = some s) (hso : s.status = .open) (hmarket : p.row.SameMarket s) :
    j = p.id :=
  (h.one_open p.id j p.row s hp.stored hs hp.isOpen hso hmarket).symm

theorem PositionRow.closedBy_sound {row : PositionRow} (f : PaperFillCommand) (pnl : ℚ) :
    (row.closedBy f pnl).Sound :=
  ⟨by simp [PositionRow.closedBy], by simp [PositionRow.closedBy], fun _ => rfl, fun _ => rfl⟩

/-- **Every move keeps the positions sound.** -/
theorem PositionMove.sound {position : Option SavedPosition}
    {tr : PaperPositionTransition} {positions : Dict String PositionRow}
    (hsound : PositionsSound t.positions) (hlocked : lockedPaperFillPosition t f = .ok position)
    (hentry : position = none → f.reduceOnly = false ∧ paperTolerance < |tr.signedDelta|)
    (h : PositionMove f t.positions position tr positions) : PositionsSound positions := by
  cases h with
  | opened hdelta hvalid hnew =>
    obtain ⟨hreduce, hqty⟩ := hentry rfl
    refine hsound.insert (openedPosition_sound (by simpa using hqty)) ?_
    rintro - j s hs hso ⟨hscope, htf⟩
    refine absurd ?_ (lockedPaperFillPosition_none hlocked hs)
    exact isFillPosition_iff.mpr ⟨hscope.symm, htf.symm, hso, by
      simp [PaperFillCommand.targetPositionId, hreduce]⟩
  | @increased p qty delta side hdelta hsame hreduce =>
    have hp := lockedPaperFillPosition_some hlocked
    have hrow := hsound.row _ _ hp.stored
    have hold := hrow.open_qty hp.isOpen
    have hne : p.row.qty ≠ 0 := abs_pos.mp (paperTolerance_pos.trans hold)
    have hsame' : 0 < p.row.qty * delta := hsame.resolve_left hne
    have hsize : |p.row.qty + delta| = |p.row.qty| + |delta| :=
      abs_add_eq_add_abs_iff _ _ |>.mpr (by
        rcases mul_pos_iff.mp hsame' with ⟨ha, hb⟩ | ⟨ha, hb⟩
        · exact .inl ⟨ha.le, hb.le⟩
        · exact .inr ⟨ha.le, hb.le⟩)
    have hside : positionSide p.row.qty = positionSide (p.row.qty + delta) :=
      positionSide_of_mul_pos (by nlinarith [mul_self_pos.mpr hne])
    refine hsound.insert ⟨fun _ => ?_, fun _ => ?_, ?_, ?_⟩ ?_
    · rw [hsize]
      exact lt_add_of_lt_of_nonneg hold (abs_nonneg _)
    · exact (hrow.open_side hp.isOpen).trans hside
    · simp [hp.isOpen]
    · simp [hp.isOpen]
    · intro _ j s hs hso hmarket
      exact hsound.locked_only hp hs hso hmarket
  | @reduced p qty delta side hdelta hagainst hleft hsign =>
    have hp := lockedPaperFillPosition_some hlocked
    have hrow := hsound.row _ _ hp.stored
    refine hsound.insert ⟨fun _ => hleft, fun _ => ?_, ?_, ?_⟩ ?_
    · exact (hrow.open_side hp.isOpen).trans (positionSide_of_mul_pos hsign)
    · simp [hp.isOpen]
    · simp [hp.isOpen]
    · intro _ j s hs hso hmarket
      exact hsound.locked_only hp hs hso hmarket
  | closed hdelta hne hagainst hleft =>
    exact hsound.insert (PositionRow.closedBy_sound f _) (by simp [PositionRow.closedBy])
  | @reversed p qty delta side hdelta hne hagainst hleft hsign hvalid hnew =>
    have hp := lockedPaperFillPosition_some hlocked
    have hclosed : PositionsSound (t.positions.insert p.id (p.row.closedBy f (p.pnl f delta))) :=
      hsound.insert (PositionRow.closedBy_sound f _) (by simp [PositionRow.closedBy])
    refine hclosed.insert (openedPosition_sound hleft) ?_
    rintro - j s hs hso ⟨hscope, htf⟩
    -- the only open position of the market was the one just closed
    rw [Dict.get?_insert] at hs
    split at hs
    · cases hs
      simp [PositionRow.closedBy] at hso
    · rename_i hj
      refine absurd (hsound.locked_only hp hs hso ⟨?_, ?_⟩) hj
      · exact hp.sameMarket.1.symm.trans hscope
      · exact hp.sameMarket.2.symm.trans htf

/-- **A reduce-only fill** leaves every position no larger, on its side, and opens none. -/
theorem PositionMove.reduceOnly {position : Option SavedPosition} {tr : PaperPositionTransition}
    {positions : Dict String PositionRow} (hreduce : f.reduceOnly = true)
    (hlocked : lockedPaperFillPosition t f = .ok position) (hsome : position.isSome)
    (h : PositionMove f t.positions position tr positions) :
    ∀ id row', positions.get? id = some row' → ∃ row, t.positions.get? id = some row ∧
      |row'.qty| ≤ |row.qty| ∧ 0 ≤ row.qty * row'.qty ∧
      (row'.status = .open → row.status = .open) := by
  intro id row' hrow'
  cases h with
  | opened => simp at hsome
  | increased _ _ hentry => simp [hreduce] at hentry
  | @reduced p qty delta side hdelta hagainst hleft hsign =>
    have hp := lockedPaperFillPosition_some hlocked
    obtain ⟨hlt, hle⟩ := paperFillDelta_reduceOnly hreduce hdelta
    rw [Dict.get?_insert] at hrow'
    split at hrow'
    · rename_i hid
      cases hrow'
      refine ⟨p.row, hid ▸ hp.stored, ?_, hsign.le, fun h => h⟩
      have hd : |delta| * |delta| ≤ |p.row.qty| * |delta| :=
        mul_le_mul_of_nonneg_right hle (abs_nonneg _)
      rw [abs_mul_abs_self, ← abs_mul, abs_of_neg hlt] at hd
      exact sq_le_sq.mp (by nlinarith)
    · exact ⟨row', hrow', le_rfl, mul_self_nonneg _, fun h => h⟩
  | @closed p qty delta side hdelta hne hagainst hleft =>
    have hp := lockedPaperFillPosition_some hlocked
    rw [Dict.get?_insert] at hrow'
    split at hrow'
    · rename_i hid
      cases hrow'
      exact ⟨p.row, hid ▸ hp.stored, by simp [PositionRow.closedBy], by simp [PositionRow.closedBy],
        fun _ => hp.isOpen⟩
    · exact ⟨row', hrow', le_rfl, mul_self_nonneg _, fun h => h⟩
  | @reversed p qty delta side hdelta hne hagainst hleft hsign =>
    -- the clamp never takes more than the position
    obtain ⟨hlt, hle⟩ := paperFillDelta_reduceOnly hreduce hdelta
    have hd : |p.row.qty| * |delta| ≤ |p.row.qty| * |p.row.qty| :=
      mul_le_mul_of_nonneg_left hle (abs_nonneg _)
    rw [abs_mul_abs_self, ← abs_mul, abs_of_neg hlt] at hd
    have hzero : p.row.qty * (p.row.qty + delta) = 0 := le_antisymm hsign (by nlinarith)
    have hempty := (mul_eq_zero.mp hzero).resolve_left hne
    rw [hempty, abs_zero] at hleft
    exact absurd hleft (not_lt.mpr paperTolerance_pos.le)

end AefTerminal
