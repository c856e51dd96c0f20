import Mathlib.Algebra.Order.Field.Basic
import Mathlib.Algebra.Order.Ring.Abs
import Mathlib.Tactic.Linarith
import Mathlib.Tactic.Positivity
import Mathlib.Tactic.Ring

/-!
# Bisection

Search for a zero between two points where a function has opposite signs. The interval is halved a
number of times, and the half that has a change of sign is kept; the search ends early at a value or
an interval within a tolerance. Only the value at the left end is carried along: the right end had
the other sign, and no midpoint that is kept is a zero.

The function may be undefined at a point that is asked for, and then there is no result.

## Main results

* `exists_bisect`: what a search between opposite signs returns
-/

namespace Foundation

variable {K : Type*} [Field K] [LinearOrder K]

/-- The function has opposite signs at the points. -/
def SignChange (f : K → K) (a b : K) : Prop := f a * f b < 0

instance (f : K → K) (a b : K) : Decidable (SignChange f a b) := inferInstanceAs (Decidable (_ < _))

/-- The interval is halved `n` times, or until a value or the interval is within the tolerance. -/
def bisect (f : K → Option K) (tolerance : K) : ℕ → K → K → K → Option K
  | 0, left, right, _ => some ((left + right) / 2)
  | n + 1, left, right, leftValue => do
    let middle := (left + right) / 2
    let middleValue ← f middle
    if |middleValue| ≤ tolerance ∨ right - left ≤ tolerance then some middle
    else if leftValue * middleValue ≤ 0 then bisect f tolerance n left middle leftValue
    else bisect f tolerance n middle right middleValue

/-- The root is in the interval, at a value within the tolerance or in a bracket of a change of sign
that is as short as the search makes it. -/
structure Bisected (f : K → K) (tolerance : K) (n : ℕ) (left right root : K) : Prop where
  mem : left ≤ root ∧ root ≤ right
  close : |f root| ≤ tolerance ∨ ∃ a b, left ≤ a ∧ a ≤ root ∧ root ≤ b ∧ b ≤ right ∧
    SignChange f a b ∧ (b - a ≤ tolerance ∨ b - a = (right - left) / 2 ^ n)

section Ordered

variable [IsStrictOrderedRing K] {f : K → Option K} {g : K → K} {tolerance : K} {n : ℕ}
  {left right middle root a b c : K}

theorem left_le_middle (h : left ≤ right) : left ≤ (left + right) / 2 := by linarith

theorem middle_le_right (h : left ≤ right) : (left + right) / 2 ≤ right := by linarith

/-- Of two points with opposite signs, a third one has the sign of one of them. -/
theorem SignChange.right_of_pos (h : SignChange g a b) (hpos : 0 < g a * g c) : SignChange g c b := by
  have ha : g a ≠ 0 := fun hzero => by simp [hzero] at hpos
  have hsq : 0 < g a * g a := mul_self_pos.mpr ha
  have hprod : (g a * g c) * (g a * g b) < 0 := mul_neg_of_pos_of_neg hpos h
  by_contra hnot
  have hnonneg : 0 ≤ (g a * g a) * (g c * g b) := mul_nonneg hsq.le (not_lt.mp hnot)
  have heq : (g a * g a) * (g c * g b) = (g a * g c) * (g a * g b) := by ring
  linarith

omit [IsStrictOrderedRing K] in
/-- A search in one half is a search in the whole, halved once more. -/
theorem Bisected.of_half (h : Bisected g tolerance n a b root) (hleft : left ≤ a) (hright : b ≤ right)
    (hhalf : b - a = (right - left) / 2) : Bisected g tolerance (n + 1) left right root where
  mem := ⟨hleft.trans h.mem.1, h.mem.2.trans hright⟩
  close := by
    refine h.close.imp_right ?_
    rintro ⟨c, d, hac, hcr, hrd, hdb, hsign, hwidth⟩
    refine ⟨c, d, hleft.trans hac, hcr, hrd, hdb.trans hright, hsign, hwidth.imp_right fun heq => ?_⟩
    rw [heq, hhalf, div_div, pow_succ']

/-- The search between opposite signs returns, and its root is bracketed. -/
theorem exists_bisect (htolerance : 0 ≤ tolerance) (hle : left ≤ right)
    (hvalue : ∀ x, left ≤ x → x ≤ right → f x = some (g x)) (hsign : SignChange g left right) :
    ∃ root, bisect f tolerance n left right (g left) = some root ∧
      Bisected g tolerance n left right root := by
  induction n generalizing left right with
  | zero =>
    refine ⟨(left + right) / 2, rfl, ⟨left_le_middle hle, middle_le_right hle⟩, .inr
      ⟨left, right, le_rfl, left_le_middle hle, middle_le_right hle, le_rfl, hsign, .inr ?_⟩⟩
    rw [pow_zero, div_one]
  | succ n ih =>
    have hl := left_le_middle hle
    have hr := middle_le_right hle
    simp only [bisect, hvalue _ hl hr, Option.bind_eq_bind, Option.bind_some]
    split_ifs with hstop hproduct
    · refine ⟨_, rfl, ⟨hl, hr⟩, hstop.imp_right fun hwidth => ?_⟩
      exact ⟨left, right, le_rfl, hl, hr, le_rfl, hsign, .inl hwidth⟩
    · -- the midpoint is no zero, so its sign is not that of the left end
      obtain ⟨hfar, -⟩ := not_or.mp hstop
      have hmiddle : g ((left + right) / 2) ≠ 0 := fun hzero => by
        rw [hzero, abs_zero] at hfar
        exact hfar htolerance
      have hleft : g left ≠ 0 := fun hzero => by simp [SignChange, hzero] at hsign
      have hchange : SignChange g left ((left + right) / 2) :=
        lt_of_le_of_ne hproduct (mul_ne_zero hleft hmiddle)
      obtain ⟨root, hroot, hbisected⟩ := ih hl (fun x hx hx' => hvalue x hx (hx'.trans hr)) hchange
      exact ⟨root, hroot, hbisected.of_half le_rfl hr (by ring)⟩
    · have hchange := hsign.right_of_pos (not_le.mp hproduct)
      obtain ⟨root, hroot, hbisected⟩ := ih hr (fun x hx hx' => hvalue x (hl.trans hx) hx') hchange
      exact ⟨root, hroot, hbisected.of_half hl le_rfl (by ring)⟩

end Ordered

end Foundation
