import Mathlib.Order.MinMax
import Mathlib.Data.List.Basic
import Mathlib.Data.List.Chain

/-!
# Half-open spans

A span holds the points from its start up to, but not including, its end. Two spans meet where they
hold a common point, which for proper spans can be read off their ends.

A scan that advances a mark through spans, as long as each begins at or before the mark, moves the
mark over points that the spans hold and over no others.

## Main results

* `Span.Holds.meets`, `Span.Meets.exists_holds`: proper spans meet where they hold a common point
* `Span.pairwise_apart`: spans that follow each other are pairwise apart
* `coveredUntil_spec`: every point that the mark has passed is held
* `coveredUntil_stops`: where the scan ends before its goal, no span holds the mark
-/

namespace Foundation

/-- The points from `starts` up to `ends`. -/
structure Span (τ : Type*) where
  starts : τ
  ends : τ
  deriving DecidableEq, Repr

namespace Span

variable {τ : Type*} [LinearOrder τ]

/-- The point lies in the span. -/
def Holds (s : Span τ) (t : τ) : Prop := s.starts ≤ t ∧ t < s.ends

/-- Each span begins before the other ends. -/
def Meets (s s' : Span τ) : Prop := s.starts < s'.ends ∧ s'.starts < s.ends

def Within (s s' : Span τ) : Prop := s'.starts ≤ s.starts ∧ s.ends ≤ s'.ends

/-- The span holds a point. -/
def Proper (s : Span τ) : Prop := s.starts < s.ends

instance (s : Span τ) (t : τ) : Decidable (s.Holds t) := inferInstanceAs (Decidable (_ ∧ _))

instance (s s' : Span τ) : Decidable (s.Meets s') := inferInstanceAs (Decidable (_ ∧ _))

instance (s s' : Span τ) : Decidable (s.Within s') := inferInstanceAs (Decidable (_ ∧ _))

instance (s : Span τ) : Decidable s.Proper := inferInstanceAs (Decidable (_ < _))

variable {s s' : Span τ} {t : τ}

theorem Holds.proper (h : s.Holds t) : s.Proper := lt_of_le_of_lt h.1 h.2

theorem Holds.meets (h : s.Holds t) (h' : s'.Holds t) : s.Meets s' :=
  ⟨lt_of_le_of_lt h.1 h'.2, lt_of_le_of_lt h'.1 h.2⟩

theorem Meets.symm (h : s.Meets s') : s'.Meets s := And.symm h

theorem Within.holds (h : s.Within s') (ht : s.Holds t) : s'.Holds t :=
  ⟨h.1.trans ht.1, lt_of_lt_of_le ht.2 h.2⟩

/-- Proper spans that meet hold a common point. -/
theorem Meets.exists_holds (h : s.Meets s') (hs : s.Proper) (hs' : s'.Proper) :
    ∃ t, s.Holds t ∧ s'.Holds t :=
  ⟨max s.starts s'.starts, ⟨le_max_left _ _, max_lt hs h.2⟩, ⟨le_max_right _ _, max_lt h.1 hs'⟩⟩

/-- A proper span that is not within another holds a point outside. -/
theorem exists_holds_of_not_within (hs : s.Proper) (h : ¬ s.Within s') :
    ∃ t, s.Holds t ∧ ¬ s'.Holds t := by
  rcases lt_or_ge s.starts s'.starts with hstart | hstart
  · exact ⟨s.starts, ⟨le_refl _, hs⟩, fun ht => absurd ht.1 (not_le.mpr hstart)⟩
  · have hend : s'.ends < s.ends := lt_of_not_ge fun hend => h ⟨hstart, hend⟩
    exact ⟨max s.starts s'.ends, ⟨le_max_left _ _, max_lt hs hend⟩,
      fun ht => absurd ht.2 (not_lt.mpr (le_max_right _ _))⟩

/-- The first span ends before the second begins. -/
def Before (s s' : Span τ) : Prop := s.ends ≤ s'.starts

theorem Before.not_meets (h : s.Before s') : ¬ s.Meets s' := fun hm => absurd hm.2 (not_lt.mpr h)

theorem Before.trans {s'' : Span τ} (h : s.Before s') (hs' : s'.Proper) (h' : s'.Before s'') :
    s.Before s'' :=
  le_trans (le_trans h hs'.le) h'

/-- Proper spans, each of which ends before the next begins, are pairwise apart. -/
theorem pairwise_apart {spans : List (Span τ)} (hproper : ∀ s ∈ spans, s.Proper)
    (hchain : spans.IsChain Before) : spans.Pairwise fun s s' => ¬ s.Meets s' := by
  suffices h : spans.Pairwise Before from h.imp Before.not_meets
  induction spans with
  | nil => exact .nil
  | cons s spans ih =>
    have hrest := ih (fun s' hs' => hproper s' (List.mem_cons_of_mem _ hs')) hchain.tail
    refine .cons (fun s' hs' => ?_) hrest
    cases spans with
    | nil => exact absurd hs' List.not_mem_nil
    | cons s₁ spans =>
      have hfirst : s.Before s₁ := (List.isChain_cons_cons.mp hchain).1
      rcases List.mem_cons.mp hs' with rfl | hs'
      · exact hfirst
      · exact hfirst.trans (hproper s₁ (by simp)) (List.rel_of_pairwise_cons hrest hs')

end Span

section Covered

variable {τ : Type*} [LinearOrder τ]

/-- How far the spans, in their order, cover the points from `mark` on without a gap. The scan
stops at a gap, and where it has reached `goal`. -/
def coveredUntil (goal mark : τ) : List (Span τ) → τ
  | [] => mark
  | s :: spans =>
    if s.ends ≤ mark then coveredUntil goal mark spans
    else if mark < s.starts then mark
    else if goal ≤ s.ends then s.ends
    else coveredUntil goal s.ends spans

/-- Every point between the mark and where the scan ends is held by a span. -/
theorem coveredUntil_spec {goal mark t : τ} {spans : List (Span τ)} (hle : mark ≤ t)
    (hlt : t < coveredUntil goal mark spans) : ∃ s ∈ spans, s.Holds t := by
  induction spans generalizing mark with
  | nil => exact absurd hlt (not_lt.mpr hle)
  | cons s spans ih =>
    have hrest {m : τ} (hm : m ≤ t) (ht : t < coveredUntil goal m spans) :
        ∃ s' ∈ s :: spans, s'.Holds t := by
      obtain ⟨s', hs', hholds⟩ := ih hm ht
      exact ⟨s', List.mem_cons_of_mem _ hs', hholds⟩
    rw [coveredUntil] at hlt
    split at hlt
    · exact hrest hle hlt
    split at hlt
    · exact absurd hlt (not_lt.mpr hle)
    rename_i _ hstart
    rcases lt_or_ge t s.ends with hin | hout
    · exact ⟨s, by simp, (not_lt.mp hstart).trans hle, hin⟩
    split at hlt
    · exact absurd hlt (not_lt.mpr hout)
    · exact hrest hout hlt

theorem le_coveredUntil {goal mark : τ} {spans : List (Span τ)} :
    mark ≤ coveredUntil goal mark spans := by
  induction spans generalizing mark with
  | nil => exact le_rfl
  | cons s spans ih =>
    rw [coveredUntil]
    split_ifs with hpassed
    · exact ih
    · exact le_rfl
    · exact (not_le.mp hpassed).le
    · exact (not_le.mp hpassed).le.trans ih

/-- The scan of spans in the order of their starts ends at the goal or at a gap. -/
theorem coveredUntil_stops {goal mark : τ} {spans : List (Span τ)}
    (hsorted : spans.Pairwise fun s s' => s.starts ≤ s'.starts) :
    goal ≤ coveredUntil goal mark spans ∨ ∀ s ∈ spans, ¬ s.Holds (coveredUntil goal mark spans) := by
  induction spans generalizing mark with
  | nil => exact .inr fun s hs => nomatch hs
  | cons s spans ih =>
    obtain ⟨hfirst, hsorted⟩ := List.pairwise_cons.mp hsorted
    have hrest {m : τ} (hends : s.ends ≤ m) : goal ≤ coveredUntil goal m spans ∨
        ∀ s' ∈ s :: spans, ¬ s'.Holds (coveredUntil goal m spans) := by
      refine (ih hsorted).imp_right fun h => List.forall_mem_cons.mpr ⟨fun hs => ?_, h⟩
      exact absurd hs.2 (not_lt.mpr (hends.trans le_coveredUntil))
    rw [coveredUntil]
    split_ifs with hpassed hgap hreached
    · exact hrest hpassed
    · refine .inr (List.forall_mem_cons.mpr ⟨fun hs => absurd hs.1 (not_le.mpr hgap), ?_⟩)
      intro s' hs' hs
      exact absurd hs.1 (not_le.mpr (hgap.trans_le (hfirst s' hs')))
    · exact .inl hreached
    · exact hrest le_rfl

end Covered

end Foundation
