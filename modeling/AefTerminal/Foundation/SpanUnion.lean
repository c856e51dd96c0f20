import AefTerminal.Foundation.Span

/-!
# Unions and differences of spans

A set of points that is a finite union of spans has one list of spans that stands for it: proper
spans in their order, with a gap between each and the next. Two such lists that hold the same points
are the same list, so whatever computes one computes it from the points alone.

Spans in the order of their starts are joined in one pass, and what a window has beside them is read
off in another.

## Main results

* `Separated.ext`: the list is determined by the points it holds
* `held_joined`, `separated_joined`: joining spans keeps the points
* `held_gaps`, `separated_gaps`: the gaps are what the window holds beside the spans
* `within_separated_iff`: a window whose points are all held lies in one of the spans
-/

namespace Foundation

namespace Span

variable {τ : Type*} [LinearOrder τ]

/-- One of the spans holds the point. -/
def Held (spans : List (Span τ)) (t : τ) : Prop := ∃ s ∈ spans, s.Holds t

/-- Proper spans in their order, none of which touches the next. -/
structure Separated (spans : List (Span τ)) : Prop where
  proper : ∀ s ∈ spans, s.Proper
  gap : spans.Pairwise fun s s' => s.ends < s'.starts

variable {s s' w : Span τ} {spans : List (Span τ)} {t : τ}

@[simp] theorem not_held_nil : ¬ Held ([] : List (Span τ)) t := fun ⟨_, hs, _⟩ => nomatch hs

@[simp] theorem held_cons : Held (s :: spans) t ↔ s.Holds t ∨ Held spans t := by
  simp [Held]

variable {spans' : List (Span τ)}

@[simp] theorem held_append :
    Held (spans ++ spans') t ↔ Held spans t ∨ Held spans' t := by
  simp [Held, or_and_right, exists_or]

theorem separated_nil : Separated ([] : List (Span τ)) := ⟨fun _ hs => (nomatch hs), .nil⟩

theorem separated_cons :
    Separated (s :: spans) ↔
      s.Proper ∧ (∀ s' ∈ spans, s.ends < s'.starts) ∧ Separated spans := by
  constructor
  · rintro ⟨hproper, hgap⟩
    obtain ⟨hfirst, hrest⟩ := List.pairwise_cons.mp hgap
    exact ⟨hproper s (by simp), hfirst, fun s' hs' => hproper s' (by simp [hs']), hrest⟩
  · rintro ⟨hs, hfirst, hproper, hgap⟩
    exact ⟨List.forall_mem_cons.mpr ⟨hs, hproper⟩, List.pairwise_cons.mpr ⟨hfirst, hgap⟩⟩

theorem separated_singleton (hs : s.Proper) : Separated [s] :=
  separated_cons.mpr ⟨hs, fun _ h => (nomatch h), separated_nil⟩

/-- The spans after the first begin after it ends. -/
theorem lt_of_held_tail (h : Separated (s :: spans)) (ht : Held spans t) : s.ends < t := by
  obtain ⟨s', hs', hholds⟩ := ht
  exact lt_of_lt_of_le ((separated_cons.mp h).2.1 s' hs') hholds.1

/-- Nothing is held before the first span. -/
theorem starts_le_of_held (h : Separated (s :: spans)) (ht : Held (s :: spans) t) :
    s.starts ≤ t := by
  rcases held_cons.mp ht with hs | hrest
  · exact hs.1
  · exact ((separated_cons.mp h).1.le.trans (lt_of_held_tail h hrest).le)

theorem held_starts (h : Separated (s :: spans)) : Held (s :: spans) s.starts :=
  ⟨s, by simp, le_refl _, (separated_cons.mp h).1⟩

/-- The point where a span ends is not held. -/
theorem not_held_ends (h : Separated spans) (hs : s ∈ spans) : ¬ Held spans s.ends := by
  induction spans with
  | nil => exact not_held_nil
  | cons s₁ spans ih =>
    obtain ⟨hproper, hfirst, hrest⟩ := separated_cons.mp h
    rw [held_cons]
    rcases List.mem_cons.mp hs with rfl | hs
    · rintro (hholds | hheld)
      · exact absurd hholds.2 (lt_irrefl _)
      · exact absurd (lt_of_held_tail h hheld) (lt_irrefl _)
    · rintro (hholds | hheld)
      · exact absurd ((hfirst s hs).trans (hrest.proper s hs)) (not_lt.mpr hholds.2.le)
      · exact ih hrest hs hheld

/-! ### The list is determined by its points -/

/-- Of two lists that hold the same points, neither first span is longer. -/
theorem ends_le_of_held (h : Separated (s :: spans)) (hstarts : s.starts = s'.starts)
    (hheld : ∀ t, Held (s :: spans) t ↔ Held (s' :: spans') t) : s'.ends ≤ s.ends := by
  by_contra hlonger
  have hin : s'.Holds s.ends := ⟨hstarts ▸ (separated_cons.mp h).1.le, not_le.mp hlonger⟩
  exact not_held_ends h (by simp) ((hheld s.ends).mpr (held_cons.mpr (.inl hin)))

theorem Separated.ext (h : Separated spans) (h' : Separated spans')
    (hheld : ∀ t, Held spans t ↔ Held spans' t) : spans = spans' := by
  induction spans generalizing spans' with
  | nil =>
    cases spans' with
    | nil => rfl
    | cons s' spans' => exact absurd ((hheld s'.starts).mpr (held_starts h')) not_held_nil
  | cons s spans ih =>
    cases spans' with
    | nil => exact absurd ((hheld s.starts).mp (held_starts h)) not_held_nil
    | cons s' spans' =>
      have hstarts : s.starts = s'.starts :=
        le_antisymm (starts_le_of_held h ((hheld _).mpr (held_starts h')))
          (starts_le_of_held h' ((hheld _).mp (held_starts h)))
      have hends : s.ends = s'.ends :=
        le_antisymm (ends_le_of_held h' hstarts.symm fun t => (hheld t).symm)
          (ends_le_of_held h hstarts hheld)
      obtain rfl : s = s' := by
        cases s
        cases s'
        simp_all
      -- past the end of the common first span the points are those of the rests
      have hrest : ∀ t, Held spans t ↔ Held spans' t := by
        intro t
        constructor
        · intro ht
          rcases held_cons.mp ((hheld t).mp (held_cons.mpr (.inr ht))) with hs | ht'
          · exact absurd hs.2 (not_lt.mpr (lt_of_held_tail h ht).le)
          · exact ht'
        · intro ht
          rcases held_cons.mp ((hheld t).mpr (held_cons.mpr (.inr ht))) with hs | ht'
          · exact absurd hs.2 (not_lt.mpr (lt_of_held_tail h' ht).le)
          · exact ht'
      rw [ih (separated_cons.mp h).2.2 (separated_cons.mp h').2.2 hrest]

/-! ### Joining spans -/

/-- The spans that follow `last`, joined to it as long as they touch. -/
def joined (last : Span τ) : List (Span τ) → List (Span τ)
  | [] => [last]
  | s :: spans =>
    if last.ends < s.starts then last :: joined s spans
    else joined ⟨last.starts, max last.ends s.ends⟩ spans

/-- What a span and one that begins in it or where it ends hold together. -/
theorem holds_join (hstart : s.starts ≤ s'.starts) (htouch : s'.starts ≤ s.ends) :
    (⟨s.starts, max s.ends s'.ends⟩ : Span τ).Holds t ↔ s.Holds t ∨ s'.Holds t := by
  constructor
  · rintro ⟨hle, hlt⟩
    rcases lt_or_ge t s.ends with hin | hout
    · exact .inl ⟨hle, hin⟩
    · exact .inr ⟨htouch.trans hout, (lt_max_iff.mp hlt).resolve_left (not_lt.mpr hout)⟩
  · rintro (h | h)
    · exact ⟨h.1, lt_max_of_lt_left h.2⟩
    · exact ⟨hstart.trans h.1, lt_max_of_lt_right h.2⟩

theorem held_joined {last : Span τ}
    (hsorted : (last :: spans).Pairwise fun s s' => s.starts ≤ s'.starts) :
    Held (joined last spans) t ↔ last.Holds t ∨ Held spans t := by
  induction spans generalizing last with
  | nil => simp [joined]
  | cons s spans ih =>
    obtain ⟨hfirst, hrest⟩ := List.pairwise_cons.mp hsorted
    rw [joined]
    split
    · rw [held_cons, ih hrest, held_cons]
    · rename_i htouch
      have hsorted' : (⟨last.starts, max last.ends s.ends⟩ :: spans : List (Span τ)).Pairwise
          fun s s' => s.starts ≤ s'.starts :=
        List.pairwise_cons.mpr ⟨fun s' hs' => hfirst s' (by simp [hs']), hrest.tail⟩
      rw [ih hsorted', holds_join (hfirst s (by simp)) (not_lt.mp htouch), held_cons, or_assoc]

/-- Every joined span begins no earlier than the first. -/
theorem starts_le_of_mem_joined {last : Span τ}
    (hsorted : (last :: spans).Pairwise fun s s' => s.starts ≤ s'.starts)
    (hs : s ∈ joined last spans) : last.starts ≤ s.starts := by
  induction spans generalizing last with
  | nil =>
    obtain rfl : s = last := by simpa [joined] using hs
    exact le_rfl
  | cons s₁ spans ih =>
    obtain ⟨hfirst, hrest⟩ := List.pairwise_cons.mp hsorted
    rw [joined] at hs
    split at hs
    · rcases List.mem_cons.mp hs with rfl | hs
      · exact le_rfl
      · exact (hfirst s₁ (by simp)).trans (ih hrest hs)
    · have hjoined : (⟨last.starts, max last.ends s₁.ends⟩ : Span τ).starts ≤ s.starts :=
        ih (List.pairwise_cons.mpr ⟨fun s' hs' => hfirst s' (by simp [hs']), hrest.tail⟩) hs
      exact hjoined

theorem separated_joined {last : Span τ}
    (hsorted : (last :: spans).Pairwise fun s s' => s.starts ≤ s'.starts)
    (hproper : ∀ s ∈ last :: spans, s.Proper) : Separated (joined last spans) := by
  induction spans generalizing last with
  | nil => exact separated_singleton (hproper last (by simp))
  | cons s spans ih =>
    obtain ⟨hfirst, hrest⟩ := List.pairwise_cons.mp hsorted
    obtain ⟨hlast, hothers⟩ := List.forall_mem_cons.mp hproper
    rw [joined]
    split
    · rename_i hgap
      refine separated_cons.mpr ⟨hlast, fun s' hs' => ?_, ih hrest hothers⟩
      exact lt_of_lt_of_le hgap (starts_le_of_mem_joined hrest hs')
    · refine ih ?_ ?_
      · exact List.pairwise_cons.mpr ⟨fun s' hs' => hfirst s' (by simp [hs']), hrest.tail⟩
      · refine List.forall_mem_cons.mpr ⟨lt_max_of_lt_left hlast, fun s' hs' => ?_⟩
        exact hothers s' (by simp [hs'])

/-! ### What a window has beside the spans -/

/-- The rest of the window, where it is not empty. -/
def remainder (cursor goal : τ) : List (Span τ) :=
  if cursor < goal then [⟨cursor, goal⟩] else []

/-- What the window up to `goal` has from the cursor on beside the spans. -/
def gaps (goal cursor : τ) : List (Span τ) → List (Span τ)
  | [] => remainder cursor goal
  | s :: spans =>
    if s.ends ≤ cursor then gaps goal cursor spans
    else if goal ≤ s.starts then remainder cursor goal
    else remainder cursor s.starts ++ gaps goal s.ends spans

variable {goal cursor : τ}

theorem held_remainder : Held (remainder cursor goal) t ↔ cursor ≤ t ∧ t < goal := by
  rw [remainder]
  split
  · simp [Held, Holds]
  · rename_i hempty
    simp only [not_held_nil, false_iff, not_and]
    exact fun hle hlt => hempty (hle.trans_lt hlt)

theorem mem_remainder : s ∈ remainder cursor goal ↔ s = ⟨cursor, goal⟩ ∧ cursor < goal := by
  rw [remainder]
  split <;> simp_all

theorem separated_remainder : Separated (remainder cursor goal) := by
  rw [remainder]
  split
  · exact separated_singleton ‹_›
  · exact separated_nil

theorem held_gaps (h : Separated spans) :
    Held (gaps goal cursor spans) t ↔ (cursor ≤ t ∧ t < goal) ∧ ¬ Held spans t := by
  induction spans generalizing cursor with
  | nil => simp [gaps, held_remainder]
  | cons s spans ih =>
    obtain ⟨hs, hfirst, hrest⟩ := separated_cons.mp h
    rw [gaps]
    split
    · rename_i hpast
      rw [ih hrest, held_cons, not_or]
      refine and_congr_right fun hwindow => (and_iff_right ?_).symm
      exact fun hholds => absurd hholds.2 (not_lt.mpr (hpast.trans hwindow.1))
    split
    · rename_i hbeyond
      rw [held_remainder]
      refine (and_iff_left_of_imp fun hwindow hheld => ?_).symm
      exact absurd (hbeyond.trans (starts_le_of_held h hheld)) (not_le.mpr hwindow.2)
    · rename_i hopen hbefore
      rw [held_append, held_remainder, ih hrest, held_cons, not_or]
      constructor
      · rintro (⟨hle, hlt⟩ | ⟨⟨hle, hlt⟩, hnot⟩)
        · refine ⟨⟨hle, hlt.trans (not_le.mp hbefore)⟩, fun hholds => ?_, fun hheld => ?_⟩
          · exact absurd hholds.1 (not_le.mpr hlt)
          · exact absurd (hs.trans (lt_of_held_tail h hheld)) (not_lt.mpr hlt.le)
        · refine ⟨⟨(not_le.mp hopen).le.trans hle, hlt⟩, fun hholds => ?_, hnot⟩
          exact absurd hholds.2 (not_lt.mpr hle)
      · rintro ⟨⟨hle, hlt⟩, hout, hnot⟩
        rcases lt_or_ge t s.starts with hin | hpast
        · exact .inl ⟨hle, hin⟩
        · exact .inr ⟨⟨not_lt.mp fun hin => hout ⟨hpast, hin⟩, hlt⟩, hnot⟩

theorem le_of_mem_gaps (hs : s ∈ gaps goal cursor spans) : cursor ≤ s.starts := by
  induction spans generalizing cursor with
  | nil =>
    obtain ⟨rfl, -⟩ := mem_remainder.mp hs
    exact le_rfl
  | cons s₁ spans ih =>
    rw [gaps] at hs
    split at hs
    · exact ih hs
    split at hs
    · obtain ⟨rfl, -⟩ := mem_remainder.mp hs
      exact le_rfl
    · rename_i hopen _
      rcases List.mem_append.mp hs with hs | hs
      · obtain ⟨rfl, -⟩ := mem_remainder.mp hs
        exact le_rfl
      · exact (not_le.mp hopen).le.trans (ih hs)

/-- Nothing is left of a window that is empty. -/
theorem gaps_of_le (h : goal ≤ cursor) : gaps goal cursor spans = [] := by
  have hempty : remainder cursor goal = [] := if_neg (not_lt.mpr h)
  induction spans generalizing cursor with
  | nil => exact hempty
  | cons s spans ih =>
    rw [gaps]
    split
    · exact ih h hempty
    split
    · exact hempty
    · rename_i hopen hbefore
      have hends : goal ≤ s.ends := h.trans (not_le.mp hopen).le
      rw [remainder, if_neg (not_lt.mpr ((not_le.mp hbefore).le.trans h)),
        ih hends (if_neg (not_lt.mpr hends)), List.nil_append]

theorem separated_append (h : Separated spans) (h' : Separated spans')
    (hgap : ∀ s ∈ spans, ∀ s' ∈ spans', s.ends < s'.starts) : Separated (spans ++ spans') :=
  ⟨fun s hs => (List.mem_append.mp hs).elim (h.proper s) (h'.proper s),
    List.pairwise_append.mpr ⟨h.gap, h'.gap, hgap⟩⟩

theorem separated_gaps (h : Separated spans) : Separated (gaps goal cursor spans) := by
  induction spans generalizing cursor with
  | nil => exact separated_remainder
  | cons s spans ih =>
    obtain ⟨hs, -, hrest⟩ := separated_cons.mp h
    rw [gaps]
    split
    · exact ih hrest
    split
    · exact separated_remainder
    · refine separated_append separated_remainder (ih hrest) fun s₁ hs₁ s₂ hs₂ => ?_
      obtain ⟨rfl, -⟩ := mem_remainder.mp hs₁
      exact lt_of_lt_of_le hs (le_of_mem_gaps hs₂)

/-- There are no gaps where every point of the window is held. -/
theorem gaps_eq_nil_iff (h : Separated spans) :
    gaps goal cursor spans = [] ↔ ∀ t, (⟨cursor, goal⟩ : Span τ).Holds t → Held spans t := by
  constructor
  · intro hnil t ht
    by_contra hnot
    exact not_held_nil (hnil ▸ (held_gaps h).mpr ⟨ht, hnot⟩)
  · intro hall
    refine List.eq_nil_iff_forall_not_mem.mpr fun s hs => ?_
    have hheld : Held (gaps goal cursor spans) s.starts :=
      ⟨s, hs, le_rfl, (separated_gaps h).proper s hs⟩
    obtain ⟨hwindow, hnot⟩ := (held_gaps h).mp hheld
    exact hnot (hall _ hwindow)

/-! ### A window that is held -/

/-- A window whose points are all held lies in one of the spans: the point where a span ends is not
held. -/
theorem within_separated_iff (h : Separated spans) (hw : w.Proper) :
    (∃ s ∈ spans, w.Within s) ↔ ∀ t, w.Holds t → Held spans t := by
  constructor
  · rintro ⟨s, hs, hwithin⟩ t ht
    exact ⟨s, hs, hwithin.holds ht⟩
  · intro hall
    obtain ⟨s, hs, hholds⟩ := hall w.starts ⟨le_rfl, hw⟩
    refine ⟨s, hs, hholds.1, not_lt.mp fun hlonger => ?_⟩
    exact not_held_ends h hs (hall s.ends ⟨hholds.2.le, hlonger⟩)

end Span

end Foundation
