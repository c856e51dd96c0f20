import AefTerminal.Foundation.Span
import Mathlib.Data.Int.Order.Basic
import Mathlib.Tactic.Linarith

/-!
# Walks through the cells of a grid

A grid says in which cell a point lies. A walk begins at a point, takes the cell of it, goes on at the
end of that cell and stops at a given point. Where the grid is regular on a span, that is every point
of the span lies in its own cell and the points of a cell have no other, the cells of the walk tile
the span.

## Main definitions

* `walkCells`: the walk
* `RegularOn`: what a grid has to be on a span
* `Tiles`: cells that tile a span

## Main results

* `walkCells_tiles`
* `walkCells_pairwise`: on any grid, the cells of a walk are the cells of later and later points
-/

namespace Foundation

variable {β : Type*} (span : β → Span ℤ) (cell : ℤ → Option β)

/-- The cells from a point on, each at the end of the one before. A cell that does not get on ends the
walk. -/
def walkCells (stop cursor : ℤ) : List β :=
  if _ : cursor < stop then
    match cell cursor with
    | none => []
    | some b =>
      if _ : (span b).ends ≤ cursor ∨ (span b).ends ≤ (span b).starts then []
      else b :: walkCells stop (span b).ends
  else []
termination_by (stop - cursor).toNat
decreasing_by omega

/-- Every point of the span lies in its own cell, which ends with the span at the latest, and so do
the other points of that cell. -/
structure RegularOn (session : Span ℤ) : Prop where
  held : ∀ t, session.Holds t →
    ∃ b, cell t = some b ∧ (span b).Holds t ∧ (span b).ends ≤ session.ends
  same : ∀ t t' b, session.Holds t → session.Holds t' → cell t = some b → (span b).Holds t' →
    cell t' = some b

/-- The cells follow each other up to the end of the span, and every point of the span lies in its own
cell and in no other. -/
structure Tiles (session : Span ℤ) (bs : List β) : Prop where
  found : ∀ b ∈ bs, ∃ t, session.Holds t ∧ cell t = some b
  proper : ∀ b ∈ bs, (span b).Proper
  apart : bs.Pairwise fun b b' => (span b).ends ≤ (span b').starts
  own : ∀ t, session.Holds t → ∃ b, cell t = some b ∧
    (bs.filter fun b => (span b).Holds t) = [b]
  last : ∃ b, bs.getLast? = some b ∧ (span b).ends = session.ends

variable {span cell} {session : Span ℤ} {t cursor : ℤ} {b b' : β} {bs : List β}

/-- A cell of a walk is the cell of a point on it, and gets on from there. -/
theorem walkCells_found {stop : ℤ} (hb : b ∈ walkCells span cell stop cursor) :
    ∃ t, cursor ≤ t ∧ t < stop ∧ cell t = some b ∧ t < (span b).ends := by
  induction cursor using walkCells.induct span cell stop with
  | case1 cursor hlt hcell =>
    rw [walkCells, dif_pos hlt, hcell] at hb
    exact nomatch hb
  | case2 cursor hlt b' hcell hstuck =>
    rw [walkCells, dif_pos hlt, hcell] at hb
    dsimp only at hb
    rw [dif_pos hstuck] at hb
    exact nomatch hb
  | case3 cursor hlt b' hcell hmoves ih =>
    rw [walkCells, dif_pos hlt, hcell] at hb
    dsimp only at hb
    rw [dif_neg hmoves] at hb
    rw [not_or, not_le, not_le] at hmoves
    rcases List.mem_cons.mp hb with rfl | hb
    · exact ⟨cursor, le_rfl, hlt, hcell, hmoves.1⟩
    · obtain ⟨t, hle, h⟩ := ih hb
      exact ⟨t, hmoves.1.le.trans hle, h⟩
  | case4 cursor hlt =>
    rw [walkCells, dif_neg hlt] at hb
    exact nomatch hb

/-- What holds between the cell of a point and that of a later one, holds along a walk. -/
theorem walkCells_pairwise {stop : ℤ} {R : β → β → Prop}
    (h : ∀ t t' b b', cursor ≤ t → t ≤ t' → t' < stop → cell t = some b → cell t' = some b' →
      R b b') : (walkCells span cell stop cursor).Pairwise R := by
  induction cursor using walkCells.induct span cell stop with
  | case1 cursor hlt hcell =>
    rw [walkCells, dif_pos hlt, hcell]
    exact .nil
  | case2 cursor hlt b' hcell hstuck =>
    rw [walkCells, dif_pos hlt, hcell]
    dsimp only
    rw [dif_pos hstuck]
    exact .nil
  | case3 cursor hlt b' hcell hmoves ih =>
    rw [walkCells, dif_pos hlt, hcell]
    dsimp only
    rw [dif_neg hmoves]
    rw [not_or, not_le, not_le] at hmoves
    refine List.pairwise_cons.mpr ⟨fun b'' hb'' => ?_, ih fun t t' b₁ b₂ hle => ?_⟩
    · obtain ⟨t, hle, hstop, hfound, -⟩ := walkCells_found hb''
      exact h cursor t b' b'' le_rfl (hmoves.1.le.trans hle) hstop hcell hfound
    · exact h t t' b₁ b₂ (hmoves.1.le.trans hle)
  | case4 cursor hlt =>
    rw [walkCells, dif_neg hlt]
    exact .nil

/-- Of cells that follow each other, no two hold a point. -/
theorem filter_holds_of_apart (hapart : bs.Pairwise fun b b' => (span b).ends ≤ (span b').starts)
    (hb : b ∈ bs) (hholds : (span b).Holds t) :
    (bs.filter fun b => (span b).Holds t) = [b] := by
  obtain ⟨before, after, rfl⟩ := List.append_of_mem hb
  obtain ⟨-, hafter, hbefore⟩ := List.pairwise_append.mp hapart
  have hnone : ∀ b' ∈ before, ¬ (span b').Holds t := fun b' hb' h =>
    absurd (h.2.trans_le ((hbefore b' hb' b (by simp)).trans hholds.1)) (lt_irrefl _)
  have hnone' : ∀ b' ∈ after, ¬ (span b').Holds t := fun b' hb' h =>
    absurd (hholds.2.trans_le (((List.pairwise_cons.mp hafter).1 b' hb').trans h.1)) (lt_irrefl _)
  have hhere : decide ((span b).Holds t) = true := decide_eq_true hholds
  rw [List.filter_append, List.filter_cons, if_pos hhere,
    List.filter_eq_nil_iff.mpr (by simpa using hnone),
    List.filter_eq_nil_iff.mpr (by simpa using hnone')]
  rfl

/-- A walk takes the cell of the point where it is. -/
theorem RegularOn.walkCells_eq (h : RegularOn span cell session) (hcursor : session.Holds cursor) :
    ∃ b, cell cursor = some b ∧ (span b).Holds cursor ∧ (span b).ends ≤ session.ends ∧
      walkCells span cell session.ends cursor =
        b :: walkCells span cell session.ends (span b).ends := by
  obtain ⟨b, hcell, hholds, hends⟩ := h.held cursor hcursor
  refine ⟨b, hcell, hholds, hends, ?_⟩
  have hmoves : ¬ ((span b).ends ≤ cursor ∨ (span b).ends ≤ (span b).starts) := by
    rw [not_or, not_le, not_le]
    exact ⟨hholds.2, hholds.proper⟩
  rw [walkCells, dif_pos hcursor.2, hcell]
  dsimp only
  rw [dif_neg hmoves]

/-- A cell of a later point begins after the cells that have ended. -/
theorem RegularOn.ends_le_starts (h : RegularOn span cell session) {t' : ℤ}
    (ht : session.Holds t) (hcell : cell t = some b) (hholds : (span b).Holds t)
    (ht' : session.Holds t') (hcell' : cell t' = some b') (hholds' : (span b').Holds t')
    (hlater : (span b).ends ≤ t') : (span b).ends ≤ (span b').starts := by
  by_contra hlt
  rw [not_le] at hlt
  -- A point of both cells would have both.
  have hmid : max (span b').starts t < (span b).ends := max_lt hlt hholds.2
  have hsession : session.Holds (max (span b').starts t) :=
    ⟨ht.1.trans (le_max_right _ _), hmid.trans_le (hlater.trans ht'.2.le)⟩
  have hfirst := h.same t _ b ht hsession hcell ⟨hholds.1.trans (le_max_right _ _), hmid⟩
  have hsecond := h.same t' _ b' ht' hsession hcell'
    ⟨le_max_left _ _, hmid.trans_le (hlater.trans hholds'.2.le)⟩
  cases (hfirst.symm.trans hsecond)
  exact absurd hholds'.2 (not_lt.mpr hlater)

/-- The walk from a point of the span. -/
structure WalkOn (span : β → Span ℤ) (cell : ℤ → Option β) (session : Span ℤ) (cursor : ℤ)
    (bs : List β) : Prop where
  found : ∀ b ∈ bs, ∃ t, session.Holds t ∧ cursor ≤ t ∧ cell t = some b ∧ (span b).Holds t
  apart : bs.Pairwise fun b b' => (span b).ends ≤ (span b').starts
  all : ∀ t, session.Holds t → cursor ≤ t → ∃ b ∈ bs, cell t = some b
  last : ∃ b, bs.getLast? = some b ∧ (span b).ends = session.ends

theorem RegularOn.walkOn (h : RegularOn span cell session) (cursor : ℤ)
    (hcursor : session.Holds cursor) :
    WalkOn span cell session cursor (walkCells span cell session.ends cursor) := by
  obtain ⟨b, hcell, hholds, hends, heq⟩ := h.walkCells_eq hcursor
  have hown : ∀ t, session.Holds t → cursor ≤ t → t < (span b).ends → cell t = some b :=
    fun t ht hle hlt => h.same cursor t b hcursor ht hcell ⟨hholds.1.trans hle, hlt⟩
  rw [heq]
  rcases hends.eq_or_lt with hlast | hlt
  · have hnil : walkCells span cell session.ends (span b).ends = [] := by
      rw [walkCells, dif_neg (by omega)]
    rw [hnil]
    refine ⟨?_, List.pairwise_singleton _ _, fun t ht hle => ?_, b, rfl, hlast⟩
    · intro b' hb'
      obtain rfl := List.mem_singleton.mp hb'
      exact ⟨cursor, hcursor, le_rfl, hcell, hholds⟩
    · exact ⟨b, by simp, hown t ht hle (hlast ▸ ht.2)⟩
  · have hnext : session.Holds (span b).ends := ⟨hcursor.1.trans hholds.2.le, hlt⟩
    have hrest := h.walkOn (span b).ends hnext
    refine ⟨List.forall_mem_cons.mpr ⟨⟨cursor, hcursor, le_rfl, hcell, hholds⟩, fun b' hb' => ?_⟩,
      List.pairwise_cons.mpr ⟨fun b' hb' => ?_, hrest.apart⟩, fun t ht hle => ?_, ?_⟩
    · obtain ⟨t, ht, hle, hfound⟩ := hrest.found b' hb'
      exact ⟨t, ht, hholds.2.le.trans hle, hfound⟩
    · obtain ⟨t, ht, hle, hcell', hholds'⟩ := hrest.found b' hb'
      exact h.ends_le_starts hcursor hcell hholds ht hcell' hholds' hle
    · rcases lt_or_ge t (span b).ends with hin | hafter
      · exact ⟨b, by simp, hown t ht hle hin⟩
      · obtain ⟨b', hb', hcell'⟩ := hrest.all t ht hafter
        exact ⟨b', List.mem_cons_of_mem _ hb', hcell'⟩
    · obtain ⟨last, hlast, hlastEnds⟩ := hrest.last
      refine ⟨last, ?_, hlastEnds⟩
      rw [List.getLast?_cons, hlast]
      rfl
termination_by (session.ends - cursor).toNat
decreasing_by
  have := hholds.2
  have := hcursor.2
  omega

/-- **A walk through a regular grid tiles the span.** -/
theorem walkCells_tiles (h : RegularOn span cell session) (hproper : session.Proper) :
    Tiles span cell session (walkCells span cell session.ends session.starts) := by
  have hwalk := h.walkOn session.starts ⟨le_rfl, hproper⟩
  refine ⟨fun b hb => ?_, fun b hb => ?_, hwalk.apart, fun t ht => ?_, hwalk.last⟩
  · obtain ⟨t, ht, -, hcell, -⟩ := hwalk.found b hb
    exact ⟨t, ht, hcell⟩
  · obtain ⟨t, -, -, -, hholds⟩ := hwalk.found b hb
    exact hholds.proper
  · obtain ⟨b, hb, hcell⟩ := hwalk.all t ht ht.1
    obtain ⟨b', hcell', hholds, -⟩ := h.held t ht
    cases (hcell.symm.trans hcell')
    exact ⟨b, hcell, filter_holds_of_apart hwalk.apart hb hholds⟩

end Foundation
