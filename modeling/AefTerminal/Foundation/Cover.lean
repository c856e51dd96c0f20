import Mathlib.Algebra.BigOperators.Group.Finset.Basic
import Mathlib.Algebra.BigOperators.Group.Finset.Piecewise
import Mathlib.Algebra.Order.BigOperators.Group.Finset
import Mathlib.Algebra.Order.Ring.Defs
import Mathlib.Tactic.Ring
import Mathlib.Tactic.Linarith

/-!
# Items that a budget covers, group by group

Items fall into groups by a key, and the items of a group stand for each other: a group weighs what
its heaviest item weighs. `Covered items key size slack budget` says that the groups weigh no more
than `budget` together, up to `slack` for each group.

It is stated by caps: every group has a cap, the caps sum to no more than the budget, and no item
is above the cap of its group by more than the slack. So it survives the loss of any item, of the
heaviest of a group too.

## Main results

* `le_heaviest`, `heaviest_mem`: the heaviest item of a group
* `Covered.mono`: fewer or lighter items are covered
* `Covered.add`: new items of one group ask for what they weigh
* `Covered.sum_le`: what the groups weigh, summed
-/

namespace Foundation

variable {ι κ α : Type*} [CommRing α] [LinearOrder α]

/-- The items, grouped by `key`, are covered by the budget. -/
def Covered (items : ι → Prop) (key : ι → κ) (size : ι → α) (slack budget : α) : Prop :=
  ∃ (keys : Finset κ) (cap : κ → α), (∀ k, 0 ≤ cap k) ∧ ∑ k ∈ keys, cap k ≤ budget ∧
    ∀ i, items i → key i ∈ keys ∧ size i ≤ cap (key i) + slack

/-- The largest of some weights, none of them negative. -/
def heaviest (weights : List α) : α := weights.foldl max 0

omit [CommRing α] in
theorem foldl_max_spec (a : α) (weights : List α) :
    a ≤ weights.foldl max a ∧ (∀ w ∈ weights, w ≤ weights.foldl max a) ∧
      (weights.foldl max a = a ∨ weights.foldl max a ∈ weights) := by
  induction weights generalizing a with
  | nil => simp
  | cons w weights ih =>
    obtain ⟨hle, hall, hmem⟩ := ih (max a w)
    rw [List.foldl_cons]
    refine ⟨(le_max_left a w).trans hle, fun v hv => ?_, ?_⟩
    · rcases List.mem_cons.mp hv with rfl | hv
      · exact (le_max_right a v).trans hle
      · exact hall v hv
    · rcases hmem with heq | hmem
      · rcases max_choice a w with hmax | hmax
        · exact .inl (heq.trans hmax)
        · exact .inr (List.mem_cons.mpr (.inl (heq.trans hmax)))
      · exact .inr (List.mem_cons_of_mem _ hmem)

omit [CommRing α] in
/-- The largest value of some items. -/
theorem foldl_max_map_spec (f : ι → α) (first : ι) (rest : List ι) :
    (∀ i ∈ first :: rest, f i ≤ (rest.map f).foldl max (f first)) ∧
      ∃ i ∈ first :: rest, (rest.map f).foldl max (f first) = f i := by
  obtain ⟨hfirst, hrest, hmem⟩ := foldl_max_spec (f first) (rest.map f)
  refine ⟨List.forall_mem_cons.mpr ⟨hfirst, fun i hi => hrest _ (List.mem_map_of_mem hi)⟩, ?_⟩
  rcases hmem with heq | hmem
  · exact ⟨first, by simp, heq⟩
  · obtain ⟨i, hi, heq⟩ := List.mem_map.mp hmem
    exact ⟨i, by simp [hi], heq.symm⟩

omit [CommRing α] in
/-- The largest value of one item more. -/
theorem max_concat_spec {f : ι → α} {items : List ι} {m : α}
    (h : (∀ i ∈ items, f i ≤ m) ∧ ∃ i ∈ items, m = f i) (j : ι) :
    (∀ i ∈ items ++ [j], f i ≤ max m (f j)) ∧ ∃ i ∈ items ++ [j], max m (f j) = f i := by
  obtain ⟨hall, i, hi, heq⟩ := h
  refine ⟨List.forall_mem_append.mpr ⟨fun i hi => (hall i hi).trans (le_max_left _ _), ?_⟩, ?_⟩
  · exact List.forall_mem_singleton.mpr (le_max_right _ _)
  · rcases max_choice m (f j) with hmax | hmax
    · exact ⟨i, List.mem_append_left _ hi, hmax.trans heq⟩
    · exact ⟨j, by simp, hmax⟩

theorem le_heaviest {w : α} {weights : List α} (h : w ∈ weights) : w ≤ heaviest weights :=
  (foldl_max_spec 0 weights).2.1 w h

theorem heaviest_nonneg (weights : List α) : 0 ≤ heaviest weights := (foldl_max_spec 0 weights).1

/-- Some item is the heaviest. -/
theorem heaviest_mem (weights : List α) (hne : weights ≠ []) (hnonneg : ∀ w ∈ weights, 0 ≤ w) :
    heaviest weights ∈ weights := by
  rcases (foldl_max_spec 0 weights).2.2 with heq | hmem
  · obtain ⟨w, hw⟩ := List.exists_mem_of_ne_nil _ hne
    have hzero : w = 0 := le_antisymm (heq ▸ le_heaviest hw) (hnonneg w hw)
    rw [heaviest, heq, ← hzero]
    exact hw
  · exact hmem

namespace Covered

variable {items items' : ι → Prop} {key : ι → κ} {size : ι → α} {slack budget budget' : α}

/-- Without items every budget that is not a debt will do. -/
theorem of_none (hnone : ∀ i, ¬ items i) (hbudget : 0 ≤ budget) :
    Covered items key size slack budget :=
  ⟨∅, 0, fun _ => le_rfl, by simpa using hbudget, fun i hi => absurd hi (hnone i)⟩

/-- Every item is one of its group that is no heavier than an item covered. -/
theorem mono (hitems : ∀ i, items' i → ∃ j, items j ∧ key j = key i ∧ size i ≤ size j)
    (h : Covered items key size slack budget) : Covered items' key size slack budget := by
  obtain ⟨keys, cap, hnonneg, hsum, hcap⟩ := h
  refine ⟨keys, cap, hnonneg, hsum, fun i hi => ?_⟩
  obtain ⟨j, hj, hkey, hsize⟩ := hitems i hi
  obtain ⟨hmem, hle⟩ := hcap j hj
  exact ⟨hkey ▸ hmem, hkey ▸ hsize.trans hle⟩

theorem budget_le (hle : budget ≤ budget') (h : Covered items key size slack budget) :
    Covered items key size slack budget' := by
  obtain ⟨keys, cap, hnonneg, hsum, hcap⟩ := h
  exact ⟨keys, cap, hnonneg, hsum.trans hle, hcap⟩

section Sums

variable [IsStrictOrderedRing α]

/-- New items of the group `k`, none heavier than `weight`. -/
theorem add [DecidableEq κ] {k : κ} {weight : α} (hslack : 0 ≤ slack) (hweight : 0 ≤ weight)
    (hitems : ∀ i, items' i → items i ∨ (key i = k ∧ size i ≤ weight))
    (h : Covered items key size slack budget) :
    Covered items' key size slack (budget + weight) := by
  obtain ⟨keys, cap, hnonneg, hsum, hcap⟩ := h
  -- outside of its keys a cap says nothing
  let old : κ → α := fun j => if j ∈ keys then cap j else 0
  have hold : ∀ j, 0 ≤ old j := fun j => by
    by_cases hj : j ∈ keys
    · simpa [old, hj] using hnonneg j
    · simp [old, hj]
  have hsum' : ∑ j ∈ insert k keys, old j ≤ budget := by
    have hkeys : ∑ j ∈ keys, old j = ∑ j ∈ keys, cap j :=
      Finset.sum_congr rfl fun j hj => if_pos hj
    by_cases hk : k ∈ keys
    · rw [Finset.insert_eq_of_mem hk, hkeys]
      exact hsum
    · rw [Finset.sum_insert hk, hkeys]
      simpa [old, hk] using hsum
  refine ⟨insert k keys, fun j => old j + if j = k then weight else 0, fun j => ?_, ?_,
    fun i hi => ?_⟩
  · refine add_nonneg (hold j) ?_
    split
    · exact hweight
    · exact le_rfl
  · rw [Finset.sum_add_distrib]
    refine add_le_add hsum' (le_of_eq ?_)
    rw [Finset.sum_ite_eq', if_pos (Finset.mem_insert_self ..)]
  · rcases hitems i hi with hi | ⟨rfl, hsize⟩
    · obtain ⟨hmem, hle⟩ := hcap i hi
      refine ⟨Finset.mem_insert_of_mem hmem, hle.trans ?_⟩
      have hextra : 0 ≤ if key i = k then weight else 0 := by split <;> simp [hweight]
      have hsame : old (key i) = cap (key i) := if_pos hmem
      show cap (key i) + slack ≤ old (key i) + (if key i = k then weight else 0) + slack
      linarith
    · refine ⟨Finset.mem_insert_self .., hsize.trans ?_⟩
      have hk := hold (key i)
      show weight ≤ old (key i) + (if key i = key i then weight else 0) + slack
      rw [if_pos rfl]
      linarith

/-- What the groups weigh, for any weights that some item of each group attains. -/
theorem sum_le {groups : Finset κ} {weight : κ → α}
    (hattained : ∀ k ∈ groups, ∃ i, items i ∧ key i = k ∧ weight k ≤ size i)
    (h : Covered items key size slack budget) :
    ∑ k ∈ groups, weight k ≤ budget + groups.card * slack := by
  obtain ⟨keys, cap, hnonneg, hsum, hcap⟩ := h
  have hsub : groups ⊆ keys := fun k hk => by
    obtain ⟨i, hi, rfl, -⟩ := hattained k hk
    exact (hcap i hi).1
  have hle : ∀ k ∈ groups, weight k ≤ cap k + slack := fun k hk => by
    obtain ⟨i, hi, rfl, hsize⟩ := hattained k hk
    exact hsize.trans (hcap i hi).2
  calc ∑ k ∈ groups, weight k
      ≤ ∑ k ∈ groups, (cap k + slack) := Finset.sum_le_sum hle
    _ = ∑ k ∈ groups, cap k + groups.card * slack := by
        rw [Finset.sum_add_distrib, Finset.sum_const, nsmul_eq_mul]
    _ ≤ ∑ k ∈ keys, cap k + groups.card * slack :=
        add_le_add (Finset.sum_le_sum_of_subset_of_nonneg hsub fun k _ _ => hnonneg k) le_rfl
    _ ≤ budget + groups.card * slack := add_le_add hsum le_rfl

end Sums

end Covered

end Foundation
