import Mathlib.Algebra.BigOperators.Group.List.Basic
import Mathlib.Data.List.DropRight
import Mathlib.Data.List.Sort
import Mathlib.Order.Defs.LinearOrder
import Mathlib.Order.RelClasses

/-!
# Windows that slide over a list

A series computed in one pass gives out one value for each element. What the pass carries from one
element to the next is described by the number of elements read, and each value by the same number,
so the whole series is known from one pass of the loop (`foldl_emits`).

Two things are carried that way: the last elements themselves, and the monotone queue of indices
from which the extreme of a window is read. An index leaves the queue at the back when a later one
is strictly better and at the front when the window has moved past it, so what is left is ranked
from the best, and every index of the window is covered by one in the queue that is as good.

## Main definitions

* `slide`: append an element and let the first one go once there are too many
* `pushBack`, `evictFront`, `Covers`: the queue and its invariant

## Main results

* `foldl_emits`: the series of a loop that emits once for each element
* `slide_rtake`: the last elements, one element on
* `Covers.pushBack`, `Covers.evictFront`: the invariant over the two operations
* `Covers.head`, `Covers.eq_nil_iff`: what the front of the queue says of the window
-/

namespace Foundation

/-! ### One value for each element -/

section Emits

variable {σ α β : Type*} {f : σ → α → σ} {g : ℕ → β}

/-- A loop whose every pass gives out one value, which its index determines, gives out the values of
all indices. -/
theorem foldl_emits (Inv : ℕ → σ → Prop) (out : σ → List β) (xs : List α) (s : σ) (hinv : Inv 0 s)
    (hout : out s = [])
    (hstep : ∀ (k : ℕ) (hk : k < xs.length) (s : σ), Inv k s →
      Inv (k + 1) (f s xs[k]) ∧ out (f s xs[k]) = out s ++ [g k]) :
    out (xs.foldl f s) = (List.range xs.length).map g := by
  have hall : ∀ k ≤ xs.length, Inv k ((xs.take k).foldl f s) ∧
      out ((xs.take k).foldl f s) = (List.range k).map g := by
    intro k
    induction k with
    | zero => exact fun _ => ⟨hinv, hout⟩
    | succ k ih =>
      intro hk
      obtain ⟨hprev, hemitted⟩ := ih (by omega)
      obtain ⟨hnext, hemits⟩ := hstep k hk _ hprev
      rw [List.take_succ_eq_append_getElem hk, List.foldl_append]
      refine ⟨hnext, ?_⟩
      rw [List.range_succ, List.map_append, ← hemitted]
      exact hemits
  have hfull := (hall xs.length le_rfl).2
  rwa [List.take_length] at hfull

end Emits

/-! ### The last elements -/

section Slide

variable {α : Type*} {w : ℕ} {x : α} {xs : List α}

/-- Append an element, and let the first go when more than `w` are held. -/
def slide (w : ℕ) (window : List α) (x : α) : List α :=
  if w < (window ++ [x]).length then (window ++ [x]).tail else window ++ [x]

theorem rtake_eq_drop (l : List α) (n : ℕ) : l.rtake n = l.drop (l.length - n) := rfl

theorem slide_rtake (hw : 0 < w) : slide w (xs.rtake w) x = (xs ++ [x]).rtake w := by
  obtain ⟨w, rfl⟩ : ∃ n, w = n + 1 := ⟨w - 1, by omega⟩
  simp only [slide, rtake_eq_drop, List.length_append, List.length_drop, List.length_singleton]
  by_cases hfull : w + 1 ≤ xs.length
  · have hdrop : xs.length + 1 - (w + 1) = (xs.length - (w + 1)) + 1 := by omega
    rw [if_pos (by omega), List.tail_append_of_ne_nil (by simp; omega), List.tail_drop, hdrop,
      List.drop_append_of_le_length (by omega)]
  · have hzero : xs.length - (w + 1) = 0 := by omega
    have hzero' : xs.length + 1 - (w + 1) = 0 := by omega
    rw [if_neg (by omega), hzero, hzero', List.drop_zero, List.drop_zero]

end Slide

/-! ### The monotone queue -/

section Queue

variable {α : Type*} {keeps : α → α → Prop} {v : ℕ → α} {low low' high c i : ℕ} {queue : List ℕ}

/-- The indices at the back that a new one does not keep leave, and it joins behind the others. -/
def pushBack (keeps : α → α → Prop) [DecidableRel keeps] (v : ℕ → α) (i : ℕ) (queue : List ℕ) :
    List ℕ :=
  queue.rdropWhile (fun c => ¬ keeps (v c) (v i)) ++ [i]

/-- The indices before `low` leave at the front. -/
def evictFront (low : ℕ) (queue : List ℕ) : List ℕ := queue.dropWhile (· < low)

/-- The queue stands for the window of indices from `low` to `high`: its indices are in their order
and ranked from the best, and each index of the window has one in the queue that came no earlier and
is as good. -/
structure Covers (keeps : α → α → Prop) (v : ℕ → α) (low high : ℕ) (queue : List ℕ) : Prop where
  ordered : queue.Pairwise (· < ·)
  ranked : queue.Pairwise fun c d => keeps (v c) (v d)
  before : ∀ c ∈ queue, c < high
  covered : ∀ i, low ≤ i → i < high → ∃ c ∈ queue, i ≤ c ∧ keeps (v c) (v i)

theorem covers_nil (n : ℕ) : Covers keeps v n n [] where
  ordered := .nil
  ranked := .nil
  before := nofun
  covered := fun i hlow hhigh => absurd hlow (by omega)

theorem mem_rdropWhile_or {p : ℕ → Bool} (h : c ∈ queue) :
    c ∈ queue.rdropWhile p ∨ p c = true := by
  rw [← List.rdropWhile_append_rtakeWhile (p := p) (l := queue), List.mem_append] at h
  exact h.imp_right List.mem_rtakeWhile_imp

section Back

variable [DecidableRel keeps]

/-- The last index that stays is kept, and those before it are better still. -/
theorem keeps_of_mem_rdropWhile [IsTrans α keeps]
    (hranked : queue.Pairwise fun c d => keeps (v c) (v d))
    (h : c ∈ queue.rdropWhile fun c => ¬ keeps (v c) (v i)) : keeps (v c) (v i) := by
  induction queue using List.reverseRecOn with
  | nil => exact nomatch h
  | append_singleton queue d ih =>
    obtain ⟨hinit, -, hlast⟩ := List.pairwise_append.mp hranked
    by_cases hd : keeps (v d) (v i)
    · rw [List.rdropWhile_concat_neg _ _ _ (by simpa using hd)] at h
      rcases List.mem_append.mp h with hc | hc
      · exact trans_of keeps (hlast c hc d (by simp)) hd
      · rwa [List.mem_singleton.mp hc]
    · rw [List.rdropWhile_concat_pos _ _ _ (by simpa using hd)] at h
      exact ih hinit h

theorem Covers.pushBack [IsTrans α keeps] [Std.Total keeps]
    (h : Covers keeps v low high queue) :
    Covers keeps v low (high + 1) (pushBack keeps v high queue) := by
  have hsub := (List.rdropWhile_prefix (fun c => ¬ keeps (v c) (v high)) queue).sublist
  refine ⟨?_, ?_, ?_, ?_⟩
  · refine List.pairwise_append.mpr ⟨h.ordered.sublist hsub, List.pairwise_singleton _ _, ?_⟩
    intro c hc d hd
    rw [List.mem_singleton.mp hd]
    exact h.before c (hsub.subset hc)
  · refine List.pairwise_append.mpr ⟨h.ranked.sublist hsub, List.pairwise_singleton _ _, ?_⟩
    intro c hc d hd
    rw [List.mem_singleton.mp hd]
    exact keeps_of_mem_rdropWhile h.ranked hc
  · intro c hc
    rcases List.mem_append.mp hc with hkept | hnew
    · exact Nat.lt_succ_of_lt (h.before c (hsub.subset hkept))
    · rw [List.mem_singleton.mp hnew]
      exact Nat.lt_succ_self high
  · intro i hlow hhigh
    rcases Nat.lt_succ_iff_lt_or_eq.mp hhigh with hold | rfl
    · obtain ⟨c, hc, hic, hbest⟩ := h.covered i hlow hold
      rcases mem_rdropWhile_or hc with hkept | hleft
      · exact ⟨c, List.mem_append_left _ hkept, hic, hbest⟩
      · -- the index that covered this one left for the new one, which is better than both
        have hnot : ¬ keeps (v c) (v high) := by simpa using hleft
        have hnew : keeps (v high) (v c) := (total_of keeps (v high) (v c)).resolve_right hnot
        exact ⟨high, by simp [Foundation.pushBack], hold.le, trans_of keeps hnew hbest⟩
    · exact ⟨i, by simp [Foundation.pushBack], le_rfl, (total_of keeps (v i) (v i)).elim id id⟩

end Back

theorem mem_evictFront_iff (hordered : queue.Pairwise (· < ·)) :
    c ∈ evictFront low queue ↔ c ∈ queue ∧ low ≤ c := by
  induction queue with
  | nil => simp [evictFront]
  | cons d queue ih =>
    obtain ⟨hfirst, hrest⟩ := List.pairwise_cons.mp hordered
    by_cases hd : d < low
    · rw [evictFront, List.dropWhile_cons_of_pos (by simpa using hd), ← evictFront, ih hrest,
        List.mem_cons]
      exact ⟨fun h => ⟨.inr h.1, h.2⟩, fun h => ⟨h.1.resolve_left (by omega), h.2⟩⟩
    · rw [evictFront, List.dropWhile_cons_of_neg (by simpa using hd)]
      refine ⟨fun h => ⟨h, ?_⟩, And.left⟩
      rcases List.mem_cons.mp h with rfl | hc
      · omega
      · exact (Nat.le_of_not_lt hd).trans (hfirst c hc).le

theorem Covers.evictFront (h : Covers keeps v low high queue) (hlow : low ≤ low') :
    Covers keeps v low' high (evictFront low' queue) := by
  have hsub : (Foundation.evictFront low' queue).Sublist queue := List.dropWhile_sublist _
  refine ⟨h.ordered.sublist hsub, h.ranked.sublist hsub,
    fun c hc => h.before c (hsub.subset hc), fun i hi hhigh => ?_⟩
  obtain ⟨c, hc, hic, hbest⟩ := h.covered i (hlow.trans hi) hhigh
  exact ⟨c, (mem_evictFront_iff h.ordered).mpr ⟨hc, hi.trans hic⟩, hic, hbest⟩

/-- The front of the queue is an index of the window that is as good as any of them. -/
theorem Covers.head [Std.Refl keeps] [IsTrans α keeps]
    (h : Covers keeps v low high (c :: queue)) (hlow : ∀ d ∈ c :: queue, low ≤ d) :
    low ≤ c ∧ c < high ∧ ∀ i, low ≤ i → i < high → keeps (v c) (v i) := by
  refine ⟨hlow c (by simp), h.before c (by simp), fun i hi hhigh => ?_⟩
  obtain ⟨d, hd, -, hbest⟩ := h.covered i hi hhigh
  rcases List.mem_cons.mp hd with rfl | hd
  · exact hbest
  · exact trans_of keeps ((List.pairwise_cons.mp h.ranked).1 d hd) hbest

theorem Covers.eq_nil_iff (h : Covers keeps v low high queue) (hlow : ∀ d ∈ queue, low ≤ d) :
    queue = [] ↔ high ≤ low := by
  constructor
  · rintro rfl
    by_contra hlt
    obtain ⟨c, hc, -⟩ := h.covered low le_rfl (by omega)
    exact nomatch hc
  · intro hle
    refine List.eq_nil_iff_forall_not_mem.mpr fun d hd => ?_
    have := hlow d hd
    have := h.before d hd
    omega

end Queue

end Foundation
