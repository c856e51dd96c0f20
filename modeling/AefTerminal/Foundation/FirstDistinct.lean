import Mathlib.Data.List.Sort
import Mathlib.Data.List.Dedup

/-!
# The first distinct values

A loop puts values into a set and stops as soon as the set has more than `limit` of them. Where the
values come in order, what it has then are the first of their distinct values.

A reader that gets at most `limit` values and the next one after these goes on from that one. What
it gets at the end is the whole list.

## Main definitions

* `takeDistinct`: the loop
* `Enumerates`: a strictly increasing list of the points that have a property

## Main results

* `sort_takeDistinct`: sorted, the set is a beginning of the distinct values
* `Enumerates.drop`: what follows the first values are those from the next one on
-/

namespace Foundation

section TakeDistinct

variable {α : Type*} [DecidableEq α]

/-- Values go into a set, until it has more than `limit`. -/
def takeDistinct (limit : ℕ) : List α → List α → List α
  | [], collected => collected
  | a :: as, collected =>
    if limit < (collected.insert a).length then collected.insert a
    else takeDistinct limit as (collected.insert a)

variable {limit : ℕ} {as bs collected : List α}

theorem takeDistinct_append (h : collected.length ≤ limit) :
    takeDistinct limit (as ++ bs) collected =
      if limit < (takeDistinct limit as collected).length then takeDistinct limit as collected
      else takeDistinct limit bs (takeDistinct limit as collected) := by
  induction as generalizing collected with
  | nil => rw [List.nil_append, takeDistinct, if_neg (not_lt.mpr h)]
  | cons a as ih =>
    rw [List.cons_append, takeDistinct, takeDistinct]
    split
    · rfl
    · rename_i hroom
      exact ih (not_lt.mp hroom)

end TakeDistinct

section Enumerates

variable {α : Type*} [LinearOrder α]

/-- The list has the points with the property, in order. -/
structure Enumerates (p : α → Prop) (all : List α) : Prop where
  increasing : all.Pairwise (· < ·)
  mem_iff : ∀ x, x ∈ all ↔ p x

variable {p q : α → Prop} {all all' as collected : List α} {x : α} {limit : ℕ}

theorem Enumerates.congr (h : Enumerates p all) (hpq : ∀ x, p x ↔ q x) : Enumerates q all :=
  ⟨h.increasing, fun x => (h.mem_iff x).trans (hpq x)⟩

theorem Enumerates.unique (h : Enumerates p all) (h' : Enumerates p all') : all = all' :=
  h.increasing.eq_of_mem_iff h'.increasing fun x => (h.mem_iff x).trans (h'.mem_iff x).symm

/-- The points of a list are enumerated. -/
theorem exists_enumerates (as : List α) : ∃ all, Enumerates (· ∈ as) all := by
  refine ⟨as.dedup.insertionSort (· ≤ ·), ?_, fun x => by simp⟩
  have hle := List.pairwise_insertionSort (· ≤ ·) as.dedup
  have hne : (as.dedup.insertionSort (· ≤ ·)).Nodup :=
    (List.perm_insertionSort _ _).nodup_iff.mpr as.nodup_dedup
  exact hle.imp₂ (fun _ _ hle hne => lt_of_le_of_ne hle hne) hne

/-- Points that come before all others with the property are the first of the list. -/
theorem Enumerates.take_eq {first : List α} (h : Enumerates p all)
    (hfirst : first.Pairwise (· < ·)) (hmem : ∀ x ∈ first, p x)
    (hrest : ∀ x, p x → x ∉ first → ∀ y ∈ first, y < x) : all.take first.length = first := by
  have happend : Enumerates p (first ++ all.filter fun x => x ∉ first) := by
    refine ⟨List.pairwise_append.mpr ⟨hfirst, h.increasing.filter _, fun y hy x hx => ?_⟩, ?_⟩
    · obtain ⟨hall, hnot⟩ := List.mem_filter.mp hx
      exact hrest x ((h.mem_iff x).mp hall) (by simpa using hnot) y hy
    · intro x
      simp only [List.mem_append, List.mem_filter, decide_eq_true_eq]
      constructor
      · rintro (hx | ⟨hx, -⟩)
        · exact hmem x hx
        · exact (h.mem_iff x).mp hx
      · intro hx
        by_cases hin : x ∈ first
        · exact .inl hin
        · exact .inr ⟨(h.mem_iff x).mpr hx, hin⟩
  rw [h.unique happend, List.take_left]

/-- The set that the loop has collected, in order. -/
theorem reverse_takeDistinct (has : as.Pairwise (· ≤ ·))
    (hcollected : collected.reverse.Pairwise (· < ·)) (hle : ∀ y ∈ collected, ∀ x ∈ as, y ≤ x)
    (hlen : collected.length ≤ limit) (h : Enumerates (fun x => x ∈ collected ∨ x ∈ as) all) :
    (takeDistinct limit as collected).reverse = all.take (limit + 1) := by
  induction as generalizing collected with
  | nil =>
    have hall : collected.reverse = all :=
      hcollected.eq_of_mem_iff h.increasing fun x => by simp [h.mem_iff]
    rw [takeDistinct, List.take_of_length_le (by rw [← hall, List.length_reverse]; omega), hall]
  | cons a as ih =>
    obtain ⟨hfirst, has⟩ := List.pairwise_cons.mp has
    rw [takeDistinct]
    by_cases hin : a ∈ collected
    · rw [List.insert_of_mem hin, if_neg (not_lt.mpr hlen)]
      refine ih has hcollected (fun y hy x hx => hle y hy x (List.mem_cons_of_mem _ hx)) hlen ?_
      refine h.congr fun x => ⟨?_, fun hx => hx.imp_right (List.mem_cons_of_mem _)⟩
      rintro (hx | hx)
      · exact .inl hx
      · rcases List.mem_cons.mp hx with rfl | hx
        · exact .inl hin
        · exact .inr hx
    · rw [List.insert_of_not_mem hin]
      have hlast : (a :: collected).reverse.Pairwise (· < ·) := by
        rw [List.reverse_cons]
        refine List.pairwise_append.mpr ⟨hcollected, List.pairwise_singleton _ _, ?_⟩
        intro y hy x hx
        obtain rfl := List.mem_singleton.mp hx
        have hy := List.mem_reverse.mp hy
        exact lt_of_le_of_ne (hle y hy x (by simp)) fun heq => hin (heq ▸ hy)
      have hbelow : ∀ y ∈ a :: collected, ∀ x ∈ as, y ≤ x := by
        rintro y hy x hx
        rcases List.mem_cons.mp hy with rfl | hy
        · exact hfirst x hx
        · exact hle y hy x (List.mem_cons_of_mem _ hx)
      have hsame : ∀ x, (x ∈ collected ∨ x ∈ a :: as) ↔ (x ∈ a :: collected ∨ x ∈ as) := by
        intro x
        simp only [List.mem_cons]
        tauto
      split
      · -- The set is one over the limit: what is left comes after it.
        rename_i hover
        have hlength : (a :: collected).reverse.length = limit + 1 := by
          rw [List.length_cons] at hover
          rw [List.length_reverse, List.length_cons]
          omega
        have htake := (h.congr hsame).take_eq hlast (fun x hx => .inl (List.mem_reverse.mp hx))
          fun x hx hnot y hy => by
            rw [List.mem_reverse] at hnot hy
            have hx := hx.resolve_left hnot
            exact lt_of_le_of_ne (hbelow y hy x hx) fun heq => hnot (heq ▸ hy)
        rw [hlength] at htake
        exact htake.symm
      · rename_i hroom
        exact ih has hlast hbelow (not_lt.mp hroom) (h.congr hsame)

/-- **The first distinct values.** -/
theorem sort_takeDistinct (has : as.Pairwise (· ≤ ·)) (h : Enumerates (· ∈ as) all) (limit : ℕ) :
    (takeDistinct limit as []).insertionSort (· ≤ ·) = all.take (limit + 1) := by
  have hnone : Enumerates (fun x => x ∈ ([] : List α) ∨ x ∈ as) all := h.congr fun x => by simp
  have hreverse := reverse_takeDistinct has .nil (by simp) (Nat.zero_le limit) hnone
  have hsorted : (takeDistinct limit as []).reverse.Pairwise (· ≤ ·) := by
    rw [hreverse]
    exact (h.increasing.sublist (List.take_sublist _ _)).imp le_of_lt
  have hperm : ((takeDistinct limit as []).insertionSort (· ≤ ·)).Perm
      (takeDistinct limit as []).reverse :=
    (List.perm_insertionSort _ _).trans (List.reverse_perm _).symm
  rw [← hreverse]
  exact hperm.eq_of_pairwise' (List.pairwise_insertionSort _ _) hsorted

/-- What follows the first values are the points from the next one on. -/
theorem Enumerates.drop {n : ℕ} (h : Enumerates p all) (hnext : all[n]? = some x) :
    Enumerates (fun y => p y ∧ x ≤ y) (all.drop n) := by
  obtain ⟨hn, hx⟩ := List.getElem?_eq_some_iff.mp hnext
  have hsplit : all.take n ++ x :: all.drop (n + 1) = all := by
    rw [← hx, List.getElem_cons_drop, List.take_append_drop]
  have hdrop : all.drop n = x :: all.drop (n + 1) := by
    rw [← hx, List.getElem_cons_drop]
  have hincreasing := h.increasing
  rw [← hsplit] at hincreasing
  obtain ⟨-, hlater, hbefore⟩ := List.pairwise_append.mp hincreasing
  refine ⟨hdrop ▸ hlater, fun y => ?_⟩
  rw [← h.mem_iff, hdrop]
  constructor
  · intro hy
    refine ⟨by rw [← hsplit]; exact List.mem_append_right _ hy, ?_⟩
    rcases List.mem_cons.mp hy with rfl | hy
    · exact le_rfl
    · exact (List.rel_of_pairwise_cons hlater hy).le
  · rintro ⟨hy, hle⟩
    rw [← hsplit] at hy
    refine (List.mem_append.mp hy).resolve_left fun hy => ?_
    exact absurd (hbefore y hy x (by simp)) (not_lt.mpr hle)

/-- The first points below a mark can be taken from the first points. -/
theorem filter_take_of_increasing {keep : α → Prop} [DecidablePred keep]
    (hbelow : ∀ x y, x < y → keep y → keep x) (hincreasing : all.Pairwise (· < ·)) {m n : ℕ}
    (hmn : m ≤ n) : ((all.take n).filter keep).take m = (all.filter keep).take m := by
  induction all generalizing m n with
  | nil => rw [List.take_nil]
  | cons a all ih =>
    obtain ⟨hfirst, hrest⟩ := List.pairwise_cons.mp hincreasing
    cases n with
    | zero => rw [Nat.le_zero.mp hmn, List.take_zero, List.take_zero]
    | succ n =>
      rw [List.take_succ_cons, List.filter_cons, List.filter_cons]
      by_cases ha : keep a
      · simp only [ha, decide_true, if_true]
        cases m with
        | zero => rfl
        | succ m => rw [List.take_succ_cons, List.take_succ_cons, ih hrest (Nat.le_of_succ_le_succ hmn)]
      · have hnone : ∀ l : List α, (∀ x ∈ l, x ∈ all) → l.filter (fun x => decide (keep x)) = [] := by
          refine fun l hl => List.filter_eq_nil_iff.mpr fun x hx hkeep => ?_
          exact ha (hbelow a x (hfirst x (hl x hx)) (of_decide_eq_true hkeep))
        simp only [ha, decide_false, Bool.false_eq_true, if_false]
        rw [hnone _ fun x hx => List.mem_of_mem_take hx, hnone _ fun x hx => hx]

end Enumerates

end Foundation
