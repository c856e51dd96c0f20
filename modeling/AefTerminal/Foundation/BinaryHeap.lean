import Mathlib.Data.List.Basic
import Mathlib.Order.Defs.LinearOrder
import Mathlib.Tactic.Ring

/-!
# Binary heaps in a list

A list is a heap where every entry is at least its parent: the parent of entry `i + 1` is entry
`i / 2`. `heappush` and `heapreplace` move one entry at a time along a path of the tree. While they
do, one index is a hole: what the list has there counts for nothing, and `Holed` says what the
other entries keep to.

`heapreplace` takes the hole from the root down to a leaf without looking at the new item, always
behind the smaller child, and only then lets the item up to its place.

## Main definitions

* `HeapOrdered`: the heap condition
* `siftdown`, `siftup`: the two loops
* `heappush`, `heapreplace`

## Main results

* `HeapOrdered.head_le`: the first entry is a least one
* `heapOrdered_heappush`, `heappush_perm`
* `heapOrdered_heapreplace`, `heapreplace_perm`
-/

namespace Foundation

variable {α : Type*} [LinearOrder α]

/-- Every entry is at least its parent. -/
def HeapOrdered (heap : List α) : Prop :=
  ∀ i a b, heap[i / 2]? = some a → heap[i + 1]? = some b → a ≤ b

/-- The item at the hole `pos` goes up until its parent is no larger. -/
def siftdown (heap : List α) (pos : ℕ) (item : α) : List α :=
  match pos with
  | 0 => heap.set 0 item
  | n + 1 =>
    match heap[n / 2]? with
    | some parent =>
      if item < parent then siftdown (heap.set (n + 1) parent) (n / 2) item
      else heap.set (n + 1) item
    | none => heap.set (n + 1) item
  termination_by pos
  decreasing_by omega

/-- The smaller child of an index, the right one where they are equal. -/
def smallerChild (heap : List α) (pos : ℕ) : Option (ℕ × α) :=
  match heap[2 * pos + 1]?, heap[2 * pos + 2]? with
  | some left, some right =>
    if left < right then some (2 * pos, left) else some (2 * pos + 1, right)
  | some left, none => some (2 * pos, left)
  | none, _ => none

theorem smallerChild_eq_some {heap : List α} {pos i : ℕ} {a : α}
    (h : smallerChild heap pos = some (i, a)) :
    heap[i + 1]? = some a ∧ i / 2 = pos ∧ ∀ j b, j / 2 = pos → heap[j + 1]? = some b → a ≤ b := by
  have hchild (j : ℕ) (hj : j / 2 = pos) : j = 2 * pos ∨ j = 2 * pos + 1 := by omega
  unfold smallerChild at h
  split at h
  · rename_i left right hleft hright
    split at h
    · rename_i hlt
      cases (Option.some.inj h)
      refine ⟨hleft, by omega, fun j b hj hb => ?_⟩
      rcases hchild j hj with rfl | rfl
      · exact (Option.some.inj (hleft.symm.trans hb)).le
      · exact hlt.le.trans (Option.some.inj (hright.symm.trans hb)).le
    · rename_i hge
      cases (Option.some.inj h)
      refine ⟨hright, by omega, fun j b hj hb => ?_⟩
      rcases hchild j hj with rfl | rfl
      · exact (not_lt.mp hge).trans (Option.some.inj (hleft.symm.trans hb)).le
      · exact (Option.some.inj (hright.symm.trans hb)).le
  · rename_i left hleft hright
    cases (Option.some.inj h)
    refine ⟨hleft, by omega, fun j b hj hb => ?_⟩
    rcases hchild j hj with rfl | rfl
    · exact (Option.some.inj (hleft.symm.trans hb)).le
    · exact absurd (hright.symm.trans hb) (Option.some_ne_none b).symm
  · exact absurd h.symm (Option.some_ne_none _)

theorem smallerChild_eq_none {heap : List α} {pos i : ℕ} (h : smallerChild heap pos = none)
    (hi : i / 2 = pos) : heap[i + 1]? = none := by
  unfold smallerChild at h
  split at h
  · split at h <;> exact absurd h (Option.some_ne_none _)
  · exact absurd h (Option.some_ne_none _)
  · rename_i hleft
    rw [List.getElem?_eq_none_iff] at hleft ⊢
    omega

/-- The hole `pos` goes down to a leaf, behind the smaller child; then the item goes up. -/
def siftup (heap : List α) (pos : ℕ) (item : α) : List α :=
  match h : smallerChild heap pos with
  | some (i, child) => siftup (heap.set pos child) (i + 1) item
  | none => siftdown heap pos item
  termination_by heap.length - pos
  decreasing_by
    obtain ⟨hchild, hparent, -⟩ := smallerChild_eq_some h
    have hlt : i + 1 < heap.length := (List.getElem?_eq_some_iff.mp hchild).1
    rw [List.length_set]
    omega

/-- `heapq.heappush` -/
def heappush (heap : List α) (item : α) : List α := siftdown (heap ++ [item]) heap.length item

/-- `heapq.heapreplace`: what it leaves in place of the first entry, which it returns. -/
def heapreplace (heap : List α) (item : α) : List α := siftup heap 0 item

/-! ### The order -/

/-- Every entry but the hole keeps to the order, and the parent of the hole to its children. -/
structure Holed (heap : List α) (pos : ℕ) : Prop where
  ordered : ∀ i a b, i / 2 ≠ pos → i + 1 ≠ pos → heap[i / 2]? = some a → heap[i + 1]? = some b → a ≤ b
  across : ∀ p i a b, pos = p + 1 → i / 2 = pos → heap[p / 2]? = some a → heap[i + 1]? = some b → a ≤ b

variable {heap : List α} {pos : ℕ} {item : α}

theorem HeapOrdered.holed (h : HeapOrdered heap) (pos : ℕ) : Holed heap pos where
  ordered i a b _ _ := h i a b
  across p i a b hpos hi ha hb := by
    subst hpos
    have hmid : p + 1 < heap.length := by
      have hlt := (List.getElem?_eq_some_iff.mp hb).1
      omega
    have hmid : heap[p + 1]? = some heap[p + 1] := List.getElem?_eq_getElem hmid
    exact (h p a _ ha hmid).trans (h i _ b (by rw [hi, hmid]) hb)

/-- The item is put where its parent is no larger and its children are no smaller. -/
theorem Holed.set (h : Holed heap pos)
    (hparent : ∀ p a, pos = p + 1 → heap[p / 2]? = some a → a ≤ item)
    (hchildren : ∀ i b, i / 2 = pos → heap[i + 1]? = some b → item ≤ b) :
    HeapOrdered (heap.set pos item) := by
  intro i a b ha hb
  rw [List.getElem?_set] at ha hb
  by_cases hp : pos = i / 2
  · rw [if_pos hp] at ha
    rw [if_neg (by omega)] at hb
    split at ha
    · cases ha
      exact hchildren i b hp.symm hb
    · exact absurd ha.symm (Option.some_ne_none a)
  · rw [if_neg hp] at ha
    by_cases hc : pos = i + 1
    · rw [if_pos hc] at hb
      split at hb
      · cases hb
        exact hparent i a hc ha
      · exact absurd hb.symm (Option.some_ne_none b)
    · rw [if_neg hc] at hb
      exact h.ordered i a b (Ne.symm hp) (Ne.symm hc) ha hb

/-- The parent of the hole goes down into it. -/
theorem Holed.up {n : ℕ} {parent : α} (h : Holed heap (n + 1)) (hp : heap[n / 2]? = some parent) :
    Holed (heap.set (n + 1) parent) (n / 2) where
  ordered i a b hpi hi ha hb := by
    rw [List.getElem?_set] at ha hb
    by_cases hpos : n + 1 = i / 2
    · rw [if_pos hpos] at ha
      rw [if_neg (by omega)] at hb
      split at ha
      · cases ha
        exact h.across n i parent b rfl hpos.symm hp hb
      · exact absurd ha.symm (Option.some_ne_none a)
    · rw [if_neg hpos] at ha
      rw [if_neg (by omega)] at hb
      exact h.ordered i a b (Ne.symm hpos) (by omega) ha hb
  across p i a b hn hi ha hb := by
    rw [List.getElem?_set] at ha hb
    rw [if_neg (by omega)] at ha
    have hparent : a ≤ parent := h.ordered p a parent (by omega) (by omega) ha (hn ▸ hp)
    split at hb
    · split at hb
      · exact hparent.trans (Option.some.inj hb).le
      · exact absurd hb.symm (Option.some_ne_none b)
    · exact hparent.trans (h.ordered i parent b (by omega) (by omega) (hi ▸ hp) hb)

theorem le_children_up {n : ℕ} {parent : α} (h : Holed heap (n + 1)) (hp : heap[n / 2]? = some parent)
    (hlt : item < parent) {i : ℕ} {b : α} (hi : i / 2 = n / 2)
    (hb : (heap.set (n + 1) parent)[i + 1]? = some b) : item ≤ b := by
  rw [List.getElem?_set] at hb
  split at hb
  · split at hb
    · exact hlt.le.trans (Option.some.inj hb).le
    · exact absurd hb.symm (Option.some_ne_none b)
  · exact hlt.le.trans (h.ordered i parent b (by omega) (by omega) (hi ▸ hp) hb)

/-- The smaller child of the hole goes up into it. -/
theorem Holed.down {i : ℕ} {child : α} (h : Holed heap pos)
    (hchild : smallerChild heap pos = some (i, child)) : Holed (heap.set pos child) (i + 1) := by
  obtain ⟨hget, hpos, hmin⟩ := smallerChild_eq_some hchild
  refine ⟨fun j a b hpj hj ha hb => ?_, fun p j a b hp hj ha hb => ?_⟩
  · rw [List.getElem?_set] at ha hb
    by_cases hup : pos = j / 2
    · rw [if_pos hup] at ha
      rw [if_neg (by omega)] at hb
      split at ha
      · cases ha
        exact hmin j b hup.symm hb
      · exact absurd ha.symm (Option.some_ne_none a)
    · rw [if_neg hup] at ha
      by_cases hin : pos = j + 1
      · rw [if_pos hin] at hb
        split at hb
        · cases hb
          exact h.across j i a child hin hpos ha hget
        · exact absurd hb.symm (Option.some_ne_none b)
      · rw [if_neg hin] at hb
        exact h.ordered j a b (Ne.symm hup) (Ne.symm hin) ha hb
  · obtain rfl := Nat.succ.inj hp
    rw [List.getElem?_set] at ha hb
    rw [if_pos hpos.symm] at ha
    rw [if_neg (by omega)] at hb
    split at ha
    · cases ha
      exact h.ordered j child b (by omega) (by omega) (hj ▸ hget) hb
    · exact absurd ha.symm (Option.some_ne_none a)

/-! ### The loops -/

omit [LinearOrder α] in
/-- An entry goes into the hole and leaves one. -/
theorem set_set_perm_set {q : ℕ} {a : α} (hpos : pos < heap.length) (hq : heap[q]? = some a)
    (hne : pos ≠ q) : ((heap.set pos a).set q item).Perm (heap.set pos item) := by
  obtain ⟨hlt, rfl⟩ := List.getElem?_eq_some_iff.mp hq
  have hswap := @List.set_set_perm α (heap.set pos item) pos q (by simpa) (by simpa)
  simpa [List.getElem_set, hne, List.set_set] using hswap

theorem siftdown_spec (h : Holed heap pos) (hpos : pos < heap.length)
    (hchildren : ∀ i b, i / 2 = pos → heap[i + 1]? = some b → item ≤ b) :
    HeapOrdered (siftdown heap pos item) ∧ (siftdown heap pos item).Perm (heap.set pos item) := by
  induction heap, pos using siftdown.induct item with
  | case1 heap =>
    rw [siftdown]
    exact ⟨h.set (fun p a hp => absurd hp (Nat.succ_ne_zero p).symm) hchildren, .refl _⟩
  | case2 heap n parent hp hlt ih =>
    rw [siftdown]
    simp only [hp, if_pos hlt]
    obtain ⟨hordered, hperm⟩ := ih (h.up hp) (by rw [List.length_set]; omega)
      fun i b hi hb => le_children_up h hp hlt hi hb
    exact ⟨hordered, hperm.trans (set_set_perm_set hpos hp (by omega))⟩
  | case3 heap n parent hp hnot =>
    rw [siftdown]
    simp only [hp, if_neg hnot]
    refine ⟨h.set (fun p a hn ha => ?_) hchildren, .refl _⟩
    obtain rfl := Nat.succ.inj hn
    rw [← Option.some.inj (hp.symm.trans ha)]
    exact not_lt.mp hnot
  | case4 heap n hp =>
    rw [List.getElem?_eq_none_iff] at hp
    omega

theorem siftup_spec (h : Holed heap pos) (hpos : pos < heap.length) :
    HeapOrdered (siftup heap pos item) ∧ (siftup heap pos item).Perm (heap.set pos item) := by
  induction heap, pos using siftup.induct with
  | case1 heap pos i child hchild ih =>
    obtain ⟨hget, hup, -⟩ := smallerChild_eq_some hchild
    rw [siftup, hchild]
    dsimp only
    obtain ⟨hordered, hperm⟩ := ih (h.down hchild)
      (by rw [List.length_set]; exact (List.getElem?_eq_some_iff.mp hget).1)
    exact ⟨hordered, hperm.trans (set_set_perm_set hpos hget (by omega))⟩
  | case2 heap pos hleaf =>
    rw [siftup, hleaf]
    refine siftdown_spec h hpos fun i b hi hb => ?_
    rw [smallerChild_eq_none hleaf hi] at hb
    exact absurd hb.symm (Option.some_ne_none b)

/-! ### The operations -/

theorem heapOrdered_nil : HeapOrdered ([] : List α) := fun _ a _ ha =>
  absurd ha.symm (Option.some_ne_none a)

/-- The first entry is a least one. -/
theorem HeapOrdered.head_le (h : HeapOrdered heap) {a b : α} (ha : heap[0]? = some a) (hb : b ∈ heap) :
    a ≤ b := by
  obtain ⟨i, hi, rfl⟩ := List.getElem_of_mem hb
  induction i using Nat.strongRecOn with
  | ind i ih =>
    cases i with
    | zero => exact (Option.some.inj (ha.symm.trans (List.getElem?_eq_getElem hi))).le
    | succ n =>
      have hparent : n / 2 < heap.length := by omega
      exact (ih (n / 2) (by omega) hparent (List.getElem_mem hparent)).trans
        (h n _ _ (List.getElem?_eq_getElem hparent) (List.getElem?_eq_getElem hi))

theorem holed_concat (h : HeapOrdered heap) (item : α) : Holed (heap ++ [item]) heap.length where
  ordered i a b hp hi ha hb := by
    have hlt := (List.getElem?_eq_some_iff.mp hb).1
    rw [List.length_append, List.length_singleton] at hlt
    rw [List.getElem?_append_left (by omega)] at ha hb
    exact h i a b ha hb
  across p i a b hp hi ha hb := by
    have hlt := (List.getElem?_eq_some_iff.mp hb).1
    rw [List.length_append, List.length_singleton] at hlt
    omega

theorem heappush_spec (h : HeapOrdered heap) (item : α) :
    HeapOrdered (heappush heap item) ∧ (heappush heap item).Perm (item :: heap) := by
  have hchildren : ∀ i b, i / 2 = heap.length → (heap ++ [item])[i + 1]? = some b → item ≤ b :=
    fun i b hi hb => by
      have hlt := (List.getElem?_eq_some_iff.mp hb).1
      rw [List.length_append, List.length_singleton] at hlt
      omega
  obtain ⟨hordered, hperm⟩ := siftdown_spec (holed_concat h item) (by simp) hchildren
  refine ⟨hordered, hperm.trans ?_⟩
  rw [List.set_append_right _ _ le_rfl, Nat.sub_self]
  exact List.perm_append_singleton item heap

theorem heapOrdered_heappush (h : HeapOrdered heap) (item : α) : HeapOrdered (heappush heap item) :=
  (heappush_spec h item).1

theorem heappush_perm (h : HeapOrdered heap) (item : α) : (heappush heap item).Perm (item :: heap) :=
  (heappush_spec h item).2

variable {first : α} {rest : List α}

theorem heapOrdered_heapreplace (h : HeapOrdered (first :: rest)) (item : α) :
    HeapOrdered (heapreplace (first :: rest) item) :=
  (siftup_spec (h.holed 0) (Nat.succ_pos _)).1

theorem heapreplace_perm (h : HeapOrdered (first :: rest)) (item : α) :
    (heapreplace (first :: rest) item).Perm (item :: rest) :=
  (siftup_spec (h.holed 0) (Nat.succ_pos _)).2

end Foundation
