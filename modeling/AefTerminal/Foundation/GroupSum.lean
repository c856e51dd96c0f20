import AefTerminal.Foundation.Dict
import Mathlib.Data.List.Dedup
import Mathlib.Data.List.Sort

/-!
# Rows grouped by a key and summed

`GROUP BY` with `SUM` over rows of a key and a value, and the upsert that adds a group to the row of
its key. What both say of a key is its total over the rows, whatever their order.

## Main definitions

* `keyTotal`: the sum of the values of one key
* `groupSum`, `orderedGroups`: one row for each key
* `Dict.addGroups`: `ON CONFLICT DO UPDATE SET value = value + EXCLUDED.value`

## Main results

* `keyTotal_groupSum`, `Dict.getD_addGroups`: grouping and adding keep the totals
* `orderedGroups_congr`: rows with the same keys and totals have the same groups
-/

namespace Foundation

variable {κ M : Type*} [DecidableEq κ] [AddCommMonoid M]

/-- The sum of the values of a key. -/
def keyTotal (k : κ) (rows : List (κ × M)) : M :=
  ((rows.filter fun r => r.1 = k).map Prod.snd).sum

def groupKeys (rows : List (κ × M)) : List κ := (rows.map Prod.fst).dedup

def groupSum (rows : List (κ × M)) : List (κ × M) :=
  (groupKeys rows).map fun k => (k, keyTotal k rows)

/-- The groups in the order of their keys. -/
def orderedGroups (r : κ → κ → Prop) [DecidableRel r] (rows : List (κ × M)) : List (κ × M) :=
  ((groupKeys rows).insertionSort r).map fun k => (k, keyTotal k rows)

@[simp] theorem keyTotal_nil (k : κ) : keyTotal k ([] : List (κ × M)) = 0 := rfl

theorem keyTotal_cons (k : κ) (row : κ × M) (rows : List (κ × M)) :
    keyTotal k (row :: rows) = (if row.1 = k then row.2 else 0) + keyTotal k rows := by
  by_cases h : row.1 = k <;> simp [keyTotal, h]

theorem keyTotal_append (k : κ) (rows rows' : List (κ × M)) :
    keyTotal k (rows ++ rows') = keyTotal k rows + keyTotal k rows' := by
  simp [keyTotal]

theorem keyTotal_perm (k : κ) {rows rows' : List (κ × M)} (h : rows.Perm rows') :
    keyTotal k rows = keyTotal k rows' :=
  ((h.filter _).map _).sum_eq

theorem keyTotal_of_notMem {k : κ} {rows : List (κ × M)} (h : k ∉ rows.map Prod.fst) :
    keyTotal k rows = 0 := by
  have hnil : (rows.filter fun r => r.1 = k) = [] := by
    rw [List.filter_eq_nil_iff]
    intro r hr heq
    exact h (of_decide_eq_true heq ▸ List.mem_map_of_mem hr)
  rw [keyTotal, hnil]
  rfl

omit [AddCommMonoid M] in
theorem nodup_groupKeys (rows : List (κ × M)) : (groupKeys rows).Nodup := List.nodup_dedup _

omit [AddCommMonoid M] in
@[simp] theorem mem_groupKeys {rows : List (κ × M)} {k : κ} :
    k ∈ groupKeys rows ↔ k ∈ rows.map Prod.fst := List.mem_dedup

@[simp] theorem map_fst_groupSum (rows : List (κ × M)) :
    (groupSum rows).map Prod.fst = groupKeys rows := by
  rw [groupSum, List.map_map]
  exact List.map_id _

/-- One row for each key: its total is the row's value. -/
theorem keyTotal_map_of_nodup {ks : List κ} (hnodup : ks.Nodup) (f : κ → M) (k : κ) :
    keyTotal k (ks.map fun j => (j, f j)) = if k ∈ ks then f k else 0 := by
  induction ks with
  | nil => simp
  | cons j ks ih =>
    obtain ⟨hj, hnodup⟩ := List.nodup_cons.mp hnodup
    rw [List.map_cons, keyTotal_cons, ih hnodup]
    by_cases hk : j = k
    · subst hk
      simp [hj]
    · simp [hk, Ne.symm hk]

/-- The totals of several keys are the total of their rows. -/
theorem sum_map_keyTotal {ks : List κ} (hnodup : ks.Nodup) (rows : List (κ × M)) :
    (ks.map fun k => keyTotal k rows).sum = ((rows.filter fun r => r.1 ∈ ks).map Prod.snd).sum := by
  induction rows with
  | nil => simp
  | cons row rows ih =>
    have hone : (ks.map fun k => if row.1 = k then row.2 else 0).sum
        = if row.1 ∈ ks then row.2 else 0 := by
      clear ih
      induction ks with
      | nil => simp
      | cons k ks ih =>
        obtain ⟨hk, hnodup⟩ := List.nodup_cons.mp hnodup
        rw [List.map_cons, List.sum_cons, ih hnodup]
        by_cases heq : row.1 = k
        · subst heq
          simp [hk]
        · simp [heq]
    simp only [keyTotal_cons, List.sum_map_add, hone, ih]
    by_cases hmem : row.1 ∈ ks <;> simp [hmem]

/-- Grouping keeps the total of every key. -/
theorem keyTotal_groupSum (rows : List (κ × M)) (k : κ) :
    keyTotal k (groupSum rows) = keyTotal k rows := by
  rw [groupSum, keyTotal_map_of_nodup (nodup_groupKeys rows)]
  split_ifs with hk
  · rfl
  · rw [mem_groupKeys] at hk
    exact (keyTotal_of_notMem hk).symm

/-- Equal keys and equal totals make equal groups. -/
theorem orderedGroups_congr {r : κ → κ → Prop} [DecidableRel r] [Std.Total r] [IsTrans κ r]
    [Std.Antisymm r] {rows rows' : List (κ × M)}
    (hkeys : ∀ k, k ∈ rows.map Prod.fst ↔ k ∈ rows'.map Prod.fst)
    (htotals : ∀ k, keyTotal k rows = keyTotal k rows') :
    orderedGroups r rows = orderedGroups r rows' := by
  have hperm : (groupKeys rows).Perm (groupKeys rows') :=
    (List.perm_ext_iff_of_nodup (nodup_groupKeys rows) (nodup_groupKeys rows')).mpr fun k => by
      rw [mem_groupKeys, mem_groupKeys, hkeys]
  have hsorted : (groupKeys rows).insertionSort r = (groupKeys rows').insertionSort r :=
    List.Perm.eq_of_pairwise' (List.pairwise_insertionSort r _) (List.pairwise_insertionSort r _)
      (((List.perm_insertionSort r _).trans hperm).trans (List.perm_insertionSort r _).symm)
  rw [orderedGroups, orderedGroups, hsorted]
  exact List.map_congr_left fun k _ => by rw [htotals]

namespace Dict

/-- Every group is added to the row of its key. -/
def addGroups (d : Dict κ M) (groups : List (κ × M)) : Dict κ M :=
  groups.foldl (fun d g => d.insert g.1 ((d.get? g.1).getD 0 + g.2)) d

theorem getD_addGroups (d : Dict κ M) (groups : List (κ × M)) (k : κ) :
    ((d.addGroups groups).get? k).getD 0 = (d.get? k).getD 0 + keyTotal k groups := by
  induction groups generalizing d with
  | nil => simp [addGroups]
  | cons g groups ih =>
    rw [addGroups, List.foldl_cons, ← addGroups, ih, keyTotal_cons, get?_insert]
    by_cases hk : k = g.1
    · subst hk
      simp [add_assoc]
    · simp [hk, Ne.symm hk]

theorem mem_keys_addGroups {d : Dict κ M} {groups : List (κ × M)} {k : κ} :
    k ∈ (d.addGroups groups).keys ↔ k ∈ groups.map Prod.fst ∨ k ∈ d.keys := by
  induction groups generalizing d with
  | nil => simp [addGroups]
  | cons g groups ih =>
    rw [addGroups, List.foldl_cons, ← addGroups, ih, mem_keys_insert, List.map_cons,
      List.mem_cons]
    tauto

/-- Rows of other keys are not touched. -/
theorem get?_addGroups_of_notMem {d : Dict κ M} {groups : List (κ × M)} {k : κ}
    (h : k ∉ groups.map Prod.fst) : (d.addGroups groups).get? k = d.get? k := by
  induction groups generalizing d with
  | nil => rfl
  | cons g groups ih =>
    rw [List.map_cons, List.mem_cons, not_or] at h
    rw [addGroups, List.foldl_cons, ← addGroups, ih h.2, get?_insert_of_ne _ h.1]

end Dict

end Foundation
