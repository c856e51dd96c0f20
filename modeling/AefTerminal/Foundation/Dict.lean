import Mathlib.Algebra.BigOperators.Group.List.Basic
import Mathlib.Data.List.Nodup
import Mathlib.Data.List.Basic
import Mathlib.Tactic.Abel

/-!
# Insertion-ordered dictionaries

A dictionary that remembers the order in which its keys were first inserted. Writing a key that
is present replaces its value in place; writing a new key appends it. That order is observable:
a caller that evicts "the first key that …" depends on it.

The field `nodup_keys` makes two entries for one key unrepresentable, so `size` is the number of
keys and no lemma below has to exclude duplicates.

## Main results

* `Dict.get?_insert_self`, `Dict.get?_insert_of_ne`: reading after a write
* `Dict.get?_erase_self`, `Dict.get?_erase_of_ne`: reading after a removal
* `Dict.entries_insert_of_notMem`: a new key goes last
* `Dict.total_insert_of_notMem`, `Dict.total_insert_of_get?`: what a write does to a sum over rows
-/

namespace Foundation

universe u v

/-- A dictionary with its keys in insertion order. -/
structure Dict (κ : Type u) (ν : Type v) where
  /-- The entries, oldest key first. -/
  entries : List (κ × ν)
  /-- No key occurs twice. -/
  nodup_keys : (entries.map Prod.fst).Nodup

namespace Dict

variable {κ : Type u} {ν : Type v}

def keys (d : Dict κ ν) : List κ := d.entries.map Prod.fst

def size (d : Dict κ ν) : ℕ := d.entries.length

def empty : Dict κ ν := ⟨[], by simp⟩

instance : Inhabited (Dict κ ν) := ⟨empty⟩

@[simp] theorem keys_empty : (empty : Dict κ ν).keys = [] := rfl

variable {d : Dict κ ν}

theorem ext {e : Dict κ ν} (h : d.entries = e.entries) : d = e := by
  cases d; cases e; simpa using h

theorem length_keys (d : Dict κ ν) : d.keys.length = d.size := by simp [keys, size]

variable [DecidableEq κ]

/-- The value at `k`, if `k` is present. -/
def get? (d : Dict κ ν) (k : κ) : Option ν := (d.entries.find? fun e => e.1 = k).map Prod.snd

/-- Replace the value of a present key in place, append a new key. -/
def insert (d : Dict κ ν) (k : κ) (v : ν) : Dict κ ν where
  entries :=
    if k ∈ d.keys then d.entries.map fun e => if e.1 = k then (k, v) else e
    else d.entries ++ [(k, v)]
  nodup_keys := by
    split
    · have hmap : (d.entries.map fun e => if e.1 = k then (k, v) else e).map Prod.fst
          = d.entries.map Prod.fst := by
        rw [List.map_map]
        refine List.map_congr_left fun e _ => ?_
        by_cases he : e.1 = k <;> simp [he]
      rw [hmap]
      exact d.nodup_keys
    · rename_i hk
      rw [List.map_append, List.nodup_append]
      refine ⟨d.nodup_keys, by simp, fun a ha b hb => ?_⟩
      rw [List.map_singleton, List.mem_singleton] at hb
      rintro rfl
      rw [hb] at ha
      exact hk ha

/-- Remove a key, present or not. -/
def erase (d : Dict κ ν) (k : κ) : Dict κ ν where
  entries := d.entries.filter fun e => e.1 ≠ k
  nodup_keys := d.nodup_keys.sublist (List.filter_sublist.map _)

/-- Rewrite the rows that meet `p`, in place. -/
def updateWhere (d : Dict κ ν) (p : κ → ν → Bool) (f : ν → ν) : Dict κ ν where
  entries := d.entries.map fun e => (e.1, if p e.1 e.2 then f e.2 else e.2)
  nodup_keys := by
    rw [List.map_map]
    exact d.nodup_keys

/-- Forget the `n` oldest keys. -/
def dropOldest (d : Dict κ ν) (n : ℕ) : Dict κ ν where
  entries := d.entries.drop n
  nodup_keys := d.nodup_keys.sublist ((List.drop_sublist n d.entries).map _)

/-- The rows that meet `p`, in order. -/
def select (d : Dict κ ν) (p : κ → ν → Bool) : List (κ × ν) := d.entries.filter fun e => p e.1 e.2

@[simp] theorem get?_empty (k : κ) : (empty : Dict κ ν).get? k = none := rfl

variable {k j : κ}

theorem mem_keys_iff : k ∈ d.keys ↔ (d.get? k).isSome := by
  simp [keys, get?, List.find?_isSome]

theorem notMem_keys_iff : k ∉ d.keys ↔ d.get? k = none := by
  rw [mem_keys_iff, Option.not_isSome_iff_eq_none]

variable {v : ν}

theorem mem_keys_of_get? (h : d.get? k = some v) : k ∈ d.keys := by
  rw [mem_keys_iff, h]; rfl

/-- Membership in the entry list is the same as lookup. -/
theorem get?_eq_some_iff :
    d.get? k = some v ↔ (k, v) ∈ d.entries := by
  obtain ⟨l, hl⟩ := d
  simp only [get?]
  induction l with
  | nil => simp
  | cons e l ih =>
    have hl' := List.nodup_cons.mp hl
    rw [List.find?_cons]
    by_cases he : e.1 = k
    · simp only [he, decide_true, Option.map_some, Option.some.injEq, List.mem_cons]
      constructor
      · rintro rfl; exact Or.inl (by rw [← he])
      · rintro (h | h)
        · rw [← h]
        · exact absurd (List.mem_map_of_mem (f := Prod.fst) h) (by simpa [he] using hl'.1)
    · simp only [he, decide_false, List.mem_cons]
      rw [ih hl'.2]
      constructor
      · exact Or.inr
      · rintro (h | h)
        · exact absurd (by rw [← h]) he
        · exact h

theorem entries_insert_of_mem (h : k ∈ d.keys) (v : ν) :
    (d.insert k v).entries = d.entries.map fun e => if e.1 = k then (k, v) else e := by
  simp only [insert, if_pos h]

/-- A new key goes last. -/
theorem entries_insert_of_notMem (h : k ∉ d.keys) (v : ν) :
    (d.insert k v).entries = d.entries ++ [(k, v)] := by
  simp only [insert, if_neg h]

theorem keys_insert_of_notMem (h : k ∉ d.keys) (v : ν) :
    (d.insert k v).keys = d.keys ++ [k] := by
  rw [keys, entries_insert_of_notMem h, List.map_append]; rfl

theorem keys_insert_of_mem (h : k ∈ d.keys) (v : ν) :
    (d.insert k v).keys = d.keys := by
  rw [keys, entries_insert_of_mem h, List.map_map]
  refine List.map_congr_left fun e _ => ?_
  by_cases he : e.1 = k <;> simp [he]

@[simp] theorem get?_insert_self (d : Dict κ ν) (k : κ) (v : ν) :
    (d.insert k v).get? k = some v := by
  rw [get?_eq_some_iff]
  by_cases h : k ∈ d.keys
  · rw [entries_insert_of_mem h]
    obtain ⟨e, he, hk⟩ := List.mem_map.mp h
    exact List.mem_map.mpr ⟨e, he, by simp [hk]⟩
  · rw [entries_insert_of_notMem h]; simp

@[simp] theorem get?_insert_of_ne (d : Dict κ ν) (h : j ≠ k) (v : ν) :
    (d.insert k v).get? j = d.get? j := by
  refine Option.ext fun w => ?_
  rw [get?_eq_some_iff, get?_eq_some_iff]
  by_cases hk : k ∈ d.keys
  · rw [entries_insert_of_mem hk, List.mem_map]
    constructor
    · rintro ⟨e, he, heq⟩
      by_cases hek : e.1 = k
      · rw [if_pos hek] at heq
        exact absurd (congrArg Prod.fst heq).symm h
      · rw [if_neg hek] at heq
        exact heq ▸ he
    · intro hj
      exact ⟨(j, w), hj, by simp [h]⟩
  · rw [entries_insert_of_notMem hk]
    simp [h]

theorem get?_insert (d : Dict κ ν) (k j : κ) (v : ν) :
    (d.insert k v).get? j = if j = k then some v else d.get? j := by
  by_cases h : j = k
  · subst h; simp
  · simp [h]

@[simp] theorem get?_erase_self (d : Dict κ ν) (k : κ) : (d.erase k).get? k = none := by
  rw [← notMem_keys_iff]
  simp [keys, erase]

@[simp] theorem get?_erase_of_ne (d : Dict κ ν) (h : j ≠ k) :
    (d.erase k).get? j = d.get? j := by
  refine Option.ext fun w => ?_
  rw [get?_eq_some_iff, get?_eq_some_iff]
  simp [erase, h]

theorem get?_erase (d : Dict κ ν) (k j : κ) :
    (d.erase k).get? j = if j = k then none else d.get? j := by
  by_cases h : j = k
  · subst h; simp
  · simp [h]

@[simp] theorem get?_updateWhere (d : Dict κ ν) (p : κ → ν → Bool) (f : ν → ν) (k : κ) :
    (d.updateWhere p f).get? k = (d.get? k).map fun v => if p k v then f v else v := by
  refine Option.ext fun w => ?_
  rw [get?_eq_some_iff, updateWhere, List.mem_map]
  constructor
  · rintro ⟨e, he, heq⟩
    cases heq
    rw [get?_eq_some_iff.mpr he]
    rfl
  · intro h
    obtain ⟨v, hv, rfl⟩ := Option.map_eq_some_iff.mp h
    exact ⟨(k, v), get?_eq_some_iff.mp hv, rfl⟩

theorem mem_select {p : κ → ν → Bool} :
    (k, v) ∈ d.select p ↔ d.get? k = some v ∧ p k v := by
  rw [select, List.mem_filter, get?_eq_some_iff]

theorem mem_keys_insert :
    j ∈ (d.insert k v).keys ↔ j = k ∨ j ∈ d.keys := by
  rw [mem_keys_iff, get?_insert, mem_keys_iff]
  by_cases h : j = k <;> simp [h]

theorem mem_keys_erase : j ∈ (d.erase k).keys ↔ j ≠ k ∧ j ∈ d.keys := by
  rw [mem_keys_iff, get?_erase, mem_keys_iff]
  by_cases h : j = k <;> simp [h]

theorem keys_erase (d : Dict κ ν) (k : κ) : (d.erase k).keys = d.keys.filter (· ≠ k) := by
  simp only [keys, erase, List.filter_map]
  rfl

theorem keys_erase_eq_erase (d : Dict κ ν) (k : κ) : (d.erase k).keys = d.keys.erase k := by
  have hnodup : d.keys.Nodup := d.nodup_keys
  rw [keys_erase, hnodup.erase_eq_filter]
  refine List.filter_congr fun j _ => ?_
  by_cases hj : j = k <;> simp [hj]

/-! ### Several keys -/

/-- Remove several keys. -/
def eraseAll (d : Dict κ ν) (ks : List κ) : Dict κ ν := ks.foldl erase d

@[simp] theorem get?_eraseAll (d : Dict κ ν) (ks : List κ) (k : κ) :
    (d.eraseAll ks).get? k = if k ∈ ks then none else d.get? k := by
  induction ks generalizing d with
  | nil => simp [eraseAll]
  | cons j ks ih =>
    rw [eraseAll, List.foldl_cons, ← eraseAll, ih, get?_erase]
    by_cases hk : k = j
    · simp [hk]
    · simp [hk]

theorem mem_keys_eraseAll {ks : List κ} :
    j ∈ (d.eraseAll ks).keys ↔ j ∉ ks ∧ j ∈ d.keys := by
  rw [mem_keys_iff, get?_eraseAll, mem_keys_iff]
  by_cases h : j ∈ ks <;> simp [h]

theorem size_erase_of_mem (h : k ∈ d.keys) :
    (d.erase k).size + 1 = d.size := by
  have hperm := List.perm_cons_erase h
  rw [← length_keys, ← length_keys, keys_erase_eq_erase, hperm.length_eq, List.length_cons]

/-- Removing distinct present keys makes the dictionary smaller by their number. -/
theorem size_eraseAll {ks : List κ} (hd : ks.Nodup) (hks : ∀ k ∈ ks, k ∈ d.keys) :
    (d.eraseAll ks).size + ks.length = d.size := by
  induction ks generalizing d with
  | nil => simp [eraseAll]
  | cons k ks ih =>
    obtain ⟨hk, hd⟩ := List.nodup_cons.mp hd
    obtain ⟨hmem, hks⟩ := List.forall_mem_cons.mp hks
    have hrest : ∀ j ∈ ks, j ∈ (d.erase k).keys := fun j hj =>
      mem_keys_erase.mpr ⟨fun heq => hk (heq ▸ hj), hks j hj⟩
    have hih := ih hd hrest
    have hone := size_erase_of_mem hmem
    rw [eraseAll, List.foldl_cons, ← eraseAll, List.length_cons]
    omega

theorem size_eraseAll_le (d : Dict κ ν) (ks : List κ) : (d.eraseAll ks).size ≤ d.size := by
  induction ks generalizing d with
  | nil => exact le_rfl
  | cons k ks ih => exact (ih (d.erase k)).trans (List.length_filter_le _ _)

/-! ### Merging -/

/-- The entries of `e` written over those of `d`. -/
def merge (d e : Dict κ ν) : Dict κ ν := e.entries.foldl (fun acc p => acc.insert p.1 p.2) d

theorem get?_foldl_insert_of_notMem (l : List (κ × ν)) (d : Dict κ ν)
    (h : k ∉ l.map Prod.fst) : (l.foldl (fun acc p => acc.insert p.1 p.2) d).get? k = d.get? k := by
  induction l generalizing d with
  | nil => rfl
  | cons p l ih =>
    rw [List.map_cons, List.mem_cons, not_or] at h
    rw [List.foldl_cons, ih _ h.2, get?_insert_of_ne _ h.1]

/-- What was written over wins. -/
theorem get?_merge_of_get? {e : Dict κ ν} (h : e.get? k = some v) :
    (d.merge e).get? k = some v := by
  have hmem : (k, v) ∈ e.entries := get?_eq_some_iff.mp h
  obtain ⟨l, r, hsplit⟩ := List.append_of_mem hmem
  have hnodup := e.nodup_keys
  rw [hsplit, List.map_append, List.map_cons] at hnodup
  have hnot : k ∉ r.map Prod.fst := (List.nodup_cons.mp (List.nodup_append.mp hnodup).2.1).1
  rw [merge, hsplit, List.foldl_append, List.foldl_cons, get?_foldl_insert_of_notMem r _ hnot,
    get?_insert_self]

omit [DecidableEq κ] in
/-- Two dictionaries with the same keys have the same size. -/
theorem size_eq_of_keys {ν' : Type*} {e : Dict κ ν'}
    (h : ∀ k, k ∈ d.keys ↔ k ∈ e.keys) : d.size = e.size := by
  rw [← length_keys, ← length_keys]
  exact ((List.perm_ext_iff_of_nodup d.nodup_keys e.nodup_keys).mpr h).length_eq

/-! ### Totals -/

section Total

variable {M : Type*} [AddCommMonoid M]

/-- The sum of a quantity over the rows. -/
def total (d : Dict κ ν) (g : κ → ν → M) : M := (d.entries.map fun e => g e.1 e.2).sum

/-- A new row adds its own share. -/
theorem total_insert_of_notMem {d : Dict κ ν} {k : κ} (h : k ∉ d.keys) (v : ν) (g : κ → ν → M) :
    (d.insert k v).total g = d.total g + g k v := by
  simp [total, entries_insert_of_notMem h]

/-- Rewriting a row replaces its share. -/
theorem total_insert_of_get? {d : Dict κ ν} {k : κ} {v : ν} (h : d.get? k = some v) (w : ν)
    (g : κ → ν → M) : (d.insert k w).total g + g k v = d.total g + g k w := by
  have hmem := get?_eq_some_iff.mp h
  rw [total, total, entries_insert_of_mem (mem_keys_of_get? h)]
  obtain ⟨l, hl⟩ := d
  dsimp only at hmem ⊢
  induction l with
  | nil => simp at hmem
  | cons e l ih =>
    obtain ⟨hfresh, hl'⟩ := List.nodup_cons.mp hl
    rcases List.mem_cons.mp hmem with rfl | hmem'
    · -- the other rows have other keys
      have hrest : (l.map fun e => if e.1 = k then (k, w) else e) = l := by
        refine (List.map_congr_left fun e he => if_neg ?_).trans (List.map_id l)
        rintro rfl
        exact hfresh (List.mem_map.mpr ⟨e, he, rfl⟩)
      simp only [List.map_cons, if_true, List.sum_cons, hrest]
      abel
    · have hne : e.1 ≠ k := by
        rintro rfl
        exact hfresh (List.mem_map.mpr ⟨(e.1, v), hmem', rfl⟩)
      have hih := ih hl' (get?_eq_some_iff.mpr hmem') hmem'
      simp only [List.map_cons, if_neg hne, List.sum_cons]
      rw [add_assoc, hih, add_assoc]

end Total

end Dict

end Foundation
