import AefTerminal.Foundation.GroupSum

/-!
# Reading a table that is partly rolled up

Some rows of a table have been replaced by sums, one for each key. A reader adds the sums to what is
left of the table and leaves out rows whose key has a sum. Where every row of a key with a sum is in
the sum, that reads as the whole table would, provided that the reader wants a sum exactly when it
wants each of its rows.

## Main definitions

* `RolledUp`: the rows of a key are all in the sum, or all in the table
* `rolledUpRows`: what the reader merges

## Main results

* `RolledUp.append`, `RolledUp.take`: new rows of other keys, and a roll-up of whole keys
* `RolledUp.orderedGroups_eq`: both readings agree
-/

namespace Foundation

variable {α κ ρ M : Type*} [DecidableEq κ] [DecidableEq ρ] [AddCommMonoid M]

/-- `raw` is what is left of `all` after rows were added up in `rollup`. -/
structure RolledUp (key : α → κ) (value : α → M) (rollup : Dict κ M) (raw all : List α) :
    Prop where
  left : raw = all.filter fun a => key a ∉ rollup.keys
  some_of_mem : ∀ k ∈ rollup.keys, ∃ a ∈ all, key a = k
  sum : ∀ k s, rollup.get? k = some s → s = keyTotal k (all.map fun a => (key a, value a))

/-- The sums of the wanted keys, and the groups of the wanted rows whose key has no sum. -/
def rolledUpRows (key : α → κ) (value : α → M) (rollup : Dict κ M) (raw : List α) (out : κ → ρ)
    (wantKey : κ → Prop) (wantRow : α → Prop) [DecidablePred wantKey] [DecidablePred wantRow] :
    List (ρ × M) :=
  (rollup.select fun k _ => wantKey k).map (fun e => (out e.1, e.2)) ++
    groupSum ((raw.filter fun a => wantRow a ∧ key a ∉ rollup.keys).map fun a =>
      (out (key a), value a))

namespace RolledUp

variable {key : α → κ} {value : α → M} {rollup : Dict κ M} {raw all : List α}

omit [DecidableEq ρ] in
theorem empty (key : α → κ) (value : α → M) : RolledUp key value (.empty : Dict κ M) [] [] :=
  ⟨rfl, nofun, nofun⟩

/-- New rows have keys without a sum. -/
theorem append (h : RolledUp key value rollup raw all) {rows : List α}
    (hnew : ∀ a ∈ rows, key a ∉ rollup.keys) :
    RolledUp key value rollup (raw ++ rows) (all ++ rows) where
  left := by
    rw [List.filter_append, ← h.left, List.filter_eq_self.mpr]
    exact fun a ha => decide_eq_true (hnew a ha)
  some_of_mem k hk := by
    obtain ⟨a, ha, heq⟩ := h.some_of_mem k hk
    exact ⟨a, List.mem_append_left _ ha, heq⟩
  sum k s hs := by
    have hzero : keyTotal k (rows.map fun a => (key a, value a)) = 0 := by
      refine keyTotal_of_notMem fun hmem => ?_
      obtain ⟨row, hrow, rfl⟩ := List.mem_map.mp hmem
      obtain ⟨a, ha, rfl⟩ := List.mem_map.mp hrow
      exact hnew a ha (Dict.mem_keys_of_get? hs)
    rw [List.map_append, keyTotal_append, hzero, add_zero]
    exact h.sum k s hs

theorem mem_raw (h : RolledUp key value rollup raw all) {a : α} :
    a ∈ raw ↔ a ∈ all ∧ key a ∉ rollup.keys := by
  rw [h.left, List.mem_filter, decide_eq_true_eq]

/-- A key without a sum has all its rows in the table. -/
theorem keyTotal_raw (h : RolledUp key value rollup raw all) {k : κ} (hk : k ∉ rollup.keys) :
    keyTotal k (raw.map fun a => (key a, value a))
      = keyTotal k (all.map fun a => (key a, value a)) := by
  simp only [keyTotal, List.filter_map, h.left, List.filter_filter]
  congr 3
  refine List.filter_congr fun a _ => ?_
  by_cases heq : key a = k
  · simp [heq, hk]
  · simp [heq]

/-- The rows of some keys are added up and taken out. -/
theorem take (h : RolledUp key value rollup raw all) (p : α → Prop) [DecidablePred p]
    (hp : ∀ a b, key a = key b → p a → p b) :
    RolledUp key value
      (rollup.addGroups (groupSum ((raw.filter fun a => p a).map fun a => (key a, value a))))
      (raw.filter fun a => ¬ p a) all := by
  have hgroup : ∀ k, k ∈ (groupSum ((raw.filter fun a => p a).map fun a =>
      (key a, value a))).map Prod.fst ↔ ∃ a ∈ raw, p a ∧ key a = k := fun k => by
    rw [map_fst_groupSum, mem_groupKeys, List.map_map]
    simp only [List.mem_map, List.mem_filter, decide_eq_true_eq, Function.comp_apply, and_assoc]
  refine ⟨?_, fun k hk => ?_, fun k s hs => ?_⟩
  · conv_lhs => rw [h.left, List.filter_filter]
    refine List.filter_congr fun a ha => ?_
    rw [← Bool.decide_and, decide_eq_decide, Dict.mem_keys_addGroups, hgroup, not_or]
    refine and_congr_left fun hk => not_congr ⟨fun hpa => ?_, ?_⟩
    · exact ⟨a, h.mem_raw.mpr ⟨ha, hk⟩, hpa, rfl⟩
    · rintro ⟨b, -, hpb, heq⟩
      exact hp b a heq hpb
  · rcases Dict.mem_keys_addGroups.mp hk with hk | hk
    · obtain ⟨a, ha, -, heq⟩ := (hgroup k).mp hk
      exact ⟨a, (h.mem_raw.mp ha).1, heq⟩
    · exact h.some_of_mem k hk
  · by_cases hk : ∃ a ∈ raw, p a ∧ key a = k
    · obtain ⟨a, ha, hpa, rfl⟩ := hk
      -- the key had no sum, and all its rows in the table have the property
      have hkey : key a ∉ rollup.keys := (h.mem_raw.mp ha).2
      have hget := Dict.getD_addGroups rollup
        (groupSum ((raw.filter fun a => p a).map fun a => (key a, value a))) (key a)
      rw [hs, Dict.notMem_keys_iff.mp hkey, Option.getD_some, Option.getD_none, zero_add,
        keyTotal_groupSum] at hget
      rw [hget, ← h.keyTotal_raw hkey]
      simp only [keyTotal, List.filter_map, List.filter_filter]
      congr 3
      refine List.filter_congr fun b _ => ?_
      by_cases heq : key b = key a
      · simp [heq, hp a b heq.symm hpa]
      · simp [heq]
    · rw [Dict.get?_addGroups_of_notMem fun hmem => hk ((hgroup k).mp hmem)] at hs
      exact h.sum k s hs

/-! ### Both readings -/

/-- The rows that the reader groups, of the whole table. -/
def wantedRows (key : α → κ) (value : α → M) (all : List α) (out : κ → ρ) (wantRow : α → Prop)
    [DecidablePred wantRow] : List (ρ × M) :=
  (all.filter fun a => wantRow a).map fun a => (out (key a), value a)

section

variable {out : κ → ρ} {wantKey : κ → Prop} {wantRow : α → Prop} [DecidablePred wantKey]
  [DecidablePred wantRow]

/-- The wanted sums are the totals of the wanted rows that they are made of. -/
theorem keyTotal_select (h : RolledUp key value rollup raw all)
    (hwant : ∀ a ∈ all, key a ∈ rollup.keys → (wantKey (key a) ↔ wantRow a)) (o : ρ) :
    keyTotal o ((rollup.select fun k _ => wantKey k).map fun e => (out e.1, e.2))
      = keyTotal o (wantedRows key value all out fun a => wantRow a ∧ key a ∈ rollup.keys) := by
  let ks := (rollup.entries.filter fun e => wantKey e.1 ∧ out e.1 = o).map Prod.fst
  have hnodup : ks.Nodup := rollup.nodup_keys.sublist (List.filter_sublist.map _)
  have hks : ∀ k, k ∈ ks ↔ wantKey k ∧ out k = o ∧ k ∈ rollup.keys := fun k => by
    simp only [ks, List.mem_map, List.mem_filter, decide_eq_true_eq, Dict.keys]
    constructor
    · rintro ⟨e, ⟨he, hwant, hout⟩, rfl⟩
      exact ⟨hwant, hout, e, he, rfl⟩
    · rintro ⟨hwant, hout, e, he, rfl⟩
      exact ⟨e, ⟨he, hwant, hout⟩, rfl⟩
  calc keyTotal o ((rollup.select fun k _ => wantKey k).map fun e => (out e.1, e.2))
      = ((rollup.entries.filter fun e => wantKey e.1 ∧ out e.1 = o).map Prod.snd).sum := by
        simp only [keyTotal, Dict.select, List.filter_map, List.filter_filter, List.map_map]
        congr 2
        exact List.filter_congr fun e _ => by
          simp only [Function.comp_apply, Bool.decide_and]
          exact Bool.and_comm _ _
    _ = (ks.map fun k => keyTotal k (all.map fun a => (key a, value a))).sum := by
        rw [List.map_map]
        congr 1
        refine List.map_congr_left fun e he => ?_
        exact h.sum e.1 e.2 (Dict.get?_eq_some_iff.mpr (List.mem_filter.mp he).1)
    _ = (((all.map fun a => (key a, value a)).filter fun r => r.1 ∈ ks).map Prod.snd).sum :=
        sum_map_keyTotal hnodup _
    _ = keyTotal o (wantedRows key value all out fun a => wantRow a ∧ key a ∈ rollup.keys) := by
        simp only [keyTotal, wantedRows, List.filter_map, List.map_map, List.filter_filter]
        congr 2
        refine List.filter_congr fun a ha => ?_
        simp only [Function.comp_apply]
        rw [← Bool.decide_and, decide_eq_decide, hks]
        constructor
        · rintro ⟨hkey, hout, hmem⟩
          exact ⟨hout, (hwant a ha hmem).mp hkey, hmem⟩
        · rintro ⟨hout, hrow, hmem⟩
          exact ⟨(hwant a ha hmem).mpr hrow, hout, hmem⟩

omit [DecidableEq ρ] in
/-- What the reader takes from the table are the wanted rows without a sum. -/
theorem wantedRows_raw (h : RolledUp key value rollup raw all) :
    wantedRows key value raw out (fun a => wantRow a ∧ key a ∉ rollup.keys)
      = wantedRows key value all out fun a => wantRow a ∧ key a ∉ rollup.keys := by
  rw [wantedRows, wantedRows]
  conv_lhs => rw [h.left, List.filter_filter]
  congr 1
  refine List.filter_congr fun a _ => ?_
  by_cases hk : key a ∈ rollup.keys <;> simp [hk]

theorem keyTotal_rolledUpRows (h : RolledUp key value rollup raw all)
    (hwant : ∀ a ∈ all, key a ∈ rollup.keys → (wantKey (key a) ↔ wantRow a)) (o : ρ) :
    keyTotal o (rolledUpRows key value rollup raw out wantKey wantRow)
      = keyTotal o (wantedRows key value all out wantRow) := by
  have hraw : keyTotal o (wantedRows key value raw out fun a => wantRow a ∧ key a ∉ rollup.keys)
      = keyTotal o (wantedRows key value all out fun a => wantRow a ∧ key a ∉ rollup.keys) := by
    rw [h.wantedRows_raw]
  rw [rolledUpRows, keyTotal_append, keyTotal_groupSum, h.keyTotal_select hwant]
  refine (congrArg _ hraw).trans ?_
  rw [← keyTotal_append]
  refine keyTotal_perm o ?_
  rw [wantedRows, wantedRows, wantedRows, ← List.map_append]
  refine List.Perm.map _ ?_
  have hsplit := List.filter_append_perm (fun a => decide (key a ∈ rollup.keys))
    (all.filter fun a => wantRow a)
  rw [List.filter_filter, List.filter_filter] at hsplit
  refine List.Perm.trans (List.Perm.of_eq ?_) hsplit
  congr 1
  · exact List.filter_congr fun a _ => by rw [Bool.decide_and, Bool.and_comm]
  · exact List.filter_congr fun a _ => by rw [Bool.decide_and, Bool.and_comm, decide_not]

theorem mem_fst_rolledUpRows (h : RolledUp key value rollup raw all)
    (hwant : ∀ a ∈ all, key a ∈ rollup.keys → (wantKey (key a) ↔ wantRow a)) (o : ρ) :
    o ∈ (rolledUpRows key value rollup raw out wantKey wantRow).map Prod.fst ↔
      o ∈ (wantedRows key value all out wantRow).map Prod.fst := by
  have hall : o ∈ (wantedRows key value all out wantRow).map Prod.fst ↔
      ∃ a ∈ all, wantRow a ∧ out (key a) = o := by
    simp only [wantedRows, List.map_map, List.mem_map, List.mem_filter, decide_eq_true_eq,
      Function.comp_apply, and_assoc]
  have hrows : o ∈ (rolledUpRows key value rollup raw out wantKey wantRow).map Prod.fst ↔
      (∃ k ∈ rollup.keys, wantKey k ∧ out k = o) ∨
        ∃ a ∈ raw, (wantRow a ∧ key a ∉ rollup.keys) ∧ out (key a) = o := by
    rw [rolledUpRows, List.map_append, List.mem_append, map_fst_groupSum, mem_groupKeys]
    simp only [Dict.select, Dict.keys, List.map_map, List.mem_map, List.mem_filter,
      decide_eq_true_eq, Function.comp_apply, and_assoc, exists_exists_and_eq_and]
  rw [hall, hrows]
  constructor
  · rintro (⟨k, hk, hkey, hout⟩ | ⟨a, ha, ⟨hrow, -⟩, hout⟩)
    · obtain ⟨a, ha, rfl⟩ := h.some_of_mem k hk
      exact ⟨a, ha, (hwant a ha hk).mp hkey, hout⟩
    · exact ⟨a, (h.mem_raw.mp ha).1, hrow, hout⟩
  · rintro ⟨a, ha, hrow, hout⟩
    by_cases hk : key a ∈ rollup.keys
    · exact Or.inl ⟨key a, hk, (hwant a ha hk).mpr hrow, hout⟩
    · exact Or.inr ⟨a, h.mem_raw.mpr ⟨ha, hk⟩, ⟨hrow, hk⟩, hout⟩

/-- The whole table is one that nothing was rolled up of. -/
theorem untouched (key : α → κ) (value : α → M) (all : List α) :
    RolledUp key value (.empty : Dict κ M) all all :=
  ⟨(List.filter_eq_self.mpr fun _ _ => decide_eq_true (nomatch ·)).symm, nofun, nofun⟩

/-- **Reading through the sums.** Where a sum is wanted exactly when each of its rows is, the merged
groups are those of the whole table. -/
theorem orderedGroups_eq {r : ρ → ρ → Prop} [DecidableRel r] [Std.Total r] [IsTrans ρ r]
    [Std.Antisymm r] (h : RolledUp key value rollup raw all)
    (hwant : ∀ a ∈ all, key a ∈ rollup.keys → (wantKey (key a) ↔ wantRow a)) :
    orderedGroups r (rolledUpRows key value rollup raw out wantKey wantRow)
      = orderedGroups r (rolledUpRows key value .empty all out wantKey wantRow) := by
  have hnone : ∀ a ∈ all, key a ∈ (.empty : Dict κ M).keys → (wantKey (key a) ↔ wantRow a) :=
    fun _ _ hk => nomatch hk
  have hall := untouched key value all
  refine orderedGroups_congr (fun o => ?_) fun o => ?_
  · rw [h.mem_fst_rolledUpRows hwant, hall.mem_fst_rolledUpRows hnone]
  · rw [h.keyTotal_rolledUpRows hwant, hall.keyTotal_rolledUpRows hnone]

end

end RolledUp

end Foundation
