import AefTerminal.Foundation.Dict
import Mathlib.Data.List.Induction
import Mathlib.Data.List.Sort

/-!
# Items by their keys

Loops over a list of items, with a dictionary: one keeps the last item of each key, one collects the
items of each key in their order, one folds them as they come. What each leaves is read off the list.

## Main definitions

* `lastWith`: the last item with a key
* `Dict.latestBy`, `latestSorted`: the last item of each key, in the order of the keys
* `Dict.groupedBy`, `Dict.foldedBy`: the items of each key, and their fold

## Main results

* `latestSorted_congr`, `latestSorted_append`
* `entries_groupedBy`, `entries_groupedBy_append`, `get?_foldedBy`
-/

namespace Foundation

variable {α κ : Type*} [DecidableEq κ] {key : α → κ}

/-- The last item with the key. -/
def lastWith (key : α → κ) (items : List α) (k : κ) : Option α :=
  items.reverse.find? fun a => key a = k

variable {k : κ}

@[simp] theorem lastWith_nil : lastWith key [] k = none := rfl

variable {a : α} {items : List α}

theorem lastWith_concat :
    lastWith key (items ++ [a]) k = if key a = k then some a else lastWith key items k := by
  rw [lastWith, List.reverse_concat, List.find?_cons]
  by_cases h : key a = k
  · rw [if_pos h, decide_eq_true h]
  · rw [if_neg h, decide_eq_false h, lastWith]

theorem key_of_lastWith (h : lastWith key items k = some a) :
    key a = k := by
  simpa using List.find?_some h

theorem mem_of_lastWith (h : lastWith key items k = some a) :
    a ∈ items :=
  List.mem_reverse.mp (List.mem_of_find?_eq_some h)

theorem lastWith_eq_none_iff :
    lastWith key items k = none ↔ ∀ a ∈ items, key a ≠ k := by
  simp [lastWith]

theorem lastWith_append {items' : List α} :
    lastWith key (items ++ items') k = (lastWith key items' k).or (lastWith key items k) := by
  rw [lastWith, List.reverse_append, List.find?_append, lastWith, lastWith]

/-- Where no key occurs twice, an item is the last with its key. -/
theorem lastWith_of_nodup (hnodup : (items.map key).Nodup)
    (ha : a ∈ items) : lastWith key items (key a) = some a := by
  cases hlast : lastWith key items (key a) with
  | none => exact absurd rfl (lastWith_eq_none_iff.mp hlast a ha)
  | some b =>
    have hb := mem_of_lastWith hlast
    rw [List.inj_on_of_nodup_map hnodup hb ha (key_of_lastWith hlast)]

/-- Where no key occurs twice, the order of the items does not matter. -/
theorem lastWith_perm {items' : List α} (hnodup : (items.map key).Nodup)
    (hperm : items'.Perm items) (k : κ) : lastWith key items' k = lastWith key items k := by
  cases hlast : lastWith key items k with
  | none =>
    exact lastWith_eq_none_iff.mpr fun a ha =>
      lastWith_eq_none_iff.mp hlast a (hperm.mem_iff.mp ha)
  | some a =>
    have ha : a ∈ items' := hperm.mem_iff.mpr (mem_of_lastWith hlast)
    rw [← key_of_lastWith hlast]
    exact lastWith_of_nodup ((hperm.map key).nodup_iff.mpr hnodup) ha

/-- The items of the one key after the items of the other are all the items, in some order. -/
theorem perm_flatMap_filter {ks : List κ} (hnodup : ks.Nodup) (hall : ∀ a ∈ items, key a ∈ ks) :
    (ks.flatMap fun k => items.filter fun a => key a = k).Perm items := by
  have hperm : (ks.flatMap fun k => items.filter fun a => key a = k).Perm
      (items.filter fun a => key a ∈ ks) := by
    clear hall
    induction ks with
    | nil => simp
    | cons k ks ih =>
      obtain ⟨hk, hrest⟩ := List.nodup_cons.mp hnodup
      have hfirst : (items.filter fun a => key a = k) =
          ((items.filter fun a => key a ∈ k :: ks).filter fun a => key a = k) := by
        rw [List.filter_filter]
        exact List.filter_congr fun a _ => by by_cases h : key a = k <;> simp [h]
      have hothers : (items.filter fun a => key a ∈ ks) =
          ((items.filter fun a => key a ∈ k :: ks).filter fun a => !decide (key a = k)) := by
        rw [List.filter_filter]
        refine List.filter_congr fun a _ => ?_
        by_cases h : key a = k
        · simp [h, hk]
        · simp [h]
      rw [List.flatMap_cons, hfirst]
      refine .trans (.append_left _ (ih hrest)) ?_
      rw [hothers]
      exact List.filter_append_perm _ _
  rwa [List.filter_eq_self.mpr fun a ha => by simpa using hall a ha] at hperm

namespace Dict

/-- Each item under its key: a later item takes the place of an earlier one. -/
def latestBy (key : α → κ) (items : List α) : Dict κ α :=
  items.foldl (fun d a => d.insert (key a) a) empty

/-- Each item in the list of its key. -/
def groupedBy (key : α → κ) (items : List α) : Dict κ (List α) :=
  items.foldl (fun d a => d.insert (key a) ((d.get? (key a)).getD [] ++ [a])) empty

theorem latestBy_concat (items : List α) (a : α) :
    latestBy key (items ++ [a]) = (latestBy key items).insert (key a) a := by
  rw [latestBy, List.foldl_append]
  rfl

theorem get?_latestBy (items : List α) (k : κ) :
    (latestBy key items).get? k = lastWith key items k := by
  induction items using List.reverseRecOn with
  | nil => rfl
  | append_singleton items a ih =>
    rw [latestBy_concat, get?_insert, lastWith_concat, ih]
    by_cases h : key a = k
    · rw [if_pos h, if_pos h.symm]
    · rw [if_neg h, if_neg (Ne.symm h)]

theorem mem_keys_latestBy {items : List α} {k : κ} :
    k ∈ (latestBy key items).keys ↔ ∃ a, lastWith key items k = some a := by
  rw [mem_keys_iff, get?_latestBy, Option.isSome_iff_exists]

theorem groupedBy_concat (items : List α) (a : α) :
    groupedBy key (items ++ [a]) = (groupedBy key items).insert (key a)
      (((groupedBy key items).get? (key a)).getD [] ++ [a]) := by
  rw [groupedBy, List.foldl_append]
  rfl

theorem get?_groupedBy (items : List α) (k : κ) :
    ((groupedBy key items).get? k).getD [] = items.filter fun a => key a = k := by
  induction items using List.reverseRecOn with
  | nil => rfl
  | append_singleton items a ih =>
    rw [groupedBy_concat, get?_insert, List.filter_append]
    by_cases h : key a = k
    · subst h
      simp [ih]
    · rw [if_neg (Ne.symm h), ih]
      simp [h]

omit key in
theorem removeAll_singleton (ks : List κ) (k : κ) :
    [k].removeAll ks = if k ∈ ks then [] else [k] := by
  by_cases h : k ∈ ks <;> simp [List.removeAll, h]

/-- The keys of the groups, in the order of their first items. -/
theorem keys_groupedBy (items : List α) :
    (groupedBy key items).keys = (items.map key).eraseDups := by
  induction items using List.reverseRecOn with
  | nil => rfl
  | append_singleton items a ih =>
    rw [groupedBy_concat, List.map_append, List.eraseDups_append, ← ih, List.map_singleton,
      removeAll_singleton]
    by_cases h : key a ∈ (groupedBy key items).keys
    · have hmem : key a ∈ items.map key := List.mem_eraseDups.mp (ih ▸ h)
      rw [keys_insert_of_mem h, if_pos hmem, List.eraseDups_nil, List.append_nil]
    · have hmem : key a ∉ items.map key := fun hmem => h (ih ▸ List.mem_eraseDups.mpr hmem)
      rw [keys_insert_of_notMem h, if_neg hmem]
      rfl

theorem entries_eq_map_keys {ν : Type*} (d : Dict κ ν) (default : ν) :
    d.entries = d.keys.map fun k => (k, (d.get? k).getD default) := by
  rw [keys, List.map_map]
  refine (List.map_id _).symm.trans (List.map_congr_left fun e he => ?_)
  have hget : d.get? e.1 = some e.2 := get?_eq_some_iff.mpr he
  rw [Function.comp_apply, hget]
  rfl

/-- One group for each key, with the items of that key. -/
theorem entries_groupedBy (items : List α) :
    (groupedBy key items).entries =
      (items.map key).eraseDups.map fun k => (k, items.filter fun a => key a = k) := by
  rw [entries_eq_map_keys _ [], keys_groupedBy]
  exact List.map_congr_left fun k _ => by rw [get?_groupedBy]

/-- Lists without a common key are grouped one after the other. -/
theorem entries_groupedBy_append {items items' : List α}
    (h : ∀ a ∈ items, ∀ b ∈ items', key a ≠ key b) :
    (groupedBy key (items ++ items')).entries =
      (groupedBy key items).entries ++ (groupedBy key items').entries := by
  have hkeys : (items'.map key).removeAll (items.map key) = items'.map key := by
    refine List.filter_eq_self.mpr fun k hk => ?_
    obtain ⟨b, hb, rfl⟩ := List.mem_map.mp hk
    simpa using fun a ha => h a ha b hb
  rw [entries_groupedBy, entries_groupedBy, entries_groupedBy, List.map_append,
    List.eraseDups_append, hkeys, List.map_append]
  refine congrArg₂ _ (List.map_congr_left fun k hk => ?_) (List.map_congr_left fun k hk => ?_)
  · obtain ⟨a, ha, rfl⟩ := List.mem_map.mp (List.mem_eraseDups.mp hk)
    have hnone : (items'.filter fun b => key b = key a) = [] :=
      List.filter_eq_nil_iff.mpr fun b hb => by simpa using (h a ha b hb).symm
    rw [List.filter_append, hnone, List.append_nil]
  · obtain ⟨b, hb, rfl⟩ := List.mem_map.mp (List.mem_eraseDups.mp hk)
    have hnone : (items.filter fun a => key a = key b) = [] :=
      List.filter_eq_nil_iff.mpr fun a ha => by simpa using h a ha b hb
    rw [List.filter_append, hnone, List.nil_append]

section FoldedBy

variable {ν : Type*} {f : Option ν → α → ν}

/-- One value for each key, brought up to date by each item of that key in turn. -/
def foldedBy (key : α → κ) (f : Option ν → α → ν) (items : List α) : Dict κ ν :=
  items.foldl (fun d a => d.insert (key a) (f (d.get? (key a)) a)) empty

theorem foldedBy_concat (items : List α) (a : α) :
    foldedBy key f (items ++ [a]) = (foldedBy key f items).insert (key a)
      (f ((foldedBy key f items).get? (key a)) a) := by
  rw [foldedBy, List.foldl_append]
  rfl

/-- The value of a key is the fold of its items alone. -/
theorem get?_foldedBy (items : List α) (k : κ) :
    (foldedBy key f items).get? k =
      (items.filter fun a => key a = k).foldl (fun v a => some (f v a)) none := by
  induction items using List.reverseRecOn with
  | nil => rfl
  | append_singleton items a ih =>
    rw [foldedBy_concat, get?_insert, List.filter_append, List.foldl_append]
    by_cases h : key a = k
    · subst h
      simp [ih]
    · rw [if_neg (Ne.symm h), ih]
      simp [h]

theorem mem_keys_foldedBy {items : List α} {k : κ} :
    k ∈ (foldedBy key f items).keys ↔ ∃ a ∈ items, key a = k := by
  induction items using List.reverseRecOn with
  | nil => simp [foldedBy]
  | append_singleton items a ih =>
    rw [foldedBy_concat, mem_keys_insert, ih]
    simp only [List.mem_append, List.mem_singleton]
    constructor
    · rintro (rfl | ⟨b, hb, rfl⟩)
      · exact ⟨a, .inr rfl, rfl⟩
      · exact ⟨b, .inl hb, rfl⟩
    · rintro ⟨b, hb | rfl, rfl⟩
      · exact .inr ⟨b, hb, rfl⟩
      · exact .inl rfl

end FoldedBy

end Dict

/-! ### In the order of the keys -/

section Sorted

variable {κ : Type*} [LinearOrder κ] {key : α → κ} {items items' : List α}

/-- The last item of each key, in the order of the keys. -/
def latestSorted (key : α → κ) (items : List α) : List α :=
  ((Dict.latestBy key items).keys.insertionSort (· ≤ ·)).filterMap (Dict.latestBy key items).get?

theorem mem_latestSorted {a : α} :
    a ∈ latestSorted key items ↔ lastWith key items (key a) = some a := by
  rw [latestSorted, List.mem_filterMap]
  constructor
  · rintro ⟨k, -, hk⟩
    rw [Dict.get?_latestBy] at hk
    rwa [key_of_lastWith hk]
  · intro h
    refine ⟨key a, ?_, (Dict.get?_latestBy items _).trans h⟩
    exact (List.perm_insertionSort _ _).mem_iff.mpr (Dict.mem_keys_latestBy.mpr ⟨a, h⟩)

theorem pairwise_latestSorted :
    (latestSorted key items).Pairwise fun a b => key a < key b := by
  have hnodup : ((Dict.latestBy key items).keys.insertionSort (· ≤ ·)).Nodup :=
    (List.perm_insertionSort _ _).nodup_iff.mpr (Dict.latestBy key items).nodup_keys
  have hsorted : ((Dict.latestBy key items).keys.insertionSort (· ≤ ·)).Pairwise (· < ·) :=
    ((List.pairwise_insertionSort (· ≤ ·) _).and hnodup).imp fun h => lt_of_le_of_ne h.1 h.2
  refine List.pairwise_filterMap.mpr (hsorted.imp fun hlt a ha b hb => ?_)
  rw [Dict.get?_latestBy] at ha hb
  rwa [key_of_lastWith ha, key_of_lastWith hb]

/-- A list in the strict order of its keys is determined by its items. -/
theorem eq_of_pairwise_key_lt {l l' : List α} (h : l.Pairwise fun a b => key a < key b)
    (h' : l'.Pairwise fun a b => key a < key b) (hmem : ∀ a, a ∈ l ↔ a ∈ l') : l = l' := by
  have hnodup : l.Nodup := h.imp fun hlt heq => absurd (heq ▸ hlt) (lt_irrefl _)
  have hnodup' : l'.Nodup := h'.imp fun hlt heq => absurd (heq ▸ hlt) (lt_irrefl _)
  refine List.Perm.eq_of_pairwise (fun a b _ _ hab hba => ?_) h h'
    ((List.perm_ext_iff_of_nodup hnodup hnodup').mpr hmem)
  exact absurd (hab.trans hba) (lt_irrefl _)

/-- Where no key occurs twice, sorting by the keys is all there is to do. -/
theorem insertionSort_eq_latestSorted (hnodup : (items.map key).Nodup) :
    items.insertionSort (fun a b => key a ≤ key b) = latestSorted key items := by
  have hperm := List.perm_insertionSort (fun a b => key a ≤ key b) items
  have : IsTrans α fun a b => key a ≤ key b := ⟨fun _ _ _ => le_trans⟩
  have : Std.Total fun a b : α => key a ≤ key b := ⟨fun _ _ => le_total _ _⟩
  have hnodup' : ((items.insertionSort fun a b => key a ≤ key b).map key).Nodup :=
    (hperm.map key).nodup_iff.mpr hnodup
  have hsorted : (items.insertionSort fun a b => key a ≤ key b).Pairwise
      fun a b => key a < key b :=
    ((List.pairwise_insertionSort _ items).and (List.pairwise_map.mp hnodup')).imp
      fun h => lt_of_le_of_ne h.1 h.2
  refine eq_of_pairwise_key_lt hsorted pairwise_latestSorted fun a => ?_
  rw [hperm.mem_iff, mem_latestSorted]
  exact ⟨lastWith_of_nodup hnodup, mem_of_lastWith⟩

instance isTrans_key (key : α → κ) : IsTrans α fun a b => key a ≤ key b := ⟨fun _ _ _ => le_trans⟩

instance total_key (key : α → κ) : Std.Total fun a b : α => key a ≤ key b := ⟨fun _ _ => le_total _ _⟩

/-- Sorting leaves the items of one key in their order. -/
theorem filter_insertionSort (items : List α) (k : κ) :
    ((items.insertionSort fun a b => key a ≤ key b).filter fun a => key a = k) =
      items.filter fun a => key a = k := by
  have hkey : ∀ a ∈ items.filter fun a => key a = k, key a = k := fun a ha => by
    simpa using (List.mem_filter.mp ha).2
  have hsorted : (items.filter fun a => key a = k).Pairwise fun a b => key a ≤ key b :=
    List.pairwise_of_forall_mem_list fun a ha b hb => by rw [hkey a ha, hkey b hb]
  have hsub : (items.filter fun a => key a = k).Sublist
      ((items.insertionSort fun a b => key a ≤ key b).filter fun a => key a = k) := by
    have hfilter := (List.sublist_insertionSort hsorted List.filter_sublist).filter
      fun a => decide (key a = k)
    simpa only [List.filter_filter, Bool.and_self] using hfilter
  exact (hsub.eq_of_length ((List.perm_insertionSort _ items).filter _).length_eq.symm).symm

omit [LinearOrder κ] in
theorem lastWith_eq_getLast? [DecidableEq κ] (items : List α) (k : κ) :
    lastWith key items k = (items.filter fun a => key a = k).getLast? := by
  rw [lastWith, ← List.head?_filter, List.filter_reverse, List.head?_reverse]

theorem lastWith_insertionSort (items : List α) (k : κ) :
    lastWith key (items.insertionSort fun a b => key a ≤ key b) k = lastWith key items k := by
  rw [lastWith_eq_getLast?, lastWith_eq_getLast?, filter_insertionSort]

theorem getLast?_eq_some_of_forall_le {l : List α} {m : α}
    (h : l.Pairwise fun a b => key a < key b) (hm : m ∈ l) (hle : ∀ a ∈ l, key a ≤ key m) :
    l.getLast? = some m := by
  cases hlast : l.getLast? with
  | none => exact absurd (List.getLast?_eq_none_iff.mp hlast ▸ hm) List.not_mem_nil
  | some m' =>
    obtain ⟨init, rfl⟩ := List.getLast?_eq_some_iff.mp hlast
    rcases List.mem_append.mp hm with hbefore | hself
    · exact absurd ((List.pairwise_append.mp h).2.2 m hbefore m' (by simp))
        (not_lt.mpr (hle m' (by simp)))
    · rw [List.mem_singleton.mp hself]

/-- Among the items in the order of their keys, the last of a kind is the one that was given last
for its key. -/
theorem getLast?_filter_insertionSort {p : α → Bool}
    (hp : ∀ a ∈ items, ∀ b ∈ items, key a = key b → p a = p b) :
    ((items.insertionSort fun a b => key a ≤ key b).filter p).getLast? =
      ((latestSorted key items).filter p).getLast? := by
  set sorted := items.insertionSort fun a b => key a ≤ key b with hsorted
  have hmem (a : α) : a ∈ sorted ↔ a ∈ items := (List.perm_insertionSort _ _).mem_iff
  have hlatest (a : α) (ha : a ∈ latestSorted key items) : a ∈ items :=
    mem_of_lastWith (mem_latestSorted.mp ha)
  cases hlast : (sorted.filter p).getLast? with
  | none =>
    have hnone : ∀ a ∈ items, p a ≠ true := fun a ha hpa =>
      absurd (List.mem_filter.mpr ⟨(hmem a).mpr ha, hpa⟩)
        (by rw [List.getLast?_eq_none_iff.mp hlast]; exact List.not_mem_nil)
    have hnil : (latestSorted key items).filter p = [] :=
      List.filter_eq_nil_iff.mpr fun a ha => hnone a (hlatest a ha)
    rw [hnil]
    rfl
  | some m =>
    obtain ⟨init, hinit⟩ := List.getLast?_eq_some_iff.mp hlast
    obtain ⟨hm, hpm⟩ := List.mem_filter.mp (List.mem_of_getLast? hlast)
    have hge : ∀ a ∈ items, p a = true → key a ≤ key m := by
      intro a ha hpa
      have hfilter : a ∈ sorted.filter p := List.mem_filter.mpr ⟨(hmem a).mpr ha, hpa⟩
      have hpairwise : (sorted.filter p).Pairwise fun a b => key a ≤ key b :=
        (List.pairwise_insertionSort _ items).filter p
      rw [hinit] at hfilter hpairwise
      rcases List.mem_append.mp hfilter with hbefore | hself
      · exact (List.pairwise_append.mp hpairwise).2.2 a hbefore m (by simp)
      · rw [List.mem_singleton.mp hself]
    have hmLatest : m ∈ latestSorted key items := by
      -- the items with the key of the last one are all of the kind
      have hsame : (sorted.filter p).filter (fun a => key a = key m) =
          sorted.filter fun a => key a = key m := by
        rw [List.filter_filter]
        refine List.filter_congr fun a ha => ?_
        by_cases hkey : key a = key m
        · rw [hp a ((hmem a).mp ha) m ((hmem m).mp hm) hkey, hpm, Bool.and_true]
        · simp [hkey]
      rw [mem_latestSorted, ← lastWith_insertionSort, lastWith_eq_getLast?, ← hsorted, ← hsame,
        hinit, List.filter_append]
      simp
    refine (getLast?_eq_some_of_forall_le (pairwise_latestSorted.filter p)
      (List.mem_filter.mpr ⟨hmLatest, hpm⟩) fun a ha => ?_).symm
    obtain ⟨hlatest', hpa⟩ := List.mem_filter.mp ha
    exact hge a (hlatest a hlatest') hpa

/-- Only the last item of each key counts. -/
theorem latestSorted_congr (h : ∀ k, lastWith key items k = lastWith key items' k) :
    latestSorted key items = latestSorted key items' :=
  eq_of_pairwise_key_lt pairwise_latestSorted pairwise_latestSorted fun a => by
    rw [mem_latestSorted, mem_latestSorted, h]

/-- A list whose keys come before those of another is sorted before it. -/
theorem latestSorted_append (h : ∀ a ∈ items, ∀ b ∈ items', key a < key b) :
    latestSorted key (items ++ items') = latestSorted key items ++ latestSorted key items' := by
  refine eq_of_pairwise_key_lt pairwise_latestSorted ?_ fun a => ?_
  · refine List.pairwise_append.mpr ⟨pairwise_latestSorted, pairwise_latestSorted, ?_⟩
    intro a ha b hb
    exact h a (mem_of_lastWith (mem_latestSorted.mp ha)) b
      (mem_of_lastWith (mem_latestSorted.mp hb))
  · rw [List.mem_append, mem_latestSorted, mem_latestSorted, mem_latestSorted, lastWith_append]
    cases hlast : lastWith key items' (key a) with
    | none => simp
    | some b =>
      -- the key belongs to the second list, so the first has none of it
      have hnone : lastWith key items (key a) = none :=
        lastWith_eq_none_iff.mpr fun c hc heq =>
          absurd (h c hc b (mem_of_lastWith hlast)) (by
            rw [heq, key_of_lastWith hlast]
            exact lt_irrefl _)
      simp [hnone]

/-- Reading the items through a map that keeps the keys. -/
theorem latestSorted_map {β : Type*} {key' : β → κ} (f : α → β) (hkey : ∀ a, key' (f a) = key a) :
    latestSorted key' (items.map f) = (latestSorted key items).map f := by
  refine eq_of_pairwise_key_lt pairwise_latestSorted
    (List.pairwise_map.mpr (pairwise_latestSorted.imp fun h => by rwa [hkey, hkey])) fun b => ?_
  have hlast (k : κ) : lastWith key' (items.map f) k = (lastWith key items k).map f := by
    rw [lastWith, ← List.map_reverse, List.find?_map, lastWith]
    simp only [Function.comp_def, hkey]
  rw [mem_latestSorted, hlast, Option.map_eq_some_iff, List.mem_map]
  constructor
  · rintro ⟨a, ha, rfl⟩
    exact ⟨a, mem_latestSorted.mpr (by rwa [hkey] at ha), rfl⟩
  · rintro ⟨a, ha, rfl⟩
    exact ⟨a, by rw [hkey]; exact mem_latestSorted.mp ha, rfl⟩

/-- The distinct values of a sorted list are in strict order. -/
theorem pairwise_eraseDups {l : List κ} (h : l.Pairwise (· ≤ ·)) :
    l.eraseDups.Pairwise (· < ·) := by
  induction hn : l.length using Nat.strong_induction_on generalizing l with
  | _ n ih =>
    cases l with
    | nil => exact .nil
    | cons a l =>
      obtain ⟨hfirst, hrest⟩ := List.pairwise_cons.mp h
      rw [List.eraseDups_cons]
      refine List.pairwise_cons.mpr ⟨fun b hb => ?_, ih _ ?_ (hrest.filter _) rfl⟩
      · obtain ⟨hmem, hne⟩ := List.mem_filter.mp (List.mem_eraseDups.mp hb)
        have hne' : b ≠ a := by simpa using hne
        exact lt_of_le_of_ne (hfirst b hmem) hne'.symm
      · have hle := List.length_filter_le (fun b => !b == a) l
        rw [← hn, List.length_cons]
        omega

end Sorted

end Foundation
