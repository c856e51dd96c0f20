import AefTerminal.Foundation.Dict

/-!
# Attachments kept in two maps

Every member is attached to at most one key. The forward map says to which; the reverse map holds,
for each key with members, what each of them left there. A writer has to keep the two inverse to
each other, and the reverse map free of keys without members.

`detach` and `dropKey` are written for any pair of maps, as a caller that reads both would write
them. On maps that are inverse their guards are never needed, which is what the lemmas below say.

## Main results

* `Inverse.attach`, `Inverse.detach`, `Inverse.dropKey`: the operations keep the maps inverse
* `lease?_attach`, `Inverse.lease?_detach`, `lease?_dropKey`: what each does to a lease
* `mem_members_detach`: a key leaves the reverse map exactly when `detach` reports it
-/

namespace Foundation

universe u v w

/-- `keyOf` is the forward map, `members` the reverse one. -/
structure Attachments (γ : Type u) (κ : Type v) (ν : Type w) where
  keyOf : Dict γ κ
  members : Dict κ (Dict γ ν)

namespace Attachments

variable {γ : Type u} {κ : Type v} {ν : Type w}

def empty : Attachments γ κ ν := ⟨.empty, .empty⟩

variable [DecidableEq γ] [DecidableEq κ] (a : Attachments γ κ ν)

/-- What `c` left under `k`. -/
def lease? (k : κ) (c : γ) : Option ν := (a.members.get? k).bind fun m => m.get? c

/-- Write `v` for `c` under `k`. A caller detaches `c` from another key first. -/
def attach (c : γ) (k : κ) (v : ν) : Attachments γ κ ν where
  keyOf := a.keyOf.insert c k
  members := a.members.insert k (((a.members.get? k).getD .empty).insert c v)

/-- Take `c` off its key. The second component is the key, if `c` was its last member. -/
def detach (c : γ) : Attachments γ κ ν × Option κ :=
  match a.keyOf.get? c with
  | none => (a, none)
  | some k =>
    match a.members.get? k with
    | none => (⟨a.keyOf.erase c, a.members⟩, none)
    | some m =>
      if (m.erase c).entries = [] then (⟨a.keyOf.erase c, a.members.erase k⟩, some k)
      else (⟨a.keyOf.erase c, a.members.insert k (m.erase c)⟩, none)

/-- The members of `k` leave the forward map where it names `k`. -/
def forget (k : κ) (clients : List γ) : Dict γ κ :=
  clients.foldl (fun d c => if d.get? c = some k then d.erase c else d) a.keyOf

/-- Take all members off a key. -/
def dropKey (k : κ) : Attachments γ κ ν where
  keyOf := a.forget k ((a.members.get? k).getD .empty).keys
  members := a.members.erase k

/-- The two maps say the same, and no key is listed without members. -/
structure Inverse : Prop where
  iff : ∀ c k, a.keyOf.get? c = some k ↔ (a.lease? k c).isSome
  nonempty : ∀ k m, a.members.get? k = some m → m.entries ≠ []

variable {a} {c c' : γ} {k j : κ} {v : ν}

theorem inverse_empty : Inverse (empty : Attachments γ κ ν) :=
  ⟨fun _ _ => by simp [empty, lease?], fun _ _ h => by simp [empty] at h⟩

/-! ### Leases -/

theorem lease?_attach : (a.attach c k v).lease? j c' =
    if j = k ∧ c' = c then some v else a.lease? j c' := by
  rw [lease?, attach, Dict.get?_insert]
  by_cases hj : j = k
  · subst hj
    rw [if_pos rfl, Option.bind_some, Dict.get?_insert]
    by_cases hc : c' = c
    · simp [hc]
    · cases hm : a.members.get? j <;> simp [hc, lease?, hm]
  · simp [hj, lease?]

theorem lease?_dropKey : (a.dropKey k).lease? j c = if j = k then none else a.lease? j c := by
  rw [lease?, dropKey, Dict.get?_erase]
  by_cases hj : j = k <;> simp [hj, lease?]

namespace Inverse

/-- A key of the reverse map has a member, and that member is attached to it. -/
theorem exists_member (h : a.Inverse) (hk : k ∈ a.members.keys) :
    ∃ c v, a.lease? k c = some v ∧ a.keyOf.get? c = some k := by
  obtain ⟨m, hm⟩ := Option.isSome_iff_exists.mp (Dict.mem_keys_iff.mp hk)
  obtain ⟨⟨c, v⟩, l, hl⟩ := List.exists_cons_of_ne_nil (h.nonempty k m hm)
  have hc : m.get? c = some v := Dict.get?_eq_some_iff.mpr (hl ▸ List.mem_cons_self)
  have hlease : a.lease? k c = some v := by rw [lease?, hm]; exact hc
  exact ⟨c, v, hlease, (h.iff c k).mpr (by rw [hlease]; rfl)⟩

/-- A member is attached to one key. -/
theorem eq_of_lease (h : a.Inverse) (hk : (a.lease? k c).isSome) (hj : (a.lease? j c).isSome) :
    k = j :=
  Option.some.inj (((h.iff c k).mpr hk).symm.trans ((h.iff c j).mpr hj))

theorem lease?_eq_none (h : a.Inverse) (hc : a.keyOf.get? c ≠ some k) : a.lease? k c = none := by
  cases hl : a.lease? k c with
  | none => rfl
  | some v => exact absurd ((h.iff c k).mpr (by rw [hl]; rfl)) hc

/-! ### Attaching -/

/-- A member that is not attached elsewhere may be attached. -/
theorem attach (h : a.Inverse) (hc : ∀ j, a.keyOf.get? c = some j → j = k) (v : ν) :
    (a.attach c k v).Inverse where
  iff c' j := by
    rw [lease?_attach]
    have hkey : (a.attach c k v).keyOf.get? c' = if c' = c then some k else a.keyOf.get? c' :=
      Dict.get?_insert ..
    rw [hkey]
    by_cases hcc : c' = c
    · subst hcc
      by_cases hj : j = k
      · simp [hj]
      · have hne : a.keyOf.get? c' ≠ some j := fun hk => hj (hc j hk)
        simp [hj, h.lease?_eq_none hne, Ne.symm hj]
    · rw [if_neg hcc, if_neg fun hboth => hcc hboth.2]
      exact h.iff c' j
  nonempty j m hm := by
    rw [Attachments.attach, Dict.get?_insert] at hm
    by_cases hj : j = k
    · rw [if_pos hj] at hm
      cases hm
      intro hnil
      have hmem : (c, v) ∈ ([] : List (γ × ν)) :=
        hnil ▸ Dict.get?_eq_some_iff.mp (Dict.get?_insert_self ..)
      exact absurd hmem List.not_mem_nil
    · rw [if_neg hj] at hm
      exact h.nonempty j m hm

/-! ### Detaching -/

theorem detach_of_none (hc : a.keyOf.get? c = none) : a.detach c = (a, none) := by
  rw [Attachments.detach, hc]

/-- On inverse maps, what `detach` does to a member that is attached. -/
theorem detach_of_some (h : a.Inverse) (hc : a.keyOf.get? c = some k) :
    ∃ m, a.members.get? k = some m ∧ (m.get? c).isSome ∧ a.detach c =
      if (m.erase c).entries = [] then (⟨a.keyOf.erase c, a.members.erase k⟩, some k)
      else (⟨a.keyOf.erase c, a.members.insert k (m.erase c)⟩, none) := by
  have hlease := (h.iff c k).mp hc
  cases hm : a.members.get? k with
  | none => rw [lease?, hm] at hlease; exact absurd hlease Bool.false_ne_true
  | some m =>
    rw [lease?, hm] at hlease
    refine ⟨m, rfl, hlease, ?_⟩
    rw [Attachments.detach, hc]
    dsimp only
    rw [hm]

theorem keyOf_detach (c : γ) : (a.detach c).1.keyOf.get? c' =
    if c' = c then none else a.keyOf.get? c' := by
  rw [Attachments.detach]
  cases hc : a.keyOf.get? c with
  | none =>
    by_cases hcc : c' = c
    · rw [if_pos hcc, hcc]; exact hc
    · rw [if_neg hcc]
  | some k =>
    dsimp only
    cases a.members.get? k with
    | none => exact Dict.get?_erase ..
    | some m =>
      dsimp only
      split <;> exact Dict.get?_erase ..

theorem lease?_detach (h : a.Inverse) (c : γ) : (a.detach c).1.lease? j c' =
    if c' = c then none else a.lease? j c' := by
  cases hc : a.keyOf.get? c with
  | none =>
    rw [detach_of_none hc]
    by_cases hcc : c' = c
    · rw [if_pos hcc, hcc]
      exact h.lease?_eq_none (by rw [hc]; nofun)
    · rw [if_neg hcc]
  | some k =>
    obtain ⟨m, hm, -, heq⟩ := h.detach_of_some hc
    have hother : j ≠ k → c' = c → a.lease? j c' = none := fun hj hcc =>
      h.lease?_eq_none (by rw [hcc, hc]; exact fun hk => hj (Option.some.inj hk).symm)
    rw [heq]
    by_cases hj : j = k
    · subst hj
      split
      · rename_i hnil
        have hget : (m.erase c).get? c' = none := by rw [Dict.get?, hnil]; rfl
        rw [Dict.get?_erase] at hget
        by_cases hcc : c' = c
        · simp [lease?, hcc]
        · rw [if_neg hcc] at hget
          simp [lease?, hcc, hm, hget]
      · simp [lease?, hm, Dict.get?_erase]
    · by_cases hcc : c' = c
      · rw [if_pos hcc, ← hother hj hcc]
        split <;> simp [lease?, hj]
      · rw [if_neg hcc]
        split <;> simp [lease?, hj]

theorem detach (h : a.Inverse) (c : γ) : (a.detach c).1.Inverse where
  iff c' j := by
    rw [keyOf_detach, h.lease?_detach]
    by_cases hcc : c' = c
    · simp [hcc]
    · rw [if_neg hcc, if_neg hcc]
      exact h.iff c' j
  nonempty j m hm := by
    cases hc : a.keyOf.get? c with
    | none =>
      rw [detach_of_none hc] at hm
      exact h.nonempty j m hm
    | some k =>
      obtain ⟨m', -, -, heq⟩ := h.detach_of_some hc
      rw [heq] at hm
      split at hm
      · rw [Dict.get?_erase] at hm
        split_ifs at hm
        exact h.nonempty j m hm
      · rename_i hne
        rw [Dict.get?_insert] at hm
        split_ifs at hm
        · exact Option.some.inj hm ▸ hne
        · exact h.nonempty j m hm

/-- A key leaves the reverse map exactly when its last member is detached. -/
theorem mem_members_detach (h : a.Inverse) (c : γ) : j ∈ (a.detach c).1.members.keys ↔
    j ∈ a.members.keys ∧ (a.detach c).2 ≠ some j := by
  cases hc : a.keyOf.get? c with
  | none => rw [detach_of_none hc]; simp
  | some k =>
    obtain ⟨m, hm, -, heq⟩ := h.detach_of_some hc
    rw [heq]
    split
    · simp only [Dict.mem_keys_erase, ne_eq, Option.some.injEq]
      exact ⟨fun hj => ⟨hj.2, fun hk => hj.1 hk.symm⟩, fun hj => ⟨fun hk => hj.2 hk.symm, hj.1⟩⟩
    · simp only [Dict.mem_keys_insert, ne_eq, reduceCtorEq, not_false_eq_true, and_true]
      exact ⟨fun hj => hj.elim (fun hk => hk ▸ Dict.mem_keys_of_get? hm) id, Or.inr⟩

/-! ### Dropping a key -/

omit [DecidableEq κ] in
theorem get?_foldl_forget [DecidableEq κ] (clients : List γ) (d : Dict γ κ) :
    (clients.foldl (fun d c => if d.get? c = some k then d.erase c else d) d).get? c =
      if c ∈ clients ∧ d.get? c = some k then none else d.get? c := by
  induction clients generalizing d with
  | nil => simp
  | cons c' clients ih =>
    rw [List.foldl_cons, ih]
    by_cases hk : d.get? c' = some k
    · rw [if_pos hk, Dict.get?_erase]
      by_cases hcc : c = c'
      · subst hcc
        simp [hk]
      · simp [hcc]
    · rw [if_neg hk]
      by_cases hcc : c = c'
      · subst hcc
        simp [hk]
      · simp [hcc]

theorem keyOf_dropKey (h : a.Inverse) : (a.dropKey k).keyOf.get? c =
    if a.keyOf.get? c = some k then none else a.keyOf.get? c := by
  rw [Attachments.dropKey]
  dsimp only
  rw [forget, get?_foldl_forget]
  by_cases hc : a.keyOf.get? c = some k
  · have hlease := (h.iff c k).mp hc
    have hmem : c ∈ ((a.members.get? k).getD .empty).keys := by
      rw [Dict.mem_keys_iff]
      cases hm : a.members.get? k with
      | none => rw [lease?, hm] at hlease; exact absurd hlease Bool.false_ne_true
      | some m => rw [lease?, hm] at hlease; exact hlease
    rw [if_pos ⟨hmem, hc⟩, if_pos hc]
  · rw [if_neg fun hboth => hc hboth.2, if_neg hc]

theorem dropKey (h : a.Inverse) (k : κ) : (a.dropKey k).Inverse where
  iff c j := by
    rw [h.keyOf_dropKey, lease?_dropKey]
    by_cases hj : j = k
    · subst hj
      by_cases hc : a.keyOf.get? c = some j <;> simp [hc]
    · rw [if_neg hj]
      by_cases hc : a.keyOf.get? c = some k
      · have hne : a.keyOf.get? c ≠ some j := by
          rw [hc]; exact fun hk => hj (Option.some.inj hk).symm
        simp [hc, h.lease?_eq_none hne]
      · rw [if_neg hc]
        exact h.iff c j
  nonempty j m hm := by
    rw [Attachments.dropKey, Dict.get?_erase] at hm
    split_ifs at hm
    exact h.nonempty j m hm

end Inverse

theorem mem_members_dropKey : j ∈ (a.dropKey k).members.keys ↔ j ≠ k ∧ j ∈ a.members.keys :=
  Dict.mem_keys_erase

theorem mem_members_attach : j ∈ (a.attach c k v).members.keys ↔ j = k ∨ j ∈ a.members.keys :=
  Dict.mem_keys_insert

end Attachments

end Foundation
