import Mathlib.Data.Finset.Card
import Mathlib.Order.Defs.LinearOrder

/-!
# The greatest values of a set

`Greatest k s t` says that `t` has the `k` greatest values of `s`, or all of them where there are no
more. It is stated by what stands between the two sets, so that it survives a value more: whatever
`t` leaves out is below all that it has, and then `t` is full.

## Main results

* `Greatest.mem_iff`: the values with fewer than `k` greater ones
* `Greatest.mem_of_mem`: a value that is among the greatest was among them before
* `Greatest.insert_free`, `insert_below`, `insert_above`: one value more
-/

namespace Foundation

variable {α : Type*} [LinearOrder α] {k : ℕ} {s s' t t' : Finset α} {a least : α}

structure Greatest (k : ℕ) (s t : Finset α) : Prop where
  subset : t ⊆ s
  card_le : t.card ≤ k
  left_out : ∀ b ∈ s, b ∉ t → t.card = k ∧ ∀ c ∈ t, b < c

namespace Greatest

theorem empty (k : ℕ) : Greatest k (∅ : Finset α) ∅ :=
  ⟨fun _ h => h, Nat.zero_le k, fun b hb => absurd hb (Finset.notMem_empty b)⟩

theorem mem_iff (h : Greatest k s t) (a : α) : a ∈ t ↔ a ∈ s ∧ (s.filter (a < ·)).card < k := by
  constructor
  · intro ha
    refine ⟨h.subset ha, lt_of_lt_of_le ?_ h.card_le⟩
    have hsub : s.filter (a < ·) ⊆ t.erase a := by
      intro b hb
      obtain ⟨hb, hlt⟩ := Finset.mem_filter.mp hb
      refine Finset.mem_erase.mpr ⟨hlt.ne', ?_⟩
      by_contra hout
      exact lt_asymm hlt ((h.left_out b hb hout).2 a ha)
    exact (Finset.card_le_card hsub).trans_lt (Finset.card_erase_lt_of_mem ha)
  · rintro ⟨ha, hcard⟩
    by_contra hout
    obtain ⟨hfull, hbelow⟩ := h.left_out a ha hout
    have hsub : t ⊆ s.filter (a < ·) := fun c hc => Finset.mem_filter.mpr ⟨h.subset hc, hbelow c hc⟩
    exact absurd (hfull ▸ Finset.card_le_card hsub) (not_le.mpr hcard)

/-- The greatest of a larger set were among the greatest as soon as they were there. -/
theorem mem_of_mem (h : Greatest k s t) (h' : Greatest k s' t') (hsub : s ⊆ s') (ha' : a ∈ t')
    (ha : a ∈ s) : a ∈ t := by
  refine (h.mem_iff a).mpr ⟨ha, lt_of_le_of_lt ?_ ((h'.mem_iff a).mp ha').2⟩
  exact Finset.card_le_card (Finset.filter_subset_filter _ hsub)

theorem insert_mem (h : Greatest k s t) (ha : a ∈ t) : Greatest k (insert a s) t := by
  rwa [Finset.insert_eq_of_mem (h.subset ha)]

/-- While there is room, nothing is left out. -/
theorem insert_free (h : Greatest k s t) (hroom : t.card < k) : Greatest k (insert a s) (insert a t) where
  subset := Finset.insert_subset_insert a h.subset
  card_le := (Finset.card_insert_le a t).trans hroom
  left_out b hb hout := by
    obtain ⟨hne, hout⟩ := not_or.mp (fun hb => hout (Finset.mem_insert.mpr hb))
    have hbs : b ∈ s := Finset.mem_of_mem_insert_of_ne hb hne
    exact absurd (h.left_out b hbs hout).1 hroom.ne

theorem insert_below (h : Greatest k s t) (hfull : t.card = k) (hbelow : ∀ c ∈ t, a < c) :
    Greatest k (insert a s) t where
  subset := h.subset.trans (Finset.subset_insert a s)
  card_le := h.card_le
  left_out b hb hout := by
    rcases Finset.mem_insert.mp hb with rfl | hb
    · exact ⟨hfull, hbelow⟩
    · exact h.left_out b hb hout

/-- A value above the least takes its place. -/
theorem insert_above (h : Greatest k s t) (hfull : t.card = k) (hout : a ∉ t) (hleast : least ∈ t)
    (hle : ∀ c ∈ t, least ≤ c) (hlt : least < a) :
    Greatest k (insert a s) (insert a (t.erase least)) := by
  have hcard : (insert a (t.erase least)).card = k := by
    rw [Finset.card_insert_of_notMem fun ha => hout (Finset.mem_of_mem_erase ha),
      Finset.card_erase_add_one hleast, hfull]
  refine ⟨Finset.insert_subset_insert a ((Finset.erase_subset _ _).trans h.subset), hcard.le,
    fun b hb hb' => ⟨hcard, fun c hc => ?_⟩⟩
  obtain ⟨hne, herase⟩ := not_or.mp (fun hb => hb' (Finset.mem_insert.mpr hb))
  have hbs : b ∈ s := Finset.mem_of_mem_insert_of_ne hb hne
  -- what is left out now was left out before, or is the least
  have hble : b ≤ least := by
    by_cases hbt : b ∈ t
    · exact (not_not.mp fun hbl => herase (Finset.mem_erase.mpr ⟨hbl, hbt⟩)).le
    · exact ((h.left_out b hbs hbt).2 least hleast).le
  rcases Finset.mem_insert.mp hc with rfl | hc
  · exact hble.trans_lt hlt
  · obtain ⟨hcl, hct⟩ := Finset.mem_erase.mp hc
    exact hble.trans_lt (lt_of_le_of_ne (hle c hct) hcl.symm)

end Greatest

end Foundation
