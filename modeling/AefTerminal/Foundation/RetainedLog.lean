import Mathlib.Data.List.Basic
import Mathlib.Data.List.Nodup
import Mathlib.Data.List.Range

/-!
# A numbered log that keeps its newest entries

Entries are numbered from one as they come. The log keeps the newest ones; what it no longer has is
the beginning. A reader says up to which number it has read, gets what is kept beyond, and goes on
from the newest number.

Nothing is missed in silence: the first kept entry is further away than the reader's next one
exactly where an entry that the reader has not read is gone.

## Main results

* `RetainedLog.push`: the log after one more entry
* `RetainedLog.lost_iff`: what a reader compares to see that it missed an entry
* `Reading.read`: reading on keeps everything exactly once and in order, until an entry was missed
-/

namespace Foundation

variable {β : Type*} (seq : β → ℕ)

/-- `kept` is what is left of `all`, which is numbered from one. -/
structure RetainedLog (all kept : List β) : Prop where
  numbered : all.map seq = List.range' 1 all.length
  suffix : kept <:+ all
  nonempty : kept = [] → all = []

/-- The newest `n` entries. -/
def keepLast (n : ℕ) (l : List β) : List β := l.drop (l.length - n)

/-- What is kept beyond `cursor`, looked up from the newest entry on. -/
def readAfter (kept : List β) (cursor : ℕ) : List β :=
  (kept.reverse.takeWhile fun e => decide (cursor < seq e)).reverse

/-- The oldest kept number is not the next one. -/
def missed (kept : List β) (cursor : ℕ) : Bool :=
  match kept with
  | [] => false
  | e :: _ => decide (cursor + 1 < seq e)

variable {seq} {all kept : List β} {cursor since : ℕ}

namespace RetainedLog

theorem nil : RetainedLog seq ([] : List β) [] := ⟨rfl, List.suffix_refl _, fun _ => rfl⟩

theorem sorted (h : RetainedLog seq all kept) : all.Pairwise (seq · < seq ·) := by
  have hrange : (all.map seq).Pairwise (· < ·) := by
    rw [h.numbered]
    exact List.pairwise_lt_range'
  exact List.pairwise_map.mp hrange

theorem mem_range (h : RetainedLog seq all kept) {e : β} (he : e ∈ all) :
    1 ≤ seq e ∧ seq e ≤ all.length := by
  have hmem : seq e ∈ List.range' 1 all.length := h.numbered ▸ List.mem_map_of_mem he
  rw [List.mem_range'_1] at hmem
  omega

theorem seq_getElem (h : RetainedLog seq all kept) (i : ℕ) (hi : i < all.length) :
    seq all[i] = i + 1 := by
  have hget : (all.map seq)[i]? = (List.range' 1 all.length)[i]? := by rw [h.numbered]
  rw [List.getElem?_map, List.getElem?_eq_getElem hi, List.getElem?_range' hi] at hget
  have hseq : seq all[i] = 1 + 1 * i := by simpa using hget
  omega

/-- One more entry, under the next number. -/
theorem push (h : RetainedLog seq all kept) {e : β} (he : seq e = all.length + 1) {n : ℕ}
    (hn : 0 < n) : RetainedLog seq (all ++ [e]) (keepLast n (kept ++ [e])) where
  numbered := by
    rw [List.map_append, h.numbered, List.length_append]
    simp [List.range'_concat, he, Nat.add_comm]
  suffix := by
    obtain ⟨gone, rfl⟩ := h.suffix
    refine (List.drop_suffix _ _).trans ⟨gone, ?_⟩
    rw [List.append_assoc]
  nonempty := by
    intro hnil
    rw [keepLast, List.drop_eq_nil_iff, List.length_append, List.length_singleton] at hnil
    omega

/-- Looking up from the newest entry finds every kept entry beyond the cursor. -/
theorem readAfter_eq (h : RetainedLog seq all kept) (cursor : ℕ) :
    readAfter seq kept cursor = kept.filter fun e => decide (cursor < seq e) := by
  have hkept : kept.Pairwise (seq · < seq ·) := h.sorted.sublist h.suffix.sublist
  clear h
  induction kept using List.reverseRecOn with
  | nil => rfl
  | append_singleton l e ih =>
    obtain ⟨hl, -, hlast⟩ := List.pairwise_append.mp hkept
    rw [readAfter, List.reverse_append, List.reverse_singleton, List.singleton_append,
      List.takeWhile_cons, List.filter_append]
    by_cases hbeyond : cursor < seq e
    · simp only [hbeyond, decide_true, if_true, List.reverse_cons, List.filter_cons_of_pos,
        List.filter_nil]
      rw [← ih hl, readAfter]
    · have hnone : (l.filter fun e => decide (cursor < seq e)) = [] := by
        refine List.filter_eq_nil_iff.mpr fun d hd => ?_
        have hlt := hlast d hd e (List.mem_singleton_self e)
        simp only [decide_eq_true_eq]
        omega
      simp [hbeyond, hnone]

/-- A number beyond the cursor is gone exactly where the oldest kept one is not the next. -/
theorem lost_iff (h : RetainedLog seq all kept) (cursor : ℕ) :
    missed seq kept cursor = true ↔ ∃ e ∈ all, cursor < seq e ∧ e ∉ kept := by
  obtain ⟨gone, hall⟩ := h.suffix
  cases hkept : kept with
  | nil => simp [missed, h.nonempty hkept]
  | cons first rest =>
    subst hall
    subst hkept
    obtain ⟨-, -, hbefore⟩ := List.pairwise_append.mp h.sorted
    have hnumber : seq first = gone.length + 1 := by
      have hat := h.seq_getElem gone.length (by simp)
      simpa using hat
    rw [missed, decide_eq_true_eq, hnumber]
    constructor
    · intro hgap
      have hpos : gone.length - 1 < gone.length := by omega
      have hlast : seq (gone[gone.length - 1]) = gone.length - 1 + 1 := by
        have hat := h.seq_getElem (gone.length - 1) (by simp; omega)
        rwa [List.getElem_append_left hpos] at hat
      refine ⟨gone[gone.length - 1], List.mem_append_left _ (List.getElem_mem hpos), by omega, ?_⟩
      intro hmem
      exact absurd (hbefore _ (List.getElem_mem hpos) _ hmem) (lt_irrefl _)
    · rintro ⟨e, he, hbeyond, hnot⟩
      have hgone : e ∈ gone := (List.mem_append.mp he).resolve_right hnot
      have hlt := hbefore e hgone first List.mem_cons_self
      omega

/-- Where nothing beyond the cursor is gone, what is read is all there is beyond it. -/
theorem readAfter_eq_all (h : RetainedLog seq all kept) (hkeeps : missed seq kept cursor = false) :
    readAfter seq kept cursor = all.filter fun e => decide (cursor < seq e) := by
  rw [h.readAfter_eq]
  obtain ⟨gone, hall⟩ := h.suffix
  have hnone : (gone.filter fun e => decide (cursor < seq e)) = [] := by
    refine List.filter_eq_nil_iff.mpr fun e he hbeyond => ?_
    have hlost : missed seq kept cursor = true := by
      refine (h.lost_iff cursor).mpr ⟨e, ?_, of_decide_eq_true hbeyond, ?_⟩
      · exact hall ▸ List.mem_append_left _ he
      · intro hkept
        have hbefore := (List.pairwise_append.mp (hall ▸ h.sorted)).2.2
        exact absurd (hbefore e he e hkept) (lt_irrefl _)
    rw [hkeeps] at hlost
    exact absurd hlost (by simp)
  rw [← hall, List.filter_append, hnone, List.nil_append]

end RetainedLog

/-! ### Readers -/

/-- What a reader got, and since when it is complete. -/
structure Reading (seq : β → ℕ) (wanted : β → Bool) (all delivered : List β) (since cursor : ℕ) :
    Prop where
  once : delivered.Sublist (all.filter fun e => decide (seq e ≤ cursor) && wanted e)
  complete : ∀ e ∈ all, wanted e → since < seq e → seq e ≤ cursor → e ∈ delivered
  position : since = cursor ∨ cursor ≤ all.length

namespace Reading

variable {wanted : β → Bool} {delivered : List β}

theorem start (cursor : ℕ) : Reading seq wanted all [] cursor cursor where
  once := List.nil_sublist _
  complete _ _ _ hafter huntil := absurd hafter (by omega)
  position := .inl rfl

theorem push (h : Reading seq wanted all delivered since cursor) {e : β}
    (he : seq e = all.length + 1) : Reading seq wanted (all ++ [e]) delivered since cursor where
  once := by
    rw [List.filter_append]
    exact h.once.trans (List.sublist_append_left _ _)
  complete := by
    intro d hd hwanted hafter huntil
    rcases List.mem_append.mp hd with hd | hd
    · exact h.complete d hd hwanted hafter huntil
    · obtain rfl := List.mem_singleton.mp hd
      rcases h.position with hpos | hpos <;> omega
  position := by
    rcases h.position with hpos | hpos
    · exact .inl hpos
    · exact .inr (by simp; omega)

/-- Reading on: everything still comes once and in order, and nothing is left out since the last
time that an entry was missed. -/
theorem read (h : Reading seq wanted all delivered since cursor)
    (hlog : RetainedLog seq all kept) :
    Reading seq wanted all (delivered ++ (readAfter seq kept cursor).filter wanted)
      (if missed seq kept cursor then all.length else min since all.length) all.length where
  once := by
    have hsplit : (all.filter fun e => decide (seq e ≤ cursor) && wanted e) ++
        (all.filter fun e => decide (cursor < seq e) && wanted e) = all.filter wanted := by
      have hsorted := hlog.sorted
      clear h hlog
      induction all with
      | nil => rfl
      | cons e l ih =>
        obtain ⟨hhead, htail⟩ := List.pairwise_cons.mp hsorted
        by_cases hle : seq e ≤ cursor
        · cases hw : wanted e <;> simp [hle, hw, ← ih htail, not_lt.mpr hle]
        · have hnone : (l.filter fun e => decide (seq e ≤ cursor) && wanted e) = [] := by
            refine List.filter_eq_nil_iff.mpr fun d hd => ?_
            have hlt := hhead d hd
            simp only [Bool.and_eq_true, decide_eq_true_eq, not_and]
            omega
          have hrest := ih htail
          rw [hnone, List.nil_append] at hrest
          cases hw : wanted e <;> simp [hle, hw, hnone, hrest, not_le.mp hle]
    have hall : (all.filter fun e => decide (seq e ≤ all.length) && wanted e) =
        all.filter wanted := by
      refine List.filter_congr fun e he => ?_
      simp [(hlog.mem_range he).2]
    rw [hall, ← hsplit]
    refine h.once.append ?_
    rw [hlog.readAfter_eq, List.filter_filter]
    obtain ⟨gone, hgone⟩ := hlog.suffix
    rw [← hgone, List.filter_append]
    have hcomm : (kept.filter fun e => wanted e && decide (cursor < seq e)) =
        kept.filter fun e => decide (cursor < seq e) && wanted e :=
      List.filter_congr fun e _ => Bool.and_comm _ _
    rw [hcomm]
    exact List.sublist_append_right _ _
  complete := by
    intro e he hwanted hafter huntil
    cases hmissed : missed seq kept cursor with
    | true =>
      rw [hmissed, if_pos rfl] at hafter
      omega
    | false =>
      rw [hmissed, if_neg (by simp)] at hafter
      rcases Nat.lt_or_ge cursor (seq e) with hbeyond | hread
      · refine List.mem_append_right _ (List.mem_filter.mpr ⟨?_, hwanted⟩)
        rw [hlog.readAfter_eq_all hmissed]
        exact List.mem_filter.mpr ⟨he, decide_eq_true hbeyond⟩
      · exact List.mem_append_left _ (h.complete e he hwanted (by omega) hread)
  position := .inr le_rfl

end Reading

end Foundation
