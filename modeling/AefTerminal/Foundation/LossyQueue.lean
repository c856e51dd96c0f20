import Mathlib.Data.List.Basic
import Mathlib.Data.List.Nodup
import Mathlib.Data.List.Perm.Basic
import Mathlib.Logic.Relation

/-!
# A queue that may lose items

Items are offered one after the other, each at most once. An item that is accepted waits; the front
of the queue is handed over as a batch that is held until it is settled: the batch is done, it is
lost, or its front returns before what waits and its rest is lost. Items may also be lost when they
are offered and while they wait.

Whatever is lost is written down, so nothing vanishes, and what is done or held or waits is in the
order in which it was accepted.

## Main results

* `LossyQueue.Sound`, `LossyQueue.Move.sound`: the accounts and the order, kept by every move
* `LossyQueue.Moves.later`: what is done or lost is never handed over again
-/

namespace Foundation

variable {α : Type*}

/-- The items by where they are; `handed` has every batch that was handed over. -/
structure LossyQueue (α : Type*) where
  offered : List α
  accepted : List α
  waiting : List α
  held : List α
  done : List α
  lost : List α
  handed : List (List α)

namespace LossyQueue

def empty : LossyQueue α := ⟨[], [], [], [], [], [], []⟩

inductive Move : LossyQueue α → LossyQueue α → Prop
  | accept {q : LossyQueue α} (x : α) (hnew : x ∉ q.offered) :
      Move q { q with
        offered := q.offered ++ [x]
        accepted := q.accepted ++ [x]
        waiting := q.waiting ++ [x] }
  | refuse {q : LossyQueue α} (x : α) (hnew : x ∉ q.offered) :
      Move q { q with offered := q.offered ++ [x], lost := q.lost ++ [x] }
  | take {q : LossyQueue α} (n : ℕ) (hfree : q.held = []) :
      Move q { q with
        waiting := q.waiting.drop n
        held := q.waiting.take n
        handed := q.handed ++ [q.waiting.take n] }
  | finish {q : LossyQueue α} : Move q { q with done := q.done ++ q.held, held := [] }
  | discard {q : LossyQueue α} : Move q { q with lost := q.lost ++ q.held, held := [] }
  | putBack {q : LossyQueue α} (n : ℕ) :
      Move q { q with
        waiting := q.held.take n ++ q.waiting
        lost := q.lost ++ q.held.drop n
        held := [] }
  | clear {q : LossyQueue α} : Move q { q with lost := q.lost ++ q.waiting, waiting := [] }

/-- Any number of moves. -/
def Moves : LossyQueue α → LossyQueue α → Prop := Relation.ReflTransGen Move

variable {q q' : LossyQueue α}

/-! ### The accounts -/

/-- Every item is in one place, and what is not lost is in the order of acceptance. -/
structure Accounted (q : LossyQueue α) : Prop where
  places : q.offered.Perm (q.done ++ q.held ++ q.waiting ++ q.lost)
  once : q.offered.Nodup
  accepted : q.accepted.Sublist q.offered
  order : (q.done ++ q.held ++ q.waiting).Sublist q.accepted

theorem Accounted.nodup (h : q.Accounted) : (q.done ++ q.held ++ q.waiting ++ q.lost).Nodup :=
  h.places.nodup_iff.mp h.once

theorem accounted_empty : (empty : LossyQueue α).Accounted := ⟨.refl _, .nil, .refl _, .refl _⟩

theorem Move.accounted (h : q.Accounted) (hm : Move q q') : q'.Accounted := by
  cases hm with
  | accept x hnew =>
    refine ⟨?_, ?_, h.accepted.append (.refl _), ?_⟩
    · calc (q.offered ++ [x]).Perm ((q.done ++ q.held ++ q.waiting ++ q.lost) ++ [x]) :=
            h.places.append_right _
        _ |>.Perm (q.done ++ q.held ++ (q.waiting ++ [x]) ++ q.lost) := by
            simp only [List.append_assoc]
            exact ((List.perm_append_comm.append_left _).append_left _).append_left _
    · exact h.once.append (List.nodup_singleton x) (by simpa using hnew)
    · simpa [List.append_assoc] using h.order.append (List.Sublist.refl [x])
  | refuse x hnew =>
    refine ⟨?_, ?_, h.accepted.trans (List.sublist_append_left _ _), h.order⟩
    · simpa [List.append_assoc] using h.places.append_right [x]
    · exact h.once.append (List.nodup_singleton x) (by simpa using hnew)
  | take n hfree =>
    have hsplit : q.done ++ q.waiting.take n ++ q.waiting.drop n = q.done ++ q.held ++ q.waiting := by
      rw [hfree, List.append_assoc, List.take_append_drop, List.append_nil]
    exact ⟨hsplit ▸ h.places, h.once, h.accepted, hsplit ▸ h.order⟩
  | finish => exact ⟨by simpa using h.places, h.once, h.accepted, by simpa using h.order⟩
  | discard =>
    refine ⟨h.places.trans ?_, h.once, h.accepted, ?_⟩
    · simp only [List.append_assoc, List.append_nil]
      refine List.Perm.append_left _ ?_
      calc (q.held ++ (q.waiting ++ q.lost)).Perm ((q.waiting ++ q.lost) ++ q.held) :=
            List.perm_append_comm
        _ = q.waiting ++ (q.lost ++ q.held) := List.append_assoc ..
    · refine List.Sublist.trans ?_ h.order
      simp
  | putBack n =>
    refine ⟨h.places.trans ?_, h.once, h.accepted, List.Sublist.trans ?_ h.order⟩
    · simp only [List.append_assoc, List.append_nil]
      refine List.Perm.append_left _ ?_
      conv_lhs => rw [← List.take_append_drop n q.held]
      rw [List.append_assoc]
      refine List.Perm.append_left _ ?_
      calc (q.held.drop n ++ (q.waiting ++ q.lost)).Perm ((q.waiting ++ q.lost) ++ q.held.drop n) :=
            List.perm_append_comm
        _ = q.waiting ++ (q.lost ++ q.held.drop n) := List.append_assoc ..
    · simp only [List.append_nil, List.append_assoc]
      exact ((List.take_sublist n q.held).append (.refl _)).append_left _
  | clear =>
    refine ⟨h.places.trans ?_, h.once, h.accepted, List.Sublist.trans ?_ h.order⟩
    · simp only [List.append_assoc, List.nil_append]
      exact (List.perm_append_comm.append_left _).append_left _
    · simp

/-! ### What is handed over -/

section Handed

variable [DecidableEq α]

/-- The items handed over, each where it was handed over first. -/
def firstHanded (q : LossyQueue α) : List α := q.handed.flatten.eraseDups

/-- What waits was handed over before and returned, or follows all that was handed over. -/
def HandedInOrder (q : LossyQueue α) : Prop :=
  ∃ again fresh, q.waiting = again ++ fresh ∧
    (∀ x ∈ again ++ q.held, x ∈ q.handed.flatten) ∧
    (q.firstHanded ++ fresh).Sublist q.accepted

theorem handedInOrder_empty : (empty : LossyQueue α).HandedInOrder :=
  ⟨[], [], rfl, by simp [empty], .refl _⟩

theorem eraseDups_of_nodup {l : List α} (h : l.Nodup) : l.eraseDups = l := by
  induction l with
  | nil => rfl
  | cons x l ih =>
    obtain ⟨hx, hl⟩ := List.nodup_cons.mp h
    have hfilter : (l.filter fun y => !y == x) = l :=
      List.filter_eq_self.mpr fun y hy => by simpa using fun heq : y = x => hx (heq ▸ hy)
    rw [List.eraseDups_cons, hfilter, ih hl]

/-- A batch of items that were handed over before, then of items that were not. -/
theorem eraseDups_append_of_split {handed again fresh : List α} (hagain : ∀ x ∈ again, x ∈ handed)
    (hnodup : (handed.eraseDups ++ fresh).Nodup) :
    (handed ++ (again ++ fresh)).eraseDups = handed.eraseDups ++ fresh := by
  obtain ⟨-, hfresh, hdisjoint⟩ := List.nodup_append'.mp hnodup
  have hold : again.removeAll handed = [] := by
    simpa [List.removeAll, List.filter_eq_nil_iff] using hagain
  have hnew : fresh.removeAll handed = fresh := by
    refine List.filter_eq_self.mpr fun x hx => ?_
    have hnot : x ∉ handed := fun hmem => hdisjoint (List.mem_eraseDups.mpr hmem) hx
    simpa using hnot
  have hsplit : (again ++ fresh).removeAll handed = fresh := by
    rw [List.removeAll, List.filter_append, ← List.removeAll, ← List.removeAll, hold, hnew,
      List.nil_append]
  rw [List.eraseDups_append, hsplit, eraseDups_of_nodup hfresh]

/-- What the accounts and the order of the hand-overs say of a queue. -/
structure Sound (q : LossyQueue α) : Prop extends Accounted q where
  hands : q.HandedInOrder

theorem sound_empty : (empty : LossyQueue α).Sound := ⟨accounted_empty, handedInOrder_empty⟩

theorem Move.handedInOrder (h : q.Sound) (hm : Move q q') : q'.HandedInOrder := by
  obtain ⟨again, fresh, hwaiting, hagain, hfirst⟩ := h.hands
  cases hm with
  | accept x hnew =>
    refine ⟨again, fresh ++ [x], ?_, hagain, ?_⟩
    · rw [hwaiting, List.append_assoc]
    · rw [← List.append_assoc]
      exact hfirst.append (.refl _)
  | refuse x hnew => exact ⟨again, fresh, hwaiting, hagain, hfirst⟩
  | take n hfree =>
    have hnodup : (q.firstHanded ++ fresh).Nodup :=
      (hfirst.trans h.accepted).nodup h.once
    have hsplit : q.firstHanded ++ fresh.take (n - again.length) ++ fresh.drop (n - again.length) =
        q.firstHanded ++ fresh := by rw [List.append_assoc, List.take_append_drop]
    have hbatch : q.waiting.take n = again.take n ++ fresh.take (n - again.length) := by
      rw [hwaiting, List.take_append]
    have hold : ∀ x ∈ again.take n, x ∈ q.handed.flatten := fun x hx =>
      hagain x (List.mem_append_left _ (List.mem_of_mem_take hx))
    refine ⟨again.drop n, fresh.drop (n - again.length), ?_, fun x hx => ?_, ?_⟩
    · rw [hwaiting, List.drop_append]
    · rw [List.flatten_append, List.flatten_singleton]
      rcases List.mem_append.mp hx with hx | hx
      · exact List.mem_append_left _ (hagain x (List.mem_append_left _ (List.mem_of_mem_drop hx)))
      · exact List.mem_append_right _ hx
    · have hdups : (q.handed.flatten ++ q.waiting.take n).eraseDups =
          q.firstHanded ++ fresh.take (n - again.length) := by
        rw [hbatch]
        exact eraseDups_append_of_split hold (hsplit ▸ hnodup).of_append_left
      rw [firstHanded, List.flatten_append, List.flatten_singleton, hdups, hsplit]
      exact hfirst
  | finish | discard =>
    exact ⟨again, fresh, hwaiting, fun x hx => hagain x (List.mem_append_left _ (by simpa using hx)),
      hfirst⟩
  | putBack n =>
    refine ⟨q.held.take n ++ again, fresh, ?_, fun x hx => ?_, hfirst⟩
    · rw [hwaiting, List.append_assoc]
    · simp only [List.append_nil, List.mem_append] at hx
      rcases hx with hx | hx
      · exact hagain x (List.mem_append_right _ (List.mem_of_mem_take hx))
      · exact hagain x (List.mem_append_left _ hx)
  | clear =>
    exact ⟨[], [], rfl, fun x hx => hagain x (List.mem_append_right _ hx),
      (List.append_nil q.firstHanded).symm ▸ (List.sublist_append_left _ _).trans hfirst⟩

theorem Move.sound (h : q.Sound) (hm : Move q q') : q'.Sound :=
  ⟨hm.accounted h.toAccounted, hm.handedInOrder h⟩

theorem Moves.sound (hm : Moves q q') (h : q.Sound) : q'.Sound := by
  induction hm with
  | refl => exact h
  | tail _ hm ih => exact hm.sound ih

omit [DecidableEq α] in
theorem Moves.lost_prefix (hm : Moves q q') : q.lost <+: q'.lost := by
  induction hm with
  | refl => exact List.prefix_rfl
  | tail _ hm ih =>
    refine ih.trans ?_
    cases hm with
    | accept | take | finish => exact List.prefix_rfl
    | refuse | discard | putBack | clear => exact List.prefix_append _ _

theorem Sound.firstHanded_sublist (h : q.Sound) : q.firstHanded.Sublist q.accepted := by
  obtain ⟨again, fresh, -, -, hfirst⟩ := h.hands
  exact (List.sublist_append_left _ _).trans hfirst

end Handed

/-! ### What has left -/

/-- What is done or lost stays so, and no later batch has any of it. -/
def Later (q q' : LossyQueue α) : Prop :=
  ∃ batches, q'.handed = q.handed ++ batches ∧ q.done ++ q.lost ⊆ q'.done ++ q'.lost ∧
    ∀ x ∈ q.done ++ q.lost, x ∉ batches.flatten

theorem Later.refl (q : LossyQueue α) : q.Later q :=
  ⟨[], by simp, List.Subset.refl _, by simp⟩

theorem Later.trans {q q' q'' : LossyQueue α} (h : q.Later q') (h' : q'.Later q'') :
    q.Later q'' := by
  obtain ⟨batches, heq, hsub, hnot⟩ := h
  obtain ⟨batches', heq', hsub', hnot'⟩ := h'
  refine ⟨batches ++ batches', ?_, List.Subset.trans hsub hsub', fun x hx hmem => ?_⟩
  · rw [heq', heq, List.append_assoc]
  · rw [List.flatten_append] at hmem
    rcases List.mem_append.mp hmem with hmem | hmem
    · exact hnot x hx hmem
    · exact hnot' x (hsub hx) hmem

theorem Accounted.not_mem_waiting (h : q.Accounted) {x : α} (hx : x ∈ q.done ++ q.lost) :
    x ∉ q.waiting := by
  obtain ⟨hkept, -, hlost⟩ := List.nodup_append'.mp h.nodup
  obtain ⟨-, -, hdone⟩ := List.nodup_append'.mp hkept
  intro hw
  rcases List.mem_append.mp hx with hx | hx
  · exact hdone (List.mem_append_left _ hx) hw
  · exact hlost (List.mem_append_right _ hw) hx

theorem Move.later (h : q.Accounted) (hm : Move q q') : q.Later q' := by
  have hstill {lost : List α} (hlost : q.lost ⊆ lost) {done : List α} (hdone : q.done ⊆ done) :
      q.done ++ q.lost ⊆ done ++ lost := fun x hx =>
    List.mem_append.mpr ((List.mem_append.mp hx).imp (@hdone x) (@hlost x))
  cases hm with
  | accept | refuse | finish | discard | putBack | clear =>
    exact ⟨[], by simp, hstill (by simp) (by simp), by simp⟩
  | take n hfree =>
    refine ⟨[q.waiting.take n], rfl, List.Subset.refl _, fun x hx hmem => ?_⟩
    rw [List.flatten_singleton] at hmem
    exact h.not_mem_waiting hx (List.mem_of_mem_take hmem)

theorem Moves.later (hm : Moves q q') (h : q.Accounted) : q.Later q' := by
  suffices q'.Accounted ∧ q.Later q' from this.2
  induction hm with
  | refl => exact ⟨h, .refl q⟩
  | tail _ hm ih => exact ⟨hm.accounted ih.1, ih.2.trans (hm.later ih.1)⟩

end LossyQueue

end Foundation
