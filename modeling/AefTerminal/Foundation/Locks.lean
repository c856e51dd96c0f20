import Mathlib.Logic.Function.Basic
import Mathlib.Data.List.Basic

/-!
# Locks and the threads that hold them

Threads stand in a list, a thread is its place in it. Which locks a thread holds, and which it has
not come to yet, is read off its own state. `Locks` says that this agrees with the locks
themselves: a lock is taken exactly where one thread holds it, and no thread takes a lock twice or
gives one back that it does not hold.

A thread moves by changing its state, and may take a free lock or give back one that it holds with
that move. It need not do anything else with its other locks.

## Main definitions

* `LockEvent`, `lockUses`: the history of the locks
* `Locks`: the invariant

## Main results

* `Locks.move`, `Locks.acquire`, `Locks.release`, `Locks.enter`: what a thread may do
-/

namespace Foundation

variable {L τ : Type*} [DecidableEq L]

/-- A thread took a lock, or gave it back. -/
structure LockEvent (L : Type*) where
  lock : L
  thread : ℕ
  acquired : Bool

/-- What one thread did with one lock, in order. -/
def lockUses (log : List (LockEvent L)) (thread : ℕ) (lock : L) : List Bool :=
  (log.filter fun e => e.thread = thread ∧ e.lock = lock).map LockEvent.acquired

@[simp] theorem lockUses_nil (thread : ℕ) (lock : L) : lockUses [] thread lock = [] := rfl

theorem lockUses_append_self (log : List (LockEvent L)) (thread : ℕ) (lock : L) (acquired : Bool) :
    lockUses (log ++ [⟨lock, thread, acquired⟩]) thread lock =
      lockUses log thread lock ++ [acquired] := by
  simp [lockUses]

theorem lockUses_append_of_ne (log : List (LockEvent L)) {thread thread' : ℕ} {lock lock' : L}
    (acquired : Bool) (h : thread ≠ thread' ∨ lock ≠ lock') :
    lockUses (log ++ [⟨lock, thread, acquired⟩]) thread' lock' = lockUses log thread' lock' := by
  have hnot : ¬(thread = thread' ∧ lock = lock') := by
    rintro ⟨rfl, rfl⟩
    exact h.elim (fun h => h rfl) fun h => h rfl
  simp [lockUses, hnot]

/-- The uses of a lock by a thread that holds it, has not come to it, or is done with it. -/
structure UsesOf (holds before : Prop) (uses : List Bool) : Prop where
  before : before → uses = []
  held : holds → uses = [true]
  done : ¬holds → uses = [] ∨ uses = [true, false]

/-- The locks agree with the threads. -/
structure Locks (holds before : τ → L → Prop) (locked : L → Bool) (log : List (LockEvent L))
    (threads : List τ) : Prop where
  exclusive : ∀ (l : L) (i j : ℕ) (a b : τ), threads[i]? = some a → threads[j]? = some b → holds a l → holds b l →
    i = j
  locked : ∀ l, locked l = true ↔ ∃ (i : ℕ) (a : τ), threads[i]? = some a ∧ holds a l
  uses : ∀ (i : ℕ) (a : τ), threads[i]? = some a → ∀ l, UsesOf (holds a l) (before a l) (lockUses log i l)
  unborn : ∀ i, threads.length ≤ i → ∀ l, lockUses log i l = []

namespace Locks

variable {holds before : τ → L → Prop} {locked : L → Bool} {log : List (LockEvent L)}
  {threads : List τ} {i : ℕ} {a a' : τ} {lock : L}

theorem nil : Locks holds before (fun _ => false) [] [] :=
  ⟨by simp, by simp, by simp, by simp⟩

theorem getElem?_set_cases {b : τ} {j : ℕ} (h : (threads.set i a')[j]? = some b) :
    (j = i ∧ b = a') ∨ (j ≠ i ∧ threads[j]? = some b) := by
  by_cases hj : j = i
  · subst hj
    have hlt : j < threads.length := by
      have hlt' := (List.getElem?_eq_some_iff.mp h).1
      rwa [List.length_set] at hlt'
    rw [List.getElem?_set_self hlt] at h
    exact .inl ⟨rfl, (Option.some.inj h).symm⟩
  · rw [List.getElem?_set_ne (fun heq => hj heq.symm)] at h
    exact .inr ⟨hj, h⟩

theorem getElem?_set_self_of (ha : threads[i]? = some a) :
    (threads.set i a')[i]? = some a' :=
  List.getElem?_set_self (List.getElem?_eq_some_iff.mp ha).1

/-- A thread moves and keeps its locks. -/
theorem move (h : Locks holds before locked log threads) (ha : threads[i]? = some a)
    (hholds : ∀ l, holds a' l ↔ holds a l) (hbefore : ∀ l, before a' l → before a l) :
    Locks holds before locked log (threads.set i a') := by
  have hback {j : ℕ} {b : τ} (hb : (threads.set i a')[j]? = some b) :
      ∃ c, threads[j]? = some c ∧ (∀ l, holds b l ↔ holds c l) ∧ ∀ l, before b l → before c l := by
    rcases getElem?_set_cases hb with ⟨rfl, rfl⟩ | ⟨-, hb⟩
    · exact ⟨a, ha, hholds, hbefore⟩
    · exact ⟨b, hb, fun _ => Iff.rfl, fun _ => id⟩
  refine ⟨fun l j k b c hb hc hbl hcl => ?_, fun l => (h.locked l).trans ⟨?_, ?_⟩,
    fun j b hb l => ?_, fun j hj => h.unborn j (by simpa using hj)⟩
  · obtain ⟨b', hb', hb'', -⟩ := hback hb
    obtain ⟨c', hc', hc'', -⟩ := hback hc
    exact h.exclusive l j k b' c' hb' hc' ((hb'' l).mp hbl) ((hc'' l).mp hcl)
  · rintro ⟨j, b, hb, hbl⟩
    by_cases hj : j = i
    · subst hj
      cases (ha.symm.trans hb)
      exact ⟨j, a', getElem?_set_self_of ha, (hholds l).mpr hbl⟩
    · exact ⟨j, b, by rwa [List.getElem?_set_ne (fun heq => hj heq.symm)], hbl⟩
  · rintro ⟨j, b, hb, hbl⟩
    obtain ⟨c, hc, hc', -⟩ := hback hb
    exact ⟨j, c, hc, (hc' l).mp hbl⟩
  · obtain ⟨c, hc, hc', hc''⟩ := hback hb
    obtain ⟨hnone, hheld, hdone⟩ := h.uses j c hc l
    exact ⟨fun hbl => hnone (hc'' l hbl), fun hbl => hheld ((hc' l).mp hbl),
      fun hbl => hdone fun hcl => hbl ((hc' l).mpr hcl)⟩

/-- A thread uses a lock that no other thread holds. -/
theorem use (h : Locks holds before locked log threads) (ha : threads[i]? = some a)
    {acquired : Bool}
    (hsame : ∀ l, l ≠ lock → (holds a' l ↔ holds a l) ∧ (before a' l → before a l))
    (hothers : ∀ (j : ℕ) b, threads[j]? = some b → holds b lock → j = i)
    (hnow : acquired = true ↔ holds a' lock)
    (huses : UsesOf (holds a' lock) (before a' lock) (lockUses log i lock ++ [acquired])) :
    Locks holds before (Function.update locked lock acquired) (log ++ [⟨lock, i, acquired⟩])
      (threads.set i a') := by
  have hback {j : ℕ} {b : τ} (hb : (threads.set i a')[j]? = some b) {l : L} (hl : l ≠ lock) :
      ∃ c, threads[j]? = some c ∧ (holds b l ↔ holds c l) ∧ (before b l → before c l) := by
    rcases getElem?_set_cases hb with ⟨rfl, rfl⟩ | ⟨-, hb⟩
    · exact ⟨a, ha, hsame l hl⟩
    · exact ⟨b, hb, Iff.rfl, id⟩
  have hholder {j : ℕ} {b : τ} (hb : (threads.set i a')[j]? = some b) (hbl : holds b lock) :
      j = i := by
    rcases getElem?_set_cases hb with ⟨rfl, -⟩ | ⟨-, hb⟩
    · rfl
    · exact hothers j b hb hbl
  refine ⟨fun l j k b c hb hc hbl hcl => ?_, fun l => ?_, fun j b hb l => ?_, fun j hj l => ?_⟩
  · by_cases hl : l = lock
    · subst hl
      exact (hholder hb hbl).trans (hholder hc hcl).symm
    · obtain ⟨b', hb', hb'', -⟩ := hback hb hl
      obtain ⟨c', hc', hc'', -⟩ := hback hc hl
      exact h.exclusive l j k b' c' hb' hc' (hb''.mp hbl) (hc''.mp hcl)
  · by_cases hl : l = lock
    · subst hl
      rw [Function.update_self, hnow]
      refine ⟨fun hal => ⟨i, a', getElem?_set_self_of ha, hal⟩, ?_⟩
      rintro ⟨j, b, hb, hbl⟩
      obtain rfl := hholder hb hbl
      cases ((getElem?_set_self_of ha).symm.trans hb)
      exact hbl
    · rw [Function.update_of_ne hl, h.locked l]
      constructor
      · rintro ⟨j, b, hb, hbl⟩
        by_cases hj : j = i
        · subst hj
          cases (ha.symm.trans hb)
          exact ⟨j, a', getElem?_set_self_of ha, (hsame l hl).1.mpr hbl⟩
        · exact ⟨j, b, by rwa [List.getElem?_set_ne (fun heq => hj heq.symm)], hbl⟩
      · rintro ⟨j, b, hb, hbl⟩
        obtain ⟨c, hc, hc', -⟩ := hback hb hl
        exact ⟨j, c, hc, hc'.mp hbl⟩
  · by_cases hl : l = lock
    · subst hl
      rcases getElem?_set_cases hb with ⟨rfl, rfl⟩ | ⟨hj, hb⟩
      · rw [lockUses_append_self]
        exact huses
      · rw [lockUses_append_of_ne _ _ (.inl (Ne.symm hj))]
        exact h.uses j b hb l
    · rw [lockUses_append_of_ne _ _ (.inr (Ne.symm hl))]
      obtain ⟨c, hc, hc', hc''⟩ := hback hb hl
      obtain ⟨hfirst, hheld, hdone⟩ := h.uses j c hc l
      exact ⟨fun hbl => hfirst (hc'' hbl), fun hbl => hheld (hc'.mp hbl),
        fun hbl => hdone fun hcl => hbl (hc'.mpr hcl)⟩
  · have hlt : i < threads.length := (List.getElem?_eq_some_iff.mp ha).1
    rw [List.length_set] at hj
    rw [lockUses_append_of_ne _ _ (.inl (by omega))]
    exact h.unborn j hj l

/-- A thread takes a free lock. -/
theorem acquire (h : Locks holds before locked log threads) (ha : threads[i]? = some a)
    (hfree : locked lock = false) (hfirst : before a lock)
    (hholds : ∀ l, holds a' l ↔ holds a l ∨ l = lock)
    (hbefore : ∀ l, before a' l → before a l ∧ l ≠ lock) :
    Locks holds before (Function.update locked lock true) (log ++ [⟨lock, i, true⟩])
      (threads.set i a') := by
  have hheld : holds a' lock := (hholds lock).mpr (.inr rfl)
  refine h.use ha (fun l hl => ⟨(hholds l).trans (or_iff_left hl), fun hbl => (hbefore l hbl).1⟩)
    (fun j b hb hbl => ?_) ⟨fun _ => hheld, fun _ => rfl⟩ ?_
  · exact absurd ((h.locked lock).mpr ⟨j, b, hb, hbl⟩) (by simp [hfree])
  · rw [(h.uses i a ha lock).before hfirst]
    exact ⟨fun hbl => absurd rfl (hbefore lock hbl).2, fun _ => rfl,
      fun hnot => absurd hheld hnot⟩

/-- A thread gives back a lock that it holds. -/
theorem release (h : Locks holds before locked log threads) (ha : threads[i]? = some a)
    (hheld : holds a lock) (hholds : ∀ l, holds a' l ↔ holds a l ∧ l ≠ lock)
    (hbefore : ∀ l, before a' l → before a l ∧ l ≠ lock) :
    Locks holds before (Function.update locked lock false) (log ++ [⟨lock, i, false⟩])
      (threads.set i a') := by
  have hnot : ¬ holds a' lock := fun hal => ((hholds lock).mp hal).2 rfl
  refine h.use ha (fun l hl => ⟨(hholds l).trans (and_iff_left hl), fun hbl => (hbefore l hbl).1⟩)
    (fun j b hb hbl => h.exclusive lock j i b a hb ha hbl hheld)
    ⟨fun hfalse => (nomatch hfalse), fun hal => absurd hal hnot⟩ ?_
  rw [(h.uses i a ha lock).held hheld]
  exact ⟨fun hbl => absurd rfl (hbefore lock hbl).2, fun hal => absurd hal hnot, fun _ => .inr rfl⟩

/-- A new thread holds no lock. -/
theorem enter (h : Locks holds before locked log threads) (hnone : ∀ l, ¬holds a l) :
    Locks holds before locked log (threads ++ [a]) := by
  have hback {j : ℕ} {b : τ} (hb : (threads ++ [a])[j]? = some b) :
      threads[j]? = some b ∨ (j = threads.length ∧ b = a) := by
    rw [List.getElem?_append] at hb
    split at hb
    · exact .inl hb
    · rename_i hge
      rw [List.getElem?_singleton] at hb
      split_ifs at hb with hzero
      exact .inr ⟨by omega, (Option.some.inj hb).symm⟩
  refine ⟨fun l j k b c hb hc hbl hcl => ?_, fun l => (h.locked l).trans ⟨?_, ?_⟩,
    fun j b hb l => ?_, fun j hj => h.unborn j ?_⟩
  · rcases hback hb with hb | ⟨-, rfl⟩
    · rcases hback hc with hc | ⟨-, rfl⟩
      · exact h.exclusive l j k b c hb hc hbl hcl
      · exact absurd hcl (hnone l)
    · exact absurd hbl (hnone l)
  · rintro ⟨j, b, hb, hbl⟩
    have hlt : j < threads.length := (List.getElem?_eq_some_iff.mp hb).1
    exact ⟨j, b, by rwa [List.getElem?_append_left hlt], hbl⟩
  · rintro ⟨j, b, hb, hbl⟩
    rcases hback hb with hb | ⟨-, rfl⟩
    · exact ⟨j, b, hb, hbl⟩
    · exact absurd hbl (hnone l)
  · rcases hback hb with hb | ⟨rfl, rfl⟩
    · exact h.uses j b hb l
    · rw [h.unborn _ (Nat.le_refl _) l]
      exact ⟨fun _ => rfl, fun hbl => absurd hbl (hnone l), fun _ => .inl rfl⟩
  · rw [List.length_append, List.length_singleton] at hj
    omega

end Locks

end Foundation
