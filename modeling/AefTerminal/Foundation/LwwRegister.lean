import Mathlib.Order.Lattice
import Mathlib.Data.List.Induction
import Mathlib.Data.List.Nodup

/-!
# Last-writer-wins registers

The abstract meaning of "versioned upsert": a register keeps the write with the greatest version,
whatever the order the writes arrive in. Versions are any linear order and values are anything.

A store that compares versions but may leave its own version behind is compared with a register
by `Tracks`: it shows the register's value, under a version that is not ahead.

## Main results

* `mem_of_writes_eq_some`, `le_of_writes_eq_some`: the register holds a greatest write
* `eq_of_greatest`: with distinct versions there is only one
-/

namespace Foundation

namespace LwwRegister

variable {κ ν : Type*} [LinearOrder κ]

/-- Keep the write with the greater version. -/
def write : Option (κ × ν) → κ × ν → Option (κ × ν)
  | none, w => some w
  | some c, w => if c.1 < w.1 then some w else some c

variable {c : κ × ν}

theorem write_of_lt {w : κ × ν} (h : c.1 < w.1) : write (some c) w = some w := if_pos h

theorem write_of_le {w : κ × ν} (h : w.1 ≤ c.1) : write (some c) w = some c :=
  if_neg (not_lt.mpr h)

def writes (l : List (κ × ν)) : Option (κ × ν) := l.foldl write none

@[simp] theorem writes_nil : writes ([] : List (κ × ν)) = none := rfl

@[simp] theorem writes_append_singleton (l : List (κ × ν)) (w : κ × ν) :
    writes (l ++ [w]) = write (writes l) w := by
  simp [writes]

theorem write_isSome (c : Option (κ × ν)) (w : κ × ν) : (write c w).isSome := by
  cases c with
  | none => rfl
  | some c => rw [write]; split <;> rfl

variable {l : List (κ × ν)}

theorem writes_eq_none_iff : writes l = none ↔ l = [] := by
  rcases List.eq_nil_or_concat l with rfl | ⟨l, w, rfl⟩
  · simp
  · have hs := write_isSome (writes l) w
    simp only [List.concat_eq_append, writes_append_singleton, List.append_eq_nil_iff,
      List.cons_ne_nil, and_false, iff_false]
    intro hn
    rw [hn] at hs
    exact absurd hs (by simp)

theorem mem_of_writes_eq_some (h : writes l = some c) : c ∈ l := by
  induction l using List.reverseRecOn generalizing c with
  | nil => exact absurd h (by simp)
  | append_singleton l w ih =>
    rw [writes_append_singleton] at h
    cases hl : writes l with
    | none =>
      rw [hl, write] at h
      simp [Option.some.inj h]
    | some d =>
      rw [hl, write] at h
      split at h
      · simp [Option.some.inj h]
      · exact List.mem_append_left _ (ih (hl.trans h))

theorem le_of_writes_eq_some (h : writes l = some c) :
    ∀ w ∈ l, w.1 ≤ c.1 := by
  induction l using List.reverseRecOn generalizing c with
  | nil => simp
  | append_singleton l w ih =>
    rw [writes_append_singleton] at h
    intro x hx
    cases hl : writes l with
    | none =>
      rw [writes_eq_none_iff.mp hl] at hx
      rw [hl, write] at h
      simp only [List.nil_append, List.mem_singleton] at hx
      rw [hx, Option.some.inj h]
    | some d =>
      rw [hl, write] at h
      rcases List.mem_append.mp hx with hx | hx
      · have hd := ih hl x hx
        split at h
        · rename_i hlt
          rw [← Option.some.inj h]
          exact le_trans hd (le_of_lt hlt)
        · rw [← Option.some.inj h]
          exact hd
      · rw [List.mem_singleton.mp hx]
        split at h
        · rw [Option.some.inj h]
        · rename_i hnlt
          rw [← Option.some.inj h]
          exact not_lt.mp hnlt

/-- A register that is not empty has seen one write more. -/
theorem foldl_write (c : Option (κ × ν)) (l : List (κ × ν)) :
    l.foldl write c = writes (c.toList ++ l) := by
  cases c <;> rfl

/-- With distinct versions a greatest write is the one the register holds. -/
theorem eq_of_greatest {w : κ × ν} (h : writes l = some c)
    (hd : (l.map Prod.fst).Nodup) (hw : w ∈ l) (hgreatest : ∀ x ∈ l, x.1 ≤ w.1) : w = c := by
  have hc := mem_of_writes_eq_some h
  have heq : w.1 = c.1 := le_antisymm (le_of_writes_eq_some h w hw) (hgreatest c hc)
  exact List.inj_on_of_nodup_map hd hw hc heq

/-! ### Stores that follow a register -/

/-- The store shows the register's value, under a version that is not ahead of the register's. -/
inductive Tracks : Option (κ × ν) → Option (κ × ν) → Prop
  | empty : Tracks none none
  | value {m n : κ} {v : ν} (h : m ≤ n) : Tracks (some (m, v)) (some (n, v))

end LwwRegister

end Foundation
