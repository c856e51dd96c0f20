import Mathlib.Data.List.Basic
import Mathlib.Data.Option.Basic

/-!
# Replaying a log of changes

A store of cells is read as a function from keys to optional values. A change says for every cell
whether it is overwritten or kept under a condition, and a log is replayed from its first change
to its last.

Replaying a log twice in a row is replaying it once: what a cell holds afterwards was either
written by the log, or is what it held before as far as the log kept it. So a copy that already
contains the beginning of a log is brought up to date by replaying all of it.

## Main results

* `replay_replay`: replaying is idempotent
* `replay_mono`: a part of a store stays a part
-/

namespace Foundation

universe u v

/-- The change of one cell. -/
inductive CellChange (ν : Type v)
  | set (value : Option ν)
  | keep (p : ν → Bool)

variable {κ : Type u} {ν : Type v}

def CellChange.apply : CellChange ν → Option ν → Option ν
  | .set value, _ => value
  | .keep p, x => x.filter p

/-- A store after a log of changes. -/
def replay (log : List (κ → CellChange ν)) (store : κ → Option ν) (k : κ) : Option ν :=
  log.foldl (fun x change => (change k).apply x) (store k)

@[simp] theorem replay_nil (store : κ → Option ν) : replay [] store = store := rfl

theorem replay_append (log log' : List (κ → CellChange ν)) (store : κ → Option ν) :
    replay (log ++ log') store = replay log' (replay log store) := by
  funext k
  simp [replay, List.foldl_append]

/-- What a log does to one cell: it writes it, or keeps it under a condition. -/
theorem cell_cases (log : List (κ → CellChange ν)) (k : κ) :
    (∃ value, ∀ x, log.foldl (fun x change => (change k).apply x) x = value) ∨
      ∃ p : ν → Bool, ∀ x, log.foldl (fun x change => (change k).apply x) x = x.filter p := by
  induction log with
  | nil => exact .inr ⟨fun _ => true, fun x => by cases x <;> rfl⟩
  | cons change log ih =>
    rcases ih with ⟨value, hvalue⟩ | ⟨p, hp⟩
    · exact .inl ⟨value, fun x => hvalue _⟩
    · cases hchange : change k with
      | set value =>
        refine .inl ⟨value.filter p, fun x => ?_⟩
        rw [List.foldl_cons, hp, hchange]
        rfl
      | keep q =>
        refine .inr ⟨fun x => q x && p x, fun x => ?_⟩
        rw [List.foldl_cons, hp, hchange, CellChange.apply, Option.filter_filter]

theorem replay_replay (log : List (κ → CellChange ν)) (store : κ → Option ν) :
    replay log (replay log store) = replay log store := by
  funext k
  simp only [replay]
  rcases cell_cases log k with ⟨value, hvalue⟩ | ⟨p, hp⟩
  · rw [hvalue, hvalue]
  · rw [hp, hp, Option.filter_filter]
    simp

/-- The rows of `part` are rows of `store`. -/
def PartOf (part store : κ → Option ν) : Prop := ∀ k x, part k = some x → store k = some x

theorem PartOf.refl (store : κ → Option ν) : PartOf store store := fun _ _ h => h

theorem CellChange.apply_mono (change : CellChange ν) {x y : Option ν}
    (h : ∀ v, x = some v → y = some v) {v : ν} (hx : change.apply x = some v) :
    change.apply y = some v := by
  cases change with
  | set value => exact hx
  | keep p =>
    obtain ⟨hx, hp⟩ := Option.filter_eq_some_iff.mp hx
    exact Option.filter_eq_some_iff.mpr ⟨h v hx, hp⟩

/-- Replaying a log keeps a part a part. -/
theorem replay_mono {part store : κ → Option ν} (h : PartOf part store)
    (log : List (κ → CellChange ν)) : PartOf (replay log part) (replay log store) := by
  induction log generalizing part store with
  | nil => exact h
  | cons change log ih =>
    have hfirst : PartOf (replay [change] part) (replay [change] store) :=
      fun k x hx => (change k).apply_mono (h k) hx
    exact ih hfirst

end Foundation
