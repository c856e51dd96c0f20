import Mathlib.Data.List.Destutter

/-!
# Immediate repeats

A list with its immediate repeats of a key collapsed, built up from the end: one more item is kept
unless the item before it has the same key.

Whoever collapses a stream with a table of last keys has to remember the keys. `rememberKey` is a
table that forgets the key that it has had longest.

## Main results

* `collapse_concat`: one more item
-/

namespace Foundation

variable {α κ : Type*} (key : α → κ)

/-- The key of the last item. -/
def lastKey (l : List α) : Option κ := l.getLast?.map key

@[simp] theorem lastKey_nil : lastKey key [] = none := rfl

@[simp] theorem lastKey_concat (l : List α) (x : α) : lastKey key (l ++ [x]) = some (key x) := by
  simp [lastKey]

variable [DecidableEq κ]

/-- Immediate repeats of a key collapsed to the first of them. -/
def collapse (l : List α) : List α := l.destutter fun a b => key a ≠ key b

@[simp] theorem collapse_nil : collapse key [] = [] := rfl

theorem destutter'_concat (l : List α) (a x : α) :
    (l ++ [x]).destutter' (fun a b => key a ≠ key b) a =
      if lastKey key (a :: l) = some (key x) then l.destutter' (fun a b => key a ≠ key b) a
      else l.destutter' (fun a b => key a ≠ key b) a ++ [x] := by
  induction l generalizing a with
  | nil =>
    by_cases h : key a = key x <;> simp [List.destutter', lastKey, h]
  | cons b l ih =>
    have hlast : lastKey key (a :: b :: l) = lastKey key (b :: l) := by simp [lastKey]
    rw [hlast, List.cons_append]
    by_cases h : key a = key b
    · have hsame : lastKey key (a :: l) = lastKey key (b :: l) := by
        cases l with
        | nil => simp [lastKey, h]
        | cons c l => simp [lastKey]
      rw [List.destutter'_cons_neg _ (not_not.mpr h), List.destutter'_cons_neg _ (not_not.mpr h),
        ih a, hsame]
    · rw [List.destutter'_cons_pos _ h, List.destutter'_cons_pos _ h, ih b]
      split_ifs <;> rfl

theorem collapse_concat (l : List α) (x : α) :
    collapse key (l ++ [x]) =
      if lastKey key l = some (key x) then collapse key l else collapse key l ++ [x] := by
  cases l with
  | nil => rfl
  | cons a l => exact destutter'_concat key l a x

/-- Note a key in a table of at most `limit` keys that gives up its oldest one. -/
def rememberKey (limit : ℕ) (keys : List κ) (k : κ) : List κ :=
  if k ∈ keys then keys
  else if limit < (keys ++ [k]).length then (keys ++ [k]).tail
  else keys ++ [k]

end Foundation
