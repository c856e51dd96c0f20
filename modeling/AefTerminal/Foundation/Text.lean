import Mathlib.Data.List.Basic
import Mathlib.Data.List.DropRight

/-!
# Text normalisation

`strip` removes white space at both ends, for the white space characters of Unicode. A text that
was stripped once is not changed by stripping it again, which is what lets a normalised record be
normalised a second time without a change.

## Main results

* `strip_strip`: stripping is idempotent
-/

namespace Foundation

/-- The white space of Unicode, as a test on one character. -/
def isSpace (c : Char) : Bool :=
  let n := c.toNat
  (0x09 ≤ n && n ≤ 0x0D) || (0x1C ≤ n && n ≤ 0x20) || n = 0x85 || n = 0xA0 || n = 0x1680 ||
    (0x2000 ≤ n && n ≤ 0x200A) || n = 0x2028 || n = 0x2029 || n = 0x202F || n = 0x205F || n = 0x3000

def stripList (l : List Char) : List Char := (l.dropWhile isSpace).rdropWhile isSpace

def strip (s : String) : String := String.ofList (stripList s.toList)

/-- Lower case, for the ASCII texts that keys are made of. -/
def lower (s : String) : String := String.ofList (s.toList.map Char.toLower)

theorem dropWhile_rdropWhile {α : Type*} (p : α → Bool) (l : List α)
    (h : l.dropWhile p = l) : (l.rdropWhile p).dropWhile p = l.rdropWhile p := by
  cases hl : l.rdropWhile p with
  | nil => rfl
  | cons a as =>
    have hpre : (a :: as) <+: l := hl ▸ List.rdropWhile_prefix p l
    obtain ⟨rest, rfl⟩ := hpre
    rw [List.dropWhile_eq_self_iff] at h ⊢
    intro hpos
    exact h (by simp)

theorem stripList_stripList (l : List Char) : stripList (stripList l) = stripList l := by
  have hleft : (l.dropWhile isSpace).dropWhile isSpace = l.dropWhile isSpace :=
    List.dropWhile_idempotent isSpace l
  rw [stripList, stripList, dropWhile_rdropWhile isSpace _ hleft, List.rdropWhile_idempotent]

@[simp] theorem strip_strip (s : String) : strip (strip s) = strip s := by
  simp [strip, stripList_stripList]

end Foundation
