import Mathlib.Data.List.Basic
import Mathlib.Order.Nat
import Mathlib.Data.List.TakeDrop

/-!
# A value with its history and its marks

A value that is replaced commit by commit. The commits are numbered from 1 and the first value has
number 0. Some commits are marked later, each after it was made, and the marks are counted: mark
number `g` is the `g`-th.

A reader who saw value number `i` saw everything up to mark `g` if no commit among the first `g`
marks is later than `i`. What is read once mark `g` was made has that property, and keeps it.

## Main results

* `MarkedHistory.HeldSince.extends`, `MarkedHistory.heldSince_current`: what was current since a
  number
* `MarkedHistory.SeenSince.extends`: what was read stays read
* `MarkedHistory.SeenSince.of_le`: who saw the later mark saw the earlier
* `MarkedHistory.Sound.seenSince_current`: the current value has seen all marks
-/

namespace Foundation

universe u

structure MarkedHistory (σ : Type u) where
  current : σ
  /-- The values before, oldest first. -/
  past : List σ
  /-- The numbers of the marked commits, in the order of the marks. -/
  marks : List ℕ

namespace MarkedHistory

variable {σ : Type u}

/-- The number of commits so far, which is the number of the current value. -/
def commits (h : MarkedHistory σ) : ℕ := h.past.length

def valueAt (h : MarkedHistory σ) (i : ℕ) : Option σ := (h.past ++ [h.current])[i]?

def start (x : σ) : MarkedHistory σ := ⟨x, [], []⟩

def commit (h : MarkedHistory σ) (x : σ) : MarkedHistory σ :=
  { h with current := x, past := h.past ++ [h.current] }

def mark (h : MarkedHistory σ) (m : ℕ) : MarkedHistory σ := { h with marks := h.marks ++ [m] }

/-- No commit is marked before it is made. -/
def Sound (h : MarkedHistory σ) : Prop := ∀ m ∈ h.marks, m ≤ h.commits

/-- `k` is `h` some commits and marks later. -/
structure Extends (h k : MarkedHistory σ) : Prop where
  valueAt : ∀ i x, h.valueAt i = some x → k.valueAt i = some x
  marks : h.marks <+: k.marks
  commits_le : h.commits ≤ k.commits

/-- A value with property `p` was current when all of the first `g` marked commits were made. -/
def SeenSince (h : MarkedHistory σ) (g : ℕ) (p : σ → Prop) : Prop :=
  ∃ i x, h.valueAt i = some x ∧ p x ∧ ∀ m ∈ h.marks.take g, m ≤ i

theorem Extends.refl (h : MarkedHistory σ) : Extends h h := ⟨fun _ _ => id, List.prefix_rfl, le_rfl⟩

variable {h : MarkedHistory σ}

theorem Extends.trans {k l : MarkedHistory σ} (hk : Extends h k) (kl : Extends k l) :
    Extends h l :=
  ⟨fun i x hi => kl.valueAt i x (hk.valueAt i x hi), hk.marks.trans kl.marks,
    hk.commits_le.trans kl.commits_le⟩

theorem extends_commit (h : MarkedHistory σ) (x : σ) : Extends h (h.commit x) where
  valueAt i y hi := by
    obtain ⟨hlt, -⟩ := List.getElem?_eq_some_iff.mp hi
    show (h.past ++ [h.current] ++ [x])[i]? = some y
    rw [List.getElem?_append_left hlt]
    exact hi
  marks := List.prefix_rfl
  commits_le := by
    show h.past.length ≤ (h.past ++ [h.current]).length
    rw [List.length_append]
    omega

theorem extends_mark (h : MarkedHistory σ) (m : ℕ) : Extends h (h.mark m) :=
  ⟨fun _ _ => id, List.prefix_append .., le_rfl⟩

@[simp] theorem commits_commit (h : MarkedHistory σ) (x : σ) :
    (h.commit x).commits = h.commits + 1 := by
  show (h.past ++ [h.current]).length = h.past.length + 1
  simp

@[simp] theorem commits_mark (h : MarkedHistory σ) (m : ℕ) : (h.mark m).commits = h.commits := rfl

theorem valueAt_commits (h : MarkedHistory σ) : h.valueAt h.commits = some h.current := by
  show (h.past ++ [h.current])[h.past.length]? = some h.current
  simp

theorem sound_start (x : σ) : Sound (start x) := fun _ hm => absurd hm List.not_mem_nil

theorem Sound.commit (hs : h.Sound) (x : σ) : (h.commit x).Sound := by
  intro m hm
  rw [commits_commit]
  exact (hs m hm).trans (Nat.le_succ _)

theorem Sound.mark (hs : h.Sound) {m : ℕ} (hm : m ≤ h.commits) :
    (h.mark m).Sound := by
  intro n hn
  rcases List.mem_append.mp hn with hn | hn
  · exact hs n hn
  · rw [List.mem_singleton.mp hn]
    exact hm

/-! ### Since a number -/

/-- A value with property `p` was current at number `i` or later. -/
def HeldSince (h : MarkedHistory σ) (i : ℕ) (p : σ → Prop) : Prop :=
  ∃ j x, i ≤ j ∧ h.valueAt j = some x ∧ p x

theorem HeldSince.extends {k : MarkedHistory σ} {i : ℕ} {p : σ → Prop} (hheld : h.HeldSince i p)
    (hk : Extends h k) : k.HeldSince i p := by
  obtain ⟨j, x, hle, hj, hp⟩ := hheld
  exact ⟨j, x, hle, hk.valueAt j x hj, hp⟩

theorem heldSince_current {i : ℕ} (hle : i ≤ h.commits) {p : σ → Prop}
    (hp : p h.current) : h.HeldSince i p :=
  ⟨h.commits, h.current, hle, valueAt_commits h, hp⟩

/-! ### What a reader has seen -/

namespace SeenSince

variable {h k : MarkedHistory σ} {g g' : ℕ} {p : σ → Prop}

theorem «extends» (hseen : h.SeenSince g p) (hk : Extends h k) (hg : g ≤ h.marks.length) :
    k.SeenSince g p := by
  obtain ⟨i, x, hi, hp, hm⟩ := hseen
  refine ⟨i, x, hk.valueAt i x hi, hp, fun m hmem => hm m ?_⟩
  obtain ⟨later, hlater⟩ := hk.marks
  rw [← hlater, List.take_append_of_le_length hg] at hmem
  exact hmem

theorem of_le (hseen : h.SeenSince g p) (hle : g' ≤ g) : h.SeenSince g' p := by
  obtain ⟨i, x, hi, hp, hm⟩ := hseen
  exact ⟨i, x, hi, hp, fun m hmem => hm m (List.take_subset_take_left _ hle hmem)⟩

/-- Who has seen mark `g` has seen each commit among the first `g` marks. -/
theorem exists_le (hseen : h.SeenSince g p) {m : ℕ} (hm : m ∈ h.marks.take g) :
    ∃ i x, m ≤ i ∧ h.valueAt i = some x ∧ p x := by
  obtain ⟨i, x, hi, hp, hle⟩ := hseen
  exact ⟨i, x, hle m hm, hi, hp⟩

end SeenSince

/-- Who reads now has seen every mark. -/
theorem Sound.seenSince_current (hs : h.Sound) (g : ℕ) {p : σ → Prop}
    (hp : p h.current) : h.SeenSince g p :=
  ⟨h.commits, h.current, valueAt_commits h, hp, fun m hm => hs m (List.mem_of_mem_take hm)⟩

end MarkedHistory

end Foundation
