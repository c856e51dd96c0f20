import Mathlib.Logic.Basic
import Mathlib.Data.List.Basic

/-!
# Computations that may raise

`Except ε` as the model of code that raises: a computation is taken apart at its binds, and a
failed check is `require`. A raise inside a loop abandons the loop, which is `List.foldlM`.

## Main results

* `guard_bind_eq_some`: a step that is taken met its guard
* `bind_eq_ok`, `bind_eq_error`: what the outcome of a composed computation says of its parts
* `require_eq_ok`, `require_eq_error`: a check that passed, a check that raised
* `foldlM_induct`: the invariant rule of a loop that may raise
* `mem_of_mapM_eq_ok`, `mapM_eq_ok`: a loop that collects
* `Avoids.bind`, `Avoids.foldlM`: an error that no part raises is not raised
-/

namespace Foundation

universe u v

variable {ε : Type u} {α β : Type v}

/-- Raise `e` unless `p` holds. -/
def require (p : Prop) [Decidable p] (e : ε) : Except ε PUnit := if p then .ok () else .error e

@[simp] theorem require_eq_ok {p : Prop} [Decidable p] {e : ε} {u : PUnit} :
    require p e = .ok u ↔ p := by
  unfold require; split <;> simp_all

@[simp] theorem require_eq_error {p : Prop} [Decidable p] {e e' : ε} :
    require p e = .error e' ↔ ¬ p ∧ e = e' := by
  unfold require; split <;> simp_all

theorem guard_of {p : Prop} [Decidable p] (h : p) : (guard p : Option Unit) = some () := if_pos h

/-- A guarded step that is taken. -/
theorem guard_bind_eq_some {p : Prop} [Decidable p] {x : Unit → Option α} {a : α} :
    (guard p : Option Unit).bind x = some a ↔ p ∧ x () = some a := by
  by_cases h : p
  · rw [guard, if_pos h]
    exact ⟨fun hx => ⟨h, hx⟩, And.right⟩
  · rw [guard, if_neg h]
    exact ⟨nofun, fun hx => absurd hx.1 h⟩

theorem bind_eq_ok {x : Except ε α} {f : α → Except ε β} {b : β} :
    x >>= f = .ok b ↔ ∃ a, x = .ok a ∧ f a = .ok b := by
  cases x with
  | error e => simp [bind, Except.bind]
  | ok a => simp [bind, Except.bind]

theorem bind_eq_error {x : Except ε α} {f : α → Except ε β} {e : ε} :
    x >>= f = .error e ↔ x = .error e ∨ ∃ a, x = .ok a ∧ f a = .error e := by
  cases x with
  | error e => simp [bind, Except.bind]
  | ok a => simp [bind, Except.bind]

theorem map_eq_ok {x : Except ε α} {f : α → β} {b : β} :
    f <$> x = .ok b ↔ ∃ a, x = .ok a ∧ f a = b := by
  cases x with
  | error e => simp [Functor.map, Except.map]
  | ok a => simp [Functor.map, Except.map]

theorem map_eq_error {x : Except ε α} {f : α → β} {e : ε} : f <$> x = .error e ↔ x = .error e := by
  cases x with
  | error e' => simp [Functor.map, Except.map]
  | ok a => simp [Functor.map, Except.map]

@[simp] theorem pure_eq_ok {a b : α} : (pure a : Except ε α) = .ok b ↔ a = b := by
  simp [pure, Except.pure]

/-- A loop that may raise preserves what every completed pass through its body preserves. -/
theorem foldlM_induct {α : Type*} {P : β → Prop} {f : β → α → Except ε β} {l : List α} {b b' : β}
    (hbody : ∀ b a b', a ∈ l → P b → f b a = .ok b' → P b') (hb : P b)
    (h : l.foldlM f b = .ok b') : P b' := by
  induction l generalizing b with
  | nil => exact pure_eq_ok.mp h ▸ hb
  | cons a l ih =>
    rw [List.foldlM_cons] at h
    obtain ⟨c, hc, hl⟩ := bind_eq_ok.mp h
    exact ih (fun b a b' ha => hbody b a b' (List.mem_cons_of_mem _ ha))
      (hbody b a c (List.mem_cons_self ..) hb hc) hl

/-- What a loop that may raise collected, it computed from one of the items. -/
theorem mem_of_mapM_eq_ok {α : Type*} {f : α → Except ε β} {l : List α} {bs : List β} {b : β}
    (h : l.mapM f = .ok bs) (hb : b ∈ bs) : ∃ a ∈ l, f a = .ok b := by
  induction l generalizing bs with
  | nil =>
    obtain rfl := pure_eq_ok.mp h
    exact absurd hb (by simp)
  | cons a l ih =>
    rw [List.mapM_cons] at h
    obtain ⟨c, hc, h⟩ := bind_eq_ok.mp h
    obtain ⟨cs, hcs, h⟩ := bind_eq_ok.mp h
    obtain rfl := pure_eq_ok.mp h
    rcases List.mem_cons.mp hb with rfl | hb
    · exact ⟨a, List.mem_cons_self .., hc⟩
    · obtain ⟨a', ha', hf⟩ := ih hcs hb
      exact ⟨a', List.mem_cons_of_mem _ ha', hf⟩

theorem exists_mem_of_mapM_eq_ok {α : Type*} {f : α → Except ε β} {l : List α} {bs : List β} {a : α}
    (h : l.mapM f = .ok bs) (ha : a ∈ l) : ∃ b ∈ bs, f a = .ok b := by
  induction l generalizing bs with
  | nil => simp at ha
  | cons c l ih =>
    rw [List.mapM_cons] at h
    obtain ⟨b, hb, h⟩ := bind_eq_ok.mp h
    obtain ⟨bs', hbs, h⟩ := bind_eq_ok.mp h
    obtain rfl := pure_eq_ok.mp h
    rcases List.mem_cons.mp ha with rfl | ha
    · exact ⟨b, List.mem_cons_self .., hb⟩
    · obtain ⟨b', hb', hf⟩ := ih hbs ha
      exact ⟨b', List.mem_cons_of_mem _ hb', hf⟩

/-- A loop whose body never raises does not raise. -/
theorem exists_foldlM_eq_ok {α : Type*} {f : β → α → Except ε β} {l : List α} {b : β}
    (h : ∀ a ∈ l, ∀ b, ∃ b', f b a = .ok b') : ∃ b', l.foldlM f b = .ok b' := by
  induction l generalizing b with
  | nil => exact ⟨b, rfl⟩
  | cons a l ih =>
    obtain ⟨c, hc⟩ := h a (List.mem_cons_self ..) b
    obtain ⟨d, hd⟩ := ih (b := c) fun a ha => h a (List.mem_cons_of_mem _ ha)
    exact ⟨d, by rw [List.foldlM_cons, hc]; exact hd⟩

/-- A loop whose body can only return `g` of its item returns them all. -/
theorem eq_map_of_mapM_eq_ok {α : Type*} {f : α → Except ε β} {g : α → β} {l : List α} {bs : List β}
    (hf : ∀ a ∈ l, ∀ b, f a = .ok b → b = g a) (h : l.mapM f = .ok bs) : bs = l.map g := by
  induction l generalizing bs with
  | nil => exact (pure_eq_ok.mp h).symm
  | cons a l ih =>
    rw [List.mapM_cons] at h
    obtain ⟨c, hc, h⟩ := bind_eq_ok.mp h
    obtain ⟨cs, hcs, h⟩ := bind_eq_ok.mp h
    obtain rfl := pure_eq_ok.mp h
    rw [List.map_cons, hf a (List.mem_cons_self ..) c hc,
      ih (fun a ha => hf a (List.mem_cons_of_mem _ ha)) hcs]

/-- A loop in which no item raises does not raise. -/
theorem mapM_eq_ok {α : Type*} {f : α → Except ε β} {g : α → β} {l : List α}
    (h : ∀ a ∈ l, f a = .ok (g a)) : l.mapM f = .ok (l.map g) := by
  induction l with
  | nil => rfl
  | cons a l ih =>
    rw [List.mapM_cons, h a (List.mem_cons_self ..), ih fun a ha => h a (List.mem_cons_of_mem _ ha)]
    rfl

theorem exists_mapM_eq_ok {α : Type*} {f : α → Except ε β} {l : List α}
    (h : ∀ a ∈ l, ∃ b, f a = .ok b) : ∃ bs, l.mapM f = .ok bs := by
  induction l with
  | nil => exact ⟨[], rfl⟩
  | cons a l ih =>
    obtain ⟨b, hb⟩ := h a (List.mem_cons_self ..)
    obtain ⟨bs, hbs⟩ := ih fun a ha => h a (List.mem_cons_of_mem _ ha)
    exact ⟨b :: bs, by rw [List.mapM_cons, hb, hbs]; rfl⟩

/-- The same for a loop whose items may be absent. -/
theorem mapM_eq_some {f : α → Option β} {g : α → β} {l : List α} (h : ∀ a ∈ l, f a = some (g a)) :
    l.mapM f = some (l.map g) := by
  induction l with
  | nil => rfl
  | cons a l ih =>
    rw [List.mapM_cons, h a (List.mem_cons_self ..), ih fun a ha => h a (List.mem_cons_of_mem _ ha)]
    rfl

/-! ### What is not raised -/

/-- The error of a computation that raised. -/
def raised (x : Except ε α) : Option ε :=
  match x with
  | .error e => some e
  | .ok _ => none

@[simp] theorem raised_eq_some {x : Except ε α} {e : ε} : raised x = some e ↔ x = .error e := by
  cases x <;> simp [raised]

/-- `x` does not raise `e`. -/
def Avoids (e : ε) (x : Except ε α) : Prop := x ≠ .error e

namespace Avoids

variable {e : ε}

@[simp] theorem ok {a : α} : Avoids e (.ok a : Except ε α) := by simp [Avoids]

@[simp] theorem pure {a : α} : Avoids e (Pure.pure a : Except ε α) := by
  simp [Avoids, Pure.pure, Except.pure]

theorem error {e' : ε} (h : e' ≠ e) : Avoids e (.error e' : Except ε α) := by
  simpa [Avoids] using h

theorem require {p : Prop} [Decidable p] {e' : ε} (h : e' ≠ e) :
    Avoids e (Foundation.require p e') :=
  fun hraise => h (require_eq_error.mp hraise).2

theorem bind {x : Except ε α} {f : α → Except ε β} (hx : Avoids e x)
    (hf : ∀ a, x = .ok a → Avoids e (f a)) : Avoids e (x >>= f) := by
  intro hraise
  rcases bind_eq_error.mp hraise with h | ⟨a, ha, h⟩
  · exact hx h
  · exact hf a ha h

theorem map {x : Except ε α} {f : α → β} (hx : Avoids e x) : Avoids e (f <$> x) := by
  cases x with
  | error e' => simpa [Avoids, Functor.map, Except.map] using hx
  | ok a => simp [Functor.map, Except.map]

theorem foldlM {α : Type*} {f : β → α → Except ε β} {l : List α} {b : β}
    (hf : ∀ b a, a ∈ l → Avoids e (f b a)) : Avoids e (l.foldlM f b) := by
  induction l generalizing b with
  | nil => exact pure
  | cons a l ih =>
    rw [List.foldlM_cons]
    exact bind (hf b a (List.mem_cons_self ..)) fun c _ =>
      ih fun b a ha => hf b a (List.mem_cons_of_mem _ ha)

theorem mapM {α : Type*} {f : α → Except ε β} {l : List α} (hf : ∀ a ∈ l, Avoids e (f a)) :
    Avoids e (l.mapM f) := by
  induction l with
  | nil => exact pure
  | cons a l ih =>
    rw [List.mapM_cons]
    exact bind (hf a (List.mem_cons_self ..)) fun c _ =>
      bind (ih fun a ha => hf a (List.mem_cons_of_mem _ ha)) fun _ _ => pure

end Avoids

end Foundation
