import Mathlib.Logic.Basic

/-!
# Programs with a state that a raise keeps

`Prog ε σ` is code that reads and writes a state and may raise. What was done before a raise stays
done, and a handler goes on from there.

`Triple P m Q` says that from a state that meets `P` the program ends, by a result or by a raise,
in a state that `Q` relates to it. There is one postcondition for both ends: a program that never
raises is one whose postcondition excludes `.error`.

## Main results

* `Triple.bind`, `Triple.observe`: the rules of composition
* `Triple.seq`: a part that does not raise
* `Triple.conseq`, `Triple.split`: consequence, and a case distinction in the program
-/

namespace Foundation

variable {ε σ α β : Type}

/-- A program over a state; a raise keeps the state reached. -/
def Prog (ε σ α : Type) : Type := σ → Except ε α × σ

namespace Prog

instance : Monad (Prog ε σ) where
  pure a := fun s => (.ok a, s)
  bind m f := fun s =>
    match m s with
    | (.ok a, t) => f a t
    | (.error e, t) => (.error e, t)

/-- The end of a program, and the state it leaves. -/
def exec (m : Prog ε σ α) (s : σ) : Except ε α × σ := m s

def raise (e : ε) : Prog ε σ α := fun s => (.error e, s)

def update (f : σ → σ) : Prog ε σ Unit := fun s => (.ok (), f s)

def read (f : σ → α) : Prog ε σ α := fun s => (.ok (f s), s)

/-- A computation without the state. -/
def lift (x : Except ε α) : Prog ε σ α := fun s => (x, s)

/-- Run a program and hand on how it ended. -/
def observe (m : Prog ε σ α) : Prog ε σ (Except ε α) := fun s => (.ok (m s).1, (m s).2)

end Prog

/-- From a state in `P` the program ends in `Q`. -/
def Triple (P : σ → Prop) (m : Prog ε σ α) (Q : Except ε α → σ → Prop) : Prop :=
  ∀ s, P s → Q (m.exec s).1 (m.exec s).2

namespace Triple

variable {P P' : σ → Prop} {Q R : Except ε α → σ → Prop} {S : Except ε β → σ → Prop}
  {m m' : Prog ε σ α}

theorem conseq (h : Triple P m Q) (hpre : ∀ s, P' s → P s) (hpost : ∀ r s, Q r s → R r s) :
    Triple P' m R := fun s hs => hpost _ _ (h s (hpre s hs))

theorem post (h : Triple P m Q) (hpost : ∀ r s, Q r s → R r s) : Triple P m R :=
  h.conseq (fun _ => id) hpost

theorem pre (h : Triple P m Q) (hpre : ∀ s, P' s → P s) : Triple P' m Q :=
  h.conseq hpre fun _ _ => id

theorem pure {a : α} (h : ∀ s, P s → Q (.ok a) s) : Triple P (Pure.pure a : Prog ε σ α) Q := h

theorem raise {e : ε} (h : ∀ s, P s → Q (.error e) s) : Triple P (Prog.raise e) Q := h

theorem update {f : σ → σ} {Q : Except ε Unit → σ → Prop} (h : ∀ s, P s → Q (.ok ()) (f s)) :
    Triple P (Prog.update f) Q := h

theorem lift {x : Except ε α} (h : ∀ s, P s → Q x s) : Triple P (Prog.lift x) Q := h

/-- Sequence: a raise of the first part is the end, a result is handed on. -/
theorem bind {f : α → Prog ε σ β} (h : Triple P m R)
    (hraise : ∀ e s, R (.error e) s → S (.error e) s) (hf : ∀ a, Triple (R (.ok a)) (f a) S) :
    Triple P (m >>= f) S := by
  intro s hs
  have hm := h s hs
  have hexec : (m >>= f).exec s =
      match m.exec s with
      | (.ok a, t) => f a t
      | (.error e, t) => (.error e, t) := rfl
  rw [hexec]
  generalize m.exec s = out at hm ⊢
  obtain ⟨r, t⟩ := out
  cases r with
  | error e => exact hraise e t hm
  | ok a => exact hf a t hm

/-- Sequence, when the first part does not raise. -/
theorem seq {R : α → σ → Prop} {f : α → Prog ε σ β}
    (h : Triple P m fun r s => ∃ a, r = .ok a ∧ R a s) (hf : ∀ a, Triple (R a) (f a) S) :
    Triple P (m >>= f) S := by
  refine h.bind (fun e s hs => ?_) fun a => (hf a).pre fun s hs => ?_
  · obtain ⟨a, ha, -⟩ := hs
    exact absurd ha (by simp)
  · obtain ⟨b, hb, hR⟩ := hs
    exact Except.ok.inj hb ▸ hR

/-- What follows an observed program starts from either of its ends. -/
theorem observe {k : Except ε α → Prog ε σ β} (h : Triple P m R)
    (hk : ∀ r, Triple (R r) (k r) S) : Triple P (Prog.observe m >>= k) S :=
  fun s hs => hk _ _ (h s hs)

/-- From each state, some triple that applies there. -/
theorem choose (h : ∀ s, P s → ∃ P', P' s ∧ Triple P' m Q) : Triple P m Q := fun s hs => by
  obtain ⟨_, hs', ht⟩ := h s hs
  exact ht s hs'

theorem lift_bind {x : Except ε α} {f : α → Prog ε σ β}
    (hraise : ∀ e, x = .error e → ∀ s, P s → S (.error e) s)
    (hf : ∀ a, x = .ok a → Triple P (f a) S) : Triple P (Prog.lift x >>= f) S := by
  intro s hs
  cases x with
  | error e => exact hraise e rfl s hs
  | ok a => exact hf a rfl s hs

theorem read_bind {f : σ → α} {k : α → Prog ε σ β}
    (hk : ∀ a, Triple (fun s => P s ∧ f s = a) (k a) S) : Triple P (Prog.read f >>= k) S :=
  fun s hs => hk (f s) s ⟨hs, rfl⟩

theorem split {c : Prop} [Decidable c] (ht : c → Triple P m Q) (hf : ¬ c → Triple P m' Q) :
    Triple P (if c then m else m') Q := by
  split
  · exact ht ‹_›
  · exact hf ‹_›

end Triple

end Foundation
