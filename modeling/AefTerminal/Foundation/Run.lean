import Mathlib.Order.Basic
import Mathlib.Logic.Basic
import Mathlib.Data.List.Basic
import Mathlib.Tactic.SplitIfs

/-!
# Runs of labelled transition relations

A system is a relation `Step s a t`: from `s` the action `a` may lead to `t`. `Run Step s as t`
says that the actions `as`, in order, lead from `s` to `t`. Nothing is assumed about the state,
the actions or determinism.

A side condition on steps is part of the relation: `Run (Guarded ok Step)` is a run whose every
step meets `ok` in the state it starts from.

## Main results

* `Run.append`, `Run.of_append`: runs compose and split
* `Run.invariant`, `Run.trace_invariant`: what every step preserves, every run preserves
* `Run.relates`: a reflexive and transitive relation that every step respects relates the ends
* `Run.exists_step`: an action of a run is a step between two of its states
* `Run.monotone`, `Run.no_effect_of_version_eq`: a version that every effect increases is a fence,
  two equal readings of it have no effect between them
-/

namespace Foundation

variable {σ α : Type*}

/-- `as`, in order, lead from the first state to the second. -/
inductive Run (Step : σ → α → σ → Prop) : σ → List α → σ → Prop
  | nil (s : σ) : Run Step s [] s
  | cons {s t u : σ} {a : α} {as : List α} :
      Step s a t → Run Step t as u → Run Step s (a :: as) u

/-- The steps of `Step` that meet `ok` in the state they start from. -/
def Guarded (ok : σ → α → Prop) (Step : σ → α → σ → Prop) (s : σ) (a : α) (t : σ) : Prop :=
  ok s a ∧ Step s a t

/-- The relation of a partial step function. -/
def StepOf (step : σ → α → Option σ) (s : σ) (a : α) (t : σ) : Prop := step s a = some t

namespace Run

variable {Step Step' : σ → α → σ → Prop} {s t u : σ} {as bs : List α} {a : α}

theorem single (h : Step s a t) : Run Step s [a] t := cons h (nil t)

theorem append (h : Run Step s as t) (k : Run Step t bs u) : Run Step s (as ++ bs) u := by
  induction h with
  | nil => exact k
  | cons hs _ ih => exact cons hs (ih k)

theorem snoc (h : Run Step s as t) (k : Step t a u) : Run Step s (as ++ [a]) u :=
  h.append (single k)

theorem of_append (h : Run Step s (as ++ bs) u) : ∃ t, Run Step s as t ∧ Run Step t bs u := by
  induction as generalizing s with
  | nil => exact ⟨s, nil s, h⟩
  | cons a as ih =>
    cases h with
    | cons hs hr =>
      obtain ⟨t, h₁, h₂⟩ := ih hr
      exact ⟨t, cons hs h₁, h₂⟩

theorem mono (hsub : ∀ s a t, Step s a t → Step' s a t) (h : Run Step s as t) :
    Run Step' s as t := by
  induction h with
  | nil => exact nil _
  | cons hs _ ih => exact cons (hsub _ _ _ hs) ih

theorem unguard {ok : σ → α → Prop} (h : Run (Guarded ok Step) s as t) : Run Step s as t :=
  h.mono fun _ _ _ hs => hs.2

theorem guard {ok : α → Prop} (h : Run Step s as t) (hok : ∀ a ∈ as, ok a) :
    Run (Guarded (fun _ a => ok a) Step) s as t := by
  induction h with
  | nil => exact nil _
  | cons hs _ ih =>
    obtain ⟨ha, hrest⟩ := List.forall_mem_cons.mp hok
    exact cons ⟨ha, hs⟩ (ih hrest)

/-- The invariant rule. -/
theorem invariant {Inv : σ → Prop} (hstep : ∀ s a t, Inv s → Step s a t → Inv t)
    (h : Run Step s as t) (hs : Inv s) : Inv t := by
  induction h with
  | nil => exact hs
  | cons hst _ ih => exact ih (hstep _ _ _ hs hst)

/-- The invariant rule with the actions so far. -/
theorem trace_invariant {Inv : List α → σ → Prop}
    (hstep : ∀ bs s a t, Inv bs s → Step s a t → Inv (bs ++ [a]) t) (h : Run Step s as t)
    (hs : Inv [] s) : Inv as t := by
  suffices hgeneral : ∀ bs, Inv bs s → Inv (bs ++ as) t from hgeneral [] hs
  clear hs
  induction h with
  | nil => exact fun bs hbs => by rwa [List.append_nil]
  | cons hst _ ih =>
    intro bs hbs
    rw [List.append_cons]
    exact ih _ (hstep _ _ _ _ hbs hst)

/-- The invariant rule for a relation between the two ends of the run, under an invariant. -/
theorem relates {Inv : σ → Prop} {R : σ → σ → Prop}
    (hinv : ∀ s a t, Inv s → Step s a t → Inv t) (hrefl : ∀ s, R s s)
    (htrans : ∀ s t u, R s t → R t u → R s u)
    (hstep : ∀ s a t, Inv s → Step s a t → R s t)
    (h : Run Step s as t) (hs : Inv s) : R s t := by
  induction h with
  | nil => exact hrefl _
  | cons hst _ ih => exact htrans _ _ _ (hstep _ _ _ hs hst) (ih (hinv _ _ _ hs hst))

/-- An action of a run is a step between two states of the run. -/
theorem exists_step (h : Run Step s as u) (ha : a ∈ as) :
    ∃ as₁ as₂ t t', as = as₁ ++ a :: as₂ ∧ Run Step s as₁ t ∧ Step t a t' ∧ Run Step t' as₂ u := by
  obtain ⟨as₁, as₂, rfl⟩ := List.append_of_mem ha
  obtain ⟨t, h₁, h₂⟩ := h.of_append
  cases h₂ with
  | cons hs hr => exact ⟨as₁, as₂, t, _, rfl, h₁, hs, hr⟩

/-- A step relation with one outcome has runs with one outcome. -/
theorem deterministic (hdet : ∀ s a t t', Step s a t → Step s a t' → t = t')
    (h : Run Step s as t) (h' : Run Step s as u) : t = u := by
  induction h with
  | nil => cases h' with
    | nil => rfl
  | cons hs _ ih =>
    cases h' with
    | cons hs' hr' =>
      obtain rfl := hdet _ _ _ _ hs hs'
      exact ih hr'

/-- The run of a partial step function, computed. -/
theorem of_foldlM {step : σ → α → Option σ} (h : as.foldlM step s = some t) :
    Run (StepOf step) s as t := by
  induction as generalizing s with
  | nil =>
    obtain rfl := Option.some.inj h
    exact nil s
  | cons a as ih =>
    rw [List.foldlM_cons] at h
    obtain ⟨u, hu, h⟩ := Option.bind_eq_some_iff.mp h
    exact cons hu (ih h)

/-- The run of a partial step function that checks a condition first, computed. -/
theorem guarded_of_foldlM {step : σ → α → Option σ} {ok : σ → α → Prop}
    [∀ s a, Decidable (ok s a)]
    (h : as.foldlM (fun s a => if ok s a then step s a else none) s = some t) :
    Run (Guarded ok (StepOf step)) s as t := by
  refine (of_foldlM h).mono fun u a v hstep => ?_
  have hstep : (if ok u a then step u a else none) = some v := hstep
  split_ifs at hstep with hok
  exact ⟨hok, hstep⟩

/-! ### Versions -/

section Version

variable {ν : Type*} [PartialOrder ν] {version : σ → ν} {Effect : σ → α → Prop}

theorem monotone (hmono : ∀ s a t, Step s a t → version s ≤ version t) (h : Run Step s as t) :
    version s ≤ version t := by
  induction h with
  | nil => exact le_rfl
  | cons hs _ ih => exact (hmono _ _ _ hs).trans ih

/-- **Fencing.** Where no step lowers the version and every effect raises it, a run that ends at
the version it started from has no effect in it. -/
theorem no_effect_of_version_eq (hmono : ∀ s a t, Step s a t → version s ≤ version t)
    (heffect : ∀ s a t, Step s a t → Effect s a → version s < version t)
    {u u' : σ} (hbefore : Run Step s as u) (hstep : Step u a u') (hafter : Run Step u' bs t)
    (heq : version t = version s) : ¬ Effect u a := by
  intro he
  have hlt : version s < version t :=
    calc version s ≤ version u := hbefore.monotone hmono
      _ < version u' := heffect _ _ _ hstep he
      _ ≤ version t := hafter.monotone hmono
  exact absurd heq hlt.ne'

end Version

end Run

end Foundation
