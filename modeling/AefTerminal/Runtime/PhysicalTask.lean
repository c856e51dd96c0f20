import Mathlib.Data.Rat.Defs
import Mathlib.Algebra.Order.Ring.Unbundled.Rat
import AefTerminal.Foundation.Fallible
import AefTerminal.Foundation.Run

/-!
# Settling a physical task

`settle_physical_task` waits for work that goes on when its waiter is cancelled. It takes the
cancellations of the caller back, waits on until the work is over and hands its outcome on together
with the cancellation.

The waiter is suspended in one of two waits. It is resumed by the end of the task, by a cancellation
of the caller or, in the first wait, by the timer of `wait_for`, which cancels the caller too and
takes that back. Several of these can have happened by the time it runs.

## Main definitions

* `Settling`: the call and the task it waits for
* `startSettling`, `settleStep`: the steps of the event loop around the call
* `EndsInFirstWait`, `EndsCancelled`: the schedules that lose a cancellation, or make one up

## Main results

* `Settling.wake_isReturned`: the call returns once the task is over
* `settle_outcome_iff`: the outcome of the task is carried, and exactly when the cancellation is
* `deferred_cancellation_lost`
-/

namespace AefTerminal

open Foundation

variable {ρ ε κ : Type}

/-- How a task ends. -/
inductive TaskEnd (ρ ε : Type)
  | result (value : ρ)
  | error (e : ε)
  | cancelled
  deriving DecidableEq, Repr

structure PhysicalTaskOutcome (ρ ε κ : Type) where
  result : Option ρ := none
  error : Option ε := none
  cancellation : Option κ := none
  timedOut : Bool := false
  taskCancelled : Bool := false
  deriving DecidableEq, Repr

/-- Where the call stands: in its first wait, in the loop, or returned. -/
inductive SettlePhase (ρ ε κ : Type)
  | first
  | second
  | returned (outcome : PhysicalTaskOutcome ρ ε κ)
  deriving DecidableEq, Repr

/-- The call and the task it waits for. -/
structure Settling (ρ ε κ : Type) where
  task : Option (TaskEnd ρ ε)
  hasTimeout : Bool
  /-- `current_task.cancelling()` -/
  cancelling : ℕ
  /-- `current_task.cancelling()` where `wait_for` was entered. -/
  base : ℕ
  /-- The timer of `wait_for` has fired. -/
  expiring : Bool
  /-- A cancellation is thrown into the waiter when it is resumed. -/
  delivery : Bool
  cancellation : Option κ
  timedOut : Bool
  phase : SettlePhase ρ ε κ
  deriving DecidableEq, Repr

namespace Settling

def returns (s : Settling ρ ε κ) (outcome : PhysicalTaskOutcome ρ ε κ) : Settling ρ ε κ :=
  { s with phase := .returned outcome }

/-- The loop: it returns where the task is over, and waits else. -/
def loop (s : Settling ρ ε κ) : Settling ρ ε κ :=
  match s.task with
  | none => { s with phase := .second }
  | some .cancelled =>
    s.returns { cancellation := s.cancellation, timedOut := s.timedOut, taskCancelled := true }
  | some (.result value) =>
    s.returns { result := some value, cancellation := s.cancellation, timedOut := s.timedOut }
  | some (.error e) =>
    s.returns { error := some e, cancellation := s.cancellation, timedOut := s.timedOut }

/-- `task.cancelled()` -/
def taskCancelled (s : Settling ρ ε κ) : Bool :=
  match s.task with
  | some .cancelled => true
  | _ => false

/-- `except CancelledError` of the first wait. -/
def catchFirst (s : Settling ρ ε κ) (exc : κ) : Settling ρ ε κ :=
  if s.taskCancelled && s.cancelling = 0 then s.returns { taskCancelled := true }
  else loop { s with cancellation := some exc, cancelling := 0 }

/-- `except CancelledError` of the loop. -/
def catchSecond (s : Settling ρ ε κ) (exc : κ) : Settling ρ ε κ :=
  if s.taskCancelled && s.cancelling = 0 then
    s.returns { cancellation := s.cancellation, timedOut := s.timedOut, taskCancelled := true }
  else loop { s with cancellation := s.cancellation.or (some exc), cancelling := 0 }

/-- The first wait is resumed by the end of the task. -/
def endFirst (isTimeout : ε → Bool) (s : Settling ρ ε κ) (exc : κ) :
    TaskEnd ρ ε → Settling ρ ε κ
  | .cancelled => s.catchFirst exc
  | .result value => s.returns { result := some value }
  | .error e =>
    if isTimeout e then loop { s with timedOut := true } else s.returns { error := some e }

/-- The first wait is resumed. `wait_for` takes the cancellation of its timer back, and raises
`TimeoutError` where that was the only new one. -/
def wakeFirst (isTimeout : ε → Bool) (s : Settling ρ ε κ) (exc : κ) : Option (Settling ρ ε κ) :=
  if s.delivery then
    let s := { s with delivery := false }
    if s.expiring then
      let s := { s with expiring := false, cancelling := s.cancelling - 1 }
      if s.cancelling ≤ s.base then some (loop { s with timedOut := true })
      else some (s.catchFirst exc)
    else some (s.catchFirst exc)
  else s.task.map (s.endFirst isTimeout exc)

/-- The wait of the loop is resumed by the end of the task. -/
def endSecond (s : Settling ρ ε κ) (exc : κ) : TaskEnd ρ ε → Settling ρ ε κ
  | .cancelled => s.catchSecond exc
  | _ => s.loop

/-- The wait of the loop is resumed. -/
def wakeSecond (s : Settling ρ ε κ) (exc : κ) : Option (Settling ρ ε κ) :=
  if s.delivery then some ({ s with delivery := false }.catchSecond exc)
  else s.task.map (s.endSecond exc)

end Settling

/-- What can happen around the call. `wake` carries the `CancelledError` that is raised in the
waiter, if one is. -/
inductive SettleAct (ρ ε κ : Type)
  | complete (taskEnd : TaskEnd ρ ε)
  | cancel
  | expire
  | wake (exc : κ)
  deriving DecidableEq, Repr

/-- The call, up to its first wait. -/
def startSettling (task : Option (TaskEnd ρ ε)) (timeout : Option ℚ)
    (deferredCancellation : Option κ) (cancelling : ℕ) : Except String (Settling ρ ε κ) := do
  require (∀ seconds ∈ timeout, 0 < seconds) "physical task timeout must be positive"
  let cancelling := if deferredCancellation.isSome then 0 else cancelling
  pure
    { task
      hasTimeout := timeout.isSome
      cancelling
      base := cancelling
      expiring := false
      delivery := false
      cancellation := deferredCancellation
      timedOut := false
      phase := .first }

def settleStep (isTimeout : ε → Bool) (s : Settling ρ ε κ) :
    SettleAct ρ ε κ → Option (Settling ρ ε κ)
  | .complete taskEnd =>
    match s.task with
    | none => some { s with task := some taskEnd }
    | some _ => none
  | .cancel =>
    match s.phase with
    | .returned _ => none
    | _ => some { s with cancelling := s.cancelling + 1, delivery := true }
  | .expire =>
    match s.phase with
    | .first =>
      if s.hasTimeout && !s.expiring then
        some { s with cancelling := s.cancelling + 1, expiring := true, delivery := true }
      else none
    | _ => none
  | .wake exc =>
    match s.phase with
    | .first => s.wakeFirst isTimeout exc
    | .second => s.wakeSecond exc
    | .returned _ => none

/-! ### What the schedule says -/

def SettleAct.isWake : SettleAct ρ ε κ → Bool
  | .wake _ => true
  | _ => false

def SettleAct.taskEnd : SettleAct ρ ε κ → Option (TaskEnd ρ ε)
  | .complete taskEnd => some taskEnd
  | _ => none

/-- How the task has ended. -/
def endAfter (task : Option (TaskEnd ρ ε)) (acts : List (SettleAct ρ ε κ)) :
    Option (TaskEnd ρ ε) :=
  task.or (acts.findSome? SettleAct.taskEnd)

/-- What happens before the waiter is resumed first. -/
def beforeWake (acts : List (SettleAct ρ ε κ)) : List (SettleAct ρ ε κ) :=
  acts.takeWhile fun a => !a.isWake

/-- The outcome of the task, as it is. -/
def Carries : TaskEnd ρ ε → PhysicalTaskOutcome ρ ε κ → Prop
  | .result value, out => out.result = some value ∧ out.error = none ∧ out.taskCancelled = false
  | .error e, out => out.result = none ∧ out.error = some e ∧ out.taskCancelled = false
  | .cancelled, out => out.result = none ∧ out.error = none ∧ out.taskCancelled = true

/-- The first wait ends with the task, and with nothing that looks like the timer. -/
def EndsInFirstWait (isTimeout : ε → Bool) (task : Option (TaskEnd ρ ε))
    (acts : List (SettleAct ρ ε κ)) : Prop :=
  .cancel ∉ acts ∧ .expire ∉ acts ∧ ∀ e, endAfter task acts = some (.error e) → isTimeout e = false

/-- The task is cancelled and the caller is not, and it was not the timer of the first wait that
told so. -/
def EndsCancelled (task : Option (TaskEnd ρ ε)) (acts : List (SettleAct ρ ε κ)) : Prop :=
  .cancel ∉ acts ∧ endAfter task acts = some .cancelled ∧
    ¬ (.expire ∈ acts ∧ endAfter task (beforeWake acts) = some .cancelled)

section Schedule

variable {task : Option (TaskEnd ρ ε)} {acts : List (SettleAct ρ ε κ)}

theorem endAfter_concat (a : SettleAct ρ ε κ) :
    endAfter task (acts ++ [a]) = (endAfter task acts).or a.taskEnd := by
  rw [endAfter, endAfter, List.findSome?_append, Option.or_assoc, List.findSome?_cons,
    List.findSome?_nil]
  cases a.taskEnd <;> rfl

theorem endAfter_of_none {a : SettleAct ρ ε κ} (h : a.taskEnd = none) :
    endAfter task (acts ++ [a]) = endAfter task acts := by
  rw [endAfter_concat, h, Option.or_none]

theorem endAfter_complete (h : endAfter task acts = none) (taskEnd : TaskEnd ρ ε) :
    endAfter task (acts ++ [.complete taskEnd]) = some taskEnd := by
  rw [endAfter_concat, h]
  rfl

theorem endAfter_wake (exc : κ) :
    endAfter task (acts ++ [.wake exc]) = endAfter task acts :=
  endAfter_of_none rfl

theorem beforeWake_concat_wake (h : ∀ exc, .wake exc ∉ acts) (exc : κ) :
    beforeWake (acts ++ [.wake exc]) = acts := by
  have hall : ∀ a ∈ acts, (!a.isWake) = true := by
    intro a ha
    cases a with
    | wake exc => exact absurd ha (h exc)
    | _ => rfl
  rw [beforeWake, List.takeWhile_append_of_pos hall]
  exact List.append_nil _

theorem beforeWake_concat (h : ∃ exc, .wake exc ∈ acts) (a : SettleAct ρ ε κ) :
    beforeWake (acts ++ [a]) = beforeWake acts := by
  obtain ⟨exc, hexc⟩ := h
  induction acts with
  | nil => exact absurd hexc List.not_mem_nil
  | cons b acts ih =>
    rw [List.cons_append, beforeWake, beforeWake, List.takeWhile_cons, List.takeWhile_cons]
    cases hb : b.isWake with
    | true => rfl
    | false =>
      have hrest : .wake exc ∈ acts := by
        rcases List.mem_cons.mp hexc with rfl | hrest
        · exact nomatch hb
        · exact hrest
      exact congrArg (b :: ·) (ih hrest)

end Schedule

namespace Settling

variable {isTimeout : ε → Bool} {s t : Settling ρ ε κ} {e : TaskEnd ρ ε} {exc : κ}

theorem loop_of_none (h : s.task = none) : s.loop = { s with phase := .second } := by
  rw [loop, h]

/-- Where the task is over, the loop hands its outcome on, with the cancellation. -/
theorem loop_of_some (h : s.task = some e) :
    ∃ out, s.loop = s.returns out ∧ Carries e out ∧ out.cancellation = s.cancellation := by
  rw [loop, h]
  cases e <;> exact ⟨_, rfl, ⟨rfl, rfl, rfl⟩, rfl⟩

/-- A cancellation of the caller is kept. -/
theorem catchFirst_of_cancelling (h : s.cancelling ≠ 0) :
    s.catchFirst exc = loop { s with cancellation := some exc, cancelling := 0 } := by
  rw [catchFirst, if_neg (by simp [h])]

theorem catchSecond_of_cancelling (h : s.cancelling ≠ 0) :
    s.catchSecond exc =
      loop { s with cancellation := s.cancellation.or (some exc), cancelling := 0 } := by
  rw [catchSecond, if_neg (by simp [h])]

/-! ### The first wait -/

/-- The first wait, after what has happened. -/
structure InFirst (deferred : Option κ) (base : ℕ) (acts : List (SettleAct ρ ε κ))
    (s : Settling ρ ε κ) : Prop where
  noWake : ∀ exc, .wake exc ∉ acts
  cancellation : s.cancellation = deferred
  base_eq : s.base = base
  delivery : s.delivery = true ↔ .cancel ∈ acts ∨ .expire ∈ acts
  expiring : s.expiring = true ↔ .expire ∈ acts
  quiet : .cancel ∉ acts → s.cancelling = base + if s.expiring then 1 else 0
  called : .cancel ∈ acts → base + (if s.expiring then 1 else 0) < s.cancelling

/-- The wait of the loop, after what has happened. -/
structure InSecond (task : Option (TaskEnd ρ ε)) (deferred : Option κ) (base : ℕ)
    (acts : List (SettleAct ρ ε κ)) (s : Settling ρ ε κ) : Prop where
  woken : ∃ exc, .wake exc ∈ acts
  pending : endAfter task (beforeWake acts) = none
  reason : .cancel ∈ acts ∨ .expire ∈ acts
  quiet : .cancel ∉ acts → s.cancellation = deferred ∧ s.cancelling = base ∧ s.delivery = false
  called : .cancel ∈ acts →
    s.delivery = true ∧ 0 < s.cancelling ∨
      s.delivery = false ∧ s.cancelling = 0 ∧ s.cancellation.isSome = true

/-- The outcome, after what has happened. -/
structure HasReturned (isTimeout : ε → Bool) (task : Option (TaskEnd ρ ε)) (deferred : Option κ)
    (base : ℕ) (acts : List (SettleAct ρ ε κ)) (out : PhysicalTaskOutcome ρ ε κ) : Prop where
  carries : ∃ e, endAfter task acts = some e ∧ Carries e out
  called : .cancel ∈ acts → out.cancellation.isSome = true
  quiet : .cancel ∉ acts → (out.cancellation.isSome = true ↔
    deferred.isSome = true ∧ ¬ EndsInFirstWait isTimeout task acts ∨
      0 < base ∧ EndsCancelled task acts)

/-- The call, after what has happened. -/
def Traced (isTimeout : ε → Bool) (task : Option (TaskEnd ρ ε)) (deferred : Option κ) (base : ℕ)
    (acts : List (SettleAct ρ ε κ)) (s : Settling ρ ε κ) : Prop :=
  s.task = endAfter task acts ∧
    match s.phase with
    | .first => InFirst deferred base acts s
    | .second => InSecond task deferred base acts s
    | .returned out => HasReturned isTimeout task deferred base acts out

variable {task : Option (TaskEnd ρ ε)} {deferred : Option κ} {base : ℕ}
  {acts : List (SettleAct ρ ε κ)}

theorem traced_of_first (htask : s.task = endAfter task acts) (hp : s.phase = .first)
    (h : InFirst deferred base acts s) : s.Traced isTimeout task deferred base acts := by
  refine ⟨htask, ?_⟩
  rw [hp]
  exact h

theorem traced_of_second (htask : s.task = endAfter task acts) (hp : s.phase = .second)
    (h : InSecond task deferred base acts s) : s.Traced isTimeout task deferred base acts := by
  refine ⟨htask, ?_⟩
  rw [hp]
  exact h

/-- The loop, after what has happened: it returns the outcome with its cancellation, or waits. -/
theorem traced_loop (htask : s.task = endAfter task acts)
    (hsecond : s.task = none → InSecond task deferred base acts { s with phase := .second })
    (hcalled : .cancel ∈ acts → s.cancellation.isSome = true)
    (hquiet : .cancel ∉ acts → s.task ≠ none → (s.cancellation.isSome = true ↔
      deferred.isSome = true ∧ ¬ EndsInFirstWait isTimeout task acts ∨
        0 < base ∧ EndsCancelled task acts)) :
    s.loop.Traced isTimeout task deferred base acts := by
  cases hover : s.task with
  | none =>
    rw [loop_of_none hover]
    exact ⟨htask, hsecond hover⟩
  | some e =>
    obtain ⟨out, hloop, hcarries, hcancellation⟩ := loop_of_some hover
    rw [hloop]
    refine ⟨htask, ⟨e, htask ▸ hover, hcarries⟩, fun hc => ?_, fun hc => ?_⟩
    · rw [hcancellation]
      exact hcalled hc
    · rw [hcancellation]
      exact hquiet hc (by rw [hover]; exact nofun)

theorem mem_concat_of_ne {a b : SettleAct ρ ε κ} (hne : a ≠ b) : a ∈ acts ++ [b] ↔ a ∈ acts := by
  rw [List.mem_append, List.mem_singleton, or_iff_left hne]

/-- The first wait is resumed after a cancellation of the caller. -/
theorem traced_wakeFirst_called (htask : s.task = endAfter task acts)
    (h : InFirst deferred base acts s) (hc : .cancel ∈ acts)
    (hstep : s.wakeFirst isTimeout exc = some t) :
    t.Traced isTimeout task deferred base (acts ++ [.wake exc]) := by
  have hdelivery : s.delivery = true := h.delivery.mpr (.inl hc)
  have hcalled := h.called hc
  have hbase := h.base_eq
  -- the timer is taken back, the cancellation of the caller is left
  obtain ⟨u, hu, hut, hud, huc⟩ : ∃ u : Settling ρ ε κ, u.catchFirst exc = t ∧ u.task = s.task ∧
      u.delivery = false ∧ u.cancelling ≠ 0 := by
    rw [wakeFirst, if_pos hdelivery] at hstep
    dsimp only at hstep
    by_cases hexp : s.expiring = true
    · rw [if_pos hexp] at hcalled hstep
      rw [if_neg (by omega)] at hstep
      exact ⟨_, Option.some.inj hstep, rfl, rfl, by dsimp only; omega⟩
    · rw [if_neg hexp] at hcalled hstep
      exact ⟨_, Option.some.inj hstep, rfl, rfl, by dsimp only; omega⟩
  rw [← hu, catchFirst_of_cancelling huc]
  have hmem : .cancel ∈ acts ++ [.wake exc] := (mem_concat_of_ne (by nofun)).mpr hc
  refine traced_loop ?_ (fun hnone => ?_) (fun _ => rfl) fun hnot => absurd hmem hnot
  · exact (hut.trans htask).trans (endAfter_wake exc).symm
  · refine ⟨⟨exc, by simp⟩, ?_, .inl hmem, fun hnot => absurd hmem hnot, fun _ => ?_⟩
    · rw [beforeWake_concat_wake h.noWake, ← htask, ← hut]
      exact hnone
    · exact .inr ⟨hud, rfl, rfl⟩

/-- The first wait is resumed by its timer. -/
theorem traced_wakeFirst_expired (htask : s.task = endAfter task acts)
    (h : InFirst deferred base acts s) (hc : .cancel ∉ acts) (hx : .expire ∈ acts)
    (hstep : s.wakeFirst isTimeout exc = some t) :
    t.Traced isTimeout task deferred base (acts ++ [.wake exc]) := by
  have hexp : s.expiring = true := h.expiring.mpr hx
  have hquiet := h.quiet hc
  rw [if_pos hexp] at hquiet
  rw [wakeFirst, if_pos (h.delivery.mpr (.inr hx))] at hstep
  dsimp only at hstep
  rw [if_pos hexp, if_pos (by rw [hquiet, h.base_eq]; omega)] at hstep
  cases hstep
  have hc' : .cancel ∉ acts ++ [.wake exc] := fun hmem => hc ((mem_concat_of_ne (by nofun)).mp hmem)
  have hx' : .expire ∈ acts ++ [.wake exc] := (mem_concat_of_ne (by nofun)).mpr hx
  refine traced_loop (htask.trans (endAfter_wake exc).symm) (fun hnone => ?_)
    (fun hmem => absurd hmem hc') fun _ hover => ?_
  · refine ⟨⟨exc, by simp⟩, ?_, .inr hx', fun _ => ⟨h.cancellation, ?_, rfl⟩,
      fun hmem => absurd hmem hc'⟩
    · rw [beforeWake_concat_wake h.noWake, ← htask]
      exact hnone
    · dsimp only
      omega
  · have hnotFirst : ¬ EndsInFirstWait isTimeout task (acts ++ [.wake exc]) :=
      fun hends => hends.2.1 hx'
    have hnotLate : ¬ EndsCancelled task (acts ++ [.wake exc]) := by
      rintro ⟨-, hend, hlate⟩
      rw [endAfter_wake] at hend
      exact hlate ⟨hx', by rw [beforeWake_concat_wake h.noWake]; exact hend⟩
    dsimp only
    rw [h.cancellation]
    tauto

/-- The first wait is resumed by the end of the task. -/
theorem traced_wakeFirst_ended (htask : s.task = endAfter task acts)
    (h : InFirst deferred base acts s) (hc : .cancel ∉ acts) (hx : .expire ∉ acts) (hstep : s.wakeFirst isTimeout exc = some t) :
    t.Traced isTimeout task deferred base (acts ++ [.wake exc]) := by
  have hdelivery : s.delivery = false :=
    Bool.eq_false_iff.mpr fun hd => (h.delivery.mp hd).elim hc hx
  have hexp : s.expiring = false := Bool.eq_false_iff.mpr fun he => hx (h.expiring.mp he)
  have hquiet := h.quiet hc
  rw [hexp] at hquiet
  have hc' : .cancel ∉ acts ++ [.wake exc] := fun hmem => hc ((mem_concat_of_ne (by nofun)).mp hmem)
  have hx' : .expire ∉ acts ++ [.wake exc] := fun hmem => hx ((mem_concat_of_ne (by nofun)).mp hmem)
  have htask' : s.task = endAfter task (acts ++ [.wake exc]) :=
    htask.trans (endAfter_wake exc).symm
  rw [wakeFirst, if_neg (by simp [hdelivery])] at hstep
  obtain ⟨e, hover, rfl⟩ := Option.map_eq_some_iff.mp hstep
  have hend : endAfter task (acts ++ [.wake exc]) = some e := htask'.symm.trans hover
  have hloop : s.task ≠ none := by
    rw [hover]
    exact nofun
  have hnotCancelled (hne : e ≠ .cancelled) : ¬ EndsCancelled task (acts ++ [.wake exc]) :=
    fun hends => hne (Option.some.inj (hend.symm.trans hends.2.1))
  cases e with
  | result value =>
    have hfirst : EndsInFirstWait isTimeout task (acts ++ [.wake exc]) :=
      ⟨hc', hx', fun e he => nomatch hend.symm.trans he⟩
    refine ⟨htask', ⟨_, hend, rfl, rfl, rfl⟩, fun hmem => absurd hmem hc', fun _ => ?_⟩
    simp [hfirst, hnotCancelled nofun]
  | error e =>
    rw [endFirst]
    by_cases hte : isTimeout e = true
    · -- an error that looks like the timer leads into the loop
      have hnotFirst : ¬ EndsInFirstWait isTimeout task (acts ++ [.wake exc]) :=
        fun hends => nomatch hte.symm.trans (hends.2.2 e hend)
      have hnot := hnotCancelled nofun
      rw [if_pos hte]
      refine traced_loop htask' (fun hnone => absurd hnone hloop) (fun hmem => absurd hmem hc')
        fun _ _ => ?_
      dsimp only
      rw [h.cancellation]
      tauto
    · have hfirst : EndsInFirstWait isTimeout task (acts ++ [.wake exc]) :=
        ⟨hc', hx', fun e' he => by
          obtain rfl := TaskEnd.error.inj (Option.some.inj (hend.symm.trans he))
          exact Bool.eq_false_iff.mpr hte⟩
      rw [if_neg hte]
      refine ⟨htask', ⟨_, hend, rfl, rfl, rfl⟩, fun hmem => absurd hmem hc', fun _ => ?_⟩
      simp [hfirst, hnotCancelled nofun]
  | cancelled =>
    have hfirst : EndsInFirstWait isTimeout task (acts ++ [.wake exc]) :=
      ⟨hc', hx', fun e he => nomatch hend.symm.trans he⟩
    have hends : EndsCancelled task (acts ++ [.wake exc]) :=
      ⟨hc', hend, fun hlate => hx' hlate.1⟩
    have hcancelled : s.taskCancelled = true := by rw [taskCancelled, hover]
    rw [endFirst]
    rcases Nat.eq_zero_or_pos base with rfl | hpos
    · rw [catchFirst, if_pos (by simp [hcancelled, hquiet])]
      refine ⟨htask', ⟨_, hend, rfl, rfl, rfl⟩, fun hmem => absurd hmem hc', fun _ => ?_⟩
      simp [hfirst]
    · rw [catchFirst_of_cancelling (by omega)]
      exact traced_loop htask' (fun hnone => absurd hnone hloop) (fun hmem => absurd hmem hc')
        fun _ _ => ⟨fun _ => .inr ⟨hpos, hends⟩, fun _ => rfl⟩

/-! ### The wait of the loop -/

theorem beforeWake_second (h : InSecond task deferred base acts s) (a : SettleAct ρ ε κ) :
    endAfter task (beforeWake (acts ++ [a])) = none := by
  rw [beforeWake_concat h.woken]
  exact h.pending

/-- The wait of the loop is resumed. -/
theorem traced_wakeSecond (htask : s.task = endAfter task acts)
    (h : InSecond task deferred base acts s) (hstep : s.wakeSecond exc = some t) :
    t.Traced isTimeout task deferred base (acts ++ [.wake exc]) := by
  have htask' : s.task = endAfter task (acts ++ [.wake exc]) :=
    htask.trans (endAfter_wake exc).symm
  have hwoken : ∃ exc', .wake exc' ∈ acts ++ [.wake exc] := ⟨exc, by simp⟩
  rw [wakeSecond] at hstep
  by_cases hc : .cancel ∈ acts
  · have hc' : .cancel ∈ acts ++ [.wake exc] := (mem_concat_of_ne (by nofun)).mpr hc
    rcases h.called hc with ⟨hdelivery, hpos⟩ | ⟨hdelivery, hzero, hsome⟩
    · rw [if_pos hdelivery] at hstep
      cases hstep
      have hcancelling : ({ s with delivery := false } : Settling ρ ε κ).cancelling ≠ 0 :=
        Nat.pos_iff_ne_zero.mp hpos
      have hsome : (s.cancellation.or (some exc)).isSome = true := by simp
      rw [catchSecond_of_cancelling hcancelling]
      exact traced_loop htask'
        (fun _ => ⟨hwoken, beforeWake_second h _, .inl hc', fun hnot => absurd hc' hnot,
          fun _ => .inr ⟨rfl, rfl, hsome⟩⟩)
        (fun _ => hsome) fun hnot => absurd hc' hnot
    · rw [if_neg (by simp [hdelivery])] at hstep
      obtain ⟨e, hover, rfl⟩ := Option.map_eq_some_iff.mp hstep
      have hend : endAfter task (acts ++ [.wake exc]) = some e := htask'.symm.trans hover
      have hkeeps : s.loop.Traced isTimeout task deferred base (acts ++ [.wake exc]) :=
        traced_loop htask' (fun hnone => nomatch hover.symm.trans hnone) (fun _ => hsome)
          fun hnot => absurd hc' hnot
      cases e with
      | cancelled =>
        have hcancelled : s.taskCancelled = true := by rw [taskCancelled, hover]
        rw [endSecond, catchSecond, if_pos (by simp [hcancelled, hzero])]
        exact ⟨htask', ⟨_, hend, rfl, rfl, rfl⟩, fun _ => hsome, fun hnot => absurd hc' hnot⟩
      | result value => exact hkeeps
      | error e => exact hkeeps
  · have hc' : .cancel ∉ acts ++ [.wake exc] := fun hmem => hc ((mem_concat_of_ne (by nofun)).mp hmem)
    have hx' : .expire ∈ acts ++ [.wake exc] := (mem_concat_of_ne (by nofun)).mpr (h.reason.resolve_left hc)
    have hnotFirst : ¬ EndsInFirstWait isTimeout task (acts ++ [.wake exc]) :=
      fun hends => hends.2.1 hx'
    obtain ⟨hcancellation, hcancelling, hdelivery⟩ := h.quiet hc
    rw [if_neg (by simp [hdelivery])] at hstep
    obtain ⟨e, hover, rfl⟩ := Option.map_eq_some_iff.mp hstep
    have hend : endAfter task (acts ++ [.wake exc]) = some e := htask'.symm.trans hover
    have hloop : s.task ≠ none := by
      rw [hover]
      exact nofun
    have hkeeps (hne : e ≠ .cancelled) :
        s.loop.Traced isTimeout task deferred base (acts ++ [.wake exc]) := by
      have hnot : ¬ EndsCancelled task (acts ++ [.wake exc]) :=
        fun hends => hne (Option.some.inj (hend.symm.trans hends.2.1))
      refine traced_loop htask' (fun hnone => absurd hnone hloop) (fun hmem => absurd hmem hc')
        fun _ _ => ?_
      rw [hcancellation]
      tauto
    cases e with
    | cancelled =>
      have hends : EndsCancelled task (acts ++ [.wake exc]) :=
        ⟨hc', hend, fun hlate => nomatch (beforeWake_second h _).symm.trans hlate.2⟩
      have hcancelled : s.taskCancelled = true := by rw [taskCancelled, hover]
      rw [endSecond]
      rcases Nat.eq_zero_or_pos base with rfl | hpos
      · rw [catchSecond, if_pos (by simp [hcancelled, hcancelling])]
        refine ⟨htask', ⟨_, hend, rfl, rfl, rfl⟩, fun hmem => absurd hmem hc', fun _ => ?_⟩
        dsimp only
        rw [hcancellation]
        simp [hnotFirst]
      · rw [catchSecond_of_cancelling (by omega)]
        exact traced_loop htask' (fun hnone => absurd hnone hloop) (fun hmem => absurd hmem hc')
          fun _ _ => ⟨fun _ => .inr ⟨hpos, hends⟩, fun _ => by simp⟩
    | result value => exact hkeeps nofun
    | error e => exact hkeeps nofun

/-! ### Runs -/

theorem InFirst.complete (h : InFirst deferred base acts s) (taskEnd : TaskEnd ρ ε) :
    InFirst deferred base (acts ++ [.complete taskEnd]) { s with task := some taskEnd } where
  noWake exc hmem := h.noWake exc ((mem_concat_of_ne (by nofun)).mp hmem)
  cancellation := h.cancellation
  base_eq := h.base_eq
  delivery := by simpa using h.delivery
  expiring := by simpa using h.expiring
  quiet hc := h.quiet fun hmem => hc ((mem_concat_of_ne (by nofun)).mpr hmem)
  called hc := h.called ((mem_concat_of_ne (by nofun)).mp hc)

theorem InSecond.complete (h : InSecond task deferred base acts s) (taskEnd : TaskEnd ρ ε) :
    InSecond task deferred base (acts ++ [.complete taskEnd])
      { s with task := some taskEnd } where
  woken := h.woken.imp fun _ hmem => (mem_concat_of_ne (by nofun)).mpr hmem
  pending := beforeWake_second h _
  reason := by simpa using h.reason
  quiet hc := h.quiet fun hmem => hc ((mem_concat_of_ne (by nofun)).mpr hmem)
  called hc := h.called ((mem_concat_of_ne (by nofun)).mp hc)

theorem InFirst.cancel (h : InFirst deferred base acts s) :
    InFirst deferred base (acts ++ [.cancel])
      { s with cancelling := s.cancelling + 1, delivery := true } where
  noWake exc hmem := h.noWake exc ((mem_concat_of_ne (by nofun)).mp hmem)
  cancellation := h.cancellation
  base_eq := h.base_eq
  delivery := by simp
  expiring := by simpa using h.expiring
  quiet hc := absurd (by simp) hc
  called _ := by
    dsimp only
    by_cases hc : .cancel ∈ acts
    · have hcalled := h.called hc
      omega
    · have hquiet := h.quiet hc
      omega

theorem InSecond.cancel (h : InSecond task deferred base acts s) :
    InSecond task deferred base (acts ++ [.cancel])
      { s with cancelling := s.cancelling + 1, delivery := true } where
  woken := h.woken.imp fun _ hmem => (mem_concat_of_ne (by nofun)).mpr hmem
  pending := beforeWake_second h _
  reason := .inl (by simp)
  quiet hc := absurd (by simp) hc
  called _ := .inl ⟨rfl, Nat.succ_pos _⟩

theorem InFirst.expire (h : InFirst deferred base acts s) (hexp : s.expiring = false) :
    InFirst deferred base (acts ++ [.expire])
      { s with cancelling := s.cancelling + 1, expiring := true, delivery := true } where
  noWake exc hmem := h.noWake exc ((mem_concat_of_ne (by nofun)).mp hmem)
  cancellation := h.cancellation
  base_eq := h.base_eq
  delivery := by simp
  expiring := by simp
  quiet hc := by
    have hquiet := h.quiet fun hmem => hc ((mem_concat_of_ne (by nofun)).mpr hmem)
    rw [hexp] at hquiet
    simpa using hquiet
  called hc := by
    have hcalled := h.called ((mem_concat_of_ne (by nofun)).mp hc)
    rw [hexp] at hcalled
    simpa using hcalled

theorem complete_eq_some {taskEnd : TaskEnd ρ ε}
    (h : settleStep isTimeout s (.complete taskEnd) = some t) :
    s.task = none ∧ { s with task := some taskEnd } = t := by
  rw [settleStep] at h
  split at h
  · exact ⟨‹_›, Option.some.inj h⟩
  · exact nomatch h

theorem traced_step {a : SettleAct ρ ε κ} (h : s.Traced isTimeout task deferred base acts)
    (hstep : settleStep isTimeout s a = some t) :
    t.Traced isTimeout task deferred base (acts ++ [a]) := by
  obtain ⟨htask, hphase⟩ := h
  cases hp : s.phase with
  | first =>
    have hfirst : InFirst deferred base acts s := by rwa [hp] at hphase
    cases a with
    | complete taskEnd =>
      obtain ⟨hover, rfl⟩ := complete_eq_some hstep
      exact traced_of_first (endAfter_complete (htask.symm.trans hover) _).symm hp
        (hfirst.complete taskEnd)
    | cancel =>
      obtain rfl : { s with cancelling := s.cancelling + 1, delivery := true } = t := by
        simpa [settleStep, hp] using hstep
      exact traced_of_first (htask.trans (endAfter_of_none rfl).symm) hp hfirst.cancel
    | expire =>
      have hguard : (s.hasTimeout && !s.expiring) = true := by
        by_contra hguard
        simp [settleStep, hp, hguard] at hstep
      obtain rfl : { s with cancelling := s.cancelling + 1, expiring := true, delivery := true } = t :=
        by simpa [settleStep, hp, hguard] using hstep
      exact traced_of_first (htask.trans (endAfter_of_none rfl).symm) hp
        (hfirst.expire (by simp_all))
    | wake exc =>
      have hwake : s.wakeFirst isTimeout exc = some t := by simpa [settleStep, hp] using hstep
      by_cases hc : .cancel ∈ acts
      · exact traced_wakeFirst_called htask hfirst hc hwake
      by_cases hx : .expire ∈ acts
      · exact traced_wakeFirst_expired htask hfirst hc hx hwake
      · exact traced_wakeFirst_ended htask hfirst hc hx hwake
  | second =>
    have hsecond : InSecond task deferred base acts s := by rwa [hp] at hphase
    cases a with
    | complete taskEnd =>
      obtain ⟨hover, rfl⟩ := complete_eq_some hstep
      exact traced_of_second (endAfter_complete (htask.symm.trans hover) _).symm hp
        (hsecond.complete taskEnd)
    | cancel =>
      obtain rfl : { s with cancelling := s.cancelling + 1, delivery := true } = t := by
        simpa [settleStep, hp] using hstep
      exact traced_of_second (htask.trans (endAfter_of_none rfl).symm) hp hsecond.cancel
    | expire => simp [settleStep, hp] at hstep
    | wake exc =>
      exact traced_wakeSecond htask hsecond (by simpa [settleStep, hp] using hstep)
  | returned out =>
    rw [hp] at hphase
    obtain ⟨e, he, -⟩ := HasReturned.carries hphase
    cases a with
    | complete taskEnd =>
      -- the task is over already
      obtain ⟨hover, -⟩ := complete_eq_some hstep
      exact nomatch (htask.trans he).symm.trans hover
    | cancel => simp [settleStep, hp] at hstep
    | expire => simp [settleStep, hp] at hstep
    | wake exc => simp [settleStep, hp] at hstep

/-- The call has returned. -/
def IsReturned (s : Settling ρ ε κ) : Prop := ∃ out, s.phase = .returned out

theorem loop_isReturned (hover : s.task = some e) : s.loop.IsReturned := by
  obtain ⟨out, hreturns, -⟩ := loop_of_some hover
  exact ⟨out, by rw [hreturns]; rfl⟩

theorem catchFirst_isReturned (hover : s.task = some e) : (s.catchFirst exc).IsReturned := by
  rw [catchFirst]
  split
  · exact ⟨_, rfl⟩
  · exact loop_isReturned hover

theorem catchSecond_isReturned (hover : s.task = some e) : (s.catchSecond exc).IsReturned := by
  rw [catchSecond]
  split
  · exact ⟨_, rfl⟩
  · exact loop_isReturned hover

/-- Where the task is over, the waiter returns as soon as it is resumed. -/
theorem wake_isReturned (hover : s.task = some e) (hp : ¬ s.IsReturned) :
    ∃ t, settleStep isTimeout s (.wake exc) = some t ∧ t.IsReturned := by
  cases hphase : s.phase with
  | first =>
    have hwake : settleStep isTimeout s (.wake exc) = s.wakeFirst isTimeout exc := by
      rw [settleStep, hphase]
    rw [hwake, wakeFirst]
    dsimp only
    split
    · split
      · split
        · exact ⟨_, rfl, loop_isReturned hover⟩
        · exact ⟨_, rfl, catchFirst_isReturned hover⟩
      · exact ⟨_, rfl, catchFirst_isReturned hover⟩
    · refine ⟨s.endFirst isTimeout exc e, by rw [hover]; rfl, ?_⟩
      cases e with
      | result value => exact ⟨_, rfl⟩
      | error e =>
        rw [endFirst]
        split
        · exact loop_isReturned hover
        · exact ⟨_, rfl⟩
      | cancelled => exact catchFirst_isReturned hover
  | second =>
    have hwake : settleStep isTimeout s (.wake exc) = s.wakeSecond exc := by
      rw [settleStep, hphase]
    rw [hwake, wakeSecond]
    split
    · exact ⟨_, rfl, catchSecond_isReturned hover⟩
    · refine ⟨s.endSecond exc e, by rw [hover]; rfl, ?_⟩
      cases e with
      | cancelled => exact catchSecond_isReturned hover
      | result value => exact loop_isReturned hover
      | error e => exact loop_isReturned hover
  | returned out => exact absurd ⟨out, hphase⟩ hp

end Settling

section Outcome

variable {task : Option (TaskEnd ρ ε)} {timeout : Option ℚ} {deferred : Option κ}
  {cancelling : ℕ} {s t : Settling ρ ε κ} {acts : List (SettleAct ρ ε κ)}
  {out : PhysicalTaskOutcome ρ ε κ}

theorem traced_start {isTimeout : ε → Bool}
    (h : startSettling task timeout deferred cancelling = .ok s) :
    s.Traced isTimeout task deferred (if deferred.isSome then 0 else cancelling) [] := by
  obtain ⟨-, -, h⟩ := bind_eq_ok.mp h
  cases h
  refine Settling.traced_of_first ?_ rfl ?_
  · exact Option.or_none.symm
  · exact ⟨nofun, rfl, rfl, by simp, by simp, fun _ => rfl, nofun⟩

/-- In every schedule the outcome of the task is carried as it is. The outcome tells a cancellation
where the caller was cancelled or one was passed in, except for two kinds of schedules: one that was
passed in is lost where the first wait ends with the task, and one is made up where the caller came
with a cancellation of its own and the task is cancelled. -/
theorem settle_outcome_iff (isTimeout : ε → Bool)
    (hstart : startSettling task timeout deferred cancelling = .ok s)
    (hrun : Run (StepOf (settleStep isTimeout)) s acts t) (hout : t.phase = .returned out) :
    ((∃ e, endAfter task acts = some e ∧ Carries e out) ∧
        (out.cancellation.isSome = true ↔ .cancel ∈ acts ∨ deferred.isSome = true)) ↔
      ¬ (deferred.isSome = true ∧ EndsInFirstWait isTimeout task acts) ∧
        ¬ (deferred = none ∧ 0 < cancelling ∧ EndsCancelled task acts) := by
  have htraced : t.Traced isTimeout task deferred (if deferred.isSome then 0 else cancelling) acts :=
    hrun.trace_invariant (fun _ _ _ _ hinv hstep => Settling.traced_step hinv hstep)
      (traced_start hstart)
  obtain ⟨-, hreturned⟩ := htraced
  rw [hout] at hreturned
  obtain ⟨hcarries, hcalled, hquiet⟩ := hreturned
  rw [and_iff_right hcarries]
  by_cases hc : .cancel ∈ acts
  · have hfirst : ¬ EndsInFirstWait isTimeout task acts := fun hends => hends.1 hc
    have hends : ¬ EndsCancelled task acts := fun hends => hends.1 hc
    simp [hc, hfirst, hends, hcalled hc]
  · rw [hquiet hc]
    cases deferred with
    | none => simp [hc]
    | some exc => simp [hc]

end Outcome

/-- The call with a cancellation that was passed in. -/
def Settling.passedIn : Settling ℕ Unit ℕ :=
  (startSettling none none (some 7) 1).toOption.get (by decide +kernel)

def Settling.lostActs : List (SettleAct ℕ Unit ℕ) := [.complete (.result 3), .wake 0]

theorem Settling.wake_isReturned_passedIn : ∃ s t : Settling ℕ Unit ℕ,
    settleStep (fun _ => false) passedIn (.complete (.result 3)) = some s ∧
      settleStep (fun _ => false) s (.wake 0) = some t ∧ t.IsReturned := by
  obtain ⟨s, hs, htask, hphase⟩ : ∃ s, settleStep (fun _ => false) passedIn
      (.complete (.result 3)) = some s ∧ s.task = some (.result 3) ∧ s.phase = .first :=
    ⟨_, rfl, rfl, by decide +kernel⟩
  obtain ⟨t, ht, hreturned⟩ := wake_isReturned htask fun ⟨_, hout⟩ => nomatch hphase.symm.trans hout
  exact ⟨s, t, hs, ht, hreturned⟩

def Settling.keptActs : List (SettleAct ℕ Unit ℕ) := [.cancel, .complete (.result 3), .wake 8]

/-- The call after the acts. -/
def Settling.settledBy (acts : List (SettleAct ℕ Unit ℕ)) : Option (Settling ℕ Unit ℕ) :=
  acts.foldlM (settleStep fun _ => false) Settling.passedIn

def Settling.lost : Settling ℕ Unit ℕ := (settledBy lostActs).get (by decide +kernel)

def Settling.kept : Settling ℕ Unit ℕ := (settledBy keptActs).get (by decide +kernel)

theorem startSettling_passedIn : startSettling none none (some 7) 1 = .ok Settling.passedIn := rfl

theorem settle_outcome_iff_kept :
    ((∃ e, endAfter none Settling.keptActs = some e ∧
        Carries e (⟨some 3, none, some 8, false, false⟩ : PhysicalTaskOutcome ℕ Unit ℕ)) ∧
        ((some 8).isSome = true ↔ .cancel ∈ Settling.keptActs ∨ (some 7).isSome = true)) ↔
      ¬ ((some 7).isSome = true ∧ EndsInFirstWait (fun _ => false) none Settling.keptActs) ∧
        ¬ (some 7 = none ∧ 0 < 1 ∧ EndsCancelled none Settling.keptActs) :=
  settle_outcome_iff (fun _ => false) startSettling_passedIn
    (Run.of_foldlM (Option.some_get _).symm : Run _ _ Settling.keptActs Settling.kept)
    (by decide +kernel)

/-- A cancellation that was passed in is lost where the task is over first. -/
theorem deferred_cancellation_lost :
    ¬ ∀ (task : Option (TaskEnd ℕ Unit)) (timeout : Option ℚ) (deferred : Option ℕ)
        (cancelling : ℕ) (s t : Settling ℕ Unit ℕ) (acts : List (SettleAct ℕ Unit ℕ))
        (out : PhysicalTaskOutcome ℕ Unit ℕ),
      startSettling task timeout deferred cancelling = .ok s →
      Run (StepOf (settleStep fun _ => false)) s acts t → t.phase = .returned out →
      (∃ e, endAfter task acts = some e ∧ Carries e out) ∧
        (out.cancellation.isSome = true ↔ .cancel ∈ acts ∨ deferred.isSome = true) := by
  intro hclaim
  have hrun : Run (StepOf (settleStep fun _ => false)) Settling.passedIn Settling.lostActs
      Settling.lost :=
    Run.of_foldlM (Option.some_get _).symm
  have hout : Settling.lost.phase = .returned { result := some 3 } := by decide +kernel
  obtain ⟨-, hcancellation⟩ := hclaim _ _ _ _ _ _ _ _ startSettling_passedIn hrun hout
  exact nomatch hcancellation.mpr (.inr rfl)

/-- A caller that was cancelled before the call, and a task that is cancelled: the outcome tells a
cancellation of the caller. -/
example : ((startSettling none none none 1).toOption.bind fun s =>
    ([.complete .cancelled, .wake 0] : List (SettleAct ℕ Unit ℕ)).foldlM
      (settleStep fun _ => false) s).map Settling.phase =
    some (.returned { cancellation := some 0, taskCancelled := true }) := by
  decide +kernel

end AefTerminal
