import Mathlib.Data.List.Basic
import Mathlib.Data.Nat.Basic
import Mathlib.Order.Basic

/-!
# Leases on one task

A task is free until it is claimed. A claim is a lease: it carries a stamp and runs out at a time
after it, and from then on the task may be claimed again although its holder may still be at work.
A claim is a compare-and-set against the phase the claimant read, and it needs that phase to be
due by the clock of the claimant. The holder releases the task by a compare-and-set against the
phase its own claim left, to a time after its own clock reading.

The values of a phase may come back: nothing makes stamps unique, and the clocks of two claimants
are unrelated. What excludes a claim or a release on the wrong visit of a phase is that every phase
is due after the clock reading that led to it. A task that is abandoned or finished is entered
again under an epoch that no claim was made in.

## Main definitions

* `LeasePhase`, `LeaseClaim`, `Lease`
* `LeaseStep`: what may happen to the task
* `LeaseInv`: what the claims made so far say about the phase of the task

## Main results

* `LeaseInv.step`: the invariant
* `LeaseInv.seen_ne`: no two claims of one epoch were made from one phase
* `LeaseInv.is_last`: a phase that a claim left is left only by the last claim
-/

namespace Foundation

universe u

/-- Free or held, with the stamp of the holder and the time from which on it may be claimed. -/
structure LeasePhase where
  held : Bool
  stamp : ℕ
  due : ℕ
  deriving DecidableEq

/-- A claim that was made: the phase it was made from, the one it left, and the clock reading of
the claimant. -/
structure LeaseClaim (ε : Type u) where
  epoch : ε
  seen : LeasePhase
  left : LeasePhase
  now : ℕ

structure Lease (ε : Type u) where
  current : Option (ε × LeasePhase)
  /-- The claims in their order. -/
  claims : List (LeaseClaim ε)
  /-- The claims whose holder came back, by their place. -/
  released : List ℕ

variable {ε : Type u}

inductive LeaseStep : Lease ε → Lease ε → Prop
  /-- Nothing, or the task is abandoned or finished. -/
  | idle {s : Lease ε} {current : Option (ε × LeasePhase)} {released : List ℕ}
      (hcurrent : current = s.current ∨ current = none) (hreleased : s.released ⊆ released) :
      LeaseStep s { s with
        current := current
        released := released }
  | enter {s : Lease ε} {e : ε} {stamp due : ℕ} (hfresh : ∀ c ∈ s.claims, c.epoch ≠ e) :
      LeaseStep s { s with current := some (e, ⟨false, stamp, due⟩) }
  | claim {s : Lease ε} {c : LeaseClaim ε} (hcurrent : s.current = some (c.epoch, c.seen))
      (hdue : c.seen.due ≤ c.now) (hheld : c.left.held = true) (hnow : c.now ≤ c.left.stamp)
      (hlease : c.left.stamp < c.left.due) :
      LeaseStep s { s with
        current := some (c.epoch, c.left)
        claims := s.claims ++ [c] }
  | release {s : Lease ε} {n stamp due : ℕ} {c : LeaseClaim ε} (hc : s.claims[n]? = some c)
      (hn : n ∉ s.released) (hcurrent : s.current = some (c.epoch, c.left)) (hdue : c.now < due) :
      LeaseStep s { s with
        current := some (c.epoch, ⟨false, stamp, due⟩)
        released := n :: s.released }

namespace Lease

/-- The clock reading of the last claim. -/
def reading (s : Lease ε) : ℕ := (s.claims.getLast?.map LeaseClaim.now).getD 0

end Lease

/-! ### Phases that are past a time -/

/-- The phase is past `T`: what leads out of it has a later clock reading. -/
def LeasePhase.Past (T reading : ℕ) (p : LeasePhase) : Prop :=
  if p.held then T ≤ reading else T < p.due

/-- The phase is past `T`, and not held under a stamp up to `T`. -/
def LeasePhase.Beyond (T reading : ℕ) (p : LeasePhase) : Prop :=
  p.Past T reading ∧ (p.held = true → T < p.stamp)

/-- The phase a claim was made from does not come back. -/
def LeaseClaim.Behind (reading : ℕ) (p : LeasePhase) (c : LeaseClaim ε) : Prop :=
  if c.seen.held then p.Beyond c.seen.stamp reading else p.Past c.seen.due reading

/-- The holder of a lease read its clock before the stamp, and the lease runs out after it. -/
def LeasePhase.Sound (reading : ℕ) (p : LeasePhase) : Prop :=
  p.held = true → reading ≤ p.stamp ∧ p.stamp < p.due

section Past

variable {T reading now : ℕ} {p : LeasePhase}

/-- A claim that is due reads its clock after every time the phase is past. -/
theorem LeasePhase.Past.lt_of_due (h : p.Past T reading) (hp : p.Sound reading) (hdue : p.due ≤ now) :
    T < now := by
  rw [LeasePhase.Past] at h
  split at h
  · rename_i hheld
    obtain ⟨hreading, hlease⟩ := hp hheld
    omega
  · omega

theorem LeasePhase.Past.free {stamp due : ℕ} (h : T < due) :
    (⟨false, stamp, due⟩ : LeasePhase).Past T reading := by
  simpa [LeasePhase.Past] using h

theorem LeasePhase.Beyond.free {stamp due : ℕ} (h : T < due) :
    (⟨false, stamp, due⟩ : LeasePhase).Beyond T reading :=
  ⟨.free h, by simp⟩

theorem LeasePhase.Past.of_held (hp : p.held = true) (h : T ≤ now) : p.Past T now := by
  rwa [LeasePhase.Past, if_pos hp]

/-- After a claim that read its clock after `T` the phase is beyond `T`. -/
theorem LeasePhase.Beyond.of_held (hp : p.held = true) (h : T < now) (hnow : now ≤ p.stamp) :
    p.Beyond T now :=
  ⟨.of_held hp h.le, fun _ => lt_of_lt_of_le h hnow⟩

variable {c : LeaseClaim ε}

theorem LeaseClaim.Behind.ne (h : c.Behind reading p) : c.seen ≠ p := by
  rintro rfl
  rw [LeaseClaim.Behind] at h
  split at h
  · rename_i hheld
    exact absurd (h.2 hheld) (lt_irrefl _)
  · rename_i hheld
    rw [LeasePhase.Past, if_neg hheld] at h
    exact absurd h (lt_irrefl _)

theorem LeaseClaim.Behind.free {stamp due : ℕ} (h : c.Behind reading p) (hp : p.held = true)
    (hdue : reading < due) : c.Behind reading ⟨false, stamp, due⟩ := by
  by_cases hseen : c.seen.held = true
  · rw [LeaseClaim.Behind, if_pos hseen] at h ⊢
    have hle := h.1
    rw [LeasePhase.Past, if_pos hp] at hle
    exact .free (hle.trans_lt hdue)
  · rw [LeaseClaim.Behind, if_neg hseen] at h ⊢
    rw [LeasePhase.Past, if_pos hp] at h
    exact .free (h.trans_lt hdue)

/-- A later claim leaves the phases behind that were behind. -/
theorem LeaseClaim.Behind.claim {c' : LeaseClaim ε} (h : c.Behind reading p)
    (hp : p.Sound reading) (hdue : p.due ≤ c'.now) (hheld : c'.left.held = true)
    (hnow : c'.now ≤ c'.left.stamp) : c.Behind c'.now c'.left := by
  by_cases hseen : c.seen.held = true
  · rw [LeaseClaim.Behind, if_pos hseen] at h ⊢
    exact .of_held hheld (h.1.lt_of_due hp hdue) hnow
  · rw [LeaseClaim.Behind, if_neg hseen] at h ⊢
    exact .of_held hheld (h.lt_of_due hp hdue).le

/-- A claim leaves its own phase behind. -/
theorem LeaseClaim.behind_self (hsound : c.seen.Sound reading) (hdue : c.seen.due ≤ c.now)
    (hheld : c.left.held = true) (hnow : c.now ≤ c.left.stamp) : c.Behind c.now c.left := by
  rw [LeaseClaim.Behind]
  split
  · rename_i hseen
    have hlt := (hsound hseen).2
    exact .of_held hheld (by omega) hnow
  · exact .of_held hheld hdue

end Past

/-! ### The invariant -/

structure LeaseInv (s : Lease ε) : Prop where
  left_held : ∀ c ∈ s.claims, c.left.held = true
  sound : ∀ e p, s.current = some (e, p) → p.Sound s.reading
  /-- A claim whose holder is at work and that no other claim followed left the phase. -/
  last : ∀ n c p, s.claims[n]? = some c → n ∉ s.released → n + 1 = s.claims.length →
    s.current = some (c.epoch, p) → p = c.left
  /-- A claim whose holder is at work and that another claim followed is behind. -/
  overtaken : ∀ n c p, s.claims[n]? = some c → n ∉ s.released → n + 1 < s.claims.length →
    s.current = some (c.epoch, p) → p.Beyond c.left.stamp s.reading
  behind : ∀ c ∈ s.claims, ∀ p, s.current = some (c.epoch, p) → c.Behind s.reading p
  pairwise : s.claims.Pairwise fun c c' => c.epoch = c'.epoch → c.seen ≠ c'.seen

namespace LeaseInv

variable {s s' : Lease ε}

theorem empty : LeaseInv (⟨none, [], []⟩ : Lease ε) := by
  constructor <;> simp

variable {c : LeaseClaim ε}

/-- A phase that a claim left, whose holder is at work, is that of the last claim. -/
theorem is_last (h : LeaseInv s) {n : ℕ} (hc : s.claims[n]? = some c)
    (hn : n ∉ s.released) (hcurrent : s.current = some (c.epoch, c.left)) :
    n + 1 = s.claims.length := by
  have hlt : n < s.claims.length := (List.getElem?_eq_some_iff.mp hc).1
  by_contra hne
  have hbeyond := h.overtaken n c c.left hc hn (by omega) hcurrent
  exact absurd (hbeyond.2 (h.left_held c (List.mem_of_getElem? hc))) (lt_irrefl _)

theorem reading_eq {n : ℕ} (hc : s.claims[n]? = some c)
    (hn : n + 1 = s.claims.length) : s.reading = c.now := by
  have hlast : s.claims.getLast? = some c := by
    rw [List.getLast?_eq_getElem?, ← hc]
    congr 1
    omega
  rw [Lease.reading, hlast]
  rfl

/-- No claim of the epoch of the task was made from its phase. -/
theorem seen_ne (h : LeaseInv s) {e : ε} {p : LeasePhase} (hcurrent : s.current = some (e, p))
    (hc : c ∈ s.claims) (hepoch : c.epoch = e) : c.seen ≠ p :=
  (h.behind c hc p (hepoch ▸ hcurrent)).ne

theorem idle (h : LeaseInv s) {current : Option (ε × LeasePhase)} {released : List ℕ}
    (hcurrent : current = s.current ∨ current = none) (hreleased : s.released ⊆ released) :
    LeaseInv { s with
      current := current
      released := released } := by
  have hsub : ∀ e p, current = some (e, p) → s.current = some (e, p) := by
    intro e p hp
    rcases hcurrent with rfl | rfl
    · exact hp
    · cases hp
  exact ⟨h.left_held, fun e p hp => h.sound e p (hsub e p hp),
    fun n c p hc hn hlast hp => h.last n c p hc (fun hm => hn (hreleased hm)) hlast (hsub _ p hp),
    fun n c p hc hn hlt hp => h.overtaken n c p hc (fun hm => hn (hreleased hm)) hlt (hsub _ p hp),
    fun c hc p hp => h.behind c hc p (hsub _ p hp), h.pairwise⟩

theorem enter (h : LeaseInv s) {e : ε} {stamp due : ℕ} (hfresh : ∀ c ∈ s.claims, c.epoch ≠ e) :
    LeaseInv { s with current := some (e, ⟨false, stamp, due⟩) } := by
  have hno {c : LeaseClaim ε} (hc : c ∈ s.claims) {p : LeasePhase}
      (hp : some (e, (⟨false, stamp, due⟩ : LeasePhase)) = some (c.epoch, p)) : False :=
    hfresh c hc (Prod.mk.inj (Option.some.inj hp)).1.symm
  refine ⟨h.left_held, ?_, fun n c p hc _ _ hp => (hno (List.mem_of_getElem? hc) hp).elim,
    fun n c p hc _ _ hp => (hno (List.mem_of_getElem? hc) hp).elim,
    fun c hc p hp => (hno hc hp).elim, h.pairwise⟩
  rintro e' p ⟨⟩
  simp [LeasePhase.Sound]

theorem claim (h : LeaseInv s) (hcurrent : s.current = some (c.epoch, c.seen))
    (hdue : c.seen.due ≤ c.now) (hheld : c.left.held = true) (hnow : c.now ≤ c.left.stamp)
    (hlease : c.left.stamp < c.left.due) :
    LeaseInv { s with
      current := some (c.epoch, c.left)
      claims := s.claims ++ [c] } := by
  have hsound := h.sound _ _ hcurrent
  have hreading : Lease.reading { s with
      current := some (c.epoch, c.left)
      claims := s.claims ++ [c] } = c.now := by
    simp [Lease.reading]
  have hlength : (s.claims ++ [c]).length = s.claims.length + 1 := by simp
  have hold {n : ℕ} {c' : LeaseClaim ε} (hc : (s.claims ++ [c])[n]? = some c')
      (hn : n < s.claims.length) : s.claims[n]? = some c' := by
    rwa [List.getElem?_append_left hn] at hc
  refine ⟨?_, ?_, ?_, ?_, ?_, ?_⟩
  · intro c' hc'
    rcases List.mem_append.mp hc' with hc' | hc'
    · exact h.left_held c' hc'
    · rw [List.mem_singleton.mp hc']
      exact hheld
  · rintro e p ⟨⟩
    rw [hreading]
    exact fun _ => ⟨hnow, hlease⟩
  · intro n c' p hc _ hlast hp
    obtain rfl : n = s.claims.length := by
      rw [hlength] at hlast
      omega
    rw [List.getElem?_append_right le_rfl, Nat.sub_self] at hc
    cases hc
    exact (Prod.mk.inj (Option.some.inj hp)).2.symm
  · -- the claim that was the last is overtaken now
    intro n c' p hc hn hlt hp
    rw [hlength] at hlt
    obtain ⟨hepoch, rfl⟩ := Prod.mk.inj (Option.some.inj hp)
    have hc := hold hc (by omega)
    rw [hreading]
    refine .of_held hheld ?_ hnow
    have hcurrent' : s.current = some (c'.epoch, c.seen) := hepoch ▸ hcurrent
    by_cases hlast : n + 1 = s.claims.length
    · have hleft := h.last n c' c.seen hc hn hlast hcurrent'
      have hseen : c.seen.held = true := hleft ▸ h.left_held c' (List.mem_of_getElem? hc)
      have hlt := (hsound hseen).2
      rw [← hleft]
      omega
    · exact (h.overtaken n c' c.seen hc hn (by omega) hcurrent').1.lt_of_due hsound hdue
  · intro c' hc' p hp
    obtain ⟨hepoch, rfl⟩ := Prod.mk.inj (Option.some.inj hp)
    rw [hreading]
    rcases List.mem_append.mp hc' with hc' | hc'
    · exact (h.behind c' hc' c.seen (hepoch ▸ hcurrent)).claim hsound hdue hheld hnow
    · rw [List.mem_singleton.mp hc']
      exact LeaseClaim.behind_self hsound hdue hheld hnow
  · rw [List.pairwise_append]
    refine ⟨h.pairwise, List.pairwise_singleton _ _, fun c' hc' c'' hc'' hepoch => ?_⟩
    obtain rfl := List.mem_singleton.mp hc''
    exact h.seen_ne hcurrent hc' hepoch

theorem release (h : LeaseInv s) {n stamp due : ℕ} (hc : s.claims[n]? = some c)
    (hn : n ∉ s.released) (hcurrent : s.current = some (c.epoch, c.left)) (hdue : c.now < due) :
    LeaseInv { s with
      current := some (c.epoch, ⟨false, stamp, due⟩)
      released := n :: s.released } := by
  have hlast := h.is_last hc hn hcurrent
  have hreading := reading_eq hc hlast
  have hheld := h.left_held c (List.mem_of_getElem? hc)
  refine ⟨h.left_held, ?_, ?_, ?_, ?_, h.pairwise⟩
  · rintro e p ⟨⟩
    simp [LeasePhase.Sound]
  · intro m c' p hc' hm hlast' hp
    obtain rfl : m = n := Nat.succ.inj (hlast'.trans hlast.symm)
    exact absurd (List.mem_cons_self ..) hm
  · intro m c' p hc' hm hlt hp
    obtain ⟨hepoch, rfl⟩ := Prod.mk.inj (Option.some.inj hp)
    have hbeyond := h.overtaken m c' c.left hc' (fun hmem => hm (List.mem_cons_of_mem _ hmem)) hlt
      (hepoch ▸ hcurrent)
    have hle := hbeyond.1
    rw [LeasePhase.Past, if_pos hheld, hreading] at hle
    exact .free (by omega)
  · intro c' hc' p hp
    obtain ⟨hepoch, rfl⟩ := Prod.mk.inj (Option.some.inj hp)
    exact (h.behind c' hc' c.left (hepoch ▸ hcurrent)).free hheld (hreading ▸ hdue)

theorem step (h : LeaseInv s) (hstep : LeaseStep s s') : LeaseInv s' := by
  cases hstep with
  | idle hcurrent hreleased => exact h.idle hcurrent hreleased
  | enter hfresh => exact h.enter hfresh
  | claim hcurrent hdue hheld hnow hlease => exact h.claim hcurrent hdue hheld hnow hlease
  | release hc hn hcurrent hdue => exact h.release hc hn hcurrent hdue

end LeaseInv

end Foundation
