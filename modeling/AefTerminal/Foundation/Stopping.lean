import AefTerminal.Foundation.Fallible
import Mathlib.Data.List.Forall2

/-!
# Loops that end early

A loop over a list whose body may raise and which a test on the state ends before the list does.
Such a loop is monotone in its list: on a longer list it goes on from where it ended on the
shorter one, so whatever the passes only add to stays.

A loop may also test only after the passes that did something (`runAfter`): a pass that is skipped
goes on to the next element whatever the state. From a state that is not stopped yet the two tests
are one.

Several loops that share one computation per element can be run together, each stopped by its own
test. That is the same as running each of them on its own, raises included.

## Main definitions

* `runUntil`, `runAfter`: one loop, tested before each pass or after each that was not skipped
* `runTogether`: a family of loops over one list, with a shared computation per element

## Main results

* `runUntil_append`, `exists_runAfter_of_append`: on a longer list the loop goes on
* `runAfter_eq_runUntil`: the two tests
* `runTogether_eq_ok_iff`: together and alone return the same
* `exists_of_runTogether_eq_error`: together raises only what some loop alone raises
-/

namespace Foundation

universe u v

variable {ε : Type u} {ι σ β ν : Type v}

/-! ### One loop -/

/-- Pass through the list until `stop` holds of the state. -/
def runUntil (stop : σ → Bool) (body : σ → ι → Except ε σ) : List ι → σ → Except ε σ
  | [], s => .ok s
  | i :: rest, s => if stop s then .ok s else body s i >>= runUntil stop body rest

variable {stop : σ → Bool} {body : σ → ι → Except ε σ}

theorem runUntil_of_stop {s : σ} (h : stop s = true) (l : List ι) :
    runUntil stop body l s = .ok s := by
  cases l with
  | nil => rfl
  | cons i rest => rw [runUntil, if_pos h]

theorem runUntil_cons_of_not_stop {s : σ} (h : stop s = false) (i : ι) (rest : List ι) :
    runUntil stop body (i :: rest) s = body s i >>= runUntil stop body rest := by
  rw [runUntil, if_neg (by simp [h])]

/-- On a longer list the loop goes on from where it ended. -/
theorem runUntil_append (l l' : List ι) (s : σ) :
    runUntil stop body (l ++ l') s = runUntil stop body l s >>= runUntil stop body l' := by
  induction l generalizing s with
  | nil => rfl
  | cons i rest ih =>
    cases hs : stop s with
    | true =>
      rw [runUntil_of_stop hs, runUntil_of_stop hs]
      exact (runUntil_of_stop hs l').symm
    | false =>
      rw [List.cons_append, runUntil_cons_of_not_stop hs, runUntil_cons_of_not_stop hs, bind_assoc]
      exact congrArg _ (funext ih)

variable {l : List ι}

/-- Only what the body does on the elements of the list matters. -/
theorem runUntil_congr {body' : σ → ι → Except ε σ}
    (h : ∀ i ∈ l, ∀ s, body s i = body' s i) (s : σ) :
    runUntil stop body l s = runUntil stop body' l s := by
  induction l generalizing s with
  | nil => rfl
  | cons i rest ih =>
    have hrest := ih fun j hj => h j (List.mem_cons_of_mem _ hj)
    rw [runUntil, runUntil, h i (List.mem_cons_self ..), funext hrest]

/-- A relation to the state that every pass keeps holds of the state the loop ends in. -/
theorem runUntil_induct {P : σ → Prop} {s s' : σ}
    (hbody : ∀ i ∈ l, ∀ s s', P s → body s i = .ok s' → P s') (hs : P s)
    (h : runUntil stop body l s = .ok s') : P s' := by
  induction l generalizing s with
  | nil => exact Except.ok.inj h ▸ hs
  | cons i rest ih =>
    cases hstop : stop s with
    | true => exact Except.ok.inj ((runUntil_of_stop hstop _).symm.trans h) ▸ hs
    | false =>
      rw [runUntil_cons_of_not_stop hstop] at h
      obtain ⟨t, ht, hrest⟩ := bind_eq_ok.mp h
      exact ih (fun j hj => hbody j (List.mem_cons_of_mem _ hj))
        (hbody i (List.mem_cons_self ..) s t hs ht) hrest

/-! ### A test after the pass -/

/-- Pass through the list. A pass that returns no state was skipped; after one that was not, the
loop ends if `stop` holds. -/
def runAfter (stop : σ → Bool) (body : σ → ι → Except ε (Option σ)) :
    List ι → σ → Except ε σ
  | [], s => .ok s
  | i :: rest, s =>
    body s i >>= fun
      | none => runAfter stop body rest s
      | some t => if stop t then .ok t else runAfter stop body rest t

/-- A skipped pass leaves the state as it is. -/
def unskipped (body : σ → ι → Except ε (Option σ)) (s : σ) (i : ι) : Except ε σ :=
  (fun t => t.getD s) <$> body s i

section After

variable {pass pass' : σ → ι → Except ε (Option σ)}

/-- From a state that is not stopped, it does not matter on which side of a pass the test is. -/
theorem runAfter_eq_runUntil {s : σ} (hs : stop s = false) (l : List ι) :
    runAfter stop pass l s = runUntil stop (unskipped pass) l s := by
  induction l generalizing s with
  | nil => rfl
  | cons i rest ih =>
    rw [runAfter, runUntil_cons_of_not_stop hs, unskipped]
    cases pass s i with
    | error e => rfl
    | ok t =>
      cases t with
      | none => exact ih hs
      | some t =>
        change (if stop t then .ok t else runAfter stop pass rest t) = runUntil stop _ rest t
        cases ht : stop t with
        | true => exact (runUntil_of_stop ht rest).symm
        | false => exact ih ht

theorem runAfter_congr {l : List ι} (h : ∀ i ∈ l, ∀ s, pass s i = pass' s i) (s : σ) :
    runAfter stop pass l s = runAfter stop pass' l s := by
  induction l generalizing s with
  | nil => rfl
  | cons i rest ih =>
    have hrest := ih fun j hj => h j (List.mem_cons_of_mem _ hj)
    rw [runAfter, runAfter, h i (List.mem_cons_self ..), funext hrest]

/-- The loop that got through a longer list ended on the shorter one, there or to go on. -/
theorem exists_runAfter_of_append {l l' : List ι} {s t : σ}
    (h : runAfter stop pass (l ++ l') s = .ok t) :
    ∃ u, runAfter stop pass l s = .ok u ∧ (u = t ∨ runAfter stop pass l' u = .ok t) := by
  induction l generalizing s with
  | nil => exact ⟨s, rfl, .inr h⟩
  | cons i rest ih =>
    rw [List.cons_append, runAfter] at h
    obtain ⟨r, hr, h⟩ := bind_eq_ok.mp h
    rw [runAfter, hr]
    cases r with
    | none => exact ih h
    | some r =>
      change (if stop r then .ok r else runAfter stop pass (rest ++ l') r) = .ok t at h
      change ∃ u, (if stop r then .ok r else runAfter stop pass rest r) = .ok u ∧ _
      cases hstop : stop r with
      | true =>
        rw [if_pos hstop] at h
        exact ⟨r, rfl, .inl (Except.ok.inj h)⟩
      | false =>
        rw [if_neg (by simp [hstop])] at h
        exact ih h

/-- What every pass keeps holds of the state the loop ends in. -/
theorem runAfter_induct {P : σ → Prop} {l : List ι} {s s' : σ}
    (hpass : ∀ i ∈ l, ∀ s s', P s → pass s i = .ok (some s') → P s') (hs : P s)
    (h : runAfter stop pass l s = .ok s') : P s' := by
  induction l generalizing s with
  | nil => exact Except.ok.inj h ▸ hs
  | cons i rest ih =>
    have hrest := fun j hj => hpass j (List.mem_cons_of_mem i hj)
    rw [runAfter] at h
    obtain ⟨r, hr, h⟩ := bind_eq_ok.mp h
    cases r with
    | none => exact ih hrest hs h
    | some r =>
      have hP := hpass i (List.mem_cons_self ..) s r hs hr
      change (if stop r then .ok r else runAfter stop pass rest r) = .ok s' at h
      cases hstop : stop r with
      | true =>
        rw [if_pos hstop] at h
        exact Except.ok.inj h ▸ hP
      | false =>
        rw [if_neg (by simp [hstop])] at h
        exact ih hrest hP h

end After

/-! ### Several loops together -/

variable (stop) (share : ι → Except ε β) (part : ν → β → ι → σ → Except ε σ)

/-- One pass of one member: it is left alone once its own test holds. -/
def memberPass (b : β) (i : ι) (p : ν × σ) : Except ε (ν × σ) :=
  if stop p.2 then .ok p else (p.1, ·) <$> part p.1 b i p.2

/-- Run the members together until every one is stopped, computing `share` once per element. -/
def runTogether : List ι → List (ν × σ) → Except ε (List (ν × σ))
  | [], ps => .ok ps
  | i :: rest, ps =>
    if ps.all fun p => stop p.2 then .ok ps
    else share i >>= fun b => ps.mapM (memberPass stop part b i) >>= runTogether rest

/-- The body of one member that computes the shared part itself. -/
def aloneBody (v : ν) (s : σ) (i : ι) : Except ε σ := share i >>= fun b => part v b i s

variable {stop share part}

/-- What one member ends with, alone. -/
def Alone (stop : σ → Bool) (share : ι → Except ε β) (part : ν → β → ι → σ → Except ε σ)
    (l : List ι) (p p' : ν × σ) : Prop :=
  p.1 = p'.1 ∧ runUntil stop (aloneBody share part p.1) l p.2 = .ok p'.2

/-- A stopped member alone stays as it is. -/
theorem alone_of_stop {p p' : ν × σ} (h : stop p.2 = true) :
    Alone stop share part l p p' ↔ p = p' := by
  rw [Alone, runUntil_of_stop h, Except.ok.injEq, Prod.ext_iff]

/-- A member that is not stopped passes alone through the first element, then the rest. -/
theorem alone_cons {b : β} {i : ι} {rest : List ι} {p p' : ν × σ} (hshare : share i = .ok b) :
    Alone stop share part (i :: rest) p p' ↔
      ∃ q, memberPass stop part b i p = .ok q ∧ Alone stop share part rest q p' := by
  cases hs : stop p.2 with
  | true =>
    rw [alone_of_stop hs, memberPass, if_pos hs]
    constructor
    · rintro rfl
      exact ⟨p, rfl, (alone_of_stop hs).mpr rfl⟩
    · rintro ⟨q, hq, halone⟩
      cases hq
      exact (alone_of_stop hs).mp halone
  | false =>
    rw [Alone, runUntil_cons_of_not_stop hs, aloneBody, hshare, memberPass,
      if_neg (by simp [hs])]
    constructor
    · rintro ⟨hv, hrun⟩
      obtain ⟨s, hpart, hrest⟩ := bind_eq_ok.mp hrun
      exact ⟨(p.1, s), map_eq_ok.mpr ⟨s, hpart, rfl⟩, hv, hrest⟩
    · rintro ⟨q, hq, hv, hrest⟩
      obtain ⟨s, hpart, rfl⟩ := map_eq_ok.mp hq
      exact ⟨hv, bind_eq_ok.mpr ⟨s, hpart, hrest⟩⟩

variable {α γ : Type v}

/-- A loop that collects, element by element. -/
theorem mapM_eq_ok_iff_forall₂ {f : α → Except ε γ} {l : List α} {cs : List γ} :
    l.mapM f = .ok cs ↔ List.Forall₂ (fun a c => f a = .ok c) l cs := by
  induction l generalizing cs with
  | nil =>
    rw [List.mapM_nil, List.forall₂_nil_left_iff]
    exact pure_eq_ok.trans eq_comm
  | cons a rest ih =>
    rw [List.mapM_cons, List.forall₂_cons_left_iff]
    constructor
    · intro h
      obtain ⟨c, hc, h⟩ := bind_eq_ok.mp h
      obtain ⟨ds, hds, h⟩ := bind_eq_ok.mp h
      exact ⟨c, ds, hc, ih.mp hds, (pure_eq_ok.mp h).symm⟩
    · rintro ⟨c, ds, hc, hds, rfl⟩
      exact bind_eq_ok.mpr ⟨c, hc, bind_eq_ok.mpr ⟨ds, ih.mpr hds, pure_eq_ok.mpr rfl⟩⟩

/-- A loop that collects raises what it raises for some element. -/
theorem exists_of_mapM_eq_error {f : α → Except ε γ} {l : List α} {e : ε}
    (h : l.mapM f = .error e) : ∃ a ∈ l, f a = .error e := by
  induction l with
  | nil => exact absurd h (by simp [pure, Except.pure])
  | cons a rest ih =>
    rw [List.mapM_cons] at h
    obtain ha | ⟨c, -, h⟩ := bind_eq_error.mp h
    · exact ⟨a, List.mem_cons_self .., ha⟩
    · obtain hrest | ⟨cs, -, h⟩ := bind_eq_error.mp h
      · obtain ⟨a', ha', hf⟩ := ih hrest
        exact ⟨a', List.mem_cons_of_mem _ ha', hf⟩
      · exact absurd h (by simp [pure, Except.pure])

/-- Two relations over lists, one after the other. -/
theorem exists_forall₂_iff {δ : Type v} {R : α → γ → Prop} {S : γ → δ → Prop} {l : List α}
    {ds : List δ} :
    (∃ cs, List.Forall₂ R l cs ∧ List.Forall₂ S cs ds) ↔
      List.Forall₂ (fun a d => ∃ c, R a c ∧ S c d) l ds := by
  induction l generalizing ds with
  | nil =>
    rw [List.forall₂_nil_left_iff]
    constructor
    · rintro ⟨cs, hcs, hds⟩
      rw [List.forall₂_nil_left_iff.mp hcs] at hds
      exact List.forall₂_nil_left_iff.mp hds
    · rintro rfl
      exact ⟨[], .nil, .nil⟩
  | cons a rest ih =>
    constructor
    · rintro ⟨_, hleft, hright⟩
      obtain ⟨c, cs, hc, hcs, rfl⟩ := List.forall₂_cons_left_iff.mp hleft
      obtain ⟨d, ds, hd, hds, rfl⟩ := List.forall₂_cons_left_iff.mp hright
      exact .cons ⟨c, hc, hd⟩ (ih.mp ⟨cs, hcs, hds⟩)
    · intro h
      obtain ⟨d, ds, ⟨c, hc, hd⟩, hds, rfl⟩ := List.forall₂_cons_left_iff.mp h
      obtain ⟨cs, hcs, hds⟩ := ih.mpr hds
      exact ⟨c :: cs, .cons hc hcs, .cons hd hds⟩

/-- An element of the left list is related to one of the right list. -/
theorem exists_of_forall₂_of_mem {R : α → γ → Prop} {l : List α} {cs : List γ} {a : α}
    (h : List.Forall₂ R l cs) (ha : a ∈ l) : ∃ c ∈ cs, R a c := by
  induction h with
  | nil => exact absurd ha (by simp)
  | cons hac _ ih =>
    obtain rfl | ha := List.mem_cons.mp ha
    · exact ⟨_, List.mem_cons_self .., hac⟩
    · obtain ⟨c, hc, hac⟩ := ih ha
      exact ⟨c, List.mem_cons_of_mem _ hc, hac⟩

/-- On a list of members that are all stopped, nothing happens to any of them. -/
theorem forall₂_alone_of_stop {ps ps' : List (ν × σ)}
    (h : ∀ p ∈ ps, stop p.2 = true) : List.Forall₂ (Alone stop share part l) ps ps' ↔ ps = ps' := by
  induction ps generalizing ps' with
  | nil => exact List.forall₂_nil_left_iff.trans eq_comm
  | cons p rest ih =>
    rw [List.forall₂_cons_left_iff]
    constructor
    · rintro ⟨p', rest', hp, hrest, rfl⟩
      rw [(alone_of_stop (h p (List.mem_cons_self ..))).mp hp,
        (ih fun q hq => h q (List.mem_cons_of_mem _ hq)).mp hrest]
    · rintro rfl
      exact ⟨p, rest, (alone_of_stop (h p (List.mem_cons_self ..))).mpr rfl,
        (ih fun q hq => h q (List.mem_cons_of_mem _ hq)).mpr rfl, rfl⟩

/-- A member that is not stopped raises when the shared part does. -/
theorem alone_error_of_share {i : ι} {rest : List ι} {p : ν × σ} {e : ε}
    (hs : stop p.2 = false) (hshare : share i = .error e) :
    runUntil stop (aloneBody share part p.1) (i :: rest) p.2 = .error e := by
  rw [runUntil_cons_of_not_stop hs, aloneBody, hshare]
  rfl

/-- Run together, every member ends as it does alone. -/
theorem runTogether_eq_ok_iff {ps ps' : List (ν × σ)} :
    runTogether stop share part l ps = .ok ps' ↔
      List.Forall₂ (Alone stop share part l) ps ps' := by
  induction l generalizing ps ps' with
  | nil =>
    have halone : Alone stop share part [] = Eq := by
      funext p p'
      rw [Alone, runUntil, Except.ok.injEq, ← Prod.ext_iff]
    rw [runTogether, halone, List.forall₂_eq_eq_eq, Except.ok.injEq]
  | cons i rest ih =>
    rw [runTogether]
    split
    case isTrue hall =>
      rw [Except.ok.injEq, forall₂_alone_of_stop (List.all_eq_true.mp hall)]
    case isFalse hall =>
      obtain ⟨p, hp, hstop⟩ : ∃ p ∈ ps, stop p.2 = false := by simpa using hall
      cases hshare : share i with
      | error e =>
        constructor
        · exact nofun
        · intro h
          obtain ⟨p', -, -, hrun⟩ := exists_of_forall₂_of_mem h hp
          exact absurd ((alone_error_of_share hstop hshare).symm.trans hrun) (by simp)
      | ok b =>
        have hstep : Alone stop share part (i :: rest) = fun p p' => ∃ q,
            memberPass stop part b i p = .ok q ∧ Alone stop share part rest q p' := by
          funext p p'
          exact propext (alone_cons hshare)
        change ps.mapM (memberPass stop part b i) >>= runTogether stop share part rest = _ ↔ _
        rw [bind_eq_ok, hstep, ← exists_forall₂_iff]
        simp only [mapM_eq_ok_iff_forall₂, ih]

/-- Run together, the members raise only what one of them raises alone. -/
theorem exists_of_runTogether_eq_error {ps : List (ν × σ)} {e : ε}
    (h : runTogether stop share part l ps = .error e) :
    ∃ p ∈ ps, runUntil stop (aloneBody share part p.1) l p.2 = .error e := by
  induction l generalizing ps with
  | nil => exact absurd h nofun
  | cons i rest ih =>
    rw [runTogether] at h
    split at h
    case isTrue => exact absurd h nofun
    case isFalse hall =>
      obtain ⟨p, hp, hstop⟩ : ∃ p ∈ ps, stop p.2 = false := by simpa using hall
      obtain hshare | ⟨b, hshare, h⟩ := bind_eq_error.mp h
      · exact ⟨p, hp, alone_error_of_share hstop hshare⟩
      · -- a member that is stopped passes without raising, here and in the rest
        have hmember : ∀ q : ν × σ, stop q.2 = false →
            runUntil stop (aloneBody share part q.1) (i :: rest) q.2 =
              part q.1 b i q.2 >>= runUntil stop (aloneBody share part q.1) rest := by
          intro q hq
          rw [runUntil_cons_of_not_stop hq, aloneBody, hshare]
          rfl
        obtain hpass | ⟨qs, hqs, h⟩ := bind_eq_error.mp h
        · obtain ⟨q, hq, hpass⟩ := exists_of_mapM_eq_error hpass
          rw [memberPass] at hpass
          split at hpass
          case isTrue => exact absurd hpass nofun
          case isFalse hq' =>
            have hpart : part q.1 b i q.2 = .error e := map_eq_error.mp hpass
            exact ⟨q, hq, by rw [hmember q (by simpa using hq'), hpart]; rfl⟩
        · obtain ⟨q', hq', hrun⟩ := ih h
          obtain ⟨q, hq, hpass⟩ := mem_of_mapM_eq_ok hqs hq'
          rw [memberPass] at hpass
          split at hpass
          case isTrue hq'' =>
            cases hpass
            exact absurd ((runUntil_of_stop hq'' rest).symm.trans hrun) (by simp)
          case isFalse hq'' =>
            obtain ⟨s, hpart, rfl⟩ := map_eq_ok.mp hpass
            exact ⟨q, hq, by rw [hmember q (by simpa using hq''), hpart]; exact hrun⟩

end Foundation
