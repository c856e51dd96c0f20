import AefTerminal.Gex.LiveSession

/-!
# When live option buckets are persisted once

A bucket belongs to the frame that is storing it while `persisting_bucket` names it, and is done
once `persisted_bucket` does. Both fields hold one bucket. A frame of another bucket that is
prepared in between takes the first one over, and then the commit of the storing frame is no
commit: it leaves no trace, and the bucket is stored again. A frame of a bucket before the last one
is not recognised as done, and a finalisation that fails between its parts leaves its bucket taken.

While none of these happens, each bucket of a generation is stored by one frame at a time and not
again after it was committed, and a bucket that nothing stores can be taken.

## Main definitions

* `Orderly`: a step that none of the three happens in
* `PersistsOnce`: what holds of the buckets in a state

## Main results

* `buckets_persisted_once`
-/

namespace AefTerminal

open Foundation

/-! ### Which buckets are taken -/

/-- The plan a frame is being stored under. -/
def FramePhase.plan? : FramePhase → Option FinalizationPlan
  | .storing plan => some plan
  | .stored plan _ _ => some plan
  | _ => none

/-- The generation a frame was built in, until it is over. -/
def FramePhase.generation? : FramePhase → Option ℕ
  | .built generation _ => some generation
  | phase => phase.plan?.map FinalizationPlan.generation

/-- The frame is to persist the bucket for the generation. -/
def FramePhase.Persists (phase : FramePhase) (generation : ℕ) (bucket : Time) : Prop :=
  ∃ plan, phase.plan? = some plan ∧ plan.persistSnapshot = true ∧
    plan.generation = generation ∧ plan.bucket = bucket

/-- The frame persists the bucket for the generation, from its plan to its commit. -/
def LiveGexState.InFlight (s : LiveGexState) (id generation : ℕ) (bucket : Time) : Prop :=
  (s.frames id).Persists generation bucket

/-- The session of a generation. -/
def LiveGexState.Current (s : LiveGexState) (generation : ℕ) (session : LiveGexSession) : Prop :=
  s.session = some session ∧ session.generation = generation

/-- The commit of a plan gets to its persistence part or stops the session. -/
def CommitCompletes (plan : FinalizationPlan) (refresh : DividendRefresh) (health : LiveHealth) :
    Prop :=
  health ≠ .raises ∧
    (plan.refreshDividendCache = true → ∀ value, refresh = .cached (some value) false →
      validDividendYield value = true)

/-- An admissible frame is prepared while no other bucket is taken and does not return to a bucket
that was persisted before the last one. A frame that persists a bucket of the present generation
gets through its commit. -/
def Orderly (s : LiveGexState) : LiveGexEvent → Prop
  | .prepare id universeExpired =>
    ∀ generation frame capturedAt session, s.frames id = .built generation frame →
      frame.admissible universeExpired = some capturedAt → s.Current generation session →
      (session.persistingBucket = none ∨
        session.persistingBucket = some (gexCaptureRevisionAt capturedAt)) ∧
      ((generation, gexCaptureRevisionAt capturedAt) ∈ s.saved →
        session.persistedBucket = some (gexCaptureRevisionAt capturedAt))
  | .commit id health =>
    ∀ plan refresh error session, s.frames id = .stored plan refresh error →
      plan.persistSnapshot = true → s.Current plan.generation session →
      CommitCompletes plan refresh health
  | .abandon id =>
    ∀ plan session, (s.frames id).plan? = some plan → plan.persistSnapshot = true →
      ¬ s.Current plan.generation session
  | _ => True

/-- What holds of the buckets of a state. -/
structure PersistsOnce (s : LiveGexState) : Prop where
  /-- One frame at a time persists a bucket. -/
  one_in_flight : ∀ id id' generation bucket, s.InFlight id generation bucket →
    s.InFlight id' generation bucket → id = id'
  /-- A bucket that was committed is not persisted again. -/
  never_again : ∀ id generation bucket, s.InFlight id generation bucket →
    (generation, bucket) ∉ s.saved
  /-- A bucket that is neither being persisted nor committed is persisted by the next frame. -/
  persistable : ∀ session frame capturedAt, s.session = some session →
    frame.admissible false = some capturedAt →
    (∀ id, ¬ s.InFlight id session.generation (gexCaptureRevisionAt capturedAt)) →
    (session.generation, gexCaptureRevisionAt capturedAt) ∉ s.saved →
    ∃ session' plan, prepareLiveGexFinalization s.session session.generation frame false =
      some (session', plan) ∧ plan.persistSnapshot = true

/-! ### The invariant -/

structure OwnershipInv (s : LiveGexState) : Prop where
  /-- Generations are fresh when a session is opened. -/
  session_known : ∀ session, s.session = some session → session.generation ∈ s.generations
  plan_known : ∀ id plan, (s.frames id).plan? = some plan → plan.generation ∈ s.generations
  saved_known : ∀ generation bucket, (generation, bucket) ∈ s.saved → generation ∈ s.generations
  /-- The session names the bucket that is being persisted. -/
  owner : ∀ id generation session bucket, s.Current generation session →
    s.InFlight id generation bucket → session.persistingBucket = some bucket
  owned : ∀ generation session bucket, s.Current generation session →
    session.persistingBucket = some bucket → ∃ id, s.InFlight id generation bucket
  unique : ∀ id id' generation bucket bucket', s.InFlight id generation bucket →
    s.InFlight id' generation bucket' → id = id'
  unsaved : ∀ id generation bucket, s.InFlight id generation bucket → (generation, bucket) ∉ s.saved
  recorded : ∀ session bucket, s.session = some session →
    session.persistedBucket = some bucket → (session.generation, bucket) ∈ s.saved

theorem not_inFlight_initial (id generation : ℕ) (bucket : Time) :
    ¬ LiveGexState.initial.InFlight id generation bucket :=
  fun ⟨_, hplan, _⟩ => Option.some_ne_none _ hplan.symm

theorem ownershipInv_initial : OwnershipInv .initial where
  session_known _ h := absurd h.symm (Option.some_ne_none _)
  plan_known _ _ h := absurd h.symm (Option.some_ne_none _)
  saved_known _ _ h := absurd h List.not_mem_nil
  owner id generation _ bucket _ h := absurd h (not_inFlight_initial id generation bucket)
  owned _ _ _ h := absurd h.1.symm (Option.some_ne_none _)
  unique id _ generation bucket _ h := absurd h (not_inFlight_initial id generation bucket)
  unsaved id generation bucket h := absurd h (not_inFlight_initial id generation bucket)
  recorded _ _ h := absurd h.symm (Option.some_ne_none _)

variable {s : LiveGexState}

theorem OwnershipInv.persistsOnce (h : OwnershipInv s) : PersistsOnce s where
  one_in_flight id id' generation bucket := h.unique id id' generation bucket bucket
  never_again := h.unsaved
  persistable session frame capturedAt hsession hadmissible hfree hunsaved := by
    have hpersisted : session.persistedBucket ≠ some (gexCaptureRevisionAt capturedAt) :=
      fun heq => hunsaved (h.recorded session _ hsession heq)
    have hpersisting : session.persistingBucket ≠ some (gexCaptureRevisionAt capturedAt) := by
      intro heq
      obtain ⟨id, hflight⟩ := h.owned session.generation session _ ⟨hsession, rfl⟩ heq
      exact hfree id hflight
    refine ⟨(session.plan capturedAt).1, (session.plan capturedAt).2, ?_, ?_⟩
    · rw [hsession, prepareLiveGexFinalization, if_neg (by simp), hadmissible]
      rfl
    · simp [LiveGexSession.plan, hpersisted, hpersisting]

/-! ### What the parts of a step keep -/

section Steps

variable {s : LiveGexState} {id : ℕ} {phase : FramePhase}

variable {generation : ℕ}

theorem inFlight_setFrame {id' : ℕ} {bucket : Time} :
    (s.setFrame id phase).InFlight id' generation bucket ↔
      (id' = id ∧ phase.Persists generation bucket) ∨
        (id' ≠ id ∧ s.InFlight id' generation bucket) := by
  by_cases h : id' = id
  · subst h
    simp [LiveGexState.InFlight, LiveGexState.setFrame]
  · simp [LiveGexState.InFlight, LiveGexState.setFrame, h]

theorem not_persists_of_plan? (h : phase.plan? = none) (generation : ℕ) (bucket : Time) :
    ¬ phase.Persists generation bucket :=
  fun ⟨_, hplan, _⟩ => Option.some_ne_none _ (hplan.symm.trans h)

/-- A frame that moves on with its plan. -/
theorem OwnershipInv.setFrame_same (h : OwnershipInv s)
    (hplan : phase.plan? = (s.frames id).plan?) : OwnershipInv (s.setFrame id phase) := by
  have hplans : ∀ id', ((s.setFrame id phase).frames id').plan? = (s.frames id').plan? := by
    intro id'
    by_cases hid : id' = id
    · subst hid
      simpa [LiveGexState.setFrame] using hplan
    · simp [LiveGexState.setFrame, Function.update_of_ne hid]
  have hflight : ∀ id' generation bucket, (s.setFrame id phase).InFlight id' generation bucket ↔
      s.InFlight id' generation bucket := by
    intro id' generation bucket
    rw [LiveGexState.InFlight, LiveGexState.InFlight, FramePhase.Persists, FramePhase.Persists,
      hplans]
  refine ⟨h.session_known, fun id' plan hp => h.plan_known id' plan ((hplans id').symm.trans hp),
    h.saved_known, ?_, ?_, ?_, ?_, h.recorded⟩
  · exact fun id' generation session bucket hcurrent hf =>
      h.owner id' generation session bucket hcurrent ((hflight _ _ _).mp hf)
  · intro generation session bucket hcurrent howned
    obtain ⟨id', hf⟩ := h.owned generation session bucket hcurrent howned
    exact ⟨id', (hflight _ _ _).mpr hf⟩
  · exact fun a b generation bucket bucket' ha hb =>
      h.unique a b generation bucket bucket' ((hflight _ _ _).mp ha) ((hflight _ _ _).mp hb)
  · exact fun id' generation bucket hf => h.unsaved id' generation bucket ((hflight _ _ _).mp hf)

/-- A frame that persists nothing now, and nothing for the present generation before. -/
theorem OwnershipInv.setFrame_free (h : OwnershipInv s)
    (hphase : ∀ generation bucket, ¬ phase.Persists generation bucket)
    (hknown : ∀ plan, phase.plan? = some plan → plan.generation ∈ s.generations)
    (hstale : ∀ generation bucket session, s.InFlight id generation bucket →
      ¬ s.Current generation session) : OwnershipInv (s.setFrame id phase) := by
  have hflight : ∀ id' generation bucket, (s.setFrame id phase).InFlight id' generation bucket →
      s.InFlight id' generation bucket := by
    intro id' generation bucket hf
    obtain ⟨-, hpersists⟩ | ⟨-, hf⟩ := inFlight_setFrame.mp hf
    · exact absurd hpersists (hphase generation bucket)
    · exact hf
  refine ⟨h.session_known, ?_, h.saved_known, ?_, ?_, ?_, ?_, h.recorded⟩
  · intro id' plan hplan
    by_cases hid : id' = id
    · subst hid
      exact hknown plan (by simpa [LiveGexState.setFrame] using hplan)
    · exact h.plan_known id' plan
        (by simpa [LiveGexState.setFrame, Function.update_of_ne hid] using hplan)
  · exact fun id' generation session bucket hcurrent hf =>
      h.owner id' generation session bucket hcurrent (hflight _ _ _ hf)
  · intro generation session bucket hcurrent howned
    obtain ⟨id', hf⟩ := h.owned generation session bucket hcurrent howned
    have hid : id' ≠ id := by
      rintro rfl
      exact hstale generation bucket session hf hcurrent
    exact ⟨id', inFlight_setFrame.mpr (.inr ⟨hid, hf⟩)⟩
  · exact fun a b generation bucket bucket' ha hb =>
      h.unique a b generation bucket bucket' (hflight _ _ _ ha) (hflight _ _ _ hb)
  · exact fun id' generation bucket hf => h.unsaved id' generation bucket (hflight _ _ _ hf)

/-- A frame without a plan, where none was in flight for the present generation. -/
theorem OwnershipInv.setFrame_planless (h : OwnershipInv s) (hnone : phase.plan? = none)
    (hstale : ∀ generation bucket session, s.InFlight id generation bucket →
      ¬ s.Current generation session) : OwnershipInv (s.setFrame id phase) :=
  h.setFrame_free (not_persists_of_plan? hnone)
    (fun plan hplan => absurd (hplan.symm.trans hnone) (Option.some_ne_none plan)) hstale

/-- Nothing happens to the generation and the buckets of a session. -/
structure SameBuckets (session session' : LiveGexSession) : Prop where
  generation : session'.generation = session.generation
  persisted : session'.persistedBucket = session.persistedBucket
  persisting : session'.persistingBucket = session.persistingBucket

variable {session session' : LiveGexSession}

theorem OwnershipInv.sameBuckets (h : OwnershipInv s)
    (hsession : s.session = some session) (hsame : SameBuckets session session') :
    OwnershipInv { s with session := some session' } := by
  have hcurrent : ∀ generation current, LiveGexState.Current { s with session := some session' }
      generation current → current = session' ∧ s.Current generation session := by
    rintro generation current ⟨hsome, hgeneration⟩
    cases hsome
    exact ⟨rfl, hsession, hsame.generation.symm.trans hgeneration⟩
  refine ⟨?_, h.plan_known, h.saved_known, ?_, ?_, h.unique, h.unsaved, ?_⟩
  · intro current hsome
    cases hsome
    exact hsame.generation ▸ h.session_known session hsession
  · intro id' generation current bucket hcur hf
    obtain ⟨rfl, hcur'⟩ := hcurrent generation current hcur
    exact hsame.persisting.trans (h.owner id' generation session bucket hcur' hf)
  · intro generation current bucket hcur howned
    obtain ⟨rfl, hcur'⟩ := hcurrent generation current hcur
    exact h.owned generation session bucket hcur' (hsame.persisting.symm.trans howned)
  · intro current bucket hsome hpersisted
    cases hsome
    rw [hsame.generation]
    exact h.recorded session bucket hsession (hsame.persisted.symm.trans hpersisted)

/-- Without a session nothing is owned. -/
theorem OwnershipInv.noSession (h : OwnershipInv s) : OwnershipInv { s with session := none } where
  session_known _ hsome := absurd hsome.symm (Option.some_ne_none _)
  plan_known := h.plan_known
  saved_known := h.saved_known
  owner _ _ _ _ hcurrent := absurd hcurrent.1.symm (Option.some_ne_none _)
  owned _ _ _ hcurrent := absurd hcurrent.1.symm (Option.some_ne_none _)
  unique := h.unique
  unsaved := h.unsaved
  recorded _ _ hsome := absurd hsome.symm (Option.some_ne_none _)

/-- A generation that is new has nothing in flight and nothing committed. -/
theorem OwnershipInv.openSession (h : OwnershipInv s) (futuresOptions : Bool)
    (dividendYield : ℚ) (hnew : generation ∉ s.generations) :
    OwnershipInv { s with
      session := some (.start generation futuresOptions dividendYield)
      generations := generation :: s.generations } where
  session_known session hsome := by
    cases hsome
    exact List.mem_cons_self ..
  plan_known id plan hplan := List.mem_cons_of_mem _ (h.plan_known id plan hplan)
  saved_known generation bucket hsaved := List.mem_cons_of_mem _ (h.saved_known _ bucket hsaved)
  owner id current session bucket hcurrent hf := by
    obtain ⟨hsome, rfl⟩ := hcurrent
    cases hsome
    obtain ⟨plan, hplan, -, hgeneration, -⟩ := hf
    have hnew' : plan.generation = generation := hgeneration
    exact absurd (hnew' ▸ h.plan_known id plan hplan) hnew
  owned current session bucket hcurrent howned := by
    obtain rfl := Option.some.inj hcurrent.1
    exact absurd howned nofun
  unique := h.unique
  unsaved := h.unsaved
  recorded session bucket hsome hpersisted := by
    cases hsome
    exact absurd hpersisted nofun

/-- A frame takes the bucket that nothing else has taken. -/
theorem OwnershipInv.take (h : OwnershipInv s)
    {plan : FinalizationPlan} (hsession : s.session = some session)
    (hgeneration : session'.generation = session.generation)
    (hpersisted : session'.persistedBucket = session.persistedBucket)
    (hpersisting : session'.persistingBucket = some plan.bucket)
    (hfree : session.persistingBucket = none) (hplan : phase.plan? = some plan)
    (hpersist : plan.persistSnapshot = true) (hcurrent : plan.generation = session.generation)
    (hunsaved : (plan.generation, plan.bucket) ∉ s.saved) :
    OwnershipInv ({ s with session := some session' }.setFrame id phase) := by
  -- nothing of the present generation is in flight
  have hnone : ∀ id' bucket, ¬ s.InFlight id' session.generation bucket := by
    intro id' bucket hf
    have howner := h.owner id' session.generation session bucket ⟨hsession, rfl⟩ hf
    exact Option.some_ne_none _ (howner.symm.trans hfree)
  have hmine : ∀ generation bucket, phase.Persists generation bucket →
      generation = session.generation ∧ bucket = plan.bucket := by
    rintro generation bucket ⟨plan', hplan', -, rfl, rfl⟩
    cases (hplan.symm.trans hplan')
    exact ⟨hcurrent, rfl⟩
  refine ⟨?_, ?_, h.saved_known, ?_, ?_, ?_, ?_, ?_⟩
  · intro current hsome
    cases hsome
    exact hgeneration ▸ h.session_known session hsession
  · intro id' plan' hplan'
    by_cases hid : id' = id
    · subst hid
      have hphase : phase.plan? = some plan' := by simpa [LiveGexState.setFrame] using hplan'
      cases (hplan.symm.trans hphase)
      exact hcurrent ▸ h.session_known session hsession
    · exact h.plan_known id' plan'
        (by simpa [LiveGexState.setFrame, Function.update_of_ne hid] using hplan')
  · intro id' generation current bucket hcur hf
    obtain ⟨hsome, rfl⟩ := hcur
    cases hsome
    obtain ⟨-, hpersists⟩ | ⟨-, hf⟩ := inFlight_setFrame.mp hf
    · rw [(hmine _ _ hpersists).2, hpersisting]
    · rw [hgeneration] at hf
      exact absurd hf (hnone id' bucket)
  · intro generation current bucket hcur howned
    obtain ⟨hsome, rfl⟩ := hcur
    cases hsome
    cases (hpersisting.symm.trans howned)
    exact ⟨id, inFlight_setFrame.mpr (.inl ⟨rfl, plan, hplan, hpersist,
      hcurrent.trans hgeneration.symm, rfl⟩)⟩
  · intro a b generation bucket bucket' ha hb
    obtain ⟨rfl, hpa⟩ | ⟨-, ha'⟩ := inFlight_setFrame.mp ha
    · obtain ⟨rfl, -⟩ | ⟨-, hb'⟩ := inFlight_setFrame.mp hb
      · rfl
      · rw [(hmine _ _ hpa).1] at hb'
        exact absurd hb' (hnone b bucket')
    · obtain ⟨rfl, hpb⟩ | ⟨-, hb'⟩ := inFlight_setFrame.mp hb
      · rw [(hmine _ _ hpb).1] at ha'
        exact absurd ha' (hnone a bucket)
      · exact h.unique a b generation bucket bucket' ha' hb'
  · intro id' generation bucket hf
    obtain ⟨-, hpersists⟩ | ⟨-, hf⟩ := inFlight_setFrame.mp hf
    · rw [(hmine _ _ hpersists).1, (hmine _ _ hpersists).2, ← hcurrent]
      exact hunsaved
    · exact h.unsaved id' generation bucket hf
  · intro current bucket hsome hlast
    cases hsome
    rw [hgeneration]
    exact h.recorded session bucket hsession (hpersisted.symm.trans hlast)

/-- The frame that persists the bucket of the present generation gives it back. -/
theorem OwnershipInv.release (h : OwnershipInv s) {bucket : Time} {saved : List (ℕ × Time)}
    (hcurrent : s.Current generation session) (hflight : s.InFlight id generation bucket)
    (hgeneration : session'.generation = session.generation)
    (hpersisting : session'.persistingBucket = none)
    (hsaved : (session'.persistedBucket = some bucket ∧ saved = (generation, bucket) :: s.saved) ∨
      (session'.persistedBucket = session.persistedBucket ∧ saved = s.saved)) :
    OwnershipInv ({ s with session := some session', saved := saved }.setFrame id .over) := by
  obtain ⟨hsession, rfl⟩ := hcurrent
  have hover : ∀ generation bucket, ¬ FramePhase.over.Persists generation bucket :=
    not_persists_of_plan? rfl
  have hrest : ∀ id' generation bucket,
      ({ s with session := some session', saved := saved }.setFrame id .over).InFlight id'
        generation bucket → id' ≠ id ∧ s.InFlight id' generation bucket := by
    intro id' generation bucket hf
    obtain ⟨-, hpersists⟩ | hf := inFlight_setFrame.mp hf
    · exact absurd hpersists (hover _ _)
    · exact hf
  refine ⟨?_, ?_, ?_, ?_, ?_, ?_, ?_, ?_⟩
  · intro current hsome
    cases hsome
    exact hgeneration ▸ h.session_known session hsession
  · intro id' plan hplan
    by_cases hid : id' = id
    · subst hid
      have hnone : FramePhase.over.plan? = some plan := by
        simpa [LiveGexState.setFrame] using hplan
      exact absurd hnone.symm (Option.some_ne_none plan)
    · exact h.plan_known id' plan
        (by simpa [LiveGexState.setFrame, Function.update_of_ne hid] using hplan)
  · intro generation' bucket' hmem
    obtain ⟨-, rfl⟩ | ⟨-, rfl⟩ := hsaved
    · obtain heq | hmem := List.mem_cons.mp hmem
      · rw [(Prod.mk.inj heq).1]
        exact h.session_known session hsession
      · exact h.saved_known generation' bucket' hmem
    · exact h.saved_known generation' bucket' hmem
  · intro id' generation' current bucket' hcur hf
    obtain ⟨hsome, rfl⟩ := hcur
    cases hsome
    obtain ⟨hid, hf⟩ := hrest id' _ bucket' hf
    rw [hgeneration] at hf
    exact absurd (h.unique id' id _ _ _ hf hflight) hid
  · intro generation' current bucket' hcur howned
    obtain rfl := Option.some.inj hcur.1
    exact absurd (howned.symm.trans hpersisting) (Option.some_ne_none _)
  · exact fun a b generation' bucket₁ bucket₂ ha hb =>
      h.unique a b generation' bucket₁ bucket₂ (hrest _ _ _ ha).2 (hrest _ _ _ hb).2
  · intro id' generation' bucket' hf
    obtain ⟨hid, hf'⟩ := hrest id' generation' bucket' hf
    obtain ⟨-, rfl⟩ | ⟨-, rfl⟩ := hsaved
    · intro hmem
      obtain heq | hmem := List.mem_cons.mp hmem
      · rw [(Prod.mk.inj heq).1] at hf'
        exact hid (h.unique id' id _ _ _ hf' hflight)
      · exact h.unsaved id' generation' bucket' hf' hmem
    · exact h.unsaved id' generation' bucket' hf'
  · intro current bucket' hsome hlast
    cases hsome
    rw [hgeneration]
    obtain ⟨hpersisted, rfl⟩ | ⟨hpersisted, rfl⟩ := hsaved
    · cases (hpersisted.symm.trans hlast)
      exact List.mem_cons_self ..
    · exact h.recorded session bucket' hsession (hpersisted.symm.trans hlast)

end Steps

/-! ### One step -/

variable {generation id : ℕ} {plan : FinalizationPlan}

/-- What `prepare` does, case by case. -/
theorem prepareLiveGexFinalization_eq_some {session : Option LiveGexSession}
    {frame : LiveFrame} {universeExpired : Bool} {session' : LiveGexSession}
    (h : prepareLiveGexFinalization session generation frame universeExpired =
      some (session', plan)) :
    ∃ current capturedAt, session = some current ∧ current.generation = generation ∧
      frame.admissible universeExpired = some capturedAt ∧
      (session', plan) = current.plan capturedAt := by
  unfold prepareLiveGexFinalization at h
  split at h
  case h_1 => exact absurd h nofun
  case h_2 current =>
    split at h
    case isTrue => exact absurd h nofun
    case isFalse hgeneration =>
      obtain ⟨capturedAt, hadmissible, hplan⟩ := Option.map_eq_some_iff.mp h
      exact ⟨current, capturedAt, rfl, not_not.mp hgeneration, hadmissible, hplan.symm⟩

theorem OwnershipInv.prepare {frame : LiveFrame} {universeExpired : Bool} (h : OwnershipInv s)
    (hbuilt : s.frames id = .built generation frame)
    (horderly : Orderly s (.prepare id universeExpired)) :
    OwnershipInv (s.prepare id generation frame universeExpired) := by
  have hidle : ∀ generation bucket session, s.InFlight id generation bucket →
      ¬ s.Current generation session := by
    rintro generation bucket session ⟨plan, hplan, -⟩
    rw [hbuilt] at hplan
    exact absurd hplan.symm (Option.some_ne_none plan)
  unfold LiveGexState.prepare
  split
  case h_1 =>
    exact h.setFrame_planless rfl hidle
  case h_2 session' plan hprepared =>
    obtain ⟨session, capturedAt, hsession, hgeneration, hadmissible, hpair⟩ :=
      prepareLiveGexFinalization_eq_some hprepared
    cases hpair
    obtain ⟨hfree, hreturn⟩ :=
      horderly generation frame capturedAt session hbuilt hadmissible ⟨hsession, hgeneration⟩
    have hplanned : (session.plan capturedAt).2.persistSnapshot =
        (session.persistedBucket != some (gexCaptureRevisionAt capturedAt) &&
          session.persistingBucket != some (gexCaptureRevisionAt capturedAt)) := rfl
    cases hpersist : (session.plan capturedAt).2.persistSnapshot with
    | true =>
      rw [hplanned, Bool.and_eq_true, bne_iff_ne, bne_iff_ne] at hpersist
      obtain ⟨hpersisted, hpersisting⟩ := hpersist
      have htaken : (session.persistedBucket != some (gexCaptureRevisionAt capturedAt) &&
          session.persistingBucket != some (gexCaptureRevisionAt capturedAt)) = true := by
        simp [hpersisted, hpersisting]
      refine h.take hsession rfl rfl ?_ (hfree.resolve_right hpersisting) rfl htaken rfl ?_
      · exact if_pos htaken
      · intro hsaved
        exact hpersisted (hreturn (hgeneration ▸ hsaved))
    | false =>
      have hsame : SameBuckets session (session.plan capturedAt).1 := by
        refine ⟨rfl, rfl, ?_⟩
        rw [hplanned] at hpersist
        simp [LiveGexSession.plan, hpersist]
      refine (h.sameBuckets hsession hsame).setFrame_free ?_ ?_ ?_
      · rintro generation bucket ⟨plan, hplan, htrue, -⟩
        cases hplan
        exact absurd (hpersist.symm.trans htrue) (by simp)
      · intro plan hplan
        cases hplan
        exact h.session_known session hsession
      · rintro generation bucket current ⟨plan, hplan, -⟩
        rw [show ({ s with session := _ } : LiveGexState).frames id = _ from hbuilt] at hplan
        exact absurd hplan.symm (Option.some_ne_none plan)

theorem sameBuckets_commitDividend (session : LiveGexSession) (plan : FinalizationPlan)
    (refresh : DividendRefresh) : SameBuckets session (session.commitDividend plan refresh).1 := by
  unfold LiveGexSession.commitDividend
  split
  · exact ⟨rfl, rfl, rfl⟩
  · split
    · simp only
      split <;> exact ⟨rfl, rfl, rfl⟩
    · exact ⟨rfl, rfl, rfl⟩
    · exact ⟨rfl, rfl, rfl⟩
    · exact ⟨rfl, rfl, rfl⟩

/-- A commit that raises for the learned yield. -/
theorem commitDividend_eq_false {session : LiveGexSession}
    {refresh : DividendRefresh} (h : (session.commitDividend plan refresh).2 = false) :
    plan.refreshDividendCache = true ∧
      ∃ value, refresh = .cached (some value) false ∧ validDividendYield value = false := by
  unfold LiveGexSession.commitDividend at h
  split at h
  case isTrue => exact absurd h (by simp)
  case isFalse hrefresh =>
    refine ⟨by simpa using hrefresh, ?_⟩
    split at h
    case h_1 value =>
      simp only at h
      split at h
      case isTrue => exact absurd h (by simp)
      case isFalse hvalid => exact ⟨value, rfl, by simpa using hvalid⟩
    case h_2 => exact absurd h (by simp)
    case h_3 => exact absurd h (by simp)
    case h_4 => exact absurd h (by simp)

/-- Where the commit of the present generation acts, it gives the bucket back. -/
theorem OwnershipInv.commit_persisted {session refreshed : LiveGexSession}
    {error : Option String} (h : OwnershipInv s)
    (hcurrent : s.Current plan.generation session) (hsame : SameBuckets session refreshed)
    (hplan : (s.frames id).plan? = some plan) (hpersist : plan.persistSnapshot = true) :
    OwnershipInv ({ s with
      session := some (refreshed.commitPersistence plan error)
      saved := if error = none then (plan.generation, plan.bucket) :: s.saved else s.saved }.setFrame
        id .over) := by
  have hflight : s.InFlight id plan.generation plan.bucket := ⟨plan, hplan, hpersist, rfl, rfl⟩
  have howner : refreshed.persistingBucket = some plan.bucket :=
    hsame.persisting.trans (h.owner id plan.generation session plan.bucket hcurrent hflight)
  unfold LiveGexSession.commitPersistence
  rw [if_pos ⟨hpersist, howner⟩]
  cases error with
  | none => exact h.release hcurrent hflight hsame.generation rfl (.inl ⟨rfl, rfl⟩)
  | some error => exact h.release hcurrent hflight hsame.generation rfl (.inr ⟨hsame.persisted, rfl⟩)

theorem OwnershipInv.commit
    {refresh : DividendRefresh} {error : Option String} {health : LiveHealth} (h : OwnershipInv s)
    (hstored : s.frames id = .stored plan refresh error)
    (horderly : Orderly s (.commit id health)) :
    OwnershipInv (s.commit id plan refresh error health) := by
  have hplan : (s.frames id).plan? = some plan := by rw [hstored]; rfl
  have hover : ∀ t : LiveGexState, OwnershipInv t →
      (∀ generation bucket session, t.InFlight id generation bucket →
        ¬ t.Current generation session) → OwnershipInv (t.setFrame id .over) :=
    fun t ht hstale => ht.setFrame_planless rfl hstale
  have hmine : ∀ generation bucket, s.InFlight id generation bucket →
      generation = plan.generation ∧ plan.persistSnapshot = true := by
    rintro generation bucket ⟨plan', hplan', hpersist, rfl, -⟩
    cases (hplan.symm.trans hplan')
    exact ⟨rfl, hpersist⟩
  unfold LiveGexState.commit commitLiveGexFinalization
  cases hsession : s.session with
  | none =>
    simp only [reduceCtorEq, false_and, if_false]
    have hnone := h.noSession
    refine hover _ hnone fun generation bucket session _ hcurrent => ?_
    exact Option.some_ne_none _ hcurrent.1.symm
  | some session =>
    by_cases hgeneration : session.generation = plan.generation
    · have hcurrent : s.Current plan.generation session := ⟨hsession, hgeneration⟩
      -- a frame that persists nothing leaves the buckets of the session alone
      have hunpersisted : ∀ session', SameBuckets session session' →
          plan.persistSnapshot ≠ true →
          OwnershipInv ({ s with session := some session' }.setFrame id .over) := by
        intro session' hsame hpersist
        refine hover _ (h.sameBuckets hsession hsame) fun generation bucket _ hf _ => ?_
        exact hpersist (hmine generation bucket hf).2
      simp only [hgeneration, ne_eq, not_true_eq_false, if_false]
      cases health with
      | raises =>
        simp only [reduceCtorEq, false_and, if_false]
        refine hunpersisted session ⟨rfl, rfl, rfl⟩ fun hpersist => ?_
        exact (horderly plan refresh error session hstored hpersist hcurrent).1 rfl
      | unknownExpiry =>
        simp only [reduceCtorEq, false_and, if_false]
        exact hover _ h.noSession fun _ _ _ _ hcur => Option.some_ne_none _ hcur.1.symm
      | expired =>
        simp only [reduceCtorEq, false_and, if_false]
        exact hover _ h.noSession fun _ _ _ _ hcur => Option.some_ne_none _ hcur.1.symm
      | healthy =>
        have hsame := sameBuckets_commitDividend session plan refresh
        cases hvalid : (session.commitDividend plan refresh).2 with
        | false =>
          simp only [Bool.false_eq_true, if_false, reduceCtorEq, false_and]
          refine hunpersisted _ hsame fun hpersist => ?_
          obtain ⟨hrefresh, value, hcached, hbad⟩ := commitDividend_eq_false hvalid
          have hgood := (horderly plan refresh error session hstored hpersist hcurrent).2 hrefresh
            value hcached
          exact absurd (hbad.symm.trans hgood) (by simp)
        | true =>
          simp only [if_true, true_and]
          by_cases hpersist : plan.persistSnapshot = true
          · simp only [hpersist, true_and]
            exact h.commit_persisted hcurrent hsame hplan hpersist
          · simp only [hpersist, Bool.false_eq_true, false_and, if_false]
            unfold LiveGexSession.commitPersistence
            rw [if_neg fun hboth => hpersist hboth.1]
            exact hunpersisted _ hsame hpersist
    · simp only [ne_eq, hgeneration, not_false_eq_true, if_true, reduceCtorEq, false_and, if_false]
      refine hover _ (h.sameBuckets hsession ⟨rfl, rfl, rfl⟩) fun generation bucket current hf hcur => ?_
      obtain rfl := Option.some.inj hcur.1
      exact hgeneration (hcur.2.trans (hmine generation bucket hf).1)

/-- Every orderly step keeps the invariant. -/
theorem OwnershipInv.step {t : LiveGexState} {e : LiveGexEvent} (h : OwnershipInv s)
    (horderly : Orderly s e) (hstep : liveGexStep s e = some t) : OwnershipInv t := by
  have hidle : ∀ id, (s.frames id).plan? = none → ∀ generation bucket session,
      s.InFlight id generation bucket → ¬ s.Current generation session :=
    fun id hnone generation bucket _ hf => absurd hf (not_persists_of_plan? hnone generation bucket)
  cases e with
  | openSession generation futuresOptions dividendYield =>
    rw [liveGexStep] at hstep
    split at hstep
    case isTrue => exact absurd hstep nofun
    case isFalse hnew =>
      cases hstep
      exact h.openSession futuresOptions dividendYield hnew
  | stop =>
    cases hstep
    exact h.noSession
  | build id frame =>
    rw [liveGexStep] at hstep
    split at hstep
    case h_1 session hphase hsession =>
      cases hstep
      have hcached : OwnershipInv { s with session := some { session with lastPayload := some frame } } :=
        h.sameBuckets hsession ⟨rfl, rfl, rfl⟩
      refine hcached.setFrame_planless rfl fun generation bucket _ hf _ => ?_
      exact not_persists_of_plan? (by rw [hphase]; rfl) generation bucket hf
    case h_2 => exact absurd hstep nofun
  | serve id =>
    rw [liveGexStep] at hstep
    split at hstep
    case h_1 session hphase hsession =>
      obtain ⟨frame, -, rfl⟩ := Option.map_eq_some_iff.mp hstep
      exact h.setFrame_planless rfl (hidle id (by rw [hphase]; rfl))
    case h_2 => exact absurd hstep nofun
  | prepare id universeExpired =>
    rw [liveGexStep] at hstep
    split at hstep
    case h_1 generation frame hphase =>
      cases hstep
      exact h.prepare hphase horderly
    case h_2 => exact absurd hstep nofun
  | settle id refresh error =>
    rw [liveGexStep] at hstep
    split at hstep
    case h_1 plan hphase =>
      cases hstep
      exact h.setFrame_same (by rw [hphase]; rfl)
    case h_2 => exact absurd hstep nofun
  | commit id health =>
    rw [liveGexStep] at hstep
    split at hstep
    case h_1 plan refresh error hphase =>
      cases hstep
      exact h.commit hphase horderly
    case h_2 => exact absurd hstep nofun
  | abandon id =>
    rw [liveGexStep] at hstep
    split at hstep
    case h_1 => exact absurd hstep nofun
    case h_2 => exact absurd hstep nofun
    case h_3 =>
      cases hstep
      refine h.setFrame_planless rfl ?_
      rintro generation bucket session ⟨plan, hplan, hpersist, rfl, -⟩
      exact horderly plan session hplan hpersist

/-! ### Replaced generations -/

/-- The frame a step is about. -/
def LiveGexEvent.frame? : LiveGexEvent → Option ℕ
  | .openSession _ _ _ | .stop => none
  | .build id _ | .serve id | .prepare id _ | .settle id _ _ | .commit id _ | .abandon id => some id

theorem prepareLiveGexFinalization_of_replaced
    (h : ∀ session, ¬ s.Current generation session) (frame : LiveFrame) (universeExpired : Bool) :
    prepareLiveGexFinalization s.session generation frame universeExpired = none := by
  unfold prepareLiveGexFinalization
  cases hsession : s.session with
  | none => rfl
  | some session => exact if_pos fun hgeneration => h session ⟨hsession, hgeneration⟩

theorem commitLiveGexFinalization_of_replaced
    (h : ∀ session, ¬ s.Current plan.generation session) (refresh : DividendRefresh)
    (error : Option String) (health : LiveHealth) :
    commitLiveGexFinalization s.session plan refresh error health = (s.session, .changed) := by
  unfold commitLiveGexFinalization
  cases hsession : s.session with
  | none => rfl
  | some session => exact if_pos fun hgeneration => h session ⟨hsession, hgeneration⟩

/-- A step of a frame whose generation was replaced leaves the session as it is. -/
theorem session_of_replaced {t : LiveGexState} {e : LiveGexEvent}
    (hstep : liveGexStep s e = some t) (hframe : e.frame? = some id)
    (hgeneration : (s.frames id).generation? = some generation)
    (hreplaced : ∀ session, ¬ s.Current generation session) : t.session = s.session := by
  cases e with
  | openSession => exact absurd hframe nofun
  | stop => exact absurd hframe nofun
  | build id' frame =>
    cases hframe
    rw [liveGexStep] at hstep
    split at hstep
    case h_1 hphase _ =>
      rw [hphase] at hgeneration
      exact absurd hgeneration nofun
    case h_2 => exact absurd hstep nofun
  | serve id' =>
    cases hframe
    rw [liveGexStep] at hstep
    split at hstep
    case h_1 hphase _ =>
      rw [hphase] at hgeneration
      exact absurd hgeneration nofun
    case h_2 => exact absurd hstep nofun
  | prepare id' universeExpired =>
    cases hframe
    rw [liveGexStep] at hstep
    split at hstep
    case h_1 built frame hphase =>
      rw [hphase] at hgeneration
      cases hgeneration
      cases hstep
      rw [LiveGexState.prepare, prepareLiveGexFinalization_of_replaced hreplaced]
      rfl
    case h_2 => exact absurd hstep nofun
  | settle id' refresh error =>
    rw [liveGexStep] at hstep
    split at hstep
    case h_1 =>
      cases hstep
      rfl
    case h_2 => exact absurd hstep nofun
  | commit id' health =>
    cases hframe
    rw [liveGexStep] at hstep
    split at hstep
    case h_1 plan refresh error hphase =>
      rw [hphase] at hgeneration
      cases hgeneration
      cases hstep
      rw [LiveGexState.commit, commitLiveGexFinalization_of_replaced hreplaced]
      rfl
    case h_2 => exact absurd hstep nofun
  | abandon id' =>
    rw [liveGexStep] at hstep
    split at hstep
    case h_1 => exact absurd hstep nofun
    case h_2 => exact absurd hstep nofun
    case h_3 =>
      cases hstep
      rfl

/-! ### Runs -/

/-- In a run of orderly steps each bucket is persisted once, in every state it gets to, and a
frame of a replaced generation leaves the session alone. -/
theorem buckets_persisted_once {events : List LiveGexEvent} {s : LiveGexState}
    (hrun : Run (Guarded Orderly (StepOf liveGexStep)) .initial events s) :
    PersistsOnce s ∧ ∀ e id generation t, liveGexStep s e = some t → e.frame? = some id →
      (s.frames id).generation? = some generation →
      (∀ session, ¬ s.Current generation session) → t.session = s.session := by
  have hinv : OwnershipInv s :=
    hrun.invariant (fun _ _ _ h hstep => h.step hstep.1 hstep.2) ownershipInv_initial
  exact ⟨hinv.persistsOnce, fun e id generation t => session_of_replaced⟩

/-- A complete frame of the bucket that starts at a time. -/
def frameOf (capturedAt : Time) : LiveFrame := ⟨some capturedAt, true, true⟩

/-- A frame that takes its bucket and commits it. -/
def storedOnce : List LiveGexEvent :=
  [.openSession 1 true 0, .build 0 (frameOf 0), .prepare 0 false, .settle 0 (.failed "") none,
    .commit 0 .healthy]

theorem buckets_persisted_once_stored :
    ∃ s, Run (Guarded Orderly (StepOf liveGexStep)) .initial storedOnce s ∧ PersistsOnce s := by
  have hprepare : ∀ s : LiveGexState, ∀ session : LiveGexSession, s.session = some session →
      session.persistingBucket = none → s.saved = [] → Orderly s (.prepare 0 false) := by
    intro s session hsession hfree hsaved generation frame capturedAt current _ _ hcurrent
    cases (hsession.symm.trans hcurrent.1)
    exact ⟨.inl hfree, fun hmem => absurd (hsaved ▸ hmem) List.not_mem_nil⟩
  have hrun : Run (Guarded Orderly (StepOf liveGexStep)) .initial storedOnce _ :=
    .cons ⟨trivial, rfl⟩ (.cons ⟨trivial, rfl⟩ (.cons ⟨hprepare _ _ rfl rfl rfl, rfl⟩
      (.cons ⟨trivial, rfl⟩ (.cons ⟨by
        intro plan refresh error session hphase _ _
        cases hphase
        exact ⟨by simp, nofun⟩, rfl⟩ (.nil _)))))
  exact ⟨_, hrun, (buckets_persisted_once hrun).1⟩

/-! ### The three steps that are left out -/

/-- A frame of the next bucket is prepared while the first bucket is being stored, then a cached
frame of the first bucket. -/
def overlapping : List LiveGexEvent :=
  [.openSession 1 true 0, .build 0 (frameOf 0), .serve 1, .build 2 (frameOf gexPersistInterval),
    .prepare 0 false, .prepare 2 false, .prepare 1 false]

/-- A cached frame of a bucket that was committed, after the next bucket was. -/
def returning : List LiveGexEvent :=
  [.openSession 1 true 0, .build 0 (frameOf 0), .serve 1, .prepare 0 false,
    .settle 0 (.failed "") none, .commit 0 .healthy, .build 2 (frameOf gexPersistInterval),
    .prepare 2 false, .settle 2 (.failed "") none, .commit 2 .healthy, .prepare 1 false]

/-- A finalisation that fails after its snapshot was taken. -/
def abandoned : List LiveGexEvent :=
  [.openSession 1 true 0, .build 0 (frameOf 0), .prepare 0 false, .abandon 0]

/-- Two frames persist one bucket at a time; a committed bucket is persisted again; and a bucket
that nothing persists is not persistable. -/
theorem bucket_ownership_lost :
    (∃ s, Run (StepOf liveGexStep) .initial overlapping s ∧
      s.InFlight 0 1 0 ∧ s.InFlight 1 1 0) ∧
    (∃ s, Run (StepOf liveGexStep) .initial returning s ∧ s.InFlight 1 1 0 ∧ (1, 0) ∈ s.saved) ∧
    ∃ s, Run (StepOf liveGexStep) .initial abandoned s ∧ (∀ id, ¬ s.InFlight id 1 0) ∧
      (1, 0) ∉ s.saved ∧ ∃ session' plan,
        prepareLiveGexFinalization s.session 1 (frameOf 0) false = some (session', plan) ∧
          plan.persistSnapshot = false := by
  have hoverlap : (overlapping.foldlM liveGexStep .initial).isSome := by decide +kernel
  have hreturn : (returning.foldlM liveGexStep .initial).isSome := by decide +kernel
  have habandon : (abandoned.foldlM liveGexStep .initial).isSome := by decide +kernel
  refine ⟨⟨_, Run.of_foldlM (Option.some_get hoverlap).symm, ?_, ?_⟩,
    ⟨_, Run.of_foldlM (Option.some_get hreturn).symm, ?_, ?_⟩,
    _, Run.of_foldlM (Option.some_get habandon).symm, ?_, ?_, ?_⟩
  · exact ⟨_, rfl, rfl, rfl, rfl⟩
  · exact ⟨_, rfl, rfl, rfl, rfl⟩
  · exact ⟨_, rfl, rfl, rfl, rfl⟩
  · exact List.mem_cons_of_mem _ (List.mem_cons_self ..)
  · intro id hf
    obtain ⟨plan, hplan, -⟩ := hf
    cases id with
    | zero => exact absurd hplan.symm (Option.some_ne_none plan)
    | succ n => exact absurd hplan.symm (Option.some_ne_none plan)
  · exact List.not_mem_nil
  · exact ⟨_, _, rfl, rfl⟩

end AefTerminal
