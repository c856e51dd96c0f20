import AefTerminal.Analysis.Runtime
import AefTerminal.Foundation.Fallible

/-!
# Leases and demand

`LeaseInv` relates the demand, the two lease maps and the high-water marks. The maps are inverse to
each other, every wanted key has a lease, and the mark of an attached client is its lease. A
registration wants a key first and attaches the client afterwards, so `pending` names a key that is
wanted already and may have no lease yet.

Demand may go while leases stay: a job that finds its parent generation gone drops the demand of
its key alone. The invariant allows that, and the leases of such a key are dropped at the next sweep
or registration.

## Main results

* `LeaseInv.detachClientLease`, `LeaseInv.pruneClientLeases`, `LeaseInv.attachClientLease`
* `leaseInv_step`, `leaseInv_run`
-/

namespace AefTerminal

open Foundation

namespace AnalysisService

variable {s t : AnalysisService} {cfg : AnalysisConfig}

/-! ### What the small operations leave alone -/

@[simp] theorem cancelTask_wanted (j : ℕ) : (s.cancelTask j).wanted = s.wanted := by
  rw [cancelTask]; split <;> rfl

@[simp] theorem cancelTask_leases (j : ℕ) : (s.cancelTask j).leases = s.leases := by
  rw [cancelTask]; split <;> rfl

@[simp] theorem cancelTask_highwater (j : ℕ) : (s.cancelTask j).highwater = s.highwater := by
  rw [cancelTask]; split <;> rfl

@[simp] theorem cancelRunning_wanted (k : String) : (s.cancelRunning k).wanted = s.wanted := by
  rw [cancelRunning]; split
  · split
    · exact cancelTask_wanted _
    · rfl
  · rfl

@[simp] theorem cancelRunning_leases (k : String) : (s.cancelRunning k).leases = s.leases := by
  rw [cancelRunning]; split
  · split
    · exact cancelTask_leases _
    · rfl
  · rfl

@[simp] theorem cancelRunning_highwater (k : String) :
    (s.cancelRunning k).highwater = s.highwater := by
  rw [cancelRunning]; split
  · split
    · exact cancelTask_highwater _
    · rfl
  · rfl

/-- A revocation is the cancellation of a running task, or the end of a registration. -/
theorem revoke_eq (k : String) : s.revoke k =
    if s.taskRunning k then { s with wanted := s.wanted.erase k }.cancelRunning k
    else { s with wanted := s.wanted.erase k }.popTask k := by
  rw [revoke, cancelRunning, taskRunning]
  cases htask : s.tasks.get? k with
  | none => rfl
  | some j =>
    have hrun : AnalysisService.isRunning { s with wanted := s.wanted.erase k } j = s.isRunning j :=
      rfl
    simp only [hrun, Option.map_some, Option.getD_some]
    cases s.isRunning j <;> rfl

@[simp] theorem revoke_wanted (k : String) : (s.revoke k).wanted = s.wanted.erase k := by
  rw [revoke_eq]
  split
  · exact cancelRunning_wanted k
  · rfl

@[simp] theorem revoke_leases (k : String) : (s.revoke k).leases = s.leases := by
  rw [revoke_eq]
  split
  · exact cancelRunning_leases k
  · rfl

@[simp] theorem revoke_highwater (k : String) : (s.revoke k).highwater = s.highwater := by
  rw [revoke_eq]
  split
  · exact cancelRunning_highwater k
  · rfl

@[simp] theorem detachClientLease_leases (c : String) :
    (s.detachClientLease c).leases = (s.leases.detach c).1 := by
  rw [detachClientLease]
  split
  · exact revoke_leases _
  · rfl

@[simp] theorem detachClientLease_highwater (c : String) :
    (s.detachClientLease c).highwater = s.highwater := by
  rw [detachClientLease]
  split
  · exact revoke_highwater _
  · rfl

theorem mem_wanted_detachClientLease {c k : String} : k ∈ (s.detachClientLease c).wanted.keys ↔
    k ∈ s.wanted.keys ∧ (s.leases.detach c).2 ≠ some k := by
  rw [detachClientLease]
  cases h : (s.leases.detach c).2 with
  | none => simp
  | some j =>
    simp only [revoke_wanted, Dict.mem_keys_erase, ne_eq, Option.some.injEq]
    exact ⟨fun hk => ⟨hk.2, fun hj => hk.1 hj.symm⟩, fun hk => ⟨fun hj => hk.2 hj.symm, hk.1⟩⟩

/-! ### The last section of a job -/

/-- The state in which a job that owns its registration decides what becomes of its item. -/
def settled (s : AnalysisService) (j : ℕ) (job : AnalysisJob) : AnalysisService :=
  (s.finishJob j job).popTask job.key

/-- What the last section of a job may come to. -/
theorem completeJob_cases {j : ℕ} {job : AnalysisJob} {outcome : JobOutcome} {now : ℚ}
    {seen : ChartReads} {views : ℕ → ChartTable} {P : AnalysisService → Prop}
    (foreign : s.ownsRegistration job.key j = false → P (s.finishJob j job))
    (idle : s.ownsRegistration job.key j = true → P (s.settled j job))
    (store : s.ownsRegistration job.key j = true → ∀ w item,
      (s.settled j job).requestCurrent job = some w →
      capturedContextIsCurrent s.contexts views job.payload.captured = true →
      jobItem j job.payload now outcome = some item →
      P ((s.settled j job).storeItem cfg now job.key item))
    (drop : s.ownsRegistration job.key j = true → P ((s.settled j job).dropItem job.key))
    (retry : s.ownsRegistration job.key j = true → ∀ w contextMatches,
      (s.settled j job).requestCurrent job = some w →
      P (((s.settled j job).dropItem job.key).retryItem cfg job.key job.payload w contextMatches
        now seen))
    (abandon : s.ownsRegistration job.key j = true → P ((s.settled j job).abandonDemand job.key)) :
    P (s.completeJob cfg j job outcome now seen views) := by
  unfold completeJob
  extract_lets owns s₁ s₂ generationCurrent laterViews valuesMatch
  by_cases howns : owns = true
  · have hs₂ : s₂ = s.settled j job := if_pos howns
    have hgen : generationCurrent = capturedContextIsCurrent s.contexts views job.payload.captured := by
      dsimp only [generationCurrent]
      rw [hs₂]; rfl
    rw [if_pos howns]
    split
    · rename_i w item hcur hreq hitem
      rw [hs₂] at hreq ⊢
      exact store howns w item hreq (hgen ▸ hcur) hitem
    · rw [hs₂]
      exact drop howns
    · rename_i w hcur hreq
      rw [hs₂] at hreq ⊢
      split
      · exact retry howns w _ hreq
      · exact abandon howns
    · rename_i w hcur hreq hitem
      rw [hs₂] at hreq ⊢
      split
      · exact retry howns w true hreq
      · exact idle howns
    · rw [hs₂]
      exact idle howns
  · have hs₂ : s₂ = s.finishJob j job := if_neg howns
    rw [if_neg howns, hs₂]
    exact foreign (Bool.not_eq_true _ ▸ howns)

theorem of_requestCurrent {job : AnalysisJob} {w : WantedItem} (h : s.requestCurrent job = some w) :
    s.wanted.get? job.key = some w ∧
      cacheMatchesPayloadContext job.payload.captured w.payload = true := by
  rw [requestCurrent] at h
  obtain ⟨w', hw, h⟩ := Option.bind_eq_some_iff.mp h
  obtain ⟨hmatch, h⟩ := guard_bind_eq_some.mp h
  cases h
  exact ⟨hw, hmatch⟩

/-- A registration writes its payload when it is admitted. -/
theorem registerWanted_state (c key : String) (sequence : ℕ) (payload : AnalysisPayload) (now : ℚ)
    (seen : ChartReads) : (s.registerWanted cfg c key sequence payload now seen).2 =
      if (s.pruneClientHighwaters now).registrationAdmitted c key sequence then
        (s.pruneClientHighwaters now).registerPayload cfg c key sequence payload now seen
      else s.pruneClientHighwaters now := by
  simp only [registerWanted, apply_ite Prod.snd]

/-! ### The invariant -/

/-- Demand, lease maps and high-water marks. -/
structure LeaseInv (s : AnalysisService) (pending : Option String) : Prop where
  inverse : s.leases.Inverse
  held : ∀ k ∈ s.wanted.keys, some k = pending ∨ k ∈ s.leases.members.keys
  marked : ∀ k c l, s.leases.lease? k c = some l → s.highwater.get? c = some l

namespace LeaseInv

variable {pending : Option String}

theorem initial : LeaseInv .initial none :=
  ⟨Attachments.inverse_empty, fun _ hk => by simp [AnalysisService.initial] at hk,
    fun _ _ _ hl => by simp [AnalysisService.initial, Attachments.empty, Attachments.lease?] at hl⟩

/-- Leases and marks are as before, and nothing new is wanted. -/
theorem of_wanted (h : s.LeaseInv pending) (hleases : t.leases = s.leases)
    (hmarks : t.highwater = s.highwater) (hw : ∀ k ∈ t.wanted.keys, k ∈ s.wanted.keys) :
    t.LeaseInv pending where
  inverse := hleases ▸ h.inverse
  held k hk := hleases ▸ h.held k (hw k hk)
  marked k c l hl := hmarks ▸ h.marked k c l (hleases ▸ hl)

theorem revoke (h : s.LeaseInv pending) (k : String) : (s.revoke k).LeaseInv pending :=
  h.of_wanted (revoke_leases k) (revoke_highwater k) fun j hj => by
    rw [revoke_wanted, Dict.mem_keys_erase] at hj
    exact hj.2

theorem detachClientLease (h : s.LeaseInv pending) (c : String) :
    (s.detachClientLease c).LeaseInv pending where
  inverse := by rw [detachClientLease_leases]; exact h.inverse.detach c
  held k hk := by
    rw [mem_wanted_detachClientLease] at hk
    rw [detachClientLease_leases, h.inverse.mem_members_detach]
    exact (h.held k hk.1).imp_right fun hmem => ⟨hmem, hk.2⟩
  marked k c' l hl := by
    rw [detachClientLease_leases, h.inverse.lease?_detach] at hl
    split_ifs at hl
    rw [detachClientLease_highwater]
    exact h.marked k c' l hl

theorem detachAll (h : s.LeaseInv pending) (clients : List String) :
    (clients.foldl AnalysisService.detachClientLease s).LeaseInv pending := by
  induction clients generalizing s with
  | nil => exact h
  | cons c clients ih => exact ih (h.detachClientLease c)

/-- Keys that are not wanted may lose their leases. -/
theorem dropKeys (h : s.LeaseInv pending) (keys : List String) (hk : ∀ k ∈ keys, k ∉ s.wanted.keys) :
    LeaseInv { s with leases := keys.foldl Attachments.dropKey s.leases } pending := by
  induction keys generalizing s with
  | nil => exact h
  | cons j keys ih =>
    obtain ⟨hj, hrest⟩ := List.forall_mem_cons.mp hk
    have hone : LeaseInv { s with leases := s.leases.dropKey j } pending :=
      { inverse := h.inverse.dropKey j
        held := fun k hkw => (h.held k hkw).imp_right fun hmem =>
          Attachments.mem_members_dropKey.mpr ⟨fun hkj => hj (hkj ▸ hkw), hmem⟩
        marked := fun k c l hl => by
          rw [Attachments.lease?_dropKey] at hl
          split_ifs at hl
          exact h.marked k c l hl }
    exact ih hone hrest

theorem dropOrphanedClientLeases (h : s.LeaseInv pending) :
    s.dropOrphanedClientLeases.LeaseInv pending :=
  h.dropKeys _ fun k hk => by simpa using (List.mem_filter.mp hk).2

/-- The mark of a client with a lease stays. -/
theorem pruneClientHighwaters (h : s.LeaseInv pending) (now : ℚ) :
    (s.pruneClientHighwaters now).LeaseInv pending where
  inverse := h.inverse
  held := h.held
  marked k c l hl := by
    rw [AnalysisService.pruneClientHighwaters, Dict.get?_eraseAll, if_neg]
    · exact h.marked k c l hl
    · intro hmem
      obtain ⟨⟨c', mark⟩, hsel, rfl⟩ := List.mem_map.mp hmem
      have hfree := (Dict.mem_select.mp hsel).2
      have hattached : c' ∈ s.leases.keyOf.keys :=
        Dict.mem_keys_of_get? ((h.inverse.iff c' k).mpr (Option.isSome_iff_exists.mpr ⟨l, hl⟩))
      simp [hattached] at hfree

theorem pruneClientLeases (h : s.LeaseInv pending) (now : ℚ) :
    (s.pruneClientLeases cfg now).LeaseInv pending :=
  (h.dropOrphanedClientLeases.pruneClientHighwaters now).detachAll _

/-- A client that is attached nowhere else takes a lease, and its mark with it. -/
theorem attach (h : s.LeaseInv pending) {c k : String} {l : ClientLease}
    (hc : ∀ j, s.leases.keyOf.get? c = some j → j = k) (hp : ∀ j, pending = some j → j = k) :
    LeaseInv { s with
      leases := s.leases.attach c k l
      highwater := s.highwater.insert c l } none where
  inverse := h.inverse.attach hc l
  held j hj := by
    refine Or.inr (Attachments.mem_members_attach.mpr ?_)
    exact (h.held j hj).imp (fun hpend => hp j hpend.symm) id
  marked j c' l' hl := by
    rw [Attachments.lease?_attach] at hl
    rw [Dict.get?_insert]
    by_cases hcc : c' = c
    · subst hcc
      by_cases hj : j = k
      · rw [if_pos ⟨hj, rfl⟩] at hl
        rw [if_pos rfl, hl]
      · rw [if_neg fun hboth => hj hboth.1] at hl
        exact absurd (hc j ((h.inverse.iff c' j).mpr (Option.isSome_iff_exists.mpr ⟨l', hl⟩))) hj
    · rw [if_neg fun hboth => hcc hboth.2] at hl
      rw [if_neg hcc]
      exact h.marked j c' l' hl

theorem attachClientLease {key : String} (h : s.LeaseInv (some key)) (c : String) (sequence : ℕ)
    (now : ℚ) : (s.attachClientLease c key sequence now).LeaseInv none := by
  have hdrop := h.dropOrphanedClientLeases
  have hpend : ∀ j, some key = some j → j = key := fun j hj => (Option.some.inj hj).symm
  rw [AnalysisService.attachClientLease]
  cases hprev : s.dropOrphanedClientLeases.leases.keyOf.get? c with
  | none =>
    exact hdrop.attach (fun j hj => absurd (hprev.symm.trans hj) nofun) hpend
  | some previousKey =>
    dsimp only
    by_cases hne : previousKey ≠ key
    · rw [if_pos hne]
      refine (hdrop.detachClientLease c).attach (fun j hj => ?_) hpend
      rw [detachClientLease_leases, Attachments.Inverse.keyOf_detach, if_pos rfl] at hj
      nomatch hj
    · rw [if_neg hne]
      refine hdrop.attach (fun j hj => ?_) hpend
      rw [← Option.some.inj (hprev.symm.trans hj)]
      exact not_not.mp hne

/-! ### The operations -/

theorem revokeStale (h : s.LeaseInv pending) (keys : List String) :
    (keys.foldl AnalysisService.revokeStale s).LeaseInv pending := by
  induction keys generalizing s with
  | nil => exact h
  | cons k keys ih =>
    have hone : (s.revokeStale k).LeaseInv pending :=
      (h.revoke k).of_wanted rfl rfl fun _ hj => hj
    exact ih hone

theorem dropMismatchedItem (h : s.LeaseInv pending) (key : String) (p : AnalysisPayload) :
    (s.dropMismatchedItem key p).LeaseInv pending := by
  rw [AnalysisService.dropMismatchedItem]
  split
  · split
    · exact h
    · exact h.of_wanted rfl rfl fun _ hj => hj
  · exact h

theorem registerPayload (h : s.LeaseInv none) (c key : String) (sequence : ℕ)
    (payload : AnalysisPayload) (now : ℚ) (seen : ChartReads) :
    (s.registerPayload cfg c key sequence payload now seen).LeaseInv none := by
  unfold AnalysisService.registerPayload
  extract_lets s₁ captured canonical s₂ s₃ s₄ s₅ s₆
  have h₂ : s₂.LeaseInv none := h.of_wanted rfl rfl fun _ hj => hj
  have h₃ : s₃.LeaseInv none := by
    dsimp only [s₃]
    split
    · exact h₂.revoke key
    · exact h₂
  have h₄ : s₄.LeaseInv none := h₃.revokeStale _
  have h₅ : s₅.LeaseInv (some key) :=
    { inverse := h₄.inverse
      held := fun k hk => (Dict.mem_keys_insert.mp hk).imp (fun hkey => congrArg some hkey)
        fun hmem => (h₄.held k hmem).resolve_left nofun
      marked := h₄.marked }
  exact (h₅.attachClientLease c sequence now).dropMismatchedItem key canonical

theorem registerWanted (h : s.LeaseInv none) (c key : String) (sequence : ℕ)
    (payload : AnalysisPayload) (now : ℚ) (seen : ChartReads) :
    (s.registerWanted cfg c key sequence payload now seen).2.LeaseInv none := by
  have hprune := h.pruneClientHighwaters now
  rw [registerWanted_state]
  split
  · exact hprune.registerPayload c key sequence payload now seen
  · exact hprune

/-- What a client that renews its lease has. -/
theorem of_heldItem {c key i r : String} {sequence : ℕ} {item : WantedItem}
    (hitem : s.heldItem c key sequence i r = some item) :
    s.wanted.get? key = some item ∧ s.leases.keyOf.get? c = some key ∧
      ∃ l, s.leases.lease? key c = some l ∧ l.sequence = sequence := by
  rw [heldItem] at hitem
  obtain ⟨item', hwanted, hitem⟩ := Option.bind_eq_some_iff.mp hitem
  obtain ⟨l, hl, hitem⟩ := Option.bind_eq_some_iff.mp hitem
  obtain ⟨hkey, hitem⟩ := guard_bind_eq_some.mp hitem
  cases hitem
  exact ⟨hwanted, hkey.1, l, hl, hkey.2.1⟩

theorem renewItem (h : s.LeaseInv none) {c key : String} {sequence : ℕ} {now : ℚ}
    {item : WantedItem} (hkey : s.leases.keyOf.get? c = some key) (hwanted : key ∈ s.wanted.keys) :
    (s.renewItem c key sequence now item).LeaseInv none := by
  have hattach := h.attach (l := ⟨sequence, now⟩)
    (fun j hj => Option.some.inj (hj.symm.trans hkey)) nofun
  refine hattach.of_wanted rfl rfl fun k hk => ?_
  exact (Dict.mem_keys_insert.mp hk).elim (fun heq => heq ▸ hwanted) id

theorem renewClientLease (h : s.LeaseInv none) (c key : String) (sequence : ℕ) (i r : String)
    (now : ℚ) : (s.renewClientLease cfg c key sequence i r now).2.LeaseInv none := by
  have hprune : (s.pruneClientLeases cfg now).LeaseInv none := h.pruneClientLeases now
  rw [AnalysisService.renewClientLease]
  cases hitem : (s.pruneClientLeases cfg now).heldItem c key sequence i r with
  | none => exact hprune
  | some item =>
    obtain ⟨hwanted, hkey, -⟩ := of_heldItem hitem
    exact hprune.renewItem hkey (Dict.mem_keys_of_get? hwanted)

theorem dropAgedItem (h : s.LeaseInv none) (key : String) (now : ℚ) (r : AnalysisRequest) :
    (s.dropAgedItem cfg key now r).LeaseInv none := by
  rw [AnalysisService.dropAgedItem]
  split
  · split
    · exact h.of_wanted rfl rfl fun _ hj => hj
    · exact h
  · exact h

theorem refreshClientAnalysis (h : s.LeaseInv none) (c key : String) (sequence : ℕ)
    (i r version : String) (now : ℚ) :
    (s.refreshClientAnalysis cfg c key sequence i r version now).2.LeaseInv none := by
  have hprune : (s.pruneClientLeases cfg now).LeaseInv none := h.pruneClientLeases now
  rw [AnalysisService.refreshClientAnalysis]
  cases hitem : (s.pruneClientLeases cfg now).heldItem c key sequence i r with
  | none => exact hprune
  | some item =>
    obtain ⟨hwanted, hkey, -⟩ := of_heldItem hitem
    exact (hprune.renewItem hkey (Dict.mem_keys_of_get? hwanted)).dropAgedItem key now _

theorem releaseClientLease (h : s.LeaseInv none) (c : String) (sequence : ℕ) (now : ℚ) :
    (s.releaseClientLease c sequence now).2.LeaseInv none := by
  unfold AnalysisService.releaseClientLease
  extract_lets currentLease currentSequence highestSequence s'
  split
  · exact h
  · have hs : s'.LeaseInv none := by
      dsimp only [s']
      split
      · exact h.detachClientLease c
      · exact h
    -- the client has no lease any more, so its mark may be anything
    have hfree : ∀ k, s'.leases.lease? k c = none := by
      intro k
      refine hs.inverse.lease?_eq_none fun hk => ?_
      dsimp only [s'] at hk
      split at hk
      · rw [detachClientLease_leases, Attachments.Inverse.keyOf_detach, if_pos rfl] at hk
        cases hk
      · rename_i hnone
        have hlease := (h.inverse.iff c k).mp hk
        refine hnone ?_
        dsimp only [currentLease]
        rw [hk]
        exact hlease
    refine ⟨hs.inverse, hs.held, fun k c' l hl => ?_⟩
    have hne : c' ≠ c := by
      rintro rfl
      cases hl.symm.trans (hfree k)
    rw [Dict.get?_insert_of_ne _ hne]
    exact hs.marked k c' l hl

theorem invalidateKey (h : s.LeaseInv none) (k : String) : (s.invalidateKey k).LeaseInv none := by
  have hdrop : LeaseInv { s with leases := s.leases.dropKey k, wanted := s.wanted.erase k } none :=
    { inverse := h.inverse.dropKey k
      held := fun j hj => by
        obtain ⟨hne, hmem⟩ := Dict.mem_keys_erase.mp hj
        exact (h.held j hmem).imp_right fun hm => Attachments.mem_members_dropKey.mpr ⟨hne, hm⟩
      marked := fun j c l hl => by
        rw [Attachments.lease?_dropKey] at hl
        split_ifs at hl
        exact h.marked j c l hl }
  refine hdrop.of_wanted ?_ ?_ fun j hj => ?_
  · exact revoke_leases (s := { s with leases := s.leases.dropKey k }) k
  · exact revoke_highwater (s := { s with leases := s.leases.dropKey k }) k
  · have hw : (s.invalidateKey k).wanted = s.wanted.erase k :=
      revoke_wanted (s := { s with leases := s.leases.dropKey k }) k
    rw [hw] at hj
    exact hj

theorem invalidateProviderSessionRoute (h : s.LeaseInv none) (i r : String) :
    (s.invalidateProviderSessionRoute i r).LeaseInv none := by
  rw [AnalysisService.invalidateProviderSessionRoute]
  generalize s.routeKeys i r = keys
  induction keys generalizing s with
  | nil => exact h
  | cons k keys ih => exact ih (h.invalidateKey k)

theorem advanceKey (h : s.LeaseInv none) (scope : ContextKey) (g : ℕ) (now : ℚ)
    (seen : String → ChartReads) (k : String) :
    (AnalysisService.advanceKey cfg scope g now seen s k).LeaseInv none := by
  rw [AnalysisService.advanceKey]
  cases hitem : s.wanted.get? k with
  | none => exact h
  | some item =>
    dsimp only
    split
    · refine h.of_wanted (cancelRunning_leases k) (cancelRunning_highwater k) fun j hj => ?_
      rw [cancelRunning_wanted] at hj
      exact (Dict.mem_keys_insert.mp hj).elim (fun heq => heq ▸ Dict.mem_keys_of_get? hitem) id
    · exact h

theorem advanceKeys (h : s.LeaseInv none) (scope : ContextKey) (g : ℕ) (now : ℚ)
    (seen : String → ChartReads) (keys : List String) :
    (keys.foldl (AnalysisService.advanceKey cfg scope g now seen) s).LeaseInv none := by
  induction keys generalizing s with
  | nil => exact h
  | cons k keys ih => exact ih (h.advanceKey scope g now seen k)

theorem confirmedBarContextAdvanced (h : s.LeaseInv none) (scope : ContextKey) (g : ℕ) (now : ℚ)
    (seen : String → ChartReads) :
    (s.confirmedBarContextAdvanced cfg scope g now seen).LeaseInv none := by
  rw [AnalysisService.confirmedBarContextAdvanced]
  split
  · exact h
  · have hraise : LeaseInv { s with contexts := s.contexts.insert scope g } none :=
      h.of_wanted rfl rfl fun _ hj => hj
    exact hraise.advanceKeys scope g now seen _

theorem popDoneTasks (h : s.LeaseInv none) : s.popDoneTasks.LeaseInv none := by
  rw [AnalysisService.popDoneTasks]
  generalize (s.tasks.select fun _ j => !s.isRunning j).map Prod.fst = keys
  induction keys generalizing s with
  | nil => exact h
  | cons k keys ih => exact ih (s := s.popTask k) (h.of_wanted rfl rfl fun _ hj => hj)

theorem completeJob (h : s.LeaseInv none) (j : ℕ) (job : AnalysisJob) (outcome : JobOutcome)
    (now : ℚ) (seen : ChartReads) (views : ℕ → ChartTable) :
    (s.completeJob cfg j job outcome now seen views).LeaseInv none := by
  refine completeJob_cases (P := fun t => t.LeaseInv none) (fun _ => ?_) (fun _ => ?_)
    (fun _ w item _ _ _ => ?_) (fun _ => ?_) (fun _ w contextMatches hreq => ?_) (fun _ => ?_)
  case refine_1 | refine_2 | refine_3 | refine_4 => exact h.of_wanted rfl rfl fun _ hj => hj
  case refine_5 =>
    have hw : job.key ∈ s.wanted.keys := Dict.mem_keys_of_get? (of_requestCurrent hreq).1
    rw [AnalysisService.retryItem]
    split <;> exact h.of_wanted rfl rfl fun k hk =>
      (Dict.mem_keys_insert.mp hk).elim (fun heq => heq ▸ hw) id
  case refine_6 => exact h.of_wanted rfl rfl fun _ hj => (Dict.mem_keys_erase.mp hj).2

theorem startJob (h : s.LeaseInv none) {k : String} (hstart : s.startJob k = some t) :
    t.LeaseInv none := by
  rw [AnalysisService.startJob] at hstart
  obtain ⟨item, -, hstart⟩ := Option.bind_eq_some_iff.mp hstart
  obtain ⟨-, hstart⟩ := guard_bind_eq_some.mp hstart
  cases hstart
  exact h.of_wanted rfl rfl fun _ hj => hj

theorem awaitFailedJob (h : s.LeaseInv none) {k i r : String} {retryable : Bool} {now : ℚ}
    (hawait : s.awaitFailedJob cfg k i r retryable now = some t) : t.LeaseInv none := by
  rw [AnalysisService.awaitFailedJob] at hawait
  obtain ⟨j, -, hawait⟩ := Option.bind_eq_some_iff.mp hawait
  obtain ⟨job, -, hawait⟩ := Option.bind_eq_some_iff.mp hawait
  obtain ⟨-, hawait⟩ := guard_bind_eq_some.mp hawait
  cases hawait
  split <;> exact h.of_wanted rfl rfl fun _ hj => hj

theorem snapshot (h : s.LeaseInv none) (k i r : String) (views : ℕ → ChartTable) :
    (s.snapshot k i r views).2.LeaseInv none := by
  have hs : ∀ cached : Option CacheItem,
      LeaseInv (if cached = none then { s with cache := s.cache.erase k } else s) none := by
    intro cached
    split
    · exact h.of_wanted rfl rfl fun _ hj => hj
    · exact h
  unfold AnalysisService.snapshot
  split
  · exact h
  · extract_lets cached s'
    split
    · split
      · exact hs _
      · exact hs _
    · exact hs _

end LeaseInv

/-- Every section keeps the bookkeeping. -/
theorem leaseInv_step {chart : ℕ → ChartTable} {a : AnalysisAct} (h : s.LeaseInv none)
    (hstep : StepOf (analysisStep cfg chart) s a t) : t.LeaseInv none := by
  cases a with
  | register c k n p now seen =>
    obtain ⟨-, hstep⟩ := guard_bind_eq_some.mp hstep
    exact Option.some.inj hstep ▸ h.registerWanted c k n p now seen
  | renew c k n i r now =>
    obtain ⟨-, hstep⟩ := guard_bind_eq_some.mp hstep
    exact Option.some.inj hstep ▸ h.renewClientLease c k n i r now
  | refresh c k n i r version now =>
    obtain ⟨-, hstep⟩ := guard_bind_eq_some.mp hstep
    exact Option.some.inj hstep ▸ h.refreshClientAnalysis c k n i r version now
  | release c n now =>
    obtain ⟨-, hstep⟩ := guard_bind_eq_some.mp hstep
    exact Option.some.inj hstep ▸ h.releaseClientLease c n now
  | invalidate i r => exact Option.some.inj hstep ▸ h.invalidateProviderSessionRoute i r
  | advance scope g now seen =>
    obtain ⟨-, hstep⟩ := guard_bind_eq_some.mp hstep
    exact Option.some.inj hstep ▸ h.confirmedBarContextAdvanced scope g now seen
  | sweep now => exact Option.some.inj hstep ▸ h.popDoneTasks.pruneClientLeases now
  | start k => exact h.startJob hstep
  | complete j outcome now seen delays =>
    obtain ⟨job, -, hstep⟩ := Option.bind_eq_some_iff.mp hstep
    obtain ⟨-, hstep⟩ := guard_bind_eq_some.mp hstep
    cases hstep
    exact (h.completeJob j job outcome now seen _).of_wanted rfl rfl fun _ hj => hj
  | exit j failed =>
    obtain ⟨job, -, hstep⟩ := Option.bind_eq_some_iff.mp hstep
    obtain ⟨-, hstep⟩ := guard_bind_eq_some.mp hstep
    cases hstep
    exact h.of_wanted rfl rfl fun _ hj => hj
  | awaitFailed k i r retryable now => exact h.awaitFailedJob hstep
  | snapshot k i r delays =>
    cases hstep
    exact (h.snapshot k i r _).of_wanted rfl rfl fun _ hj => hj

theorem leaseInv_run {chart : ℕ → ChartTable} {as : List AnalysisAct}
    (h : Run (StepOf (analysisStep cfg chart)) .initial as s) : s.LeaseInv none := by
  have hkeep : ∀ s a t, LeaseInv s none → StepOf (analysisStep cfg chart) s a t →
      LeaseInv t none := fun _ _ _ hs hstep => leaseInv_step hs hstep
  have hlast := h.invariant hkeep LeaseInv.initial
  exact hlast

end AnalysisService

end AefTerminal
