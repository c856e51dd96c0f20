import AefTerminal.Analysis.Leases

/-!
# Jobs, demand and results

Most sections only take away: demand, registrations, cached items, the right of a job to store.
`Drops s t` says so, and with it that the invariants of this file go through. What is left are the
sections that want something or store something.

Payloads are compared in one direction. `Agrees a b` says that `a` has the parent generation of `b`,
the contexts that `b` names, and its market version, where that has a field besides the client's.
A refresh changes the client's field only, and a payload without market version asks for none.

## Main results

* `Drops.resultInv`: what a section that only takes away keeps
* `resultInv_step`, `resultInv_run`: active jobs are wanted, cached items fit what is wanted, and a
  job's item is stored once the job is done and never after it was cancelled
-/

namespace AefTerminal

open Foundation

/-! ### Payloads -/

/-- What was captured as `a` answers what is asked for as `b`. -/
structure Captured.Agrees (a b : Captured) : Prop where
  parent : a.parentCanonicalGeneration = b.parentCanonicalGeneration
  contexts : ∀ e, b.confirmedBarContextGenerations = some e →
    a.confirmedBarContextGenerations = some e
  market : ∀ m, b.marketVersion = some m → m.fields ≠ [] →
    ∃ m', a.marketVersion = some m' ∧ m'.fields = m.fields

namespace Captured.Agrees

variable {a b c : Captured}

theorem refl (a : Captured) : a.Agrees a := ⟨rfl, fun _ h => h, fun m h _ => ⟨m, h, rfl⟩⟩

theorem trans (h : a.Agrees b) (k : b.Agrees c) : a.Agrees c where
  parent := h.parent.trans k.parent
  contexts e he := h.contexts e (k.contexts e he)
  market m hm hne := by
    obtain ⟨m', hm', heq⟩ := k.market m hm hne
    obtain ⟨m'', hm'', heq'⟩ := h.market m' hm' (heq ▸ hne)
    exact ⟨m'', hm'', heq'.trans heq⟩

/-- The check of the source is at least as strict. -/
theorem of_matches {p : AnalysisPayload} (h : cacheMatchesPayloadContext a p = true) :
    a.Agrees p.captured := by
  rw [cacheMatchesPayloadContext] at h
  cases hparent : p.parentCanonicalGeneration with
  | none => rw [hparent] at h; nomatch h
  | some g =>
    rw [hparent] at h
    simp only [Bool.and_eq_true, decide_eq_true_eq] at h
    obtain ⟨⟨hp, hctx⟩, hmarket⟩ := h
    refine ⟨hp.trans hparent.symm, fun e he => ?_, fun m hm _ => ?_⟩
    · have he : p.confirmedBarContextGenerations = some e := he
      rw [he] at hctx
      exact of_decide_eq_true hctx
    · have hm : p.marketVersion = some m := hm
      rw [hm] at hmarket
      cases ha : a.marketVersion with
      | none => rw [ha] at hmarket; nomatch hmarket
      | some m' =>
        rw [ha] at hmarket
        exact ⟨m', rfl, of_decide_eq_true hmarket⟩

/-- Only the client's own field of the market version may have changed. -/
theorem withClientVersion (p : AnalysisPayload) (version : String) :
    p.captured.Agrees (AnalysisService.withClientVersion p version).captured := by
  rw [AnalysisService.withClientVersion]
  split
  · exact refl _
  · refine ⟨rfl, fun _ h => h, fun m hm hne => ?_⟩
    cases hm
    cases hp : p.marketVersion with
    | none => rw [hp] at hne; exact absurd rfl hne
    | some m' => exact ⟨m', hp, by simp⟩

end Captured.Agrees

/-- A cached item may stand under a wanted payload. An error item captured no parent. -/
structure CacheItem.Fits (c : CacheItem) (p : Captured) : Prop where
  parent : ∀ g, c.captured.parentCanonicalGeneration = some g → p.parentCanonicalGeneration = some g
  contexts : ∀ e e', p.confirmedBarContextGenerations = some e →
    c.captured.confirmedBarContextGenerations = some e' → e' = e
  ready : c.isReady → c.captured.Agrees p

namespace CacheItem.Fits

variable {c : CacheItem} {p q : Captured}

theorem of_agrees (h : c.captured.Agrees p) : c.Fits p where
  parent _ hg := h.parent ▸ hg
  contexts e _ he he' := Option.some.inj (he'.symm.trans (h.contexts e he))
  ready _ := h

theorem trans (h : c.Fits p) (k : p.Agrees q) : c.Fits q where
  parent g hg := k.parent ▸ h.parent g hg
  contexts e e' he he' := h.contexts e e' (k.contexts e he) he'
  ready hr := (h.ready hr).trans k

end CacheItem.Fits

/-- A payload after it was prepared. -/
structure AnalysisPayload.Prepared (p : AnalysisPayload) : Prop where
  parent : p.parentCanonicalGeneration.isSome
  contexts : p.confirmedBarContextGenerations = none → p.request.contextTimeframes = []

theorem AnalysisPayload.prepared_prepared (m : ContextGenerations) (seen : ChartReads)
    (p : AnalysisPayload) : (p.prepared m seen).Prepared where
  parent := rfl
  contexts h := by
    rw [AnalysisPayload.prepared] at h
    dsimp only at h
    split_ifs at h with hnil
    exact hnil

theorem AnalysisPayload.Prepared.withClientVersion {p : AnalysisPayload} (h : p.Prepared)
    (version : String) : (AnalysisService.withClientVersion p version).Prepared := by
  rw [AnalysisService.withClientVersion]
  split
  · exact h
  · exact ⟨h.parent, h.contexts⟩

/-- What a ready item of a job with this payload says that it captured. -/
def AnalysisPayload.stored (p : AnalysisPayload) : Captured :=
  { p.captured with
    confirmedBarContextGenerations := some (p.confirmedBarContextGenerations.getD []) }

/-- `b` is `a`, some sections later. -/
structure AnalysisJob.Later (a b : AnalysisJob) : Prop where
  key : b.key = a.key
  payload : b.payload = a.payload
  done : a.done = true → b = a
  cancelled : a.cancelled = true → b.cancelled = true

namespace AnalysisJob.Later

theorem refl (a : AnalysisJob) : a.Later a := ⟨rfl, rfl, fun _ => rfl, id⟩

theorem trans {a b c : AnalysisJob} (h : a.Later b) (k : b.Later c) : a.Later c where
  key := k.key.trans h.key
  payload := k.payload.trans h.payload
  done ha := (k.done (h.done ha ▸ ha)).trans (h.done ha)
  cancelled ha := k.cancelled (h.cancelled ha)

end AnalysisJob.Later

namespace AnalysisService

variable {s t u : AnalysisService} {cfg : AnalysisConfig}

/-! ### The invariants -/

/-- Registrations name jobs of their key, and a job that may still store is registered, wanted, and
was asked for what is wanted now. -/
structure WorkInv (s : AnalysisService) : Prop where
  registered : ∀ k j, s.tasks.get? k = some j → ∃ job, s.jobs.get? j = some job ∧ job.key = k
  fresh : ∀ j job, s.jobs.get? j = some job → j < s.nextJob
  active : ∀ j job, s.jobs.get? j = some job → job.done = false → job.cancelled = false →
    s.tasks.get? job.key = some j ∧
      ∃ w, s.wanted.get? job.key = some w ∧ job.payload.captured.Agrees w.payload.captured
  prepared : ∀ j job, s.jobs.get? j = some job → job.payload.Prepared

/-- A cached item of a job was stored when that job ended, uncancelled. -/
structure Stored (s : AnalysisService) (k : String) (c : CacheItem) : Prop where
  job : ∀ j, c.job = some j → ∃ job, s.jobs.get? j = some job ∧ job.done = true ∧
    job.cancelled = false ∧ job.key = k ∧ (c.isReady → c.captured = job.payload.stored)
  ready : c.isReady → c.job.isSome

structure ResultInv (s : AnalysisService) : Prop where
  work : s.WorkInv
  fits : ∀ k c w, s.cache.get? k = some c → s.wanted.get? k = some w → c.Fits w.payload.captured
  stored : ∀ k c, s.cache.get? k = some c → s.Stored k c
  prepared : ∀ k w, s.wanted.get? k = some w → w.payload.Prepared

variable {k : String} {c : CacheItem}

theorem Stored.later (h : s.Stored k c)
    (hj : ∀ j job, s.jobs.get? j = some job → ∃ job', t.jobs.get? j = some job' ∧ job.Later job') :
    t.Stored k c where
  job j hcj := by
    obtain ⟨job, hjob, hdone, hrest⟩ := h.job j hcj
    obtain ⟨job', hjob', hlater⟩ := hj j job hjob
    obtain rfl := hlater.done hdone
    exact ⟨job', hjob', hdone, hrest⟩
  ready := h.ready

/-! ### Sections that only take away -/

/-- From `s` to `t` demand, items and rights to store may have gone, nothing else happened. -/
structure Drops (s t : AnalysisService) : Prop where
  wanted : ∀ k w, t.wanted.get? k = some w → s.wanted.get? k = some w
  cache : ∀ k c, t.cache.get? k = some c → s.cache.get? k = some c
  contexts : t.contexts = s.contexts
  jobs : ∀ j job, s.jobs.get? j = some job → ∃ job', t.jobs.get? j = some job' ∧ job.Later job'
  work : s.WorkInv → t.WorkInv

namespace Drops

theorem refl (s : AnalysisService) : Drops s s :=
  ⟨fun _ _ h => h, fun _ _ h => h, rfl, fun _ job h => ⟨job, h, .refl job⟩, id⟩

theorem trans (h : Drops s t) (k : Drops t u) : Drops s u where
  wanted j w hw := h.wanted j w (k.wanted j w hw)
  cache j c hc := h.cache j c (k.cache j c hc)
  contexts := k.contexts.trans h.contexts
  jobs j job hj := by
    obtain ⟨job', hjob', hlater⟩ := h.jobs j job hj
    obtain ⟨job'', hjob'', hlater'⟩ := k.jobs j job' hjob'
    exact ⟨job'', hjob'', hlater.trans hlater'⟩
  work hs := k.work (h.work hs)

theorem foldl {α : Type*} {f : AnalysisService → α → AnalysisService}
    (h : ∀ s a, Drops s (f s a)) (l : List α) (s : AnalysisService) : Drops s (l.foldl f s) := by
  induction l generalizing s with
  | nil => exact refl s
  | cons a l ih => exact (h s a).trans (ih (f s a))

theorem resultInv (h : Drops s t) (hs : s.ResultInv) : t.ResultInv where
  work := h.work hs.work
  fits k c w hc hw := hs.fits k c w (h.cache k c hc) (h.wanted k w hw)
  stored k c hc := (hs.stored k c (h.cache k c hc)).later h.jobs
  prepared k w hw := hs.prepared k w (h.wanted k w hw)

/-- Leases, marks and cached items go without any effect on the work. -/
theorem of_cache {cache : Dict String CacheItem} {leases : Attachments String String ClientLease}
    {highwater : Dict String ClientLease} {clock : ℕ}
    (h : ∀ k c, cache.get? k = some c → s.cache.get? k = some c) :
    Drops s { s with cache, leases, highwater, clock } where
  wanted _ _ hw := hw
  cache := h
  contexts := rfl
  jobs _ job hj := ⟨job, hj, .refl job⟩
  work hs := ⟨hs.registered, hs.fresh, hs.active, hs.prepared⟩

theorem dropItem (k : String) : Drops s (s.dropItem k) :=
  of_cache fun j c hc => by
    rw [Dict.get?_erase] at hc
    split_ifs at hc
    exact hc

end Drops

/-! ### Cancelling and revoking -/

@[simp] theorem cancelRunning_fields (k : String) : (s.cancelRunning k).cache = s.cache ∧
    (s.cancelRunning k).contexts = s.contexts ∧ (s.cancelRunning k).tasks = s.tasks ∧
    (s.cancelRunning k).nextJob = s.nextJob := by
  rw [cancelRunning]
  split
  · split
    · rw [cancelTask]; split <;> exact ⟨rfl, rfl, rfl, rfl⟩
    · exact ⟨rfl, rfl, rfl, rfl⟩
  · exact ⟨rfl, rfl, rfl, rfl⟩

variable {j : ℕ}

theorem isRunning_eq_true : s.isRunning j = true ↔
    ∃ job, s.jobs.get? j = some job ∧ job.done = false := by
  rw [isRunning]
  cases s.jobs.get? j with
  | none => simp
  | some job => simp

theorem jobs_cancelRunning (k : String) (j : ℕ) : (s.cancelRunning k).jobs.get? j =
    if s.tasks.get? k = some j ∧ s.isRunning j = true then
      (s.jobs.get? j).map fun job => { job with cancelled := true }
    else s.jobs.get? j := by
  rw [cancelRunning]
  cases htask : s.tasks.get? k with
  | none => simp
  | some j' =>
    dsimp only
    by_cases hrun : s.isRunning j' = true
    · obtain ⟨job, hjob, -⟩ := isRunning_eq_true.mp hrun
      rw [if_pos hrun, cancelTask, hjob]
      dsimp only
      by_cases hjj : j = j'
      · subst hjj
        rw [Dict.get?_insert_self, if_pos ⟨rfl, hrun⟩, hjob]
        rfl
      · rw [Dict.get?_insert_of_ne _ hjj, if_neg fun h => hjj (Option.some.inj h.1).symm]
    · rw [if_neg hrun, if_neg]
      rintro ⟨hjj, hrun'⟩
      exact hrun (Option.some.inj hjj ▸ hrun')

/-- What the cancellation of a key's task does to the jobs. -/
theorem later_cancelRunning (k : String) (j : ℕ) (job : AnalysisJob)
    (hj : s.jobs.get? j = some job) :
    ∃ job', (s.cancelRunning k).jobs.get? j = some job' ∧ job.Later job' := by
  rw [jobs_cancelRunning]
  split
  · rename_i hrun
    rw [hj]
    refine ⟨_, rfl, rfl, rfl, fun hdone => ?_, fun _ => rfl⟩
    obtain ⟨job', hjob', hfalse⟩ := isRunning_eq_true.mp hrun.2
    rw [Option.some.inj (hjob'.symm.trans hj), hdone] at hfalse
    cases hfalse
  · exact ⟨job, hj, .refl job⟩

/-- The jobs after a cancellation come from jobs with the same key and payload, and an uncancelled
one is unchanged and not a running task of the key. -/
theorem of_jobs_cancelRunning {job : AnalysisJob}
    (hj : (s.cancelRunning k).jobs.get? j = some job) :
    ∃ job', s.jobs.get? j = some job' ∧ job.key = job'.key ∧ job.payload = job'.payload ∧
      (job.done = false → job.cancelled = false → job = job' ∧ s.tasks.get? k ≠ some j) := by
  rw [jobs_cancelRunning] at hj
  split_ifs at hj with hrun
  · obtain ⟨job', hjob', rfl⟩ := Option.map_eq_some_iff.mp hj
    exact ⟨job', hjob', rfl, rfl, fun _ hc => by cases hc⟩
  · refine ⟨job, hj, rfl, rfl, fun hdone _ => ⟨rfl, fun htask => hrun ⟨htask, ?_⟩⟩⟩
    exact isRunning_eq_true.mpr ⟨job, hj, hdone⟩

variable {contexts : ContextGenerations} {wanted : Dict String WantedItem}

/-- The task of a key is cancelled. What was wanted under that key may be anything now. -/
theorem WorkInv.cancelRunning (h : s.WorkInv) (k : String)
    (hw : ∀ k' ≠ k, wanted.get? k' = s.wanted.get? k') {cache : Dict String CacheItem} :
    ({ s with wanted, cache, contexts }.cancelRunning k).WorkInv where
  registered k' j hj := by
    rw [(cancelRunning_fields k).2.2.1] at hj
    obtain ⟨job, hjob, hkey⟩ := h.registered k' j hj
    obtain ⟨job', hjob', hlater⟩ := later_cancelRunning
      (s := { s with wanted, cache, contexts }) k j job hjob
    exact ⟨job', hjob', hlater.key.trans hkey⟩
  fresh j job hj := by
    obtain ⟨job', hjob', -⟩ := of_jobs_cancelRunning hj
    rw [(cancelRunning_fields k).2.2.2]
    exact h.fresh j job' hjob'
  active j job hj hdone hcancelled := by
    obtain ⟨job', hjob', -, -, hsame⟩ := of_jobs_cancelRunning hj
    obtain ⟨rfl, htask⟩ := hsame hdone hcancelled
    obtain ⟨hown, w, hwanted, hag⟩ := h.active j job hjob' hdone hcancelled
    have hne : job.key ≠ k := fun heq => htask (heq ▸ hown)
    rw [(cancelRunning_fields k).2.2.1, cancelRunning_wanted]
    exact ⟨hown, w, (hw job.key hne).trans hwanted, hag⟩
  prepared j job hj := by
    obtain ⟨job', hjob', -, hpayload, -⟩ := of_jobs_cancelRunning hj
    exact hpayload ▸ h.prepared j job' hjob'

/-- A registration that is not of a running task goes, and with it any demand of its key. -/
theorem WorkInv.popTask (h : s.WorkInv) (hk : s.taskRunning k = false)
    (hw : ∀ k' ≠ k, wanted.get? k' = s.wanted.get? k') :
    ({ s with wanted }.popTask k).WorkInv where
  registered k' j hj := by
    have hj : (s.tasks.erase k).get? k' = some j := hj
    rw [Dict.get?_erase] at hj
    split_ifs at hj
    exact h.registered k' j hj
  fresh := h.fresh
  active j job hj hdone hcancelled := by
    obtain ⟨hown, w, hwanted, hag⟩ := h.active j job hj hdone hcancelled
    have hne : job.key ≠ k := by
      rintro rfl
      have hrun : s.isRunning j = true := isRunning_eq_true.mpr ⟨job, hj, hdone⟩
      rw [taskRunning, hown, Option.map_some, Option.getD_some, hrun] at hk
      cases hk
    exact ⟨(Dict.get?_erase_of_ne _ hne).trans hown, w, (hw job.key hne).trans hwanted, hag⟩
  prepared := h.prepared

theorem Drops.revoke (k : String) : Drops s (s.revoke k) := by
  have hw : ∀ k' ≠ k, (s.wanted.erase k).get? k' = s.wanted.get? k' := fun k' hne =>
    Dict.get?_erase_of_ne _ hne
  have herase : ∀ k' w, (s.wanted.erase k).get? k' = some w → s.wanted.get? k' = some w := by
    intro k' w hget
    rw [Dict.get?_erase] at hget
    split_ifs at hget
    exact hget
  rw [revoke_eq]
  split
  · refine ⟨fun k' w hget => ?_, fun k' c hc => ?_, ?_,
      later_cancelRunning (s := { s with wanted := s.wanted.erase k }) k,
      fun hs => hs.cancelRunning k hw⟩
    · rw [cancelRunning_wanted] at hget
      exact herase k' w hget
    · rw [(cancelRunning_fields k).1] at hc
      exact hc
    · exact (cancelRunning_fields k).2.1
  · rename_i hrun
    exact ⟨herase, fun _ _ hc => hc, rfl, fun _ job hj => ⟨job, hj, .refl job⟩,
      fun hs => hs.popTask (Bool.not_eq_true _ ▸ hrun) hw⟩

/-! ### Sweeps and detachments -/

namespace Drops

theorem detachClientLease (c : String) : Drops s (s.detachClientLease c) := by
  have hleases : Drops s { s with leases := (s.leases.detach c).1 } := of_cache fun _ _ hc => hc
  rw [AnalysisService.detachClientLease]
  split
  · exact hleases.trans (revoke _)
  · exact hleases

theorem dropOrphanedClientLeases : Drops s s.dropOrphanedClientLeases := of_cache fun _ _ hc => hc

theorem pruneClientHighwaters (now : ℚ) : Drops s (s.pruneClientHighwaters now) :=
  of_cache fun _ _ hc => hc

theorem pruneClientLeases (now : ℚ) : Drops s (s.pruneClientLeases cfg now) :=
  (dropOrphanedClientLeases.trans (pruneClientHighwaters now)).trans
    (foldl (fun _ c => detachClientLease c) _ _)

theorem attachClientLease (c k : String) (n : ℕ) (now : ℚ) :
    Drops s (s.attachClientLease c k n now) := by
  rw [AnalysisService.attachClientLease]
  refine dropOrphanedClientLeases.trans ?_
  split
  · split
    · exact (detachClientLease c).trans (of_cache fun _ _ hc => hc)
    · exact of_cache fun _ _ hc => hc
  · exact of_cache fun _ _ hc => hc

theorem revokeStale (k : String) : Drops s (s.revokeStale k) := (revoke k).trans (dropItem k)

theorem invalidateKey (k : String) : Drops s (s.invalidateKey k) := by
  have hleases : Drops s { s with leases := s.leases.dropKey k } := of_cache fun _ _ hc => hc
  exact (hleases.trans (revoke k)).trans (dropItem k)

theorem dropMismatchedItem (k : String) (p : AnalysisPayload) :
    Drops s (s.dropMismatchedItem k p) := by
  rw [AnalysisService.dropMismatchedItem]
  split
  · split
    · exact refl s
    · exact dropItem k
  · exact refl s

theorem dropAgedItem (k : String) (now : ℚ) (r : AnalysisRequest) :
    Drops s (s.dropAgedItem cfg k now r) := by
  rw [AnalysisService.dropAgedItem]
  split
  · split
    · exact dropItem k
    · exact refl s
  · exact refl s

theorem popTask {k : String} (hk : s.taskRunning k = false) : Drops s (s.popTask k) :=
  ⟨fun _ _ hw => hw, fun _ _ hc => hc, rfl, fun _ job hj => ⟨job, hj, .refl job⟩,
    fun hs => hs.popTask hk fun _ _ => rfl⟩

theorem popTasks (keys : List String) (hk : ∀ k ∈ keys, s.taskRunning k = false) :
    Drops s (keys.foldl AnalysisService.popTask s) := by
  induction keys generalizing s with
  | nil => exact refl s
  | cons k keys ih =>
    obtain ⟨hone, hrest⟩ := List.forall_mem_cons.mp hk
    refine (popTask hone).trans (ih fun j hj => ?_)
    have hget : (s.tasks.erase k).get? j = if j = k then none else s.tasks.get? j :=
      Dict.get?_erase ..
    rw [taskRunning, AnalysisService.popTask]
    dsimp only
    rw [hget]
    split
    · rfl
    · exact hrest j hj

theorem popDoneTasks : Drops s s.popDoneTasks := by
  refine popTasks _ fun k hk => ?_
  obtain ⟨⟨k', j⟩, hsel, rfl⟩ := List.mem_map.mp hk
  obtain ⟨htask, hdone⟩ := Dict.mem_select.mp hsel
  rw [taskRunning, htask]
  simpa using hdone

end Drops

/-! ### The trim -/

variable {d : Dict String CacheItem}

theorem of_get?_eraseAll {keys : List String}
    (h : (d.eraseAll keys).get? k = some c) : d.get? k = some c := by
  rw [Dict.get?_eraseAll] at h
  split_ifs at h
  exact h

theorem of_get?_trimBytes {maxBytes : ℕ} {l : List (String × CacheItem)} {total : ℕ}
    (h : (trimBytes maxBytes d total l).get? k = some c) : d.get? k = some c := by
  induction l generalizing d total with
  | nil => exact h
  | cons e l ih =>
    rw [trimBytes] at h
    split at h
    · exact h
    · have hget := ih h
      rw [Dict.get?_erase] at hget
      split_ifs at hget
      exact hget

/-- A trim only removes. -/
theorem of_get?_trim {now : ℚ} {keys : List String}
    (h : (trimMarketAnalysisCache cfg now keys d).get? k = some c) :
    d.get? k = some c :=
  of_get?_eraseAll (of_get?_eraseAll (of_get?_trimBytes h))

/-! ### Registrations -/

/-- A registration raises the shared generations, takes demand away, writes its own demand, and
takes away once more. What it leaves of the old demand of its key agrees with the new one, and an
item that it leaves there fits. -/
theorem registerPayload_parts (cfg : AnalysisConfig) (s : AnalysisService) (c key : String) (n : ℕ)
    (payload : AnalysisPayload) (now : ℚ) (seen : ChartReads) :
    ∃ u, Drops { s with contexts := raiseGenerations s.contexts seen payload.request } u ∧
      (∀ w, u.wanted.get? key = some w →
        w.payload.captured.Agrees (payload.prepared s.contexts seen).captured) ∧
      Drops { u with wanted := u.wanted.insert key ⟨payload.prepared s.contexts seen, now, none⟩ }
        (s.registerPayload cfg c key n payload now seen) ∧
      ∀ item, (s.registerPayload cfg c key n payload now seen).cache.get? key = some item →
        cacheMatchesPayloadContext item.captured (payload.prepared s.contexts seen) = true := by
  unfold AnalysisService.registerPayload
  extract_lets s₁ captured canonical s₂ s₃ s₄ s₅ s₆
  have h₂ : Drops { s with contexts := raiseGenerations s.contexts seen payload.request } s₂ :=
    .of_cache fun _ _ hc => of_get?_trim hc
  have h₃ : Drops s₂ s₃ := by
    dsimp only [s₃]
    split
    · exact .revoke key
    · exact .refl s₂
  have h₃₄ : Drops s₃ s₄ := .foldl (fun _ k => .revokeStale k) _ _
  have h₄ : Drops s₂ s₄ := h₃.trans h₃₄
  have h₆ : Drops s₅ s₆ := .attachClientLease c key n now
  refine ⟨s₄, h₂.trans h₄, fun w hw => ?_, h₆.trans (.dropMismatchedItem key canonical),
    fun item hc => ?_⟩
  · -- what is still wanted under the key was not superseded
    refine .of_matches ?_
    by_contra hsup
    have hrev : s₃ = s₂.revoke key := by
      dsimp only [s₃]
      rw [if_pos]
      rw [payloadSuperseded, h₄.wanted key w hw]
      exact Bool.not_eq_true' _ |>.mpr (Bool.not_eq_true _ ▸ hsup)
    have hw₃ : s₃.wanted.get? key = some w := h₃₄.wanted key w hw
    rw [hrev, revoke_wanted, Dict.get?_erase_self] at hw₃
    cases hw₃
  · rw [AnalysisService.dropMismatchedItem] at hc
    cases hcached : s₆.cache.get? key with
    | none =>
      rw [hcached] at hc
      cases hcached.symm.trans hc
    | some cached =>
      rw [hcached] at hc
      dsimp only at hc
      split_ifs at hc with hmatch
      · exact Option.some.inj (hcached.symm.trans hc) ▸ hmatch
      · simp at hc

section Registration

variable {c key : String} {n : ℕ} {payload : AnalysisPayload} {now : ℚ} {seen : ChartReads}

theorem contexts_registerPayload : (s.registerPayload cfg c key n payload now seen).contexts =
    raiseGenerations s.contexts seen payload.request := by
  obtain ⟨u, hu, -, hlast, -⟩ := registerPayload_parts cfg s c key n payload now seen
  exact hlast.contexts.trans hu.contexts

/-- What is wanted after a registration. -/
theorem wanted_registerPayload {k : String} {w : WantedItem}
    (hw : (s.registerPayload cfg c key n payload now seen).wanted.get? k = some w) :
    (k = key ∧ w.payload = payload.prepared s.contexts seen) ∨
      (k ≠ key ∧ s.wanted.get? k = some w) := by
  obtain ⟨u, hu, -, hlast, -⟩ := registerPayload_parts cfg s c key n payload now seen
  have hinsert : (u.wanted.insert key ⟨payload.prepared s.contexts seen, now, none⟩).get? k =
      some w := hlast.wanted k w hw
  rw [Dict.get?_insert] at hinsert
  split_ifs at hinsert with hk
  · exact Or.inl ⟨hk, (congrArg WantedItem.payload (Option.some.inj hinsert)).symm⟩
  · exact Or.inr ⟨hk, hu.wanted k w hinsert⟩

end Registration

/-! ### Sections that want something -/

/-- The demand of a key is replaced by one that its active job answers. -/
theorem WorkInv.insert (h : s.WorkInv) {w : WantedItem}
    (hag : ∀ w', s.wanted.get? k = some w' → w'.payload.captured.Agrees w.payload.captured)
    {leases : Attachments String String ClientLease} {highwater : Dict String ClientLease} :
    WorkInv { s with wanted := s.wanted.insert k w, leases, highwater, contexts } where
  registered := h.registered
  fresh := h.fresh
  active j job hj hdone hcancelled := by
    obtain ⟨hown, w', hwanted, hag'⟩ := h.active j job hj hdone hcancelled
    refine ⟨hown, ?_⟩
    dsimp only
    rw [Dict.get?_insert]
    by_cases hkey : job.key = k
    · rw [if_pos hkey]
      exact ⟨w, rfl, hag'.trans (hag w' (hkey ▸ hwanted))⟩
    · rw [if_neg hkey]
      exact ⟨w', hwanted, hag'⟩
  prepared := h.prepared

/-- The demand of a key changes to one that what was wanted answers. -/
theorem ResultInv.insert (h : s.ResultInv) {w w' : WantedItem}
    (hk : s.wanted.get? k = some w') (hag : w'.payload.captured.Agrees w.payload.captured)
    (hprep : w.payload.Prepared) {leases : Attachments String String ClientLease}
    {highwater : Dict String ClientLease} :
    ResultInv { s with wanted := s.wanted.insert k w, leases, highwater } where
  work := h.work.insert fun u hu => Option.some.inj (hk.symm.trans hu) ▸ hag
  fits k' c u hc hu := by
    have hu : (s.wanted.insert k w).get? k' = some u := hu
    rw [Dict.get?_insert] at hu
    split_ifs at hu with hkk
    · cases hu
      subst hkk
      exact (h.fits k' c w' hc hk).trans hag
    · exact h.fits k' c u hc hu
  stored k' c hc := ⟨(h.stored k' c hc).job, (h.stored k' c hc).ready⟩
  prepared k' u hu := by
    have hu : (s.wanted.insert k w).get? k' = some u := hu
    rw [Dict.get?_insert] at hu
    split_ifs at hu
    · exact Option.some.inj hu ▸ hprep
    · exact h.prepared k' u hu

namespace ResultInv

theorem initial : ResultInv .initial where
  work := ⟨fun _ _ h => by simp [AnalysisService.initial] at h,
    fun _ _ h => by simp [AnalysisService.initial] at h,
    fun _ _ h => by simp [AnalysisService.initial] at h,
    fun _ _ h => by simp [AnalysisService.initial] at h⟩
  fits _ _ _ h := by simp [AnalysisService.initial] at h
  stored _ _ h := by simp [AnalysisService.initial] at h
  prepared _ _ h := by simp [AnalysisService.initial] at h

theorem registerPayload (h : s.ResultInv) (c key : String) (n : ℕ) (payload : AnalysisPayload)
    (now : ℚ) (seen : ChartReads) :
    (s.registerPayload cfg c key n payload now seen).ResultInv := by
  have hprepared := payload.prepared_prepared s.contexts seen
  obtain ⟨u, hu, hagree, hlast, hitem⟩ := registerPayload_parts cfg s c key n payload now seen
  have hr : ResultInv { s with contexts := raiseGenerations s.contexts seen payload.request } :=
    ⟨⟨h.work.registered, h.work.fresh, h.work.active, h.work.prepared⟩, h.fits,
      fun k c hc => ⟨(h.stored k c hc).job, (h.stored k c hc).ready⟩, h.prepared⟩
  have hru := hu.resultInv hr
  refine ⟨hlast.work (hru.work.insert hagree), fun k c' w hc hw => ?_, fun k c' hc => ?_, fun k w hw => ?_⟩
  · obtain ⟨rfl, hpayload⟩ | ⟨-, hold⟩ := wanted_registerPayload hw
    · exact hpayload ▸ .of_agrees (.of_matches (hitem c' hc))
    · exact h.fits k c' w (hu.cache k c' (hlast.cache k c' hc)) hold
  · exact (hru.stored k c' (hlast.cache k c' hc)).later hlast.jobs
  · obtain ⟨-, hpayload⟩ | ⟨-, hold⟩ := wanted_registerPayload hw
    · exact hpayload ▸ hprepared
    · exact h.prepared k w hold

theorem registerWanted (h : s.ResultInv) (c key : String) (n : ℕ) (payload : AnalysisPayload)
    (now : ℚ) (seen : ChartReads) :
    (s.registerWanted cfg c key n payload now seen).2.ResultInv := by
  have hprune := (Drops.pruneClientHighwaters (s := s) now).resultInv h
  rw [registerWanted_state]
  split
  · exact hprune.registerPayload c key n payload now seen
  · exact hprune

theorem renewItem (h : s.ResultInv) {c key : String} {n : ℕ} {now : ℚ} {w w' : WantedItem}
    (hk : s.wanted.get? key = some w') (hag : w'.payload.captured.Agrees w.payload.captured)
    (hprep : w.payload.Prepared) : (s.renewItem c key n now w).ResultInv :=
  h.insert (w := { w with wantedAt := now }) hk hag hprep

theorem renewClientLease (h : s.ResultInv) (c key : String) (n : ℕ) (i r : String) (now : ℚ) :
    (s.renewClientLease cfg c key n i r now).2.ResultInv := by
  have hprune : (s.pruneClientLeases cfg now).ResultInv := Drops.resultInv (.pruneClientLeases now) h
  rw [AnalysisService.renewClientLease]
  cases hitem : (s.pruneClientLeases cfg now).heldItem c key n i r with
  | none => exact hprune
  | some item =>
    have hwanted := (LeaseInv.of_heldItem hitem).1
    exact hprune.renewItem hwanted (.refl _) (hprune.prepared key item hwanted)

theorem refreshClientAnalysis (h : s.ResultInv) (c key : String) (n : ℕ) (i r version : String)
    (now : ℚ) : (s.refreshClientAnalysis cfg c key n i r version now).2.ResultInv := by
  have hprune : (s.pruneClientLeases cfg now).ResultInv := Drops.resultInv (.pruneClientLeases now) h
  rw [AnalysisService.refreshClientAnalysis]
  cases hitem : (s.pruneClientLeases cfg now).heldItem c key n i r with
  | none => exact hprune
  | some item =>
    have hwanted := (LeaseInv.of_heldItem hitem).1
    refine (Drops.dropAgedItem key now _).resultInv ?_
    exact hprune.renewItem hwanted (.withClientVersion item.payload version)
      ((hprune.prepared key item hwanted).withClientVersion version)

theorem releaseClientLease (h : s.ResultInv) (c : String) (n : ℕ) (now : ℚ) :
    (s.releaseClientLease c n now).2.ResultInv := by
  unfold AnalysisService.releaseClientLease
  extract_lets currentLease currentSequence highestSequence s'
  split
  · exact h
  · have hs : Drops s s' := by
      dsimp only [s']
      split
      · exact .detachClientLease c
      · exact .refl s
    exact (hs.trans (.of_cache fun _ _ hc => hc)).resultInv h

/-- The loop of an advance: the concerned keys are captured again, without item and without a job
that may store. -/
theorem advanceKey (h : s.ResultInv) (scope : ContextKey) (g : ℕ) (now : ℚ)
    (seen : String → ChartReads) (k : String) :
    (AnalysisService.advanceKey cfg scope g now seen s k).ResultInv := by
  rw [AnalysisService.advanceKey]
  cases hitem : s.wanted.get? k with
  | none => exact h
  | some item =>
    dsimp only
    split
    · set p := advancedPayload scope g item.payload
      set u := (s.recaptureItem cfg k p item now (seen k)).dropItem k with hu
      have hwanted : ∀ k' ≠ k, u.wanted.get? k' = s.wanted.get? k' := fun k' hne =>
        Dict.get?_insert_of_ne _ hne _
      have hcache : ∀ k' c, u.cache.get? k' = some c → k' ≠ k ∧ s.cache.get? k' = some c := by
        intro k' c hc
        have hc : (s.cache.erase k).get? k' = some c := hc
        rw [Dict.get?_erase] at hc
        split_ifs at hc with hk
        exact ⟨hk, hc⟩
      have hwork : (u.cancelRunning k).WorkInv := h.work.cancelRunning k hwanted
      refine ⟨hwork, fun k' c w hc hw => ?_, fun k' c hc => ?_, fun k' w hw => ?_⟩
      · rw [(cancelRunning_fields k).1] at hc
        rw [cancelRunning_wanted] at hw
        obtain ⟨hne, hc⟩ := hcache k' c hc
        exact h.fits k' c w hc ((hwanted k' hne).symm.trans hw)
      · rw [(cancelRunning_fields k).1] at hc
        exact (h.stored k' c (hcache k' c hc).2).later (later_cancelRunning (s := u) k)
      · rw [cancelRunning_wanted] at hw
        by_cases hk : k' = k
        · rw [hk] at hw
          have hself : u.wanted.get? k = some _ := Dict.get?_insert_self ..
          exact Option.some.inj (hself.symm.trans hw) ▸ AnalysisPayload.prepared_prepared _ _ _
        · exact h.prepared k' w ((hwanted k' hk).symm.trans hw)
    · exact h

theorem advanceKeys (h : s.ResultInv) (scope : ContextKey) (g : ℕ) (now : ℚ)
    (seen : String → ChartReads) (keys : List String) :
    (keys.foldl (AnalysisService.advanceKey cfg scope g now seen) s).ResultInv := by
  induction keys generalizing s with
  | nil => exact h
  | cons k keys ih => exact ih (h.advanceKey scope g now seen k)

theorem confirmedBarContextAdvanced (h : s.ResultInv) (scope : ContextKey) (g : ℕ) (now : ℚ)
    (seen : String → ChartReads) :
    (s.confirmedBarContextAdvanced cfg scope g now seen).ResultInv := by
  rw [AnalysisService.confirmedBarContextAdvanced]
  split
  · exact h
  · have hraise : ResultInv { s with contexts := s.contexts.insert scope g } :=
      ⟨⟨h.work.registered, h.work.fresh, h.work.active, h.work.prepared⟩, h.fits,
        fun k c hc => (h.stored k c hc).later fun _ job hj => ⟨job, hj, .refl job⟩, h.prepared⟩
    exact hraise.advanceKeys scope g now seen _

end ResultInv

/-! ### Jobs -/

/-- A key without registration has no active job, so its demand may be anything. -/
theorem WorkInv.of_free (h : s.WorkInv) (hfree : s.tasks.get? k = none)
    (hw : ∀ k' ≠ k, wanted.get? k' = s.wanted.get? k') {cache : Dict String CacheItem} :
    WorkInv { s with wanted, cache, contexts } where
  registered := h.registered
  fresh := h.fresh
  active j job hj hdone hcancelled := by
    obtain ⟨hown, w, hwanted, hag⟩ := h.active j job hj hdone hcancelled
    have hne : job.key ≠ k := by
      rintro rfl
      exact absurd (hfree.symm.trans hown) nofun
    exact ⟨hown, w, (hw job.key hne).trans hwanted, hag⟩
  prepared := h.prepared

/-- A job that ends has no say any more. -/
theorem Drops.endJob {job job' : AnalysisJob} (hj : s.jobs.get? j = some job)
    (hdone : job.done = false) (hkey : job'.key = job.key) (hpayload : job'.payload = job.payload)
    (hcancelled : job'.cancelled = job.cancelled) (hdone' : job'.done = true) :
    Drops s { s with jobs := s.jobs.insert j job' } := by
  have hlater : ∀ i a, s.jobs.get? i = some a →
      ∃ b, (s.jobs.insert j job').get? i = some b ∧ a.Later b := by
    intro i a ha
    rw [Dict.get?_insert]
    by_cases hi : i = j
    · subst hi
      cases (hj.symm.trans ha)
      rw [if_pos rfl]
      exact ⟨job', rfl, hkey, hpayload, fun h => (by cases hdone.symm.trans h),
        fun h => hcancelled.trans h⟩
    · rw [if_neg hi]
      exact ⟨a, ha, .refl a⟩
  have hback : ∀ i a, (s.jobs.insert j job').get? i = some a → (i = j ∧ a = job') ∨
      s.jobs.get? i = some a := by
    intro i a ha
    rw [Dict.get?_insert] at ha
    split_ifs at ha with hi
    · exact Or.inl ⟨hi, (Option.some.inj ha).symm⟩
    · exact Or.inr ha
  refine ⟨fun _ _ h => h, fun _ _ h => h, rfl, hlater, fun hs => ⟨fun k i hi => ?_, fun i a ha => ?_,
    fun i a ha hd hc => ?_, fun i a ha => ?_⟩⟩
  · obtain ⟨a, ha, rfl⟩ := hs.registered k i hi
    obtain ⟨b, hb, hab⟩ := hlater i a ha
    exact ⟨b, hb, hab.key⟩
  · obtain ⟨rfl, rfl⟩ | ha := hback i a ha
    · exact hs.fresh i job hj
    · exact hs.fresh i a ha
  · obtain ⟨rfl, rfl⟩ | ha := hback i a ha
    · cases hdone'.symm.trans hd
    · exact hs.active i a ha hd hc
  · obtain ⟨rfl, rfl⟩ | ha := hback i a ha
    · exact hpayload ▸ hs.prepared i job hj
    · exact hs.prepared i a ha

section Completion

variable {j : ℕ} {job : AnalysisJob}

theorem drops_finishJob (hj : s.jobs.get? j = some job) (hdone : job.done = false) :
    Drops s (s.finishJob j job) :=
  .endJob hj hdone rfl rfl rfl rfl

theorem drops_exitJob (hj : s.jobs.get? j = some job) (hdone : job.done = false) (failed : Bool) :
    Drops s (s.exitJob j job failed) :=
  .endJob hj hdone rfl rfl rfl rfl

theorem drops_settled (hj : s.jobs.get? j = some job) (hdone : job.done = false)
    (howns : s.ownsRegistration job.key j = true) : Drops s (s.settled j job) := by
  refine (drops_finishJob hj hdone).trans (.popTask ?_)
  have hown : s.tasks.get? job.key = none ∨ s.tasks.get? job.key = some j :=
    of_decide_eq_true howns
  have htasks : (s.finishJob j job).tasks = s.tasks := rfl
  rw [taskRunning, htasks]
  obtain h | h := hown
  · rw [h]; rfl
  · rw [h, Option.map_some, Option.getD_some, isRunning]
    have hget : (s.finishJob j job).jobs.get? j = some { job with done := true } :=
      Dict.get?_insert_self ..
    rw [hget]; rfl

theorem settled_free : (s.settled j job).tasks.get? job.key = none := Dict.get?_erase_self ..

/-- An item that a job built answers what the job was asked for. -/
theorem fits_jobItem {p : AnalysisPayload} {now : ℚ} {outcome : JobOutcome} {item : CacheItem}
    {b : Captured} (hitem : jobItem j p now outcome = some item) (hag : p.captured.Agrees b) :
    item.Fits b := by
  have hctx : ∀ e, b.confirmedBarContextGenerations = some e →
      p.confirmedBarContextGenerations.getD [] = e := by
    intro e he
    have hp : p.confirmedBarContextGenerations = some e := hag.contexts e he
    rw [hp]; rfl
  cases outcome with
  | ready snapshot sizeBytes =>
    cases hitem
    exact .of_agrees ⟨hag.parent, fun e he => congrArg some (hctx e he), hag.market⟩
  | error retryable =>
    cases hitem
    refine ⟨fun g hg => absurd hg nofun, fun e e' he he' => ?_, fun hr => absurd hr nofun⟩
    exact (Option.some.inj he').symm.trans (hctx e he)
  | generationRace => nomatch hitem
  | nothing => nomatch hitem

theorem job_jobItem {p : AnalysisPayload} {now : ℚ} {outcome : JobOutcome} {item : CacheItem}
    (hitem : jobItem j p now outcome = some item) :
    item.job = some j ∧ (item.isReady → item.captured = p.stored) ∧ outcome ≠ .nothing := by
  cases outcome with
  | ready snapshot sizeBytes =>
    cases hitem
    exact ⟨rfl, fun _ => rfl, nofun⟩
  | error retryable =>
    cases hitem
    exact ⟨rfl, fun hr => absurd hr nofun, nofun⟩
  | generationRace => nomatch hitem
  | nothing => nomatch hitem

end Completion

namespace ResultInv

variable {k : String}

/-- An item that fits may be stored. -/
theorem storeItem (h : s.ResultInv) {item : CacheItem} {now : ℚ}
    (hfits : ∀ w, s.wanted.get? k = some w → item.Fits w.payload.captured)
    (hstored : s.Stored k item) : (s.storeItem cfg now k item).ResultInv := by
  have hget : ∀ k' c, (s.storeItem cfg now k item).cache.get? k' = some c →
      (k' = k ∧ c = item) ∨ s.cache.get? k' = some c := by
    intro k' c hc
    have hinsert := of_get?_trim hc
    rw [Dict.get?_insert] at hinsert
    split_ifs at hinsert with hk
    · exact Or.inl ⟨hk, (Option.some.inj hinsert).symm⟩
    · exact Or.inr hinsert
  refine ⟨⟨h.work.registered, h.work.fresh, h.work.active, h.work.prepared⟩,
    fun k' c w hc hw => ?_, fun k' c hc => ?_, h.prepared⟩
  · obtain ⟨rfl, rfl⟩ | hold := hget k' c hc
    · exact hfits w hw
    · exact h.fits k' c w hold hw
  · obtain ⟨rfl, rfl⟩ | hold := hget k' c hc
    · exact ⟨hstored.job, hstored.ready⟩
    · exact ⟨(h.stored k' c hold).job, (h.stored k' c hold).ready⟩

/-- The demand of a key without item and without registration may become any prepared one. -/
theorem insert_of_free (h : s.ResultInv) (hfree : s.tasks.get? k = none)
    (hcache : s.cache.get? k = none) {w : WantedItem} (hprep : w.payload.Prepared)
    {contexts : ContextGenerations} :
    ResultInv { s with wanted := s.wanted.insert k w, contexts } where
  work := h.work.of_free hfree fun _ hne => Dict.get?_insert_of_ne _ hne _
  fits k' c u hc hu := by
    have hne : k' ≠ k := by
      rintro rfl
      exact absurd (hcache.symm.trans hc) nofun
    exact h.fits k' c u hc ((Dict.get?_insert_of_ne _ hne _).symm.trans hu)
  stored k' c hc := ⟨(h.stored k' c hc).job, (h.stored k' c hc).ready⟩
  prepared k' u hu := by
    have hu : (s.wanted.insert k w).get? k' = some u := hu
    rw [Dict.get?_insert] at hu
    split_ifs at hu
    · exact Option.some.inj hu ▸ hprep
    · exact h.prepared k' u hu

theorem completeJob (h : s.ResultInv) {j : ℕ} {job : AnalysisJob} (hj : s.jobs.get? j = some job)
    (hdone : job.done = false) {outcome : JobOutcome}
    (hcancelled : job.cancelled = true → outcome = .nothing) (now : ℚ) (seen : ChartReads)
    (views : ℕ → ChartTable) : (s.completeJob cfg j job outcome now seen views).ResultInv := by
  refine completeJob_cases (P := ResultInv) (fun _ => (drops_finishJob hj hdone).resultInv h)
    (fun howns => (drops_settled hj hdone howns).resultInv h)
    (fun howns w item hreq _ hitem => ?_)
    (fun howns => ((drops_settled hj hdone howns).trans (.dropItem _)).resultInv h)
    (fun howns w contextMatches hreq => ?_) (fun howns => ?_)
  · have hs := (drops_settled hj hdone howns).resultInv h
    obtain ⟨hw, hmatch⟩ := of_requestCurrent hreq
    obtain ⟨hjob, hcaptured, houtcome⟩ := job_jobItem hitem
    refine hs.storeItem (fun w' hw' => ?_) ⟨fun i hi => ?_, fun _ => by rw [hjob]; rfl⟩
    · cases (hw.symm.trans hw')
      exact fits_jobItem hitem (.of_matches hmatch)
    · cases (hjob.symm.trans hi)
      have hget : (s.settled j job).jobs.get? j = some { job with done := true } :=
        Dict.get?_insert_self ..
      have hfalse : job.cancelled = false := by
        cases hc : job.cancelled with
        | false => rfl
        | true => exact absurd (hcancelled hc) houtcome
      exact ⟨_, hget, rfl, hfalse, rfl, hcaptured⟩
  · have hs := ((drops_settled hj hdone howns).trans (.dropItem job.key)).resultInv h
    obtain ⟨hw, -⟩ := of_requestCurrent hreq
    have hcache : ((s.settled j job).dropItem job.key).cache.get? job.key = none :=
      Dict.get?_erase_self ..
    rw [AnalysisService.retryItem]
    split
    · have hprep : w.payload.Prepared := hs.prepared job.key w hw
      exact hs.insert_of_free settled_free hcache
        (w := { w with notBefore := some (now + cfg.generationSettleSeconds) }) hprep
    · exact hs.insert_of_free settled_free hcache (AnalysisPayload.prepared_prepared _ _ _)
  · have hs := ((drops_settled hj hdone howns).trans (.dropItem job.key)).resultInv h
    have herase : ∀ k w, (s.wanted.erase job.key).get? k = some w → s.wanted.get? k = some w := by
      intro k w hw
      rw [Dict.get?_erase] at hw
      split_ifs at hw
      exact hw
    exact ⟨hs.work.of_free settled_free fun _ hne => Dict.get?_erase_of_ne _ hne,
      fun k c w hc hw => hs.fits k c w hc (herase k w hw),
      fun k c hc => ⟨(hs.stored k c hc).job, (hs.stored k c hc).ready⟩,
      fun k w hw => hs.prepared k w (herase k w hw)⟩

theorem startJob (h : s.ResultInv) (hstart : s.startJob k = some t) :
    t.ResultInv := by
  rw [AnalysisService.startJob] at hstart
  obtain ⟨item, hwanted, hstart⟩ := Option.bind_eq_some_iff.mp hstart
  obtain ⟨hidle, hstart⟩ := guard_bind_eq_some.mp hstart
  cases hstart
  have hold : ∀ j job, s.jobs.get? j = some job →
      (s.jobs.insert s.nextJob ⟨k, item.payload, false, false, false⟩).get? j = some job := by
    intro j job hj
    rw [Dict.get?_insert_of_ne _ (h.work.fresh j job hj).ne]
    exact hj
  have hback : ∀ j job, (s.jobs.insert s.nextJob ⟨k, item.payload, false, false, false⟩).get? j =
      some job → (j = s.nextJob ∧ job = ⟨k, item.payload, false, false, false⟩) ∨
        s.jobs.get? j = some job := by
    intro j job hj
    rw [Dict.get?_insert] at hj
    split_ifs at hj with hnext
    · exact Or.inl ⟨hnext, (Option.some.inj hj).symm⟩
    · exact Or.inr hj
  refine ⟨⟨fun k' j hj => ?_, fun j job hj => ?_, fun j job hj hd hc => ?_, fun j job hj => ?_⟩,
    h.fits, fun k' c hc => (h.stored k' c hc).later fun j job hj => ⟨job, hold j job hj, .refl job⟩,
    h.prepared⟩
  · have hj : (s.tasks.insert k s.nextJob).get? k' = some j := hj
    rw [Dict.get?_insert] at hj
    split_ifs at hj with hk
    · cases hj
      exact ⟨_, Dict.get?_insert_self .., hk.symm⟩
    · obtain ⟨job, hjob, hkey⟩ := h.work.registered k' j hj
      exact ⟨job, hold j job hjob, hkey⟩
  · obtain ⟨rfl, -⟩ | hj := hback j job hj
    · exact Nat.lt_succ_self _
    · exact Nat.lt_succ_of_lt (h.work.fresh j job hj)
  · obtain ⟨rfl, rfl⟩ | hold := hback j job hj
    · exact ⟨Dict.get?_insert_self .., item, hwanted, .refl _⟩
    · obtain ⟨hown, hrest⟩ := h.work.active j job hold hd hc
      have hrun : s.isRunning j = true := isRunning_eq_true.mpr ⟨job, hold, hd⟩
      have hne : job.key ≠ k := by
        rintro rfl
        rw [taskRunning, hown, Option.map_some, Option.getD_some, hrun] at hidle
        cases hidle
      exact ⟨(Dict.get?_insert_of_ne _ hne _).trans hown, hrest⟩
  · obtain ⟨-, rfl⟩ | hj := hback j job hj
    · exact h.prepared k item hwanted
    · exact h.work.prepared j job hj

theorem awaitFailedJob (h : s.ResultInv) {i r : String} {retryable : Bool} {now : ℚ}
    (hawait : s.awaitFailedJob cfg k i r retryable now = some t) : t.ResultInv := by
  rw [AnalysisService.awaitFailedJob] at hawait
  obtain ⟨j, htask, hawait⟩ := Option.bind_eq_some_iff.mp hawait
  obtain ⟨job, hjob, hawait⟩ := Option.bind_eq_some_iff.mp hawait
  obtain ⟨hended, hawait⟩ := guard_bind_eq_some.mp hawait
  cases hawait
  have hidle : s.taskRunning k = false := by
    rw [taskRunning, htask, Option.map_some, Option.getD_some, isRunning, hjob]
    exact congrArg not hended.1
  have hpop := (Drops.popTask hidle).resultInv h
  split
  · refine hpop.storeItem (fun w _ => ⟨?_, ?_, ?_⟩) ⟨?_, ?_⟩
    · rintro _ ⟨⟩
    · rintro _ _ _ ⟨⟩
    · rintro ⟨⟩
    · rintro _ ⟨⟩
    · rintro ⟨⟩
  · exact hpop

end ResultInv

theorem Drops.snapshot (k i r : String) (views : ℕ → ChartTable) :
    Drops s (s.snapshot k i r views).2 := by
  have hs : ∀ cached : Option CacheItem,
      Drops s (if cached = none then { s with cache := s.cache.erase k } else s) := by
    intro cached
    split
    · exact dropItem k
    · exact refl s
  unfold AnalysisService.snapshot
  split
  · exact refl s
  · extract_lets cached s'
    split
    · split
      · exact hs _
      · exact hs _
    · exact hs _

theorem Drops.passTime (delays : List ℕ) : Drops s (s.passTime delays) := .of_cache fun _ _ hc => hc

/-- Every section keeps the invariants. -/
theorem resultInv_step {chart : ℕ → ChartTable} {a : AnalysisAct} (h : s.ResultInv)
    (hstep : StepOf (analysisStep cfg chart) s a t) : t.ResultInv := by
  cases a with
  | register c k n p now seen =>
    obtain ⟨-, hstep⟩ := guard_bind_eq_some.mp hstep
    exact Option.some.inj hstep ▸ h.registerWanted c k n p now seen
  | renew c k n i r now =>
    obtain ⟨-, hstep⟩ := guard_bind_eq_some.mp hstep
    exact Option.some.inj hstep ▸ h.renewClientLease c k n i r now
  | refresh c k n i r version now =>
    obtain ⟨-, hstep⟩ := guard_bind_eq_some.mp hstep
    exact Option.some.inj hstep ▸ h.refreshClientAnalysis c k n i r version now
  | release c n now =>
    obtain ⟨-, hstep⟩ := guard_bind_eq_some.mp hstep
    exact Option.some.inj hstep ▸ h.releaseClientLease c n now
  | invalidate i r =>
    exact Option.some.inj hstep ▸ (Drops.foldl (fun _ k => .invalidateKey k) _ s).resultInv h
  | advance scope g now seen =>
    obtain ⟨-, hstep⟩ := guard_bind_eq_some.mp hstep
    exact Option.some.inj hstep ▸ h.confirmedBarContextAdvanced scope g now seen
  | sweep now =>
    exact Option.some.inj hstep ▸ (Drops.popDoneTasks.trans (.pruneClientLeases now)).resultInv h
  | start k => exact h.startJob hstep
  | complete j outcome now seen delays =>
    obtain ⟨job, hjob, hstep⟩ := Option.bind_eq_some_iff.mp hstep
    obtain ⟨⟨hdone, hcancelled⟩, hstep⟩ := guard_bind_eq_some.mp hstep
    cases hstep
    exact (Drops.passTime delays).resultInv (h.completeJob hjob hdone hcancelled now seen _)
  | exit j failed =>
    obtain ⟨job, hjob, hstep⟩ := Option.bind_eq_some_iff.mp hstep
    obtain ⟨hdone, hstep⟩ := guard_bind_eq_some.mp hstep
    cases hstep
    exact (drops_exitJob hjob hdone failed).resultInv h
  | awaitFailed k i r retryable now => exact h.awaitFailedJob hstep
  | snapshot k i r delays =>
    cases hstep
    exact ((Drops.snapshot k i r _).trans (.passTime delays)).resultInv h

theorem resultInv_run {chart : ℕ → ChartTable} {as : List AnalysisAct}
    (h : Run (StepOf (analysisStep cfg chart)) .initial as s) : s.ResultInv :=
  have hstart : ResultInv .initial := .initial
  h.invariant (fun _ _ _ hs hstep => resultInv_step hs hstep) hstart

end AnalysisService

end AefTerminal
