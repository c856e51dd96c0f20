import AefTerminal.Analysis.Results

/-!
# Lease bookkeeping

What any interleaving of the sections of the analysis service keeps of leases, demand and high-water
marks, and what a request with a stale sequence does.

A stale request is not without effect. A registration first forgets the marks of clients that were
detached long ago, its own client's among them, and a renewal first sweeps the leases that expired:
a refused renewal may revoke the demand of somebody else. Both would happen at the next tick of the
worker anyway.

## Main results

* `analysis_leases_sound`
* `refused_renewal_sweeps`: a renewal below the mark that revokes a demand
-/

namespace AefTerminal

open Foundation

namespace AnalysisService

variable {s : AnalysisService} {cfg : AnalysisConfig}

/-- A key without leases is not wanted, and what still runs for it was told to stop. -/
def Revoked (s : AnalysisService) (k : String) : Prop :=
  k ∉ s.wanted.keys ∧ ∀ j job, s.jobs.get? j = some job → job.key = k → job.done = false →
    job.cancelled = true

/-- The mark is kept by the pruning at this moment. -/
def Remembers (s : AnalysisService) (client : String) (mark : ClientLease) (now : ℚ) : Prop :=
  s.highwater.get? client = some mark ∧
    (client ∈ s.leases.keyOf.keys ∨ now - mark.updatedAt ≤ clientHighwaterTtlSeconds)

structure LeasesSound (cfg : AnalysisConfig) (s : AnalysisService) : Prop where
  one_key : ∀ c k k', (s.leases.lease? k c).isSome → (s.leases.lease? k' c).isSome → k = k'
  inverse : ∀ c k, s.leases.keyOf.get? c = some k ↔ (s.leases.lease? k c).isSome
  held : ∀ k ∈ s.wanted.keys, ∃ c, (s.leases.lease? k c).isSome
  revoked : ∀ k, (∀ c, s.leases.lease? k c = none) → s.Revoked k
  registration : ∀ client key n payload now seen mark, s.Remembers client mark now →
    (n < mark.sequence ∨ n = mark.sequence ∧ s.leases.keyOf.get? client ≠ some key) →
    s.registerWanted cfg client key n payload now seen =
      (.superseded, s.pruneClientHighwaters now)
  renewal : ∀ client key n instrumentId routeFingerprint now mark,
    s.highwater.get? client = some mark → n < mark.sequence →
    s.renewClientLease cfg client key n instrumentId routeFingerprint now =
      (false, s.pruneClientLeases cfg now)
  release : ∀ client n now mark, s.highwater.get? client = some mark → n < mark.sequence →
    s.releaseClientLease client n now = (false, s)

theorem exists_lease (h : s.LeaseInv none) {k : String} (hk : k ∈ s.wanted.keys) :
    ∃ c, (s.leases.lease? k c).isSome := by
  obtain ⟨c, v, hlease, -⟩ := h.inverse.exists_member ((h.held k hk).resolve_left nofun)
  exact ⟨c, by rw [hlease]; rfl⟩

theorem revoked_of_no_lease (h : s.LeaseInv none) (hr : s.ResultInv) {k : String}
    (hk : ∀ c, s.leases.lease? k c = none) : s.Revoked k := by
  have hnot : k ∉ s.wanted.keys := by
    intro hmem
    obtain ⟨c, hc⟩ := exists_lease h hmem
    rw [hk c] at hc
    nomatch hc
  refine ⟨hnot, fun j job hj hkey hdone => ?_⟩
  by_contra hc
  obtain ⟨-, w, hw, -⟩ := hr.work.active j job hj hdone (Bool.not_eq_true _ ▸ hc)
  exact hnot (hkey ▸ Dict.mem_keys_of_get? hw)

variable {now : ℚ} {client : String} {mark : ClientLease}

/-- A mark that is remembered survives the pruning. -/
theorem Remembers.pruned (h : s.Remembers client mark now) :
    (s.pruneClientHighwaters now).highwater.get? client = some mark := by
  rw [pruneClientHighwaters, Dict.get?_eraseAll, if_neg]
  · exact h.1
  · intro hmem
    obtain ⟨⟨c, mark'⟩, hsel, rfl⟩ := List.mem_map.mp hmem
    obtain ⟨hget, hexpired⟩ := Dict.mem_select.mp hsel
    rw [Bool.and_eq_true, decide_eq_true_eq, decide_eq_true_eq] at hexpired
    cases (h.1.symm.trans hget)
    exact h.2.elim hexpired.1 fun hle => absurd hexpired.2 (Rat.not_lt.mpr hle)

theorem superseded_of_stale {key : String} {n : ℕ} {payload : AnalysisPayload}
    {seen : ChartReads} (h : s.Remembers client mark now)
    (hn : n < mark.sequence ∨ n = mark.sequence ∧ s.leases.keyOf.get? client ≠ some key) :
    s.registerWanted cfg client key n payload now seen =
      (.superseded, s.pruneClientHighwaters now) := by
  have hrefused : (s.pruneClientHighwaters now).registrationAdmitted client key n = false := by
    rw [registrationAdmitted, h.pruned]
    have hkey : (s.pruneClientHighwaters now).leases = s.leases := rfl
    dsimp only
    rw [hkey]
    obtain hlt | ⟨rfl, hne⟩ := hn
    · simp [hlt.le, hlt.ne]
    · simp [hne]
  rw [registerWanted, hrefused]
  rfl

/-- The pruning never writes a mark. -/
theorem highwater_pruneClientLeases
    (h : (s.pruneClientLeases cfg now).highwater.get? client = some mark) :
    s.highwater.get? client = some mark := by
  have hdetach : ∀ (clients : List String) (u : AnalysisService),
      (clients.foldl detachClientLease u).highwater = u.highwater := by
    intro clients
    induction clients with
    | nil => exact fun _ => rfl
    | cons c clients ih => exact fun u => (ih _).trans (detachClientLease_highwater c)
  rw [pruneClientLeases, hdetach, pruneClientHighwaters, Dict.get?_eraseAll] at h
  split_ifs at h
  exact h

theorem not_renewed_of_stale (h : s.LeaseInv none) {key i r : String} {n : ℕ}
    (hmark : s.highwater.get? client = some mark) (hn : n < mark.sequence) :
    s.renewClientLease cfg client key n i r now = (false, s.pruneClientLeases cfg now) := by
  rw [renewClientLease]
  cases hitem : (s.pruneClientLeases cfg now).heldItem client key n i r with
  | none => rfl
  | some item =>
    -- a lease and its mark agree, so a lease with this sequence contradicts the mark
    obtain ⟨-, -, l, hl, rfl⟩ := LeaseInv.of_heldItem hitem
    have hprune : (s.pruneClientLeases cfg now).LeaseInv none := h.pruneClientLeases now
    have hl' := hprune.marked key client l hl
    cases (hmark.symm.trans (highwater_pruneClientLeases hl'))
    exact absurd hn (lt_irrefl _)

theorem not_released_of_stale {n : ℕ}
    (hmark : s.highwater.get? client = some mark) (hn : n < mark.sequence) :
    s.releaseClientLease client n now = (false, s) := by
  rw [releaseClientLease, hmark]
  exact if_pos (Nat.lt_of_lt_of_le hn (Nat.le_max_right _ _))

end AnalysisService

open AnalysisService

/-- **Lease bookkeeping.** In every state that sections of any clients, keys and jobs lead to: a
client is attached to at most one key, the two lease maps are inverse, every wanted key has a lease,
and a key without leases is not wanted and has no job that still may store. A request below the
remembered mark (a registration also at the mark, unless it repeats the attachment) is refused and
has no effect but that of the expiry which every such request runs first. -/
theorem analysis_leases_sound (cfg : AnalysisConfig) (chart : ℕ → ChartTable)
    (acts : List AnalysisAct) (s : AnalysisService)
    (h : Run (StepOf (analysisStep cfg chart)) .initial acts s) : LeasesSound cfg s := by
  have hl := leaseInv_run h
  have hr := resultInv_run h
  exact
    { one_key := fun c k k' hk hk' => hl.inverse.eq_of_lease hk hk'
      inverse := hl.inverse.iff
      held := fun k hk => exists_lease hl hk
      revoked := fun k hk => revoked_of_no_lease hl hr hk
      registration := fun client key n payload now seen mark hm hn => superseded_of_stale hm hn
      renewal := fun client key n i r now mark hm hn => not_renewed_of_stale hl hm hn
      release := fun client n now mark hm hn => not_released_of_stale hm hn }

/-- A job that may still store. -/
def AnalysisJob.Open (job : AnalysisJob) : Prop := job.done = false ∧ job.cancelled = false

/-- **Jobs and results.** In every state that sections lead to, a key has at most one job that may
still store, and it is the registered one; a ready result was stored by a job of its key that ended
uncancelled, repeats what that job captured, and agrees with what is wanted under the key. -/
theorem analysis_jobs_sound {cfg : AnalysisConfig} {chart : ℕ → ChartTable}
    {acts : List AnalysisAct} {s : AnalysisService}
    (h : Run (StepOf (analysisStep cfg chart)) .initial acts s) :
    (∀ i j a b, s.jobs.get? i = some a → s.jobs.get? j = some b → a.key = b.key → a.Open → b.Open →
      s.tasks.get? a.key = some i ∧ i = j) ∧
    ∀ k c, s.cache.get? k = some c → c.isReady →
      (∃ j job, c.job = some j ∧ s.jobs.get? j = some job ∧ job.key = k ∧ job.done = true ∧
        job.cancelled = false ∧ c.captured = job.payload.stored) ∧
      ∀ w, s.wanted.get? k = some w → c.captured.Agrees w.payload.captured := by
  have hr := resultInv_run h
  refine ⟨fun i j a b ha hb hkey hopen hopen' => ?_, fun k c hc hready => ⟨?_, fun w hw => ?_⟩⟩
  · obtain ⟨hi, -⟩ := hr.work.active i a ha hopen.1 hopen.2
    obtain ⟨hj, -⟩ := hr.work.active j b hb hopen'.1 hopen'.2
    rw [← hkey] at hj
    exact ⟨hi, Option.some.inj (hi.symm.trans hj)⟩
  · have hstored := hr.stored k c hc
    obtain ⟨j, hj⟩ := Option.isSome_iff_exists.mp (hstored.ready hready)
    obtain ⟨job, hjob, hdone, hkept, hk, hcaptured⟩ := hstored.job j hj
    exact ⟨j, job, hj, hjob, hk, hdone, hkept, hcaptured hready⟩
  · exact (hr.fits k c w hc hw).ready hready

/-! ### Two clients -/

/-- The limits that the service is built with. -/
def AnalysisConfig.standard : AnalysisConfig where
  cacheTtlSeconds := 60
  cacheMaxEntries := 8
  cacheMaxBytes := 32 * 1024 * 1024
  versionedRefreshSeconds := 60
  wantedTtlSeconds := 45
  generationSettleSeconds := 1 / 2
  refreshSeconds := fun _ => 10

/-- A request on the five minute chart of one route, with the contexts that its parameters need. -/
def exampleRequest (contextTimeframes : List String) (other : String) : AnalysisRequest where
  source := "ibkr"
  instrumentId := "ES"
  routeFingerprint := "route"
  interval := "5m"
  range := "1d"
  signalRange := "1d"
  showVisuals := true
  gexContextActive := false
  gexCaptureMode := "request"
  analysisEffects := .standard
  contextTimeframes := contextTimeframes
  other := other

def examplePayload (contextTimeframes : List String) (other : String) : AnalysisPayload :=
  ⟨exampleRequest contextTimeframes other, some 0, none, none⟩

def stillChart : ℕ → ChartTable := fun _ _ => ⟨0, false⟩

/-- Two clients register analyses of their own, forty seconds apart. -/
def twoClients : List AnalysisAct :=
  [.register "a" "first" 1 (examplePayload [] "first") 0 ⟨0, fun _ => 0⟩,
    .register "b" "second" 5 { examplePayload [] "second" with
      request := { exampleRequest [] "second" with range := "5d" } } 40 ⟨0, fun _ => 0⟩]

def afterTwoClients : AnalysisService :=
  (twoClients.foldlM (analysisStep .standard stillChart) .initial).get (by decide +kernel)

theorem run_twoClients :
    Run (StepOf (analysisStep .standard stillChart)) .initial twoClients afterTwoClients :=
  .of_foldlM (Option.some_get _).symm

/-- Then the job of the first client stores its result. -/
def storedFirst : List AnalysisAct := twoClients ++
  [.start "first", .complete 0 (.ready "result" 6) 41 ⟨0, fun _ => 0⟩ []]

theorem analysis_jobs_sound_acts : ∃ s c j, s.cache.get? "first" = some c ∧ c.job = some j ∧
    Run (StepOf (analysisStep .standard stillChart)) .initial storedFirst s := by
  have hstored : ((storedFirst.foldlM (analysisStep .standard stillChart) .initial).bind fun s =>
      (s.cache.get? "first").map CacheItem.isReady) = some true := by decide +kernel
  obtain ⟨s, hs, hc⟩ := Option.bind_eq_some_iff.mp hstored
  obtain ⟨c, hc, hready⟩ := Option.map_eq_some_iff.mp hc
  have hrun := Run.of_foldlM hs
  obtain ⟨⟨j, -, hj, -⟩, -⟩ := (analysis_jobs_sound hrun).2 "first" c hc hready
  exact ⟨s, c, j, hc, hj, hrun⟩

theorem analysis_leases_sound_acts : LeasesSound .standard afterTwoClients ∧
    afterTwoClients.wanted.keys = ["first", "second"] :=
  ⟨analysis_leases_sound _ _ _ _ run_twoClients, by decide +kernel⟩

/-- The second client renews with a sequence below its mark. The renewal is refused, and the demand
of the first client is gone. -/
theorem refused_renewal_sweeps :
    Run (StepOf (analysisStep .standard stillChart)) .initial twoClients afterTwoClients ∧
      afterTwoClients.highwater.get? "b" = some ⟨5, 40⟩ ∧
      (afterTwoClients.renewClientLease .standard "b" "second" 3 "ES" "route" 50).1 = false ∧
      "first" ∈ afterTwoClients.wanted.keys ∧
      "first" ∉ (afterTwoClients.renewClientLease .standard "b" "second" 3 "ES" "route"
        50).2.wanted.keys :=
  ⟨run_twoClients, by decide +kernel, by decide +kernel, by decide +kernel, by decide +kernel⟩

end AefTerminal
