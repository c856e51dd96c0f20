import AefTerminal.Foundation.Run
import AefTerminal.Ticks.Tables

/-!
# What a rollup keeps

One call takes the ticks of one route and one five-minute bucket out of the raw table, and the same
ticks are what it adds to the rollups. The three predicates agree: the batch is read by the bounds of
the bucket, grouped by minute and by price, and deleted by time and number.

## Main definitions

* `InBucket`: the ticks of a route and a five-minute bucket
* `TouchesOneBucket`, `RollupCall`, `TotalsFit`

## Main results

* `purgeBatch_cases`: the batch is a whole bucket before the cutoff, or nothing is due
* `rollupTicks_conserves`: totals are kept, one bucket is touched, and repeated calls come to an end
-/

namespace AefTerminal

open Foundation

/-! ### Buckets -/

variable {bucket : Time}

/-- The instants between the bounds of a bucket are those of the bucket. -/
theorem timeBucket_eq_iff (h : timeBucket fiveMinutes bucket = bucket) (ts : Time) :
    ((bucket : ℤ) ≤ ts ∧ (ts : ℤ) < bucket + fiveMinutes) ↔ timeBucket fiveMinutes ts = bucket := by
  have harith (b t : ℤ) (hb : b - b % 300000000 = b) :
      (b ≤ t ∧ t < b + 300000000) ↔ t - t % 300000000 = b := by omega
  exact harith bucket ts h

@[simp] theorem timeBucket_timeBucket (ts : Time) :
    timeBucket fiveMinutes (timeBucket fiveMinutes ts) = timeBucket fiveMinutes ts := by
  have harith (t : ℤ) : t - t % 300000000 - (t - t % 300000000) % 300000000
      = t - t % 300000000 := by omega
  exact harith ts

/-- A minute is within one five-minute bucket. -/
@[simp] theorem timeBucket_minute (ts : Time) :
    timeBucket fiveMinutes (timeBucket oneMinute ts) = timeBucket fiveMinutes ts := by
  have harith (t : ℤ) : t - t % 60000000 - (t - t % 60000000) % 300000000
      = t - t % 300000000 := by omega
  exact harith ts

/-- What is before the bucket of the cutoff is in a bucket that ends by then. -/
theorem timeBucket_add_le {ts cutoff : Time} (h : (ts : ℤ) < timeBucket fiveMinutes cutoff) :
    (timeBucket fiveMinutes ts + fiveMinutes : ℤ) ≤ timeBucket fiveMinutes cutoff := by
  have harith (t c : ℤ) (h : t < c - c % 300000000) :
      t - t % 300000000 + 300000000 ≤ c - c % 300000000 := by omega
  exact harith ts cutoff h

/-! ### The batch -/

/-- A tick of the route in the five-minute bucket. -/
def InBucket (route : TickRoute) (bucket : Time) (t : StoredTick) : Prop :=
  t.route = route ∧ timeBucket fiveMinutes t.ts = bucket

instance (route : TickRoute) (bucket : Time) (t : StoredTick) : Decidable (InBucket route bucket t) :=
  inferInstanceAs (Decidable (_ ∧ _))

section

variable {ticks : List StoredTick} {cutoff : Time} {provider : String}

/-- A batch is a whole bucket of one route of the provider, before the bucket of the cutoff. -/
theorem purgeBatch_cases (ticks : List StoredTick) (cutoff : Time) (provider : String) :
    (dueTicks ticks cutoff provider = [] ∧ purgeBatch ticks cutoff provider = []) ∨
    ∃ route bucket, (∃ t ∈ ticks, t.Due cutoff provider ∧ InBucket route bucket t) ∧
      purgeBatch ticks cutoff provider = ticks.filter fun t => InBucket route bucket t := by
  cases hsorted : (dueTicks ticks cutoff provider).insertionSort StoredTick.Earlier with
  | nil =>
    have hdue : dueTicks ticks cutoff provider = [] := by
      have hperm := List.perm_insertionSort StoredTick.Earlier (dueTicks ticks cutoff provider)
      rw [hsorted] at hperm
      exact hperm.symm.eq_nil
    refine Or.inl ⟨hdue, ?_⟩
    rw [purgeBatch, nextBucket, hsorted]
    rfl
  | cons t rest =>
    have hmem : t ∈ dueTicks ticks cutoff provider := by
      have hperm := List.perm_insertionSort StoredTick.Earlier (dueTicks ticks cutoff provider)
      rw [hsorted] at hperm
      exact hperm.mem_iff.mp List.mem_cons_self
    obtain ⟨ht, hdue⟩ := List.mem_filter.mp hmem
    refine Or.inr ⟨t.route, timeBucket fiveMinutes t.ts,
      ⟨t, ht, of_decide_eq_true hdue, rfl, rfl⟩, ?_⟩
    rw [purgeBatch, nextBucket, hsorted]
    refine List.filter_congr fun u _ => decide_eq_decide.mpr (and_congr_right fun _ => ?_)
    exact timeBucket_eq_iff (timeBucket_timeBucket t.ts) u.ts

/-- Deleting by route, time and number deletes the bucket. -/
theorem stagedIn_iff {route : TickRoute} {bucket : Time} {t : StoredTick} (ht : t ∈ ticks) :
    StagedIn (ticks.filter fun t => InBucket route bucket t) t ↔ InBucket route bucket t := by
  constructor
  · rintro ⟨b, hb, hroute, hts, -⟩
    obtain ⟨hbroute, hbucket⟩ := of_decide_eq_true (List.mem_filter.mp hb).2
    exact ⟨hroute.trans hbroute, by rw [hts]; exact hbucket⟩
  · intro h
    exact ⟨t, List.mem_filter.mpr ⟨ht, decide_eq_true h⟩, rfl, rfl, rfl⟩

theorem filter_stagedIn (ticks : List StoredTick) (route : TickRoute) (bucket : Time) :
    (ticks.filter fun t => ¬ StagedIn (ticks.filter fun t => InBucket route bucket t) t)
      = ticks.filter fun t => ¬ InBucket route bucket t :=
  List.filter_congr fun _ ht => decide_eq_decide.mpr (not_congr (stagedIn_iff ht))

theorem length_filter_not (p : StoredTick → Prop) [DecidablePred p] (ticks : List StoredTick) :
    ticks.length - (ticks.filter fun t => ¬ p t).length = (ticks.filter fun t => p t).length := by
  have hlen := List.length_eq_length_filter_add (l := ticks) fun t => decide (p t)
  have hnot : (ticks.filter fun t => !decide (p t)) = ticks.filter fun t => ¬ p t :=
    List.filter_congr fun _ _ => (decide_not).symm
  rw [hnot] at hlen
  omega

/-- Only chunks without ticks are dropped. -/
theorem dropExpiredEmptyTickChunks_eq (ticks : List StoredTick) (cutoff : Time)
    (chunks : TickChunks) : dropExpiredEmptyTickChunks ticks cutoff chunks = ticks := by
  rw [dropExpiredEmptyTickChunks]
  split
  · rfl
  · rename_i hnone
    rw [List.filter_eq_self]
    intro t ht
    have hts : ¬ (t.ts : ℤ) < cutoff := fun hlt =>
      hnone (List.any_eq_true.mpr ⟨t, ht, decide_eq_true hlt⟩)
    rw [decide_eq_true_eq]
    exact Int.not_le.mpr (Int.lt_of_le_of_lt (Int.not_lt.mp hts) (chunks.lt_chunkEnd t.ts))

end

/-! ### One call -/

/-- The tables after the bucket was taken out and added up. -/
def takeBucket (s : TickTables) (route : TickRoute) (bucket : Time) : TickTables :=
  let batch := s.ticks.filter fun t => InBucket route bucket t
  { s with
    ticks := s.ticks.filter fun t => ¬ InBucket route bucket t
    delta := s.delta.addGroups (groupSum (deltaRows batch))
    profile := s.profile.addGroups (groupSum (profileRows batch)) }

/-- The rows that a call adds to are in range. -/
def BucketFits (s : TickTables) (route : TickRoute) (bucket : Time) : Prop :=
  let batch := s.ticks.filter fun t => InBucket route bucket t
  (∀ g ∈ groupSum (deltaRows batch),
    (((takeBucket s route bucket).delta.get? g.1).getD 0).Fits) ∧
  ∀ g ∈ groupSum (profileRows batch),
    (((takeBucket s route bucket).profile.get? g.1).getD 0).Fits

section

variable {chunks : TickChunks} {s : TickTables} {cutoff : Time} {provider : String}

theorem rollupTicks_of_none (h : dueTicks s.ticks cutoff provider = []) :
    rollupTicks chunks s cutoff provider = .ok (⟨0, 0, 0, false⟩, s) := by
  have hbatch : purgeBatch s.ticks cutoff provider = [] := by
    obtain ⟨-, hnil⟩ | ⟨route, bucket, ⟨t, ht, hdue, -⟩, -⟩ :=
      purgeBatch_cases s.ticks cutoff provider
    · exact hnil
    · have hmem : t ∈ dueTicks s.ticks cutoff provider :=
        List.mem_filter.mpr ⟨ht, decide_eq_true hdue⟩
      rw [h] at hmem
      cases hmem
  rw [rollupTicks, rollupAndPurgeTicks, hbatch]
  dsimp only
  rw [dropExpiredEmptyTickChunks_eq]
  rfl

/-- What a call answers that took out the bucket. -/
def bucketResult (s : TickTables) (cutoff : Time) (provider : String) (route : TickRoute)
    (bucket : Time) : RollupResult :=
  let batch := s.ticks.filter fun t => InBucket route bucket t
  ⟨(groupSum (deltaRows batch)).length, (groupSum (profileRows batch)).length, batch.length,
    (takeBucket s route bucket).ticks.any fun t => t.Due cutoff provider⟩

/-- A call that finds something due takes out one bucket, unless a sum leaves its range. -/
theorem rollupTicks_of_due (chunks : TickChunks) (h : dueTicks s.ticks cutoff provider ≠ []) :
    ∃ route bucket, (∃ t ∈ s.ticks, t.Due cutoff provider ∧ InBucket route bucket t) ∧
      ∀ x, rollupTicks chunks s cutoff provider = .ok x ↔
        BucketFits s route bucket ∧
          x = (bucketResult s cutoff provider route bucket, takeBucket s route bucket) := by
  obtain ⟨hnone, -⟩ | ⟨route, bucket, hfirst, hbatch⟩ := purgeBatch_cases s.ticks cutoff provider
  · exact absurd hnone h
  refine ⟨route, bucket, hfirst, fun x => ?_⟩
  obtain ⟨t, ht, hdue, hin⟩ := hfirst
  have hlength : (s.ticks.filter fun t => InBucket route bucket t).length ≠ 0 := by
    intro hzero
    have hmem : t ∈ s.ticks.filter fun t => InBucket route bucket t :=
      List.mem_filter.mpr ⟨ht, decide_eq_true hin⟩
    rw [List.length_eq_zero_iff.mp hzero] at hmem
    cases hmem
  have hdeleted := length_filter_not (InBucket route bucket) s.ticks
  rw [rollupTicks, rollupAndPurgeTicks, hbatch]
  dsimp only
  rw [if_neg hlength, filter_stagedIn, hdeleted]
  simp only [bind_eq_ok, require_eq_ok, dropExpiredEmptyTickChunks_eq, ite_self, pure_eq_ok,
    if_true, exists_and_left, exists_const, true_and]
  constructor
  · rintro ⟨hdelta, hprofile, rfl⟩
    exact ⟨⟨hdelta, hprofile⟩, rfl⟩
  · rintro ⟨⟨hdelta, hprofile⟩, rfl⟩
    exact ⟨hdelta, hprofile, rfl⟩

end

/-! ### Totals -/

section

variable {κ M : Type} [DecidableEq κ] [AddCommMonoid M]

/-- The rows of a list are those with a property and those without. -/
theorem keyTotal_filter_add (k : κ) (row : StoredTick → κ × M) (p : StoredTick → Prop)
    [DecidablePred p] (ticks : List StoredTick) :
    keyTotal k ((ticks.filter fun t => p t).map row)
      + keyTotal k ((ticks.filter fun t => ¬ p t).map row) = keyTotal k (ticks.map row) := by
  rw [← keyTotal_append, ← List.map_append]
  refine keyTotal_perm k (List.Perm.map _ ?_)
  have hnot : (ticks.filter fun t => ¬ p t) = ticks.filter fun t => !decide (p t) :=
    List.filter_congr fun _ _ => decide_not
  rw [hnot]
  exact List.filter_append_perm _ _

/-- What is added to the rollup is what the raw rows lose. -/
theorem total_addGroups (rollup : Dict κ M) (k : κ) (row : StoredTick → κ × M)
    (p : StoredTick → Prop) [DecidablePred p] (ticks : List StoredTick) :
    keyTotal k ((ticks.filter fun t => ¬ p t).map row)
        + ((rollup.addGroups (groupSum ((ticks.filter fun t => p t).map row))).get? k).getD 0
      = keyTotal k (ticks.map row) + (rollup.get? k).getD 0 := by
  rw [Dict.getD_addGroups, keyTotal_groupSum, ← keyTotal_filter_add k row p ticks]
  abel

end

theorem minuteTotal_takeBucket (s : TickTables) (route : TickRoute) (bucket : Time)
    (key : DeltaKey) : minuteTotal (takeBucket s route bucket) key = minuteTotal s key :=
  total_addGroups s.delta key (fun t => (t.deltaKey, t.delta)) (InBucket route bucket) s.ticks

theorem profileTotal_takeBucket (s : TickTables) (route : TickRoute) (bucket : Time)
    (key : ProfileKey) : profileTotal (takeBucket s route bucket) key = profileTotal s key :=
  total_addGroups s.profile key (fun t => (t.profileKey, t.profile)) (InBucket route bucket) s.ticks

/-- The keys of the bucket. -/
theorem mem_deltaRows_filter {ticks : List StoredTick} {route : TickRoute} {key : DeltaKey}
    (h : key ∈ (deltaRows (ticks.filter fun t => InBucket route bucket t)).map Prod.fst) :
    key.route = route ∧ timeBucket fiveMinutes key.bucket = bucket := by
  obtain ⟨row, hrow, rfl⟩ := List.mem_map.mp h
  obtain ⟨t, ht, rfl⟩ := List.mem_map.mp hrow
  obtain ⟨hroute, hbucket⟩ := of_decide_eq_true (List.mem_filter.mp ht).2
  exact ⟨hroute, (timeBucket_minute t.ts).trans hbucket⟩

theorem mem_profileRows_filter {ticks : List StoredTick} {route : TickRoute} {key : ProfileKey}
    (h : key ∈ (profileRows (ticks.filter fun t => InBucket route bucket t)).map Prod.fst) :
    key.route = route ∧ key.bucket = bucket := by
  obtain ⟨row, hrow, rfl⟩ := List.mem_map.mp h
  obtain ⟨t, ht, rfl⟩ := List.mem_map.mp hrow
  exact of_decide_eq_true (List.mem_filter.mp ht).2

/-- One bucket of one route of the provider moved, and it ended by the bucket of the cutoff. -/
def TouchesOneBucket (cutoff : Time) (provider : String) (s t : TickTables) : Prop :=
  t = s ∨ ∃ route bucket, route.provider = provider ∧
    (bucket + fiveMinutes : ℤ) ≤ timeBucket fiveMinutes cutoff ∧
    (t.ticks = s.ticks.filter fun u => ¬ (u.route = route ∧ timeBucket fiveMinutes u.ts = bucket)) ∧
    (∀ key, t.delta.get? key ≠ s.delta.get? key →
      key.route = route ∧ timeBucket fiveMinutes key.bucket = bucket) ∧
    ∀ key, t.profile.get? key ≠ s.profile.get? key → key.route = route ∧ key.bucket = bucket

theorem touchesOneBucket_takeBucket {s : TickTables} {cutoff : Time} {provider : String}
    {route : TickRoute} (h : ∃ t ∈ s.ticks, t.Due cutoff provider ∧ InBucket route bucket t) :
    TouchesOneBucket cutoff provider s (takeBucket s route bucket) := by
  obtain ⟨t, -, ⟨hprovider, hts⟩, rfl, rfl⟩ := h
  refine Or.inr ⟨t.route, timeBucket fiveMinutes t.ts, hprovider, timeBucket_add_le hts, rfl,
    fun key hne => ?_, fun key hne => ?_⟩
  · by_contra hout
    refine hne (Dict.get?_addGroups_of_notMem fun hmem => ?_)
    rw [map_fst_groupSum, mem_groupKeys] at hmem
    exact hout (mem_deltaRows_filter hmem)
  · by_contra hout
    refine hne (Dict.get?_addGroups_of_notMem fun hmem => ?_)
    rw [map_fst_groupSum, mem_groupKeys] at hmem
    exact hout (mem_profileRows_filter hmem)

/-! ### Repeated calls -/

/-- One successful call, and what it answers. -/
def RollupCall (chunks : TickChunks) (cutoff : Time) (provider : String) (s : TickTables)
    (r : RollupResult) (t : TickTables) : Prop :=
  rollupTicks chunks s cutoff provider = .ok (r, t)

/-- Every total is in the range of its columns. -/
def TotalsFit (s : TickTables) : Prop :=
  (∀ key, (minuteTotal s key).Fits) ∧ ∀ key, (profileTotal s key).Fits

section

variable {chunks : TickChunks} {cutoff : Time} {provider : String} {s t : TickTables}

variable {r : RollupResult}

/-- A call finds nothing due, or takes out a bucket with something due. -/
theorem RollupCall.cases (h : RollupCall chunks cutoff provider s r t) :
    (dueTicks s.ticks cutoff provider = [] ∧ r.hasMore = false ∧ t = s) ∨
    ∃ route bucket, (∃ u ∈ s.ticks, u.Due cutoff provider ∧ InBucket route bucket u) ∧
      r = bucketResult s cutoff provider route bucket ∧ t = takeBucket s route bucket := by
  by_cases hdue : dueTicks s.ticks cutoff provider = []
  · rw [RollupCall, rollupTicks_of_none hdue] at h
    cases (Except.ok.inj h)
    exact Or.inl ⟨hdue, rfl, rfl⟩
  · obtain ⟨route, bucket, hfirst, hcall⟩ := rollupTicks_of_due chunks hdue
    obtain ⟨-, heq⟩ := (hcall (r, t)).mp h
    cases heq
    exact Or.inr ⟨route, bucket, hfirst, rfl, rfl⟩

theorem RollupCall.minuteTotal (h : RollupCall chunks cutoff provider s r t)
    (key : DeltaKey) : minuteTotal t key = minuteTotal s key := by
  obtain ⟨-, -, rfl⟩ | ⟨route, bucket, -, -, rfl⟩ := h.cases
  · rfl
  · exact minuteTotal_takeBucket s route bucket key

theorem RollupCall.profileTotal (h : RollupCall chunks cutoff provider s r t)
    (key : ProfileKey) : profileTotal t key = profileTotal s key := by
  obtain ⟨-, -, rfl⟩ | ⟨route, bucket, -, -, rfl⟩ := h.cases
  · rfl
  · exact profileTotal_takeBucket s route bucket key

theorem RollupCall.touches (h : RollupCall chunks cutoff provider s r t) :
    TouchesOneBucket cutoff provider s t := by
  obtain ⟨-, -, rfl⟩ | ⟨route, bucket, hfirst, -, rfl⟩ := h.cases
  · exact Or.inl rfl
  · exact touchesOneBucket_takeBucket hfirst

theorem RollupCall.hasMore_iff (h : RollupCall chunks cutoff provider s r t) :
    r.hasMore = false ↔ ∀ u ∈ t.ticks, ¬ u.Due cutoff provider := by
  obtain ⟨hnone, hmore, rfl⟩ | ⟨route, bucket, -, rfl, rfl⟩ := h.cases
  · refine iff_of_true hmore fun u hu hdue => ?_
    have hmem : u ∈ dueTicks t.ticks cutoff provider :=
      List.mem_filter.mpr ⟨hu, decide_eq_true hdue⟩
    rw [hnone] at hmem
    cases hmem
  · show ((takeBucket s route bucket).ticks.any _ = false) ↔ _
    rw [List.any_eq_false]
    simp only [decide_eq_true_eq]

/-- A call that leaves something due has taken out something that was. -/
theorem RollupCall.length_lt (h : RollupCall chunks cutoff provider s r t)
    (hmore : r.hasMore = true) :
    (dueTicks t.ticks cutoff provider).length < (dueTicks s.ticks cutoff provider).length := by
  obtain ⟨-, hnone, -⟩ | ⟨route, bucket, ⟨u, hu, hdue, hin⟩, -, rfl⟩ := h.cases
  · rw [hmore] at hnone
    cases hnone
  · have hcomm : dueTicks (takeBucket s route bucket).ticks cutoff provider
        = (dueTicks s.ticks cutoff provider).filter fun t => ¬ InBucket route bucket t := by
      rw [dueTicks, dueTicks, takeBucket, List.filter_filter, List.filter_filter]
      exact List.filter_congr fun _ _ => Bool.and_comm _ _
    rw [hcomm]
    refine List.length_filter_lt_length_iff_exists.mpr
      ⟨u, List.mem_filter.mpr ⟨hu, decide_eq_true hdue⟩, ?_⟩
    simpa using hin

/-- Calls that leave something due are at most as many as there were ticks due. -/
theorem length_add_due_le {rs : List RollupResult}
    (h : Run (RollupCall chunks cutoff provider) s rs t) (hmore : ∀ r ∈ rs, r.hasMore = true) :
    rs.length + (dueTicks t.ticks cutoff provider).length
      ≤ (dueTicks s.ticks cutoff provider).length := by
  induction h with
  | nil => simp
  | cons hcall _ ih =>
    obtain ⟨hr, hrest⟩ := List.forall_mem_cons.mp hmore
    have hlt := hcall.length_lt hr
    have hle := ih hrest
    rw [List.length_cons]
    omega

/-- The rows that a call adds to are whole totals. -/
theorem BucketFits.of_totals (h : TotalsFit s) (route : TickRoute) (bucket : Time) :
    BucketFits s route bucket := by
  refine ⟨fun g hg => ?_, fun g hg => ?_⟩
  · have hmem : g.1 ∈ (groupSum (deltaRows (s.ticks.filter fun t => InBucket route bucket t))).map
        Prod.fst := List.mem_map_of_mem hg
    rw [map_fst_groupSum, mem_groupKeys] at hmem
    obtain ⟨hroute, hbucket⟩ := mem_deltaRows_filter hmem
    have hrest : keyTotal g.1 (deltaRows (takeBucket s route bucket).ticks) = 0 := by
      refine keyTotal_of_notMem fun hin => ?_
      obtain ⟨row, hrow, heq⟩ := List.mem_map.mp hin
      obtain ⟨t, ht, rfl⟩ := List.mem_map.mp hrow
      refine of_decide_eq_true (List.mem_filter.mp ht).2 ⟨?_, ?_⟩
      · rw [← hroute, ← heq]
        rfl
      · rw [← hbucket, ← heq]
        exact (timeBucket_minute t.ts).symm
    have htotal := minuteTotal_takeBucket s route bucket g.1
    rw [AefTerminal.minuteTotal, hrest, zero_add] at htotal
    rw [htotal]
    exact h.1 g.1
  · have hmem : g.1 ∈ (groupSum (profileRows (s.ticks.filter fun t => InBucket route bucket t))).map
        Prod.fst := List.mem_map_of_mem hg
    rw [map_fst_groupSum, mem_groupKeys] at hmem
    obtain ⟨hroute, hbucket⟩ := mem_profileRows_filter hmem
    have hrest : keyTotal g.1 (profileRows (takeBucket s route bucket).ticks) = 0 := by
      refine keyTotal_of_notMem fun hin => ?_
      obtain ⟨row, hrow, heq⟩ := List.mem_map.mp hin
      obtain ⟨t, ht, rfl⟩ := List.mem_map.mp hrow
      refine of_decide_eq_true (List.mem_filter.mp ht).2 ⟨?_, ?_⟩
      · rw [← hroute, ← heq]
        rfl
      · rw [← hbucket, ← heq]
        rfl
    have htotal := profileTotal_takeBucket s route bucket g.1
    rw [AefTerminal.profileTotal, hrest, zero_add] at htotal
    rw [htotal]
    exact h.2 g.1

/-- Where the totals fit no call raises. -/
theorem exists_rollupCall (h : TotalsFit s) : ∃ r t, RollupCall chunks cutoff provider s r t := by
  by_cases hdue : dueTicks s.ticks cutoff provider = []
  · exact ⟨_, _, rollupTicks_of_none hdue⟩
  · obtain ⟨route, bucket, -, hcall⟩ := rollupTicks_of_due chunks hdue
    exact ⟨_, _, (hcall _).mpr ⟨.of_totals h route bucket, rfl⟩⟩

theorem RollupCall.totalsFit (h : RollupCall chunks cutoff provider s r t)
    (hs : TotalsFit s) : TotalsFit t :=
  ⟨fun key => h.minuteTotal key ▸ hs.1 key, fun key => h.profileTotal key ▸ hs.2 key⟩

/-- Repeated calls come to an end. -/
theorem exists_run_hasMore_false {n : ℕ} (h : TotalsFit s)
    (hn : (dueTicks s.ticks cutoff provider).length ≤ n) :
    ∃ rs t, Run (RollupCall chunks cutoff provider) s rs t ∧ rs.length ≤ n + 1 ∧
      ∃ r ∈ rs, r.hasMore = false := by
  induction n generalizing s with
  | zero =>
    obtain ⟨r, t, hcall⟩ : ∃ r t, RollupCall chunks cutoff provider s r t := exists_rollupCall h
    cases hmore : r.hasMore with
    | false => exact ⟨[r], t, .single hcall, le_rfl, r, List.mem_singleton_self r, hmore⟩
    | true =>
      have hlt := hcall.length_lt hmore
      omega
  | succ n ih =>
    obtain ⟨r, t, hcall⟩ : ∃ r t, RollupCall chunks cutoff provider s r t := exists_rollupCall h
    cases hmore : r.hasMore with
    | false =>
      exact ⟨[r], t, .single hcall, by simp, r, List.mem_singleton_self r, hmore⟩
    | true =>
      have hlt := hcall.length_lt hmore
      obtain ⟨rs, u, hrun, hlen, r', hr', hdone⟩ := ih (hcall.totalsFit h) (by omega)
      exact ⟨r :: rs, u, .cons hcall hrun, by simpa using hlen, r', List.mem_cons_of_mem r hr',
        hdone⟩

end

/-- **Rolling up conserves and comes to an end.** A successful call keeps every total, moves one
bucket before the cutoff at most, and says whether something is left to do. Successive successful
calls with something left are at most as many as ticks were due, and where every total is in range
no call fails before one has nothing left. -/
theorem rollupTicks_conserves (chunks : TickChunks) (cutoff : Time) (provider : String)
    (s : TickTables) :
    (∀ r t, rollupTicks chunks s cutoff provider = .ok (r, t) →
      (∀ key, minuteTotal t key = minuteTotal s key) ∧
      (∀ key, profileTotal t key = profileTotal s key) ∧
      TouchesOneBucket cutoff provider s t ∧
      (r.hasMore = false ↔ ∀ u ∈ t.ticks, ¬ u.Due cutoff provider)) ∧
    (∀ rs t, Run (RollupCall chunks cutoff provider) s rs t →
      (dueTicks s.ticks cutoff provider).length < rs.length → ∃ r ∈ rs, r.hasMore = false) ∧
    (TotalsFit s → ∃ rs t, Run (RollupCall chunks cutoff provider) s rs t ∧
      ∃ r ∈ rs, r.hasMore = false) := by
  refine ⟨fun r t h => ?_, fun rs t hrun hlen => ?_, fun hfit => ?_⟩
  · have hcall : RollupCall chunks cutoff provider s r t := h
    exact ⟨hcall.minuteTotal, hcall.profileTotal, hcall.touches, hcall.hasMore_iff⟩
  · by_contra hnone
    push Not at hnone
    have hle := length_add_due_le hrun fun r hr => by
      simpa using hnone r hr
    omega
  · obtain ⟨rs, t, hrun, -, hdone⟩ := exists_run_hasMore_false hfit le_rfl
    exact ⟨rs, t, hrun, hdone⟩

/-! ### Two ticks of one minute -/

namespace TwoTicks

def route : TickRoute := ⟨"ibkr", "US.NVDA", "route"⟩

/-- Chunks of an hour. -/
def chunks : TickChunks where
  chunkEnd ts := (ts - ts % 3600000000 + 3600000000 : ℤ)
  lt_chunkEnd ts := by
    have harith (t : ℤ) : t < t - t % 3600000000 + 3600000000 := by omega
    exact harith ts

def tables : TickTables :=
  writeTicks .empty [⟨"US.NVDA", "route", (0 : ℤ), 100, 2, 1⟩,
    ⟨"US.NVDA", "route", (1000000 : ℤ), 101, 3, -1⟩] "ibkr"

end TwoTicks

open TwoTicks in
/-- Both are rolled up by one call, and nothing is left. -/
theorem rollupTicks_conserves_twoTicks :
    ∃ r t, rollupTicks chunks tables (600000000 : ℤ) "ibkr" = .ok (r, t) ∧
      r = ⟨1, 2, 2, false⟩ ∧
      minuteTotal t ⟨route, (0 : ℤ)⟩ = ⟨5, -1, 2⟩ ∧ ∀ u ∈ t.ticks, ¬ u.Due (600000000 : ℤ) "ibkr" := by
  have hcall : rollupTicks chunks tables (600000000 : ℤ) "ibkr"
      = .ok (⟨1, 2, 2, false⟩, takeBucket tables route (0 : ℤ)) := by
    rfl
  obtain ⟨hminute, -, -, hmore⟩ :=
    (rollupTicks_conserves chunks (600000000 : ℤ) "ibkr" tables).1 _ _ hcall
  refine ⟨_, _, hcall, rfl, (hminute _).trans ?_, hmore.mp rfl⟩
  decide +kernel

end AefTerminal
