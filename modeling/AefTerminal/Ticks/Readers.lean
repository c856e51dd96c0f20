import AefTerminal.Foundation.RolledUp
import AefTerminal.Ticks.Rollup

/-!
# Reading stored ticks

The readers merge a rollup with the raw ticks that it does not cover: a tick is left out as soon as
its minute, or its price in its five minutes, has a row in the rollup. They select a rollup row by the
start of its bucket and a tick by its own time, both up to the end of the window and including it.

So a tick that is written after its minute was rolled up is hidden, until it is rolled up itself; and
the bucket that starts at the end of a window counts with its first instant only as long as it is raw,
and in full from then on.

`TickStore` is the tables next to what they would be if nothing had ever been rolled up.

## Main definitions

* `readTickDelta`, `readVolumeProfile`
* `TickStore`, `TickStoreStep`
* `NoLateTick`, `EndsAtTick`: when the merged reading is the one of the raw ticks

## Main results

* `reads_eq_unrolled`: then both readers return what they would without any rollup
* `reads_late`: a late tick is hidden, and a minute after the window is counted
-/

namespace AefTerminal

open Foundation

/-! ### The readers -/

/-- `safe_tick_bucket`. -/
inductive TickBucket
  | s1 | s5 | s10 | s15 | s30 | m1 | m5 | m15
  deriving DecidableEq, Repr

def TickBucket.width : TickBucket → Time
  | .s1 => (1000000 : ℤ)
  | .s5 => (5000000 : ℤ)
  | .s10 => (10000000 : ℤ)
  | .s15 => (15000000 : ℤ)
  | .s30 => (30000000 : ℤ)
  | .m1 => oneMinute
  | .m5 => fiveMinutes
  | .m15 => (900000000 : ℤ)

section

variable (s : TickTables) (route : TickRoute) (startAt endAt : Time)

/-- A tick of the route in the window. -/
def TickInWindow (t : StoredTick) : Prop :=
  t.route = route ∧ (startAt : ℤ) ≤ t.ts ∧ (t.ts : ℤ) ≤ endAt

instance (t : StoredTick) : Decidable (TickInWindow route startAt endAt t) :=
  inferInstanceAs (Decidable (_ ∧ _))

/-- A bucket of the route that starts in the window. -/
def BucketInWindow (keyRoute : TickRoute) (bucket : Time) : Prop :=
  keyRoute = route ∧ (startAt : ℤ) ≤ bucket ∧ (bucket : ℤ) ≤ endAt

instance (keyRoute : TickRoute) (bucket : Time) :
    Decidable (BucketInWindow route startAt endAt keyRoute bucket) :=
  inferInstanceAs (Decidable (_ ∧ _))

/-- `read_tick_delta`: the buckets with their sums. -/
def readTickDelta (bucket : TickBucket) (includeRollup : Bool) : List (Time × TickDelta) :=
  if includeRollup ∧ bucket = .m1 then
    orderedGroups (fun a b : ℤ => a ≤ b) (rolledUpRows StoredTick.deltaKey StoredTick.delta s.delta
      s.ticks DeltaKey.bucket (fun k => BucketInWindow route startAt endAt k.route k.bucket)
      (TickInWindow route startAt endAt))
  else
    orderedGroups (fun a b : ℤ => a ≤ b)
      ((s.ticks.filter fun t => TickInWindow route startAt endAt t).map fun t =>
        (timeBucket bucket.width t.ts, t.delta))

/-- `read_volume_profile`: the price cells with their sums. The cell of a price is
`(floor((price / step) + 0.5) * step)::double precision`, in double arithmetic. -/
def readVolumeProfile (cell : ℚ → ℚ) (includeRollup : Bool) : List (ℚ × TickProfile) :=
  if includeRollup then
    orderedGroups (fun a b : ℚ => a ≤ b) (rolledUpRows StoredTick.profileKey StoredTick.profile
      s.profile s.ticks (fun k => cell k.price)
      (fun k => BucketInWindow route startAt endAt k.route k.bucket)
      (TickInWindow route startAt endAt))
  else
    orderedGroups (fun a b : ℚ => a ≤ b)
      ((s.ticks.filter fun t => TickInWindow route startAt endAt t).map fun t =>
        (cell t.price, t.profile))

end

/-! ### Runs -/

/-- The tables, and what they would be if nothing had ever been rolled up. -/
structure TickStore where
  tables : TickTables
  unrolled : TickTables

def TickStore.start : TickStore := ⟨.empty, .empty⟩

inductive TickStoreAct
  | write (ticks : List TickWrite) (provider : String)
  | rollup (olderThan : Time) (provider : String)

/-- A call that raises leaves the tables. -/
def tickStoreStep (chunks : TickChunks) (st : TickStore) : TickStoreAct → TickStore
  | .write ticks provider =>
    ⟨writeTicks st.tables ticks provider, writeTicks st.unrolled ticks provider⟩
  | .rollup olderThan provider =>
    match rollupTicks chunks st.tables olderThan provider with
    | .ok (_, tables) => { st with tables }
    | .error _ => st

def TickStoreStep (chunks : TickChunks) (st : TickStore) (a : TickStoreAct) (st' : TickStore) :
    Prop :=
  st' = tickStoreStep chunks st a

/-- No tick is written into a minute that has a rollup row, nor at a price that has one in its five
minutes. -/
def NoLateTick (st : TickStore) : TickStoreAct → Prop
  | .write ticks provider =>
    ∀ t ∈ writtenRows provider st.tables.nextIngestSeq ticks,
      t.deltaKey ∉ st.tables.delta.keys ∧ t.profileKey ∉ st.tables.profile.keys
  | .rollup _ _ => True

/-- The bucket that starts at the end of the window has ticks at its first instant only, if it was
rolled up. -/
def EndsAtTick {κ : Type} (st : TickStore) (key : StoredTick → κ) (width : Time) (rolled : List κ)
    (route : TickRoute) (endAt : Time) : Prop :=
  ∀ t ∈ st.unrolled.ticks, t.route = route → timeBucket width t.ts = endAt → key t ∈ rolled →
    t.ts = endAt

/-- What the run keeps of both rollups. -/
structure TickStoreInv (st : TickStore) : Prop where
  delta : RolledUp StoredTick.deltaKey StoredTick.delta st.tables.delta st.tables.ticks
    st.unrolled.ticks
  profile : RolledUp StoredTick.profileKey StoredTick.profile st.tables.profile st.tables.ticks
    st.unrolled.ticks
  unrolled_delta : st.unrolled.delta = .empty
  unrolled_profile : st.unrolled.profile = .empty
  nextIngestSeq : st.unrolled.nextIngestSeq = st.tables.nextIngestSeq

theorem TickStoreInv.start : TickStoreInv .start :=
  ⟨RolledUp.empty _ _, RolledUp.empty _ _, rfl, rfl, rfl⟩

theorem TickStoreInv.write {st : TickStore} (h : TickStoreInv st) {ticks : List TickWrite}
    {provider : String} (hnew : NoLateTick st (.write ticks provider)) :
    TickStoreInv ⟨writeTicks st.tables ticks provider, writeTicks st.unrolled ticks provider⟩ where
  delta := by
    show RolledUp _ _ _ (_ ++ _) (_ ++ _)
    rw [h.nextIngestSeq]
    exact h.delta.append fun t ht => (hnew t ht).1
  profile := by
    show RolledUp _ _ _ (_ ++ _) (_ ++ _)
    rw [h.nextIngestSeq]
    exact h.profile.append fun t ht => (hnew t ht).2
  unrolled_delta := h.unrolled_delta
  unrolled_profile := h.unrolled_profile
  nextIngestSeq := congrArg (· + ticks.length) h.nextIngestSeq

theorem TickStoreInv.takeBucket {st : TickStore} (h : TickStoreInv st) (route : TickRoute)
    (bucket : Time) : TickStoreInv { st with tables := takeBucket st.tables route bucket } where
  delta := h.delta.take (InBucket route bucket) fun a b hkey ⟨hroute, hbucket⟩ => by
    obtain ⟨hsame, hminute⟩ := DeltaKey.mk.inj hkey
    refine ⟨hsame ▸ hroute, ?_⟩
    rw [← timeBucket_minute, ← hminute, timeBucket_minute]
    exact hbucket
  profile := h.profile.take (InBucket route bucket) fun a b hkey ⟨hroute, hbucket⟩ => by
    obtain ⟨hsame, hfive, -⟩ := ProfileKey.mk.inj hkey
    exact ⟨hsame ▸ hroute, hfive ▸ hbucket⟩
  unrolled_delta := h.unrolled_delta
  unrolled_profile := h.unrolled_profile
  nextIngestSeq := h.nextIngestSeq

theorem TickStoreInv.step {chunks : TickChunks} {st st' : TickStore} {a : TickStoreAct}
    (h : TickStoreInv st) (hstep : Guarded NoLateTick (TickStoreStep chunks) st a st') :
    TickStoreInv st' := by
  obtain ⟨hok, rfl⟩ := hstep
  cases a with
  | write ticks provider => exact h.write hok
  | rollup olderThan provider =>
    show TickStoreInv (match rollupTicks chunks st.tables olderThan provider with
      | .ok (_, tables) => { st with tables }
      | .error _ => st)
    split
    · rename_i r tables hcall
      have hcall : RollupCall chunks olderThan provider st.tables r tables := hcall
      obtain ⟨-, -, rfl⟩ | ⟨route, bucket, -, -, rfl⟩ := hcall.cases
      · exact h
      · exact h.takeBucket route bucket
    · exact h

/-! ### Windows -/

/-- In a window of whole buckets the start of a bucket stands for each of its instants, except after
the last bound. -/
theorem window_iff {width startAt endAt ts : Time} (hwidth : width = oneMinute ∨ width = fiveMinutes)
    (hstart : timeBucket width startAt = startAt) (hend : timeBucket width endAt = endAt)
    (hlast : timeBucket width ts = endAt → ts = endAt) :
    ((startAt : ℤ) ≤ timeBucket width ts ∧ (timeBucket width ts : ℤ) ≤ endAt) ↔
      (startAt : ℤ) ≤ ts ∧ (ts : ℤ) ≤ endAt := by
  rcases hwidth with rfl | rfl
  · have harith (a b t : ℤ) (ha : a - a % 60000000 = a) (hb : b - b % 60000000 = b)
        (hl : t - t % 60000000 = b → t = b) :
        (a ≤ t - t % 60000000 ∧ t - t % 60000000 ≤ b) ↔ a ≤ t ∧ t ≤ b := by omega
    exact harith startAt endAt ts hstart hend hlast
  · have harith (a b t : ℤ) (ha : a - a % 300000000 = a) (hb : b - b % 300000000 = b)
        (hl : t - t % 300000000 = b → t = b) :
        (a ≤ t - t % 300000000 ∧ t - t % 300000000 ≤ b) ↔ a ≤ t ∧ t ≤ b := by omega
    exact harith startAt endAt ts hstart hend hlast

section

variable {st : TickStore} {route : TickRoute} {startAt endAt : Time}

theorem TickStoreInv.readTickDelta_eq (h : TickStoreInv st)
    (hstart : timeBucket oneMinute startAt = startAt) (hend : timeBucket oneMinute endAt = endAt)
    (hlast : EndsAtTick st StoredTick.deltaKey oneMinute st.tables.delta.keys route endAt) :
    readTickDelta st.tables route startAt endAt .m1 true
      = readTickDelta st.unrolled route startAt endAt .m1 true := by
  have hwant : ∀ t ∈ st.unrolled.ticks, t.deltaKey ∈ st.tables.delta.keys →
      (BucketInWindow route startAt endAt t.deltaKey.route t.deltaKey.bucket ↔
        TickInWindow route startAt endAt t) := fun t ht hkey =>
    and_congr_right fun hroute => window_iff (Or.inl rfl) hstart hend fun heq =>
      hlast t ht hroute heq hkey
  rw [readTickDelta, readTickDelta, if_pos ⟨rfl, rfl⟩, if_pos ⟨rfl, rfl⟩, h.unrolled_delta]
  exact h.delta.orderedGroups_eq hwant

theorem TickStoreInv.readVolumeProfile_eq (h : TickStoreInv st) (cell : ℚ → ℚ)
    (hstart : timeBucket fiveMinutes startAt = startAt)
    (hend : timeBucket fiveMinutes endAt = endAt)
    (hlast : EndsAtTick st StoredTick.profileKey fiveMinutes st.tables.profile.keys route endAt) :
    readVolumeProfile st.tables route startAt endAt cell true
      = readVolumeProfile st.unrolled route startAt endAt cell true := by
  have hwant : ∀ t ∈ st.unrolled.ticks, t.profileKey ∈ st.tables.profile.keys →
      (BucketInWindow route startAt endAt t.profileKey.route t.profileKey.bucket ↔
        TickInWindow route startAt endAt t) := fun t ht hkey =>
    and_congr_right fun hroute => window_iff (Or.inr rfl) hstart hend fun heq =>
      hlast t ht hroute heq hkey
  rw [readVolumeProfile, readVolumeProfile, if_pos rfl, if_pos rfl, h.unrolled_profile]
  exact h.profile.orderedGroups_eq hwant

end

/-- **Reads through the rollups.** In runs without late ticks, both readers return for a window of
whole buckets what they would return if nothing had ever been rolled up, unless the bucket that
starts at the end of the window was rolled up with ticks after its first instant. -/
theorem reads_eq_unrolled (chunks : TickChunks) {as : List TickStoreAct} {st : TickStore}
    (hrun : Run (Guarded NoLateTick (TickStoreStep chunks)) .start as st) (route : TickRoute)
    (startAt endAt : Time) :
    (timeBucket oneMinute startAt = startAt → timeBucket oneMinute endAt = endAt →
      EndsAtTick st StoredTick.deltaKey oneMinute st.tables.delta.keys route endAt →
      readTickDelta st.tables route startAt endAt .m1 true
        = readTickDelta st.unrolled route startAt endAt .m1 true) ∧
    (timeBucket fiveMinutes startAt = startAt → timeBucket fiveMinutes endAt = endAt →
      EndsAtTick st StoredTick.profileKey fiveMinutes st.tables.profile.keys route endAt →
      ∀ cell, readVolumeProfile st.tables route startAt endAt cell true
        = readVolumeProfile st.unrolled route startAt endAt cell true) := by
  have hinv : TickStoreInv st :=
    hrun.invariant (fun _ _ _ h hstep => h.step hstep) TickStoreInv.start
  exact ⟨fun hstart hend hlast => hinv.readTickDelta_eq hstart hend hlast,
    fun hstart hend hlast cell => hinv.readVolumeProfile_eq cell hstart hend hlast⟩

/-! ### A late tick, and a minute after the window -/

namespace LateTick

open TwoTicks (route chunks)

def tickAt (ts : Time) : TickWrite := ⟨"US.NVDA", "route", ts, 100, 2, 1⟩

def write (ts : Time) : TickStoreAct := .write [tickAt ts] "ibkr"

def rollup : TickStoreAct := .rollup (600000000 : ℤ) "ibkr"

/-- A tick at 1 s is rolled up. -/
def rolledUp : TickStore :=
  tickStoreStep chunks (tickStoreStep chunks .start (write (1000000 : ℤ))) rollup

/-- And a second one of the same minute comes. -/
def late : TickStore := tickStoreStep chunks rolledUp (write (30000000 : ℤ))

end LateTick

open LateTick TwoTicks in
/-- The window that ends with the rolled-up minute reads as if nothing were rolled up. -/
theorem reads_eq_unrolled_rolledUp :
    rolledUp.tables.ticks = [] ∧
    readTickDelta rolledUp.tables route (0 : ℤ) (60000000 : ℤ) .m1 true
      = readTickDelta rolledUp.unrolled route (0 : ℤ) (60000000 : ℤ) .m1 true := by
  have hfirst : NoLateTick .start (write (1000000 : ℤ)) := fun _ _ =>
    ⟨(nomatch ·), (nomatch ·)⟩
  have hrun : Run (Guarded NoLateTick (TickStoreStep chunks)) .start
      [write (1000000 : ℤ), rollup] rolledUp :=
    .cons ⟨hfirst, rfl⟩ <| .single ⟨trivial, rfl⟩
  refine ⟨by decide +kernel, (reads_eq_unrolled chunks hrun route (0 : ℤ) (60000000 : ℤ)).1
    (by decide) (by decide) ?_⟩
  unfold EndsAtTick
  decide +kernel

open LateTick TwoTicks in
/-- The late tick is hidden; and of a window that ends before the tick, its rolled-up minute is
counted. -/
theorem reads_late :
    (Run (TickStoreStep chunks) .start [write (1000000 : ℤ), rollup, write (30000000 : ℤ)] late ∧
      readTickDelta late.tables route (0 : ℤ) (60000000 : ℤ) .m1 true = [((0 : ℤ), ⟨2, 2, 1⟩)] ∧
      readTickDelta late.unrolled route (0 : ℤ) (60000000 : ℤ) .m1 true
        = [((0 : ℤ), ⟨4, 4, 2⟩)]) ∧
    Run (TickStoreStep chunks) .start [write (1000000 : ℤ), rollup] rolledUp ∧
      readTickDelta rolledUp.tables route (-60000000 : ℤ) (0 : ℤ) .m1 true
        = [((0 : ℤ), ⟨2, 2, 1⟩)] ∧
      readTickDelta rolledUp.unrolled route (-60000000 : ℤ) (0 : ℤ) .m1 true = [] :=
  ⟨⟨.cons rfl <| .cons rfl <| .single rfl, by decide +kernel, by decide +kernel⟩,
    .cons rfl <| .single rfl, by decide +kernel, by decide +kernel⟩

end AefTerminal
