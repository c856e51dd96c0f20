import AefTerminal.Domain.Bar
import AefTerminal.Foundation.Fallible
import AefTerminal.Foundation.GroupSum

/-!
# Stored ticks and their rollups

Ticks are appended as they come. Retention takes the oldest complete five minutes of one route out
of the raw table and adds them to two rollups: volume and delta for each minute, and a volume
profile for each five minutes and price.

What a tick says besides its price, volume and sign is left out. A price is the rational number that
a finite double denotes. A call that raises is rolled back.

## Main definitions

* `StoredTick`, `TickTables`
* `rollupAndPurgeTicks`, `rollupTicks`, `writeTicks`
* `minuteTotal`, `profileTotal`: what the raw table and a rollup say together
-/

namespace AefTerminal

open Foundation

/-! ### Rows -/

structure TickRoute where
  provider : String
  instrumentId : String
  routeFingerprint : String
  deriving DecidableEq, Repr

structure StoredTick where
  ingestSeq : ℕ
  route : TickRoute
  ts : Time
  price : ℚ
  volume : ℤ
  deltaSign : ℤ
  deriving DecidableEq, Repr

/-- The sums of `tick_delta_1m_rollup`. -/
@[ext] structure TickDelta where
  totalVolume : ℤ
  netDelta : ℤ
  tradeCount : ℤ
  deriving DecidableEq, Repr

/-- The sums of `tick_volume_profile_5m_rollup`. -/
@[ext] structure TickProfile where
  totalVolume : ℤ
  buyVolume : ℤ
  sellVolume : ℤ
  netDelta : ℤ
  tradeCount : ℤ
  deriving DecidableEq, Repr

namespace TickDelta

instance : Zero TickDelta := ⟨⟨0, 0, 0⟩⟩

instance : Add TickDelta :=
  ⟨fun a b => ⟨a.totalVolume + b.totalVolume, a.netDelta + b.netDelta,
    a.tradeCount + b.tradeCount⟩⟩

@[simp] theorem totalVolume_add (a b : TickDelta) :
    (a + b).totalVolume = a.totalVolume + b.totalVolume := rfl
@[simp] theorem netDelta_add (a b : TickDelta) : (a + b).netDelta = a.netDelta + b.netDelta := rfl
@[simp] theorem tradeCount_add (a b : TickDelta) :
    (a + b).tradeCount = a.tradeCount + b.tradeCount := rfl
@[simp] theorem totalVolume_zero : (0 : TickDelta).totalVolume = 0 := rfl
@[simp] theorem netDelta_zero : (0 : TickDelta).netDelta = 0 := rfl
@[simp] theorem tradeCount_zero : (0 : TickDelta).tradeCount = 0 := rfl

instance : AddCommMonoid TickDelta where
  add_assoc a b c := by ext <;> simp [add_assoc]
  zero_add a := by ext <;> simp
  add_zero a := by ext <;> simp
  add_comm a b := by ext <;> simp [add_comm]
  nsmul := nsmulRec

end TickDelta

namespace TickProfile

instance : Zero TickProfile := ⟨⟨0, 0, 0, 0, 0⟩⟩

instance : Add TickProfile :=
  ⟨fun a b => ⟨a.totalVolume + b.totalVolume, a.buyVolume + b.buyVolume,
    a.sellVolume + b.sellVolume, a.netDelta + b.netDelta, a.tradeCount + b.tradeCount⟩⟩

@[simp] theorem totalVolume_add (a b : TickProfile) :
    (a + b).totalVolume = a.totalVolume + b.totalVolume := rfl
@[simp] theorem buyVolume_add (a b : TickProfile) :
    (a + b).buyVolume = a.buyVolume + b.buyVolume := rfl
@[simp] theorem sellVolume_add (a b : TickProfile) :
    (a + b).sellVolume = a.sellVolume + b.sellVolume := rfl
@[simp] theorem netDelta_add (a b : TickProfile) : (a + b).netDelta = a.netDelta + b.netDelta := rfl
@[simp] theorem tradeCount_add (a b : TickProfile) :
    (a + b).tradeCount = a.tradeCount + b.tradeCount := rfl
@[simp] theorem totalVolume_zero : (0 : TickProfile).totalVolume = 0 := rfl
@[simp] theorem buyVolume_zero : (0 : TickProfile).buyVolume = 0 := rfl
@[simp] theorem sellVolume_zero : (0 : TickProfile).sellVolume = 0 := rfl
@[simp] theorem netDelta_zero : (0 : TickProfile).netDelta = 0 := rfl
@[simp] theorem tradeCount_zero : (0 : TickProfile).tradeCount = 0 := rfl

instance : AddCommMonoid TickProfile where
  add_assoc a b c := by ext <;> simp [add_assoc]
  zero_add a := by ext <;> simp
  add_zero a := by ext <;> simp
  add_comm a b := by ext <;> simp [add_comm]
  nsmul := nsmulRec

end TickProfile

/-! ### Buckets -/

def oneMinute : Time := (60000000 : ℤ)

def fiveMinutes : Time := (300000000 : ℤ)

/-- `time_bucket`, whose origin is a multiple of both widths. -/
def timeBucket (width ts : Time) : Time := (ts - ts % width : ℤ)

structure DeltaKey where
  route : TickRoute
  bucket : Time
  deriving DecidableEq, Repr

structure ProfileKey where
  route : TickRoute
  bucket : Time
  price : ℚ
  deriving DecidableEq, Repr

namespace StoredTick

variable (t : StoredTick)

def deltaKey : DeltaKey := ⟨t.route, timeBucket oneMinute t.ts⟩

def profileKey : ProfileKey := ⟨t.route, timeBucket fiveMinutes t.ts, t.price⟩

/-- The share of one tick in the sums of its minute. -/
def delta : TickDelta := ⟨t.volume, t.volume * t.deltaSign, 1⟩

/-- The share of one tick in the sums of its price. -/
def profile : TickProfile :=
  ⟨t.volume, if t.deltaSign = 1 then t.volume else 0, if t.deltaSign = -1 then t.volume else 0,
    t.volume * t.deltaSign, 1⟩

/-- `ORDER BY ts, ingest_seq`. -/
def Earlier (a b : StoredTick) : Prop :=
  (a.ts : ℤ) < b.ts ∨ a.ts = b.ts ∧ a.ingestSeq ≤ b.ingestSeq

instance : DecidableRel Earlier := fun _ _ => inferInstanceAs (Decidable (_ ∨ _ ∧ _))

end StoredTick

def deltaRows (ticks : List StoredTick) : List (DeltaKey × TickDelta) :=
  ticks.map fun t => (t.deltaKey, t.delta)

def profileRows (ticks : List StoredTick) : List (ProfileKey × TickProfile) :=
  ticks.map fun t => (t.profileKey, t.profile)

/-! ### Tables -/

/-- The chunks of the hypertable: where the chunk of an instant ends. -/
structure TickChunks where
  chunkEnd : Time → Time
  lt_chunkEnd : ∀ ts : Time, (ts : ℤ) < chunkEnd ts

structure TickTables where
  ticks : List StoredTick
  delta : Dict DeltaKey TickDelta
  profile : Dict ProfileKey TickProfile
  nextIngestSeq : ℕ

def TickTables.empty : TickTables := ⟨[], .empty, .empty, 1⟩

/-- Both totals of a key: of the raw ticks, and of the rollup. -/
def minuteTotal (s : TickTables) (key : DeltaKey) : TickDelta :=
  keyTotal key (deltaRows s.ticks) + (s.delta.get? key).getD 0

def profileTotal (s : TickTables) (key : ProfileKey) : TickProfile :=
  keyTotal key (profileRows s.ticks) + (s.profile.get? key).getD 0

/-- One tick as a caller writes it. -/
structure TickWrite where
  instrumentId : String
  routeFingerprint : String
  ts : Time
  price : ℚ
  volume : ℤ
  deltaSign : ℤ
  deriving DecidableEq, Repr

/-- The rows of a batch; the numbers are the next ones of the identity column. -/
def writtenRows (provider : String) : ℕ → List TickWrite → List StoredTick
  | _, [] => []
  | seq, w :: ws =>
    ⟨seq, ⟨provider, w.instrumentId, w.routeFingerprint⟩, w.ts, w.price, w.volume, w.deltaSign⟩ ::
      writtenRows provider (seq + 1) ws

/-- `write_ticks`, when it commits. -/
def writeTicks (s : TickTables) (ticks : List TickWrite) (provider : String) : TickTables :=
  { s with
    ticks := s.ticks ++ writtenRows provider s.nextIngestSeq ticks
    nextIngestSeq := s.nextIngestSeq + ticks.length }

/-! ### Rolling up -/

structure RollupResult where
  deltaRows : ℕ
  profileRows : ℕ
  deletedTicks : ℕ
  hasMore : Bool
  deriving DecidableEq, Repr

/-- A value that a `bigint` can hold. -/
def IsBigint (x : ℤ) : Prop := -9223372036854775808 ≤ x ∧ x ≤ 9223372036854775807

instance (x : ℤ) : Decidable (IsBigint x) := inferInstanceAs (Decidable (_ ∧ _))

def TickDelta.Fits (d : TickDelta) : Prop :=
  IsBigint d.totalVolume ∧ IsBigint d.netDelta ∧ IsBigint d.tradeCount

def TickProfile.Fits (p : TickProfile) : Prop :=
  IsBigint p.totalVolume ∧ IsBigint p.buyVolume ∧ IsBigint p.sellVolume ∧ IsBigint p.netDelta ∧
    IsBigint p.tradeCount

instance (d : TickDelta) : Decidable d.Fits := inferInstanceAs (Decidable (_ ∧ _))

instance (p : TickProfile) : Decidable p.Fits := inferInstanceAs (Decidable (_ ∧ _))

section Rollup

variable (ticks : List StoredTick) (cutoff : Time) (provider : String)

/-- Before the five-minute bucket of the cutoff. -/
def StoredTick.Due (t : StoredTick) : Prop :=
  t.route.provider = provider ∧ (t.ts : ℤ) < timeBucket fiveMinutes cutoff

instance (t : StoredTick) : Decidable (t.Due cutoff provider) :=
  inferInstanceAs (Decidable (_ ∧ _))

def dueTicks : List StoredTick := ticks.filter fun t => t.Due cutoff provider

/-- The route and the five-minute bucket of the first tick that is due. -/
def nextBucket : Option (TickRoute × Time) :=
  ((dueTicks ticks cutoff provider).insertionSort StoredTick.Earlier).head?.map fun t =>
    (t.route, timeBucket fiveMinutes t.ts)

/-- `tick_purge_batch`, in the order of the table. -/
def purgeBatch : List StoredTick :=
  match nextBucket ticks cutoff provider with
  | none => []
  | some (route, bucket) =>
    ticks.filter fun t => t.route = route ∧ (bucket : ℤ) ≤ t.ts ∧ (t.ts : ℤ) < bucket + fiveMinutes

/-- The tick has the route, the time and the number of a staged one. -/
def StagedIn (batch : List StoredTick) (t : StoredTick) : Prop :=
  ∃ b ∈ batch, t.route = b.route ∧ t.ts = b.ts ∧ t.ingestSeq = b.ingestSeq

instance (batch : List StoredTick) (t : StoredTick) : Decidable (StagedIn batch t) :=
  inferInstanceAs (Decidable (∃ b ∈ batch, _))

/-- `_drop_expired_empty_tick_chunks`, what it leaves of the ticks. -/
def dropExpiredEmptyTickChunks (chunks : TickChunks) : List StoredTick :=
  if ticks.any fun t => (t.ts : ℤ) < cutoff then ticks
  else ticks.filter fun t => ¬ (chunks.chunkEnd t.ts : ℤ) ≤ cutoff

end Rollup

/-- `_rollup_and_purge_ticks`. -/
def rollupAndPurgeTicks (chunks : TickChunks) (s : TickTables) (cutoff : Time) (provider : String)
    (rollup : Bool) : Except String (RollupResult × TickTables) := do
  let batch := purgeBatch s.ticks cutoff provider
  if batch.length = 0 then
    return (⟨0, 0, 0, false⟩, { s with ticks := dropExpiredEmptyTickChunks s.ticks cutoff chunks })
  let deltaGroups := if rollup then groupSum (deltaRows batch) else []
  let delta := s.delta.addGroups deltaGroups
  require (∀ g ∈ deltaGroups, ((delta.get? g.1).getD 0).Fits) "bigint out of range"
  let profileGroups := if rollup then groupSum (profileRows batch) else []
  let profile := s.profile.addGroups profileGroups
  require (∀ g ∈ profileGroups, ((profile.get? g.1).getD 0).Fits) "bigint out of range"
  let kept := s.ticks.filter fun t => ¬ StagedIn batch t
  let deleted := s.ticks.length - kept.length
  require (deleted = batch.length) ("TICK_PURGE_CARDINALITY_MISMATCH staged=" ++
    toString batch.length ++ " deleted=" ++ toString deleted)
  let hasMore := kept.any fun t => t.Due cutoff provider
  return (⟨deltaGroups.length, profileGroups.length, deleted, hasMore⟩,
    { s with
      ticks := if hasMore then kept else dropExpiredEmptyTickChunks kept cutoff chunks
      delta := delta
      profile := profile })

def rollupTicks (chunks : TickChunks) (s : TickTables) (olderThan : Time) (provider : String) :
    Except String (RollupResult × TickTables) :=
  rollupAndPurgeTicks chunks s olderThan provider true

end AefTerminal
