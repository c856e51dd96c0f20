import AefTerminal.Foundation.Locks
import AefTerminal.Foundation.Run
import Mathlib.Data.Rat.Defs
import Mathlib.Algebra.Order.Ring.Unbundled.Rat

/-!
# The lanes of the broker

Every call to the broker goes through a lane. A request waits for the lanes above its own, takes
the lock of its lane and of the exclusive group of the lane, waits for its pacing, and only then
runs. At each of these points it may be cancelled, run out of time or fail, and one `finally` block
undoes what was done so far.

A request is a thread with the local variables of `_run_lane`. What it does between two waiting
points is one step or several, so there are more interleavings here than in the program. Every way
out of a request is the step `leave`. The clock is rational and moves when it likes, but not back.

## Main definitions

* `ManagerConfig`, `LaneManager`, `LaneManager.step`: the lanes and the steps of their requests
* `LaneRequest.waiting`, `LaneRequest.executing`: where a request stands
-/

namespace AefTerminal

open Foundation

structure ManagerConfig where
  priorityLanes : List String
  /-- The merged intervals in seconds, `0` where there is none. -/
  pacingIntervals : String → ℚ
  exclusiveGroups : List (String × List String)

namespace ManagerConfig

variable (cfg : ManagerConfig)

/-- `_lane_priority`: the last place of a lane in the list. -/
def lanePriority (lane : String) : Option ℕ :=
  ((cfg.priorityLanes.zipIdx.filter fun entry => entry.1 = lane).getLast?).map Prod.snd

/-- `_lane_group`, under `_exclusive_group_lock`: the last group that lists the lane, unless its
name is empty. -/
def laneGroup (lane : String) : Option String :=
  (((cfg.exclusiveGroups.filter fun group => lane ∈ group.2).getLast?).map Prod.fst).filter (· ≠ "")

/-- The lanes that `_wait_for_priority` looks at. -/
def blockingLanes (lane : String) : List String :=
  match cfg.lanePriority lane with
  | some rank => cfg.priorityLanes.take rank
  | none => cfg.priorityLanes

/-- A lane of strictly higher priority. -/
def Outranks (upper lane : String) : Prop := upper ∈ cfg.blockingLanes lane ∧ upper ≠ lane

instance (upper lane : String) : Decidable (cfg.Outranks upper lane) :=
  inferInstanceAs (Decidable (_ ∧ _))

def pacingInterval (lane : String) : ℚ := max (cfg.pacingIntervals lane) 0

end ManagerConfig

/-- `_LaneState`: the counters that decide. -/
structure LaneState where
  pending : ℕ
  running : Bool
  deriving DecidableEq

inductive LaneLock
  | lane (name : String)
  | group (name : String)
  | pacing
  deriving DecidableEq

/-- What a request does next. -/
inductive LanePhase
  | priority | laneLock | groupLock | pacingLock
  | pacing (wakeAt : ℚ)
  | ready | working | left
  deriving DecidableEq

/-- One call of `_run_lane` with its local variables. -/
structure LaneRequest where
  lane : String
  applyPacing : Bool
  phase : LanePhase
  acquired : Bool
  /-- `group_lock` -/
  group : Option String
  groupAcquired : Bool
  /-- Inside `async with` of the pacing lock. -/
  pacingAcquired : Bool
  started : Bool
  /-- The number of requests that had entered when it passed the priority check. -/
  checkedAt : Option ℕ
  deriving DecidableEq

namespace LaneRequest

def enter (lane : String) (applyPacing : Bool) : LaneRequest :=
  ⟨lane, applyPacing, .priority, false, none, false, false, false, none⟩

/-- It entered and has neither started nor left. -/
def waiting (r : LaneRequest) : Bool := r.started = false ∧ r.phase ≠ .left

/-- Its factory was called and has not finished. -/
def executing (r : LaneRequest) : Bool := r.started ∧ r.phase ≠ .left

end LaneRequest

structure LaneManager where
  lanes : String → LaneState
  locked : LaneLock → Bool
  lastPaced : Option ℚ
  now : ℚ
  requests : List LaneRequest
  /-- What was locked and released. -/
  log : List (LockEvent LaneLock)
  /-- The paced admissions with their times, newest first. -/
  paced : List (String × ℚ)

inductive LaneAct
  /-- `_run_lane` is called. -/
  | enter (lane : String) (applyPacing : Bool)
  /-- `_wait_for_priority` returns. -/
  | pass (i : ℕ)
  | lockLane (i : ℕ)
  | lockGroup (i : ℕ)
  | lockPacing (i : ℕ)
  /-- The pacing delay is over. -/
  | pace (i : ℕ)
  /-- `_mark_start`, and the factory is called. -/
  | start (i : ℕ)
  /-- The request returns or raises. -/
  | leave (i : ℕ)
  | advance (now : ℚ)
  deriving DecidableEq

namespace LaneManager

def initial (now : ℚ) : LaneManager :=
  ⟨fun _ => ⟨0, false⟩, fun _ => false, none, now, [], [], []⟩

variable (s : LaneManager)

def setRequest (i : ℕ) (r : LaneRequest) : LaneManager := { s with requests := s.requests.set i r }

def acquire (lock : LaneLock) (i : ℕ) : LaneManager :=
  { s with
    locked := Function.update s.locked lock true
    log := s.log ++ [⟨lock, i, true⟩] }

def release (lock : LaneLock) (i : ℕ) : LaneManager :=
  { s with
    locked := Function.update s.locked lock false
    log := s.log ++ [⟨lock, i, false⟩] }

/-- `_mark_pending`; a count does not go below zero. -/
def markPending (lane : String) (delta : ℤ) : LaneManager :=
  let state := s.lanes lane
  let pending := (max (state.pending + delta) 0).toNat
  { s with lanes := Function.update s.lanes lane { state with pending := pending } }

def markStart (lane : String) : LaneManager :=
  let state := s.lanes lane
  { s with lanes := Function.update s.lanes lane ⟨state.pending - 1, true⟩ }

def markComplete (lane : String) : LaneManager :=
  let state := s.lanes lane
  { s with lanes := Function.update s.lanes lane { state with running := false } }

/-- The check of `_wait_for_priority`. -/
def blocked (cfg : ManagerConfig) (lane : String) : Bool :=
  (cfg.blockingLanes lane).any fun upper =>
    upper ≠ lane ∧ ((s.lanes upper).running = true ∨ 0 < (s.lanes upper).pending)

/-- What follows the locks of the lane: its pacing, where it has one. -/
def afterLocks (cfg : ManagerConfig) (r : LaneRequest) : LanePhase :=
  if r.applyPacing = true ∧ 0 < cfg.pacingInterval r.lane then .pacingLock else .ready

/-- When the pacing delay of a lane is over. -/
def wakeAt (cfg : ManagerConfig) (lane : String) : ℚ :=
  match s.lastPaced with
  | none => s.now
  | some last =>
    let wait := cfg.pacingInterval lane - (s.now - last)
    if 0 < wait then s.now + wait else s.now

/-- The lock of `async with`, where the request is inside. -/
def leavePacing (i : ℕ) (r : LaneRequest) : LaneManager :=
  if r.pacingAcquired then
    (s.setRequest i { r with pacingAcquired := false }).release .pacing i
  else s

def leaveGroup (i : ℕ) (r : LaneRequest) : LaneManager :=
  match r.groupAcquired, r.group with
  | true, some group => (s.setRequest i { r with groupAcquired := false }).release (.group group) i
  | _, _ => s

def leaveLane (i : ℕ) (r : LaneRequest) : LaneManager :=
  if r.acquired then
    let marked := if r.started then s.markComplete r.lane else s.markPending r.lane (-1)
    (marked.setRequest i { r with acquired := false, phase := .left }).release (.lane r.lane) i
  else (s.markPending r.lane (-1)).setRequest i { r with phase := .left }

/-- The way out of a request: what it is inside of, and the `finally` block. -/
def finish (i : ℕ) (r : LaneRequest) : LaneManager :=
  let r₁ := { r with pacingAcquired := false }
  let r₂ := { r₁ with groupAcquired := false }
  ((s.leavePacing i r).leaveGroup i r₁).leaveLane i r₂

def step (cfg : ManagerConfig) : LaneAct → Option LaneManager
  | .enter lane applyPacing =>
    some { s.markPending lane 1 with requests := s.requests ++ [.enter lane applyPacing] }
  | .pass i => do
    let r ← s.requests[i]?
    guard (r.phase = .priority ∧ s.blocked cfg r.lane = false)
    some (s.setRequest i { r with phase := .laneLock, checkedAt := some s.requests.length })
  | .lockLane i => do
    let r ← s.requests[i]?
    guard (r.phase = .laneLock ∧ s.locked (.lane r.lane) = false)
    let group := cfg.laneGroup r.lane
    let phase := if group.isSome then .groupLock else afterLocks cfg r
    some ((s.setRequest i { r with acquired := true, group := group, phase := phase }).acquire
      (.lane r.lane) i)
  | .lockGroup i => do
    let r ← s.requests[i]?
    let group ← r.group
    guard (r.phase = .groupLock ∧ s.locked (.group group) = false)
    some ((s.setRequest i { r with groupAcquired := true, phase := afterLocks cfg r }).acquire
      (.group group) i)
  | .lockPacing i => do
    let r ← s.requests[i]?
    guard (r.phase = .pacingLock ∧ s.locked .pacing = false)
    some ((s.setRequest i { r with
      pacingAcquired := true, phase := .pacing (s.wakeAt cfg r.lane) }).acquire .pacing i)
  | .pace i => do
    let r ← s.requests[i]?
    match r.phase with
    | .pacing wakeAt => do
      guard (wakeAt ≤ s.now)
      let admitted := { s with lastPaced := some s.now, paced := (r.lane, s.now) :: s.paced }
      some ((admitted.setRequest i { r with pacingAcquired := false, phase := .ready }).release
        .pacing i)
    | _ => none
  | .start i => do
    let r ← s.requests[i]?
    guard (r.phase = .ready)
    some ((s.markStart r.lane).setRequest i { r with started := true, phase := .working })
  | .leave i => do
    let r ← s.requests[i]?
    guard (r.phase ≠ .left)
    some (s.finish i r)
  | .advance now => do
    guard (s.now ≤ now)
    some { s with now := now }

end LaneManager

end AefTerminal
