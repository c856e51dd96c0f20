import AefTerminal.Broker.Lanes
import AefTerminal.Foundation.Fallible
import Mathlib.Tactic.Linarith

/-!
# Broker lane bookkeeping

Whatever way a request leaves, its `finally` block undoes what was done so far: the locks agree
with the local variables of the requests, the counters count the requests, and consecutive paced
admissions keep the interval of the later one, because only the holder of the pacing lock moves
the time of the last admission.

A lane belongs to one group. A lane that two groups list is exclusive with the last of them only.

## Main definitions

* `LaneRequest.Wf`, `LaneCounters`, `PacedInv`, `LaneInv`: the invariant
* `LaneBookkeeping`: what it says of the lanes

## Main results

* `lane_bookkeeping`, `groups_overlap`
-/

namespace AefTerminal

open Foundation

/-! ### What a request holds -/

namespace LaneRequest

/-- The locks that a request has not given back. -/
def Holds (r : LaneRequest) : LaneLock → Prop
  | .lane name => r.acquired = true ∧ r.lane = name
  | .group name => r.groupAcquired = true ∧ r.group = some name
  | .pacing => r.pacingAcquired = true

/-- The locks that a request has not come to. -/
def Before (r : LaneRequest) : LaneLock → Prop
  | .lane _ => r.phase = .priority ∨ r.phase = .laneLock
  | .group _ => r.phase = .priority ∨ r.phase = .laneLock ∨ r.phase = .groupLock
  | .pacing =>
    r.phase = .priority ∨ r.phase = .laneLock ∨ r.phase = .groupLock ∨ r.phase = .pacingLock

/-- The local variables, by what the request does next. -/
def Wf (cfg : ManagerConfig) (r : LaneRequest) : Prop :=
  match r.phase with
  | .priority | .laneLock =>
    r.acquired = false ∧ r.groupAcquired = false ∧ r.pacingAcquired = false ∧ r.started = false
  | .groupLock =>
    r.acquired = true ∧ r.group = cfg.laneGroup r.lane ∧ r.group.isSome = true ∧
      r.groupAcquired = false ∧ r.pacingAcquired = false ∧ r.started = false
  | .pacingLock | .ready =>
    r.acquired = true ∧ r.group = cfg.laneGroup r.lane ∧ r.groupAcquired = r.group.isSome ∧
      r.pacingAcquired = false ∧ r.started = false
  | .pacing _ =>
    r.acquired = true ∧ r.group = cfg.laneGroup r.lane ∧ r.groupAcquired = r.group.isSome ∧
      r.pacingAcquired = true ∧ r.started = false
  | .working =>
    r.acquired = true ∧ r.group = cfg.laneGroup r.lane ∧ r.groupAcquired = r.group.isSome ∧
      r.pacingAcquired = false ∧ r.started = true
  | .left => r.acquired = false ∧ r.groupAcquired = false ∧ r.pacingAcquired = false

variable {cfg : ManagerConfig} {r : LaneRequest}

/-- A request whose factory runs holds the locks of its lane and of its group. -/
theorem Wf.of_executing (h : r.Wf cfg) (hexecuting : r.executing = true) :
    r.phase = .working ∧ r.Holds (.lane r.lane) ∧
      ∀ group, cfg.laneGroup r.lane = some group → r.Holds (.group group) := by
  simp only [executing, Bool.decide_and, Bool.and_eq_true, decide_eq_true_eq] at hexecuting
  obtain ⟨hstarted, hin⟩ := hexecuting
  unfold Wf at h
  cases hphase : r.phase <;> rw [hphase] at h <;> dsimp only at h
  case working =>
    obtain ⟨hacquired, hgroup, hgroupAcquired, -, -⟩ := h
    refine ⟨rfl, ⟨hacquired, rfl⟩, fun group hlane => ⟨?_, hgroup.trans hlane⟩⟩
    rw [hgroupAcquired, hgroup, hlane]
    rfl
  case left => exact absurd hphase hin
  all_goals simp_all

end LaneRequest

/-! ### The counters of the lanes -/

/-- The counters of a lane count its requests. -/
structure LaneCounters (lanes : String → LaneState) (requests : List LaneRequest) : Prop where
  pending : ∀ name, (lanes name).pending =
    requests.countP fun r => decide (r.lane = name) && r.waiting
  running : ∀ name, (lanes name).running = true ↔
    ∃ (i : ℕ) (r : LaneRequest), requests[i]? = some r ∧ r.lane = name ∧ r.executing = true

namespace LaneCounters

variable {lanes : String → LaneState} {requests : List LaneRequest} {i : ℕ} {r r' : LaneRequest}

theorem countP_set_of {p : LaneRequest → Bool} (hr : requests[i]? = some r) (r' : LaneRequest) :
    (requests.set i r').countP p + (if p r then 1 else 0) =
      requests.countP p + if p r' then 1 else 0 := by
  induction requests generalizing i with
  | nil => exact absurd hr (by simp)
  | cons first rest ih =>
    cases i with
    | zero =>
      cases hr
      simp only [List.set_cons_zero, List.countP_cons]
      omega
    | succ i =>
      have hrest := ih (i := i) hr
      simp only [List.set_cons_succ, List.countP_cons]
      omega

theorem initial : LaneCounters (fun _ => ⟨0, false⟩) [] := ⟨by simp, by simp⟩

/-- A request moves, and the counters of its lane with it. -/
theorem change (h : LaneCounters lanes requests) (hr : requests[i]? = some r) (r' : LaneRequest)
    (hlane : r'.lane = r.lane) {state : LaneState}
    (hpending : state.pending + (if r.waiting then 1 else 0) =
      (lanes r.lane).pending + if r'.waiting then 1 else 0)
    (hrunning : state.running = true ↔ r'.executing = true ∨
      ∃ (j : ℕ) (b : LaneRequest), j ≠ i ∧ requests[j]? = some b ∧ b.lane = r.lane ∧
        b.executing = true) :
    LaneCounters (Function.update lanes r.lane state) (requests.set i r') := by
  refine ⟨fun name => ?_, fun name => ?_⟩
  · have hcount := countP_set_of (p := fun r => decide (r.lane = name) && r.waiting) hr r'
    have hold := h.pending name
    rw [hlane] at hcount
    by_cases hname : r.lane = name
    · subst hname
      rw [Function.update_self]
      simp only [decide_true, Bool.true_and] at hcount hold ⊢
      omega
    · rw [Function.update_of_ne (Ne.symm hname)]
      simp only [hname, decide_false, Bool.false_and, Bool.false_eq_true, if_false] at hcount
      omega
  · by_cases hname : r.lane = name
    · subst hname
      rw [Function.update_self, hrunning]
      constructor
      · rintro (hexecuting | ⟨j, b, hj, hb, hfacts⟩)
        · exact ⟨i, r', Locks.getElem?_set_self_of hr, hlane, hexecuting⟩
        · exact ⟨j, b, by rwa [List.getElem?_set_ne (Ne.symm hj)], hfacts⟩
      · rintro ⟨j, b, hb, hname, hexecuting⟩
        rcases Locks.getElem?_set_cases hb with ⟨-, rfl⟩ | ⟨hj, hb⟩
        · exact .inl hexecuting
        · exact .inr ⟨j, b, hj, hb, hname, hexecuting⟩
    · rw [Function.update_of_ne (Ne.symm hname), h.running name]
      constructor
      · rintro ⟨j, b, hb, hb', hexecuting⟩
        have hj : j ≠ i := by
          rintro rfl
          exact hname (Option.some.inj (hr.symm.trans hb) ▸ hb')
        exact ⟨j, b, by rwa [List.getElem?_set_ne (Ne.symm hj)], hb', hexecuting⟩
      · rintro ⟨j, b, hb, hb', hexecuting⟩
        rcases Locks.getElem?_set_cases hb with ⟨-, rfl⟩ | ⟨-, hb⟩
        · exact absurd (hlane.symm.trans hb') hname
        · exact ⟨j, b, hb, hb', hexecuting⟩

/-- Whether a lane runs, of the request at one place and of the others. -/
theorem running_iff (h : LaneCounters lanes requests) (hr : requests[i]? = some r) :
    (lanes r.lane).running = true ↔ r.executing = true ∨
      ∃ (j : ℕ) (b : LaneRequest), j ≠ i ∧ requests[j]? = some b ∧ b.lane = r.lane ∧
        b.executing = true := by
  rw [h.running r.lane]
  constructor
  · rintro ⟨j, b, hb, hname, hexecuting⟩
    by_cases hj : j = i
    · subst hj
      cases (hr.symm.trans hb)
      exact .inl hexecuting
    · exact .inr ⟨j, b, hj, hb, hname, hexecuting⟩
  · rintro (hexecuting | ⟨j, b, -, hfacts⟩)
    · exact ⟨i, r, hr, rfl, hexecuting⟩
    · exact ⟨j, b, hfacts⟩

/-- The request stays where the counters see it. -/
theorem move (h : LaneCounters lanes requests) (hr : requests[i]? = some r)
    (hlane : r'.lane = r.lane) (hwaiting : r'.waiting = r.waiting)
    (hexecuting : r'.executing = r.executing) : LaneCounters lanes (requests.set i r') := by
  have hchange : LaneCounters (Function.update lanes r.lane (lanes r.lane)) (requests.set i r') := by
    refine h.change hr r' hlane (by rw [hwaiting]) ?_
    rw [hexecuting]
    exact h.running_iff hr
  rwa [Function.update_eq_self] at hchange

/-- A waiting request is counted. -/
theorem pending_pos (h : LaneCounters lanes requests) (hr : requests[i]? = some r)
    (hwaiting : r.waiting = true) : 0 < (lanes r.lane).pending := by
  rw [h.pending r.lane, List.countP_pos_iff]
  exact ⟨r, List.mem_of_getElem? hr, by simp [hwaiting]⟩

/-- A new request. -/
theorem enter (h : LaneCounters lanes requests) (hwaiting : r.waiting = true)
    (hexecuting : r.executing = false) {state : LaneState}
    (hpending : state.pending = (lanes r.lane).pending + 1)
    (hrunning : state.running = (lanes r.lane).running) :
    LaneCounters (Function.update lanes r.lane state) (requests ++ [r]) := by
  have hmem (name : String) : (∃ (j : ℕ) (b : LaneRequest), (requests ++ [r])[j]? = some b ∧
      b.lane = name ∧ b.executing = true) ↔
        ∃ (j : ℕ) (b : LaneRequest), requests[j]? = some b ∧ b.lane = name ∧ b.executing = true := by
    constructor
    · rintro ⟨j, b, hb, hname, hb'⟩
      rcases List.mem_append.mp (List.mem_of_getElem? hb) with hold | hnew
      · obtain ⟨k, hk⟩ := List.getElem?_of_mem hold
        exact ⟨k, b, hk, hname, hb'⟩
      · obtain rfl := List.mem_singleton.mp hnew
        exact absurd (hexecuting.symm.trans hb') (by simp)
    · rintro ⟨j, b, hb, hfacts⟩
      have hlt : j < requests.length := (List.getElem?_eq_some_iff.mp hb).1
      exact ⟨j, b, by rwa [List.getElem?_append_left hlt], hfacts⟩
  refine ⟨fun name => ?_, fun name => ?_⟩
  · rw [List.countP_append, List.countP_singleton, ← h.pending name]
    by_cases hname : r.lane = name
    · subst hname
      rw [Function.update_self, hpending]
      simp [hwaiting]
    · rw [Function.update_of_ne (Ne.symm hname)]
      simp [hname]
  · rw [hmem name, ← h.running name]
    by_cases hname : r.lane = name
    · subst hname
      rw [Function.update_self, hrunning]
    · rw [Function.update_of_ne (Ne.symm hname)]

end LaneCounters

/-! ### The way out -/

namespace LaneManager

variable {cfg : ManagerConfig} {s : LaneManager} {i : ℕ} {r : LaneRequest}

theorem wf_of_getElem? {requests : List LaneRequest} (h : ∀ r ∈ requests, r.Wf cfg)
    (hr : requests[i]? = some r) : r.Wf cfg :=
  h r (List.mem_of_getElem? hr)

theorem setRequest_self (hr : s.requests[i]? = some r) : s.setRequest i r = s := by
  have hset : s.requests.set i r = s.requests := by
    refine List.ext_getElem? fun j => ?_
    by_cases hj : j = i
    · subst hj
      rw [Locks.getElem?_set_self_of hr, hr]
    · rw [List.getElem?_set_ne (Ne.symm hj)]
  rw [setRequest, hset]

/-- The locks of the manager agree with its requests. -/
abbrev LocksOf (s : LaneManager) : Prop :=
  Locks LaneRequest.Holds LaneRequest.Before s.locked s.log s.requests

/-- What a stage of the way out leaves alone, with the request at its place. -/
structure Undone (s s' : LaneManager) (i : ℕ) (r' : LaneRequest) : Prop where
  requests : s'.requests = s.requests.set i r'
  locks : s'.LocksOf
  lastPaced : s'.lastPaced = s.lastPaced
  now : s'.now = s.now
  paced : s'.paced = s.paced

theorem Undone.self (h : s.LocksOf) (hr : s.requests[i]? = some r) : Undone s s i r := by
  have hsame := congrArg LaneManager.requests (setRequest_self hr)
  exact ⟨hsame.symm, h, rfl, rfl, rfl⟩

theorem undone_leavePacing (h : s.LocksOf) (hr : s.requests[i]? = some r)
    (hpast : r.pacingAcquired = true → ¬r.Before .pacing) :
    Undone s (s.leavePacing i r) i { r with pacingAcquired := false } ∧
      (s.leavePacing i r).lanes = s.lanes := by
  unfold leavePacing
  split_ifs with hheld
  · refine ⟨⟨rfl, h.release hr hheld (fun l => ?_) (fun l hl => ?_), rfl, rfl, rfl⟩, rfl⟩
    · cases l with
      | pacing => simp [LaneRequest.Holds]
      | lane name => exact (and_iff_left (by simp)).symm
      | group name => exact (and_iff_left (by simp)).symm
    · refine ⟨hl, ?_⟩
      rintro rfl
      exact hpast hheld hl
  · have hsame : { r with pacingAcquired := false } = r := by
      rw [Bool.not_eq_true] at hheld
      rw [← hheld]
    rw [hsame]
    exact ⟨.self h hr, rfl⟩

theorem undone_leaveGroup (h : s.LocksOf) (hr : s.requests[i]? = some r)
    (hgroup : r.groupAcquired = true → r.group.isSome = true ∧ ∀ name, ¬r.Before (.group name)) :
    Undone s (s.leaveGroup i r) i { r with groupAcquired := false } ∧
      (s.leaveGroup i r).lanes = s.lanes := by
  unfold leaveGroup
  split
  · rename_i group hheld hname
    refine ⟨⟨rfl, h.release hr ⟨hheld, hname⟩ (fun l => ?_) (fun l hl => ?_), rfl, rfl, rfl⟩, rfl⟩
    · cases l with
      | pacing => exact (and_iff_left (by simp)).symm
      | lane name => exact (and_iff_left (by simp)).symm
      | group name =>
        refine ⟨fun hnone => (nomatch hnone.1), fun ⟨⟨_, hother⟩, hne⟩ => ?_⟩
        exact absurd (congrArg LaneLock.group (Option.some.inj (hother.symm.trans hname))) hne
    · refine ⟨hl, ?_⟩
      rintro rfl
      exact (hgroup hheld).2 group hl
  · rename_i hnone
    have hheld : r.groupAcquired = false := by
      by_contra hne
      obtain ⟨hsome, -⟩ := hgroup (by simpa using hne)
      obtain ⟨group, hname⟩ := Option.isSome_iff_exists.mp hsome
      exact hnone group (by simpa using hne) hname
    have hsame : { r with groupAcquired := false } = r := by rw [← hheld]
    rw [hsame]
    exact ⟨.self h hr, rfl⟩

/-- The counters after a request is unmarked. -/
def unmarked (lanes : String → LaneState) (r : LaneRequest) : LaneState :=
  if r.started then { lanes r.lane with running := false }
  else
    let pending := (max (((lanes r.lane).pending : ℤ) + -1) 0).toNat
    { lanes r.lane with pending := pending }

theorem undone_leaveLane (h : s.LocksOf) (hr : s.requests[i]? = some r)
    (hwaiting : r.acquired = false → r.started = false) :
    Undone s (s.leaveLane i r) i { r with acquired := false, phase := .left } ∧
      (s.leaveLane i r).lanes = Function.update s.lanes r.lane (unmarked s.lanes r) := by
  have hbefore (l : LaneLock) :
      ¬({ r with acquired := false, phase := .left } : LaneRequest).Before l := by
    cases l <;> simp [LaneRequest.Before]
  have hlocks (hheld : r.acquired = true) : Locks LaneRequest.Holds LaneRequest.Before
      (Function.update s.locked (.lane r.lane) false) (s.log ++ [⟨.lane r.lane, i, false⟩])
      (s.requests.set i { r with acquired := false, phase := .left }) := by
    refine h.release hr ⟨hheld, rfl⟩ (fun l => ?_) (fun l hl => absurd hl (hbefore l))
    cases l with
    | pacing => exact (and_iff_left (by simp)).symm
    | group name => exact (and_iff_left (by simp)).symm
    | lane name =>
      refine ⟨fun hnone => (nomatch hnone.1), fun ⟨⟨_, hother⟩, hne⟩ => ?_⟩
      exact absurd (congrArg LaneLock.lane hother.symm) hne
  unfold leaveLane unmarked
  split_ifs with hheld hstarted hstarted
  · exact ⟨⟨rfl, hlocks hheld, rfl, rfl, rfl⟩, rfl⟩
  · exact ⟨⟨rfl, hlocks hheld, rfl, rfl, rfl⟩, rfl⟩
  · rw [Bool.not_eq_true] at hheld
    exact absurd hstarted (by simp [hwaiting hheld])
  · rw [Bool.not_eq_true] at hheld
    have hsame : ({ r with phase := .left } : LaneRequest) =
        { r with acquired := false, phase := .left } := by rw [← hheld]
    rw [hsame]
    refine ⟨⟨rfl, h.move hr (fun l => ?_) (fun l hl => absurd hl (hbefore l)), rfl, rfl, rfl⟩, rfl⟩
    cases l with
    | pacing => exact Iff.rfl
    | group name => exact Iff.rfl
    | lane name =>
      exact ⟨fun hnone => (nomatch hnone.1), fun hold => absurd (hheld.symm.trans hold.1) (by simp)⟩

/-- The request after it left. -/
def departed (r : LaneRequest) : LaneRequest :=
  { r with pacingAcquired := false, groupAcquired := false, acquired := false, phase := .left }

theorem Undone.trans {s₁ s₂ s₃ : LaneManager} {r₁ r₂ : LaneRequest} (h : Undone s₁ s₂ i r₁)
    (h' : Undone s₂ s₃ i r₂) : Undone s₁ s₃ i r₂ := by
  refine ⟨?_, h'.locks, h'.lastPaced.trans h.lastPaced, h'.now.trans h.now,
    h'.paced.trans h.paced⟩
  rw [h'.requests, h.requests, List.set_set]

theorem Undone.getElem? {s' : LaneManager} {r' : LaneRequest} (h : Undone s s' i r')
    (hr : s.requests[i]? = some r) : s'.requests[i]? = some r' := by
  rw [h.requests]
  exact Locks.getElem?_set_self_of hr

/-- The locals of a request that has not left, as its way out needs them. -/
theorem wf_finish (hwf : r.Wf cfg) (hin : r.phase ≠ .left) :
    (r.pacingAcquired = true → ¬r.Before .pacing) ∧
      (r.groupAcquired = true → r.group.isSome = true ∧ ∀ name, ¬r.Before (.group name)) ∧
      (r.acquired = false → r.started = false) := by
  unfold LaneRequest.Wf at hwf
  cases hphase : r.phase <;> simp_all [LaneRequest.Before]

theorem undone_finish (h : s.LocksOf) (hwf : r.Wf cfg) (hin : r.phase ≠ .left)
    (hr : s.requests[i]? = some r) :
    Undone s (s.finish i r) i (departed r) ∧
      (s.finish i r).lanes = Function.update s.lanes r.lane (unmarked s.lanes r) := by
  obtain ⟨hpast, hgroup, hwaiting⟩ := wf_finish hwf hin
  obtain ⟨h₁, hlanes₁⟩ := undone_leavePacing h hr hpast
  have hr₁ := h₁.getElem? hr
  obtain ⟨h₂, hlanes₂⟩ := undone_leaveGroup h₁.locks hr₁ hgroup
  have hr₂ := h₂.getElem? hr₁
  obtain ⟨h₃, hlanes₃⟩ := undone_leaveLane h₂.locks hr₂ hwaiting
  refine ⟨(h₁.trans h₂).trans h₃, hlanes₃.trans ?_⟩
  rw [hlanes₂, hlanes₁]
  rfl

end LaneManager

/-! ### The invariant -/

/-- The paced admissions, and when the next one may be. -/
structure PacedInv (cfg : ManagerConfig) (s : LaneManager) : Prop where
  last : s.lastPaced = s.paced.head?.map Prod.snd
  past : ∀ t ∈ s.lastPaced, t ≤ s.now
  apart : s.paced.IsChain fun later earlier =>
    earlier.2 + cfg.pacingInterval later.1 ≤ later.2
  wake : ∀ (i : ℕ) r wakeAt, s.requests[i]? = some r → r.phase = .pacing wakeAt →
    ∀ t ∈ s.lastPaced, t + cfg.pacingInterval r.lane ≤ wakeAt

structure LaneInv (cfg : ManagerConfig) (s : LaneManager) : Prop where
  wf : ∀ r ∈ s.requests, r.Wf cfg
  locks : s.LocksOf
  counters : LaneCounters s.lanes s.requests
  paced : PacedInv cfg s

namespace LaneInv

open LaneManager

variable {cfg : ManagerConfig} {s s' : LaneManager} {i : ℕ} {r r' : LaneRequest}

theorem initial (now : ℚ) : LaneInv cfg (.initial now) :=
  ⟨by simp [LaneManager.initial], .nil, .initial,
    ⟨rfl, by simp [LaneManager.initial], .nil, by simp [LaneManager.initial]⟩⟩

theorem wf_set (h : LaneInv cfg s) (hwf : r'.Wf cfg) : ∀ b ∈ s.requests.set i r', b.Wf cfg := by
  intro b hb
  rcases List.mem_or_eq_of_mem_set hb with hold | rfl
  · exact h.wf b hold
  · exact hwf

/-- The paced admissions and the clock stay as they are, and the request does not start to wait for
its pacing. -/
theorem paced_set (h : LaneInv cfg s) (hrequests : s'.requests = s.requests.set i r')
    (hlast : s'.lastPaced = s.lastPaced) (hnow : s'.now = s.now) (hpaced : s'.paced = s.paced)
    (hwake : ∀ wakeAt, r'.phase = .pacing wakeAt → ∀ t ∈ s.lastPaced,
      t + cfg.pacingInterval r'.lane ≤ wakeAt) : PacedInv cfg s' := by
  obtain ⟨hhead, hpast, hapart, hold⟩ := h.paced
  refine ⟨?_, ?_, ?_, fun j b wakeAt hb hphase => ?_⟩
  · rw [hlast, hpaced]
    exact hhead
  · rw [hlast, hnow]
    exact hpast
  · rw [hpaced]
    exact hapart
  · rw [hlast]
    rw [hrequests] at hb
    rcases Locks.getElem?_set_cases hb with ⟨-, rfl⟩ | ⟨-, hb⟩
    · exact hwake wakeAt hphase
    · exact hold j b wakeAt hb hphase

theorem enter (h : LaneInv cfg s) (lane : String) (applyPacing : Bool) :
    LaneInv cfg { s.markPending lane 1 with
      requests := s.requests ++ [.enter lane applyPacing] } := by
  refine ⟨fun r hr => ?_, h.locks.enter fun l => ?_, ?_, ?_⟩
  · rcases List.mem_append.mp hr with hold | hnew
    · exact h.wf r hold
    · rw [List.mem_singleton.mp hnew]
      exact ⟨rfl, rfl, rfl, rfl⟩
  · cases l <;> simp [LaneRequest.Holds, LaneRequest.enter]
  · refine h.counters.enter (r := .enter lane applyPacing) rfl rfl ?_ rfl
    show (max (((s.lanes lane).pending : ℤ) + 1) 0).toNat = (s.lanes lane).pending + 1
    omega
  · obtain ⟨hhead, hpast, hapart, hold⟩ := h.paced
    refine ⟨hhead, hpast, hapart, fun j b wakeAt hb hphase => ?_⟩
    rcases List.mem_append.mp (List.mem_of_getElem? hb) with hmem | hnew
    · obtain ⟨k, hk⟩ := List.getElem?_of_mem hmem
      exact hold k b wakeAt hk hphase
    · rw [List.mem_singleton.mp hnew] at hphase
      exact absurd hphase (by simp [LaneRequest.enter])

/-- What follows the locks of the lane is well formed. -/
theorem wf_afterLocks {r' : LaneRequest} (hphase : r'.phase = afterLocks cfg r)
    (hacquired : r'.acquired = true) (hgroup : r'.group = cfg.laneGroup r'.lane)
    (hgroupAcquired : r'.groupAcquired = r'.group.isSome) (hpacing : r'.pacingAcquired = false)
    (hstarted : r'.started = false) : r'.Wf cfg := by
  unfold LaneRequest.Wf
  rw [hphase]
  unfold afterLocks
  split_ifs
  · exact ⟨hacquired, hgroup, hgroupAcquired, hpacing, hstarted⟩
  · exact ⟨hacquired, hgroup, hgroupAcquired, hpacing, hstarted⟩

theorem afterLocks_cases (cfg : ManagerConfig) (r : LaneRequest) :
    afterLocks cfg r = .pacingLock ∨ afterLocks cfg r = .ready := by
  unfold afterLocks
  split_ifs
  · exact .inl rfl
  · exact .inr rfl

theorem pass (h : LaneInv cfg s) (hr : s.requests[i]? = some r) (hphase : r.phase = .priority) :
    LaneInv cfg (s.setRequest i
      { r with phase := .laneLock, checkedAt := some s.requests.length }) := by
  have hwf := wf_of_getElem? h.wf hr
  unfold LaneRequest.Wf at hwf
  rw [hphase] at hwf
  obtain ⟨hacquired, hgroup, hpacing, hstarted⟩ := hwf
  refine ⟨h.wf_set ⟨hacquired, hgroup, hpacing, hstarted⟩,
    h.locks.move hr (fun l => by cases l <;> exact Iff.rfl) (fun l _ => ?_),
    h.counters.move hr rfl ?_ ?_, h.paced_set rfl rfl rfl rfl (by simp)⟩
  · cases l <;> simp [LaneRequest.Before, hphase]
  · simp [LaneRequest.waiting, hphase]
  · simp [LaneRequest.executing, hphase]

theorem lockLane (h : LaneInv cfg s) (hr : s.requests[i]? = some r) (hphase : r.phase = .laneLock)
    (hfree : s.locked (.lane r.lane) = false) :
    LaneInv cfg ((s.setRequest i { r with
        acquired := true
        group := cfg.laneGroup r.lane
        phase := if (cfg.laneGroup r.lane).isSome then .groupLock else afterLocks cfg r }).acquire
      (.lane r.lane) i) := by
  have hwf := wf_of_getElem? h.wf hr
  unfold LaneRequest.Wf at hwf
  rw [hphase] at hwf
  obtain ⟨hacquired, hgroup, hpacing, hstarted⟩ := hwf
  generalize hnext : (if (cfg.laneGroup r.lane).isSome then LanePhase.groupLock
    else afterLocks cfg r) = next
  have hcases : (next = .groupLock ∧ (cfg.laneGroup r.lane).isSome = true) ∨
      (next = afterLocks cfg r ∧ cfg.laneGroup r.lane = none) := by
    rw [← hnext]
    split_ifs with hsome
    · exact .inl ⟨rfl, hsome⟩
    · exact .inr ⟨rfl, by simpa using hsome⟩
  have hpast : next = .groupLock ∨ next = .pacingLock ∨ next = .ready := by
    rcases hcases with ⟨hnext, -⟩ | ⟨hnext, -⟩
    · exact .inl hnext
    · rw [hnext]
      exact .inr (afterLocks_cases cfg r)
  refine ⟨h.wf_set ?_, h.locks.acquire hr hfree (.inr hphase) (fun l => ?_) (fun l hl => ?_),
    h.counters.move hr rfl ?_ ?_, h.paced_set rfl rfl rfl rfl ?_⟩
  · rcases hcases with ⟨rfl, hsome⟩ | ⟨rfl, hnone⟩
    · exact ⟨rfl, rfl, hsome, hgroup, hpacing, hstarted⟩
    · refine wf_afterLocks rfl rfl rfl ?_ hpacing hstarted
      show r.groupAcquired = (cfg.laneGroup r.lane).isSome
      rw [hgroup, hnone]
      rfl
  · cases l with
    | lane name => simp [LaneRequest.Holds, hacquired, eq_comm]
    | group name => simp [LaneRequest.Holds, hgroup]
    | pacing => simp [LaneRequest.Holds]
  · cases l with
    | lane name => rcases hpast with rfl | rfl | rfl <;> simp [LaneRequest.Before] at hl
    | group name => exact ⟨.inr (.inl hphase), by simp⟩
    | pacing => exact ⟨.inr (.inl hphase), by simp⟩
  · rcases hpast with rfl | rfl | rfl <;> simp [LaneRequest.waiting, hphase]
  · rcases hpast with rfl | rfl | rfl <;> simp [LaneRequest.executing, hphase]
  · rcases hpast with rfl | rfl | rfl <;> simp

theorem lockGroup (h : LaneInv cfg s) (hr : s.requests[i]? = some r) {group : String}
    (hname : r.group = some group) (hphase : r.phase = .groupLock)
    (hfree : s.locked (.group group) = false) :
    LaneInv cfg ((s.setRequest i { r with
        groupAcquired := true, phase := afterLocks cfg r }).acquire (.group group) i) := by
  have hwf := wf_of_getElem? h.wf hr
  unfold LaneRequest.Wf at hwf
  rw [hphase] at hwf
  obtain ⟨hacquired, hlane, hsome, hgroup, hpacing, hstarted⟩ := hwf
  generalize hnext : afterLocks cfg r = next
  have hpast : next = .pacingLock ∨ next = .ready := hnext ▸ afterLocks_cases cfg r
  refine ⟨h.wf_set ?_, h.locks.acquire hr hfree (.inr (.inr hphase)) (fun l => ?_)
      (fun l hl => ?_),
    h.counters.move hr rfl ?_ ?_, h.paced_set rfl rfl rfl rfl ?_⟩
  · exact wf_afterLocks hnext.symm hacquired hlane hsome.symm hpacing hstarted
  · cases l with
    | lane name => simp [LaneRequest.Holds]
    | group name => simp [LaneRequest.Holds, hgroup, hname, eq_comm]
    | pacing => simp [LaneRequest.Holds]
  · cases l with
    | lane name => rcases hpast with rfl | rfl <;> simp [LaneRequest.Before] at hl
    | group name => rcases hpast with rfl | rfl <;> simp [LaneRequest.Before] at hl
    | pacing => exact ⟨.inr (.inr (.inl hphase)), by simp⟩
  · rcases hpast with rfl | rfl <;> simp [LaneRequest.waiting, hphase]
  · rcases hpast with rfl | rfl <;> simp [LaneRequest.executing, hphase]
  · rcases hpast with rfl | rfl <;> simp

/-- The delay ends after the last admission by the interval of the lane. -/
theorem le_wakeAt (cfg : ManagerConfig) (s : LaneManager) (lane : String) {t : ℚ}
    (ht : t ∈ s.lastPaced) : t + cfg.pacingInterval lane ≤ s.wakeAt cfg lane := by
  unfold LaneManager.wakeAt
  rw [Option.mem_def.mp ht]
  dsimp only
  split_ifs with hwait
  · linarith
  · linarith

theorem lockPacing (h : LaneInv cfg s) (hr : s.requests[i]? = some r)
    (hphase : r.phase = .pacingLock) (hfree : s.locked .pacing = false) :
    LaneInv cfg ((s.setRequest i { r with
        pacingAcquired := true, phase := .pacing (s.wakeAt cfg r.lane) }).acquire .pacing i) := by
  have hwf := wf_of_getElem? h.wf hr
  unfold LaneRequest.Wf at hwf
  rw [hphase] at hwf
  obtain ⟨hacquired, hlane, hgroup, hpacing, hstarted⟩ := hwf
  refine ⟨h.wf_set ⟨hacquired, hlane, hgroup, rfl, hstarted⟩,
    h.locks.acquire hr hfree (.inr (.inr (.inr hphase))) (fun l => ?_) (fun l hl => ?_),
    h.counters.move hr rfl ?_ ?_, h.paced_set rfl rfl rfl rfl ?_⟩
  · cases l <;> simp [LaneRequest.Holds, hpacing]
  · cases l <;> simp [LaneRequest.Before] at hl
  · simp [LaneRequest.waiting, hphase]
  · simp [LaneRequest.executing, hphase]
  · intro wakeAt hnext t ht
    obtain rfl := LanePhase.pacing.inj hnext
    exact le_wakeAt cfg s r.lane ht

/-- Only the holder of the pacing lock moves the time of the last admission. -/
theorem pace (h : LaneInv cfg s) (hr : s.requests[i]? = some r) {wakeAt : ℚ}
    (hphase : r.phase = .pacing wakeAt) (hwoken : wakeAt ≤ s.now) :
    LaneInv cfg (({ s with
        lastPaced := some s.now
        paced := (r.lane, s.now) :: s.paced }.setRequest i
          { r with pacingAcquired := false, phase := .ready }).release .pacing i) := by
  have hwf := wf_of_getElem? h.wf hr
  unfold LaneRequest.Wf at hwf
  rw [hphase] at hwf
  obtain ⟨hacquired, hlane, hgroup, hpacing, hstarted⟩ := hwf
  obtain ⟨hhead, hpast, hapart, hwake⟩ := h.paced
  refine ⟨h.wf_set ⟨hacquired, hlane, hgroup, rfl, hstarted⟩,
    h.locks.release hr hpacing (fun l => ?_) (fun l hl => ?_), h.counters.move hr rfl ?_ ?_,
    ⟨rfl, fun t ht => (Option.some.inj ht).symm.le, ?_, fun j b other hb hother => ?_⟩⟩
  · cases l <;> simp [LaneRequest.Holds]
  · cases l <;> simp [LaneRequest.Before] at hl
  · simp [LaneRequest.waiting, hphase]
  · simp [LaneRequest.executing, hphase]
  · show ((r.lane, s.now) :: s.paced).IsChain _
    cases hpaced : s.paced with
    | nil => exact .singleton _
    | cons last rest =>
      rw [hpaced] at hhead hapart
      refine List.isChain_cons_cons.mpr ⟨?_, hapart⟩
      exact (hwake i r wakeAt hr hphase last.2 hhead).trans hwoken
  · rcases Locks.getElem?_set_cases hb with ⟨-, rfl⟩ | ⟨hj, hb⟩
    · exact absurd hother (by simp)
    · have hb' : s.requests[j]? = some b := hb
      have hwf := wf_of_getElem? h.wf hb'
      unfold LaneRequest.Wf at hwf
      rw [hother] at hwf
      exact absurd (h.locks.exclusive .pacing j i b r hb' hr hwf.2.2.2.1 hpacing) hj

theorem start (h : LaneInv cfg s) (hr : s.requests[i]? = some r) (hphase : r.phase = .ready) :
    LaneInv cfg ((s.markStart r.lane).setRequest i
      { r with started := true, phase := .working }) := by
  have hwf := wf_of_getElem? h.wf hr
  unfold LaneRequest.Wf at hwf
  rw [hphase] at hwf
  obtain ⟨hacquired, hlane, hgroup, hpacing, hstarted⟩ := hwf
  have hwaiting : r.waiting = true := by simp [LaneRequest.waiting, hstarted, hphase]
  have hpos := h.counters.pending_pos hr hwaiting
  refine ⟨h.wf_set ⟨hacquired, hlane, hgroup, hpacing, rfl⟩,
    h.locks.move hr (fun l => by cases l <;> exact Iff.rfl) (fun l hl => ?_),
    h.counters.change hr { r with started := true, phase := .working } rfl ?_ ?_,
    h.paced_set rfl rfl rfl rfl (by simp)⟩
  · cases l <;> simp [LaneRequest.Before] at hl
  · show (s.lanes r.lane).pending - 1 + _ = _
    rw [hwaiting]
    simp [LaneRequest.waiting]
    omega
  · simp [LaneRequest.executing]

/-- Two requests on one lane do not both execute. -/
theorem executing_unique (h : LaneInv cfg s) {j : ℕ} {b : LaneRequest}
    (hr : s.requests[i]? = some r) (hb : s.requests[j]? = some b) (hr' : r.executing = true)
    (hb' : b.executing = true) (hlane : r.lane = b.lane) : i = j := by
  obtain ⟨-, hheld, -⟩ := (wf_of_getElem? h.wf hr).of_executing hr'
  obtain ⟨-, hheld', -⟩ := (wf_of_getElem? h.wf hb).of_executing hb'
  exact h.locks.exclusive (.lane r.lane) i j r b hr hb hheld (hlane ▸ hheld')

theorem leave (h : LaneInv cfg s) (hr : s.requests[i]? = some r) (hin : r.phase ≠ .left) :
    LaneInv cfg (s.finish i r) := by
  obtain ⟨⟨hrequests, hlocks, hlast, hnow, hpaced⟩, hlanes⟩ :=
    undone_finish h.locks (wf_of_getElem? h.wf hr) hin hr
  have hwaiting : (departed r).waiting = false := by simp [LaneRequest.waiting, departed]
  have hexecuting : (departed r).executing = false := by simp [LaneRequest.executing, departed]
  refine ⟨?_, hlocks, ?_, h.paced_set hrequests hlast hnow hpaced (by simp [departed])⟩
  · rw [hrequests]
    exact h.wf_set ⟨rfl, rfl, rfl⟩
  · rw [hrequests, hlanes]
    refine h.counters.change hr (departed r) rfl ?_ ?_
    · rw [hwaiting]
      cases hstarted : r.started with
      | true =>
        have hwait : r.waiting = false := by simp [LaneRequest.waiting, hstarted]
        rw [hwait, unmarked, if_pos hstarted]
      | false =>
        have hwait : r.waiting = true := by simp [LaneRequest.waiting, hstarted, hin]
        have hpos := h.counters.pending_pos hr hwait
        rw [hwait, unmarked, if_neg (by simp [hstarted])]
        show (max (((s.lanes r.lane).pending : ℤ) + -1) 0).toNat + 1 = (s.lanes r.lane).pending + 0
        omega
    · rw [hexecuting]
      cases hstarted : r.started with
      | true =>
        have hexecutes : r.executing = true := by simp [LaneRequest.executing, hstarted, hin]
        rw [unmarked, if_pos hstarted]
        refine ⟨nofun, ?_⟩
        rintro (hno | ⟨j, b, hj, hb, hlane, hb'⟩)
        · cases hno
        · exact absurd (h.executing_unique hb hr hb' hexecutes hlane) hj
      | false =>
        have hnot : r.executing = false := by simp [LaneRequest.executing, hstarted]
        have hiff := h.counters.running_iff hr
        rw [hnot] at hiff
        rw [unmarked, if_neg (by simp [hstarted])]
        exact hiff

theorem advance (h : LaneInv cfg s) {now : ℚ} (hnow : s.now ≤ now) :
    LaneInv cfg { s with now := now } :=
  ⟨h.wf, h.locks, h.counters, h.paced.last, fun t ht => (h.paced.past t ht).trans hnow,
    h.paced.apart, h.paced.wake⟩

theorem step (h : LaneInv cfg s) {act : LaneAct} (hstep : s.step cfg act = some s') :
    LaneInv cfg s' := by
  unfold LaneManager.step at hstep
  cases act with
  | enter lane applyPacing =>
    cases hstep
    exact h.enter lane applyPacing
  | advance now =>
    obtain ⟨hnow, hstep⟩ := guard_bind_eq_some.mp hstep
    cases hstep
    exact h.advance hnow
  | pass i =>
    obtain ⟨r, hr, hstep⟩ := Option.bind_eq_some_iff.mp hstep
    obtain ⟨⟨hphase, -⟩, hstep⟩ := guard_bind_eq_some.mp hstep
    cases hstep
    exact h.pass hr hphase
  | lockLane i =>
    obtain ⟨r, hr, hstep⟩ := Option.bind_eq_some_iff.mp hstep
    obtain ⟨⟨hphase, hfree⟩, hstep⟩ := guard_bind_eq_some.mp hstep
    cases hstep
    exact h.lockLane hr hphase hfree
  | lockGroup i =>
    obtain ⟨r, hr, hstep⟩ := Option.bind_eq_some_iff.mp hstep
    obtain ⟨group, hname, hstep⟩ := Option.bind_eq_some_iff.mp hstep
    obtain ⟨⟨hphase, hfree⟩, hstep⟩ := guard_bind_eq_some.mp hstep
    cases hstep
    exact h.lockGroup hr hname hphase hfree
  | lockPacing i =>
    obtain ⟨r, hr, hstep⟩ := Option.bind_eq_some_iff.mp hstep
    obtain ⟨⟨hphase, hfree⟩, hstep⟩ := guard_bind_eq_some.mp hstep
    cases hstep
    exact h.lockPacing hr hphase hfree
  | pace i =>
    obtain ⟨r, hr, hstep⟩ := Option.bind_eq_some_iff.mp hstep
    split at hstep
    · rename_i wakeAt hphase
      obtain ⟨hwoken, hstep⟩ := guard_bind_eq_some.mp hstep
      cases hstep
      exact h.pace hr hphase hwoken
    · cases hstep
  | start i =>
    obtain ⟨r, hr, hstep⟩ := Option.bind_eq_some_iff.mp hstep
    obtain ⟨hphase, hstep⟩ := guard_bind_eq_some.mp hstep
    cases hstep
    exact h.start hr hphase
  | leave i =>
    obtain ⟨r, hr, hstep⟩ := Option.bind_eq_some_iff.mp hstep
    obtain ⟨hin, hstep⟩ := guard_bind_eq_some.mp hstep
    cases hstep
    exact h.leave hr hin

end LaneInv

theorem laneInv_of_run {cfg : ManagerConfig} {now : ℚ} {acts : List LaneAct} {s : LaneManager}
    (hrun : Run (StepOf fun s => s.step cfg) (.initial now) acts s) : LaneInv cfg s := by
  have hstart : LaneInv cfg (.initial now) := .initial now
  exact hrun.invariant (fun _ _ _ h hstep => h.step hstep) hstart

/-! ### What the lanes promise -/

/-- The bookkeeping of the lanes and of their requests. -/
structure LaneBookkeeping (cfg : ManagerConfig) (s : LaneManager) : Prop where
  /-- One factory for each lane. -/
  lane : ∀ (i j : ℕ) r b, s.requests[i]? = some r → s.requests[j]? = some b → r.executing = true →
    b.executing = true → r.lane = b.lane → i = j
  /-- One factory for each group that lanes belong to. -/
  group : ∀ (i j : ℕ) r b group, s.requests[i]? = some r → s.requests[j]? = some b →
    r.executing = true → b.executing = true → cfg.laneGroup r.lane = some group →
    cfg.laneGroup b.lane = some group → i = j
  pending : ∀ name, (s.lanes name).pending =
    (s.requests.filter fun r => decide (r.lane = name) && r.waiting).length
  running : ∀ name, (s.lanes name).running = true ↔
    ∃ r ∈ s.requests, r.lane = name ∧ r.executing = true
  /-- A request takes a lock once at most, and gives back each lock that it took, once. -/
  locks : ∀ (i : ℕ) r lock, s.requests[i]? = some r →
    lockUses s.log i lock = [] ∨ lockUses s.log i lock = [true, false] ∨
      (lockUses s.log i lock = [true] ∧ r.phase ≠ .left)
  /-- Without a request nothing is counted and no lock is held. -/
  idle : (∀ r ∈ s.requests, r.phase = .left) →
    (∀ name, s.lanes name = ⟨0, false⟩) ∧ ∀ lock, s.locked lock = false
  /-- An admission and the one before it. -/
  paced : s.paced.IsChain fun later earlier => earlier.2 + cfg.pacingInterval later.1 ≤ later.2

theorem LaneRequest.Wf.not_holds_of_left {cfg : ManagerConfig} {r : LaneRequest} (h : r.Wf cfg)
    (hleft : r.phase = .left) (lock : LaneLock) : ¬r.Holds lock := by
  unfold Wf at h
  rw [hleft] at h
  obtain ⟨hacquired, hgroup, hpacing⟩ := h
  cases lock with
  | lane name => simp [Holds, hacquired]
  | group name => simp [Holds, hgroup]
  | pacing => simp [Holds, hpacing]

theorem LaneInv.bookkeeping {cfg : ManagerConfig} {s : LaneManager} (h : LaneInv cfg s) :
    LaneBookkeeping cfg s where
  lane i j r b hr hb hr' hb' hlane := h.executing_unique hr hb hr' hb' hlane
  group i j r b group hr hb hr' hb' hgroup hgroup' := by
    obtain ⟨-, -, hheld⟩ := (LaneManager.wf_of_getElem? h.wf hr).of_executing hr'
    obtain ⟨-, -, hheld'⟩ := (LaneManager.wf_of_getElem? h.wf hb).of_executing hb'
    exact h.locks.exclusive (.group group) i j r b hr hb (hheld group hgroup) (hheld' group hgroup')
  pending name := by
    rw [h.counters.pending name, List.countP_eq_length_filter]
  running name := by
    rw [h.counters.running name]
    constructor
    · rintro ⟨i, r, hr, hfacts⟩
      exact ⟨r, List.mem_of_getElem? hr, hfacts⟩
    · rintro ⟨r, hr, hfacts⟩
      obtain ⟨i, hi⟩ := List.getElem?_of_mem hr
      exact ⟨i, r, hi, hfacts⟩
  locks i r lock hr := by
    obtain ⟨-, hheld, hdone⟩ := h.locks.uses i r hr lock
    by_cases hholds : r.Holds lock
    · refine .inr (.inr ⟨hheld hholds, fun hleft => ?_⟩)
      exact (LaneManager.wf_of_getElem? h.wf hr).not_holds_of_left hleft lock hholds
    · rcases hdone hholds with hnone | hboth
      · exact .inl hnone
      · exact .inr (.inl hboth)
  idle hleft := by
    refine ⟨fun name => ?_, fun lock => ?_⟩
    · have hpending : (s.lanes name).pending = 0 := by
        rw [h.counters.pending name, List.countP_eq_zero]
        intro r hr
        simp [LaneRequest.waiting, hleft r hr]
      have hrunning : (s.lanes name).running = false := by
        by_contra hne
        obtain ⟨i, r, hr, -, hexecuting⟩ := (h.counters.running name).mp (by simpa using hne)
        simp [LaneRequest.executing, hleft r (List.mem_of_getElem? hr)] at hexecuting
      rw [← hpending, ← hrunning]
    · by_contra hne
      obtain ⟨i, r, hr, hholds⟩ := (h.locks.locked lock).mp (by simpa using hne)
      have hwf := LaneManager.wf_of_getElem? h.wf hr
      exact hwf.not_holds_of_left (hleft r (List.mem_of_getElem? hr)) lock hholds
  paced := h.paced.apart

/-- **Broker lane bookkeeping**, in every state of every run. -/
theorem lane_bookkeeping {cfg : ManagerConfig} {now : ℚ} {acts : List LaneAct} {s : LaneManager}
    (hrun : Run (StepOf fun s => s.step cfg) (.initial now) acts s) : LaneBookkeeping cfg s :=
  (laneInv_of_run hrun).bookkeeping

namespace LaneExample

/-- The history lane is listed by two groups. -/
def config : ManagerConfig :=
  ⟨[], fun _ => 0, [("historical", ["chart", "history"]), ("reports", ["history"])]⟩

/-- A request of each lane starts. -/
def acts : List LaneAct :=
  [.enter "chart" true, .pass 0, .lockLane 0, .lockGroup 0, .start 0,
    .enter "history" true, .pass 1, .lockLane 1, .lockGroup 1, .start 1]

def outcome : Option LaneManager := acts.foldlM (fun s act => s.step config act) (.initial 0)

theorem outcome_requests :
    outcome.map (fun s => s.requests.map fun r => (r.lane, r.executing)) =
      some [("chart", true), ("history", true)] := by
  decide +kernel

end LaneExample

open LaneExample in
theorem lane_bookkeeping_overlap :
    ∃ s, outcome = some s ∧ LaneBookkeeping config s := by
  obtain ⟨s, hs, -⟩ := Option.map_eq_some_iff.mp outcome_requests
  exact ⟨s, hs, lane_bookkeeping (.of_foldlM hs)⟩

open LaneExample in
/-- A group that shares a lane with a later group is not exclusive. -/
theorem groups_overlap :
    ¬∀ (cfg : ManagerConfig) (now : ℚ) (acts : List LaneAct) (s : LaneManager),
      Run (StepOf fun s => s.step cfg) (.initial now) acts s →
      ∀ group ∈ cfg.exclusiveGroups, ∀ (i j : ℕ) r b, s.requests[i]? = some r →
        s.requests[j]? = some b → r.executing = true → b.executing = true →
        r.lane ∈ group.2 → b.lane ∈ group.2 → i = j := by
  intro hclaim
  obtain ⟨s, hs, hrequests⟩ := Option.map_eq_some_iff.mp outcome_requests
  have hget (i : ℕ) : (s.requests[i]?).map (fun r => (r.lane, r.executing)) =
      [("chart", true), ("history", true)][i]? := by
    rw [← hrequests, List.getElem?_map]
  obtain ⟨r, hr, hr'⟩ := Option.map_eq_some_iff.mp ((hget 0).trans rfl)
  obtain ⟨b, hb, hb'⟩ := Option.map_eq_some_iff.mp ((hget 1).trans rfl)
  obtain ⟨hlane, hexecuting⟩ := Prod.mk.inj hr'
  obtain ⟨hlane', hexecuting'⟩ := Prod.mk.inj hb'
  have hsame := hclaim config 0 acts s (.of_foldlM hs) ("historical", ["chart", "history"])
    (by simp [config]) 0 1 r b hr hb hexecuting hexecuting' (by simp [hlane]) (by simp [hlane'])
  exact absurd hsame (by decide)

end AefTerminal
