import AefTerminal.Broker.Bookkeeping

/-!
# Broker lane priority

A request looks at the lanes above its own once, before it waits for the locks of its lane and of
its group and for its pacing. What it saw there stays true: a request that has left does not come
back. So at its start a lane above is pending or running exactly where a request entered such a
lane after the check and has not left. Such a request is not looked at again.

## Main definitions

* `CheckedInv`: what a request saw at its check
* `LaneManager.Undisturbed`: no request came before it since

## Main results

* `lane_priority_iff`, `starts_under_chart`
-/

namespace AefTerminal

open Foundation LaneManager

/-- Every request of a lane above that entered after the check of `r` has left. -/
def LaneManager.Undisturbed (cfg : ManagerConfig) (s : LaneManager) (r : LaneRequest) : Prop :=
  ∀ (j : ℕ) b, s.requests[j]? = some b → cfg.Outranks b.lane r.lane →
    (∀ c ∈ r.checkedAt, c ≤ j) → b.phase = .left

/-- The lanes above a lane are neither pending nor running. -/
def LaneManager.UpperIdle (cfg : ManagerConfig) (s : LaneManager) (lane : String) : Prop :=
  ∀ upper, cfg.Outranks upper lane → (s.lanes upper).pending = 0 ∧ (s.lanes upper).running = false

/-- What a request that passed the check saw there, and that it has passed it. -/
structure CheckedInv (cfg : ManagerConfig) (s : LaneManager) : Prop extends LaneInv cfg s where
  checked : ∀ (i : ℕ) r c, s.requests[i]? = some r → r.checkedAt = some c →
    ∀ (j : ℕ) b, s.requests[j]? = some b → j < c → cfg.Outranks b.lane r.lane → b.phase = .left
  passed : ∀ (i : ℕ) r, s.requests[i]? = some r → r.phase ≠ .priority → r.phase ≠ .left →
    r.checkedAt ≠ none
  bound : ∀ (i : ℕ) r c, s.requests[i]? = some r → r.checkedAt = some c → c ≤ s.requests.length

variable {s : LaneManager} {cfg : ManagerConfig}

/-- A lane is idle exactly where all its requests have left. -/
theorem LaneInv.upperIdle_iff (h : LaneInv cfg s) (lane : String) : s.UpperIdle cfg lane ↔
      ∀ (j : ℕ) b, s.requests[j]? = some b → cfg.Outranks b.lane lane → b.phase = .left := by
  constructor
  · intro hidle j b hb houtranks
    obtain ⟨hpending, hrunning⟩ := hidle b.lane houtranks
    by_contra hin
    cases hstarted : b.started with
    | true =>
      have hexecuting : b.executing = true := by simp [LaneRequest.executing, hstarted, hin]
      have htrue := (h.counters.running b.lane).mpr ⟨j, b, hb, rfl, hexecuting⟩
      exact absurd (hrunning.symm.trans htrue) (by simp)
    | false =>
      have hwaiting : b.waiting = true := by simp [LaneRequest.waiting, hstarted, hin]
      exact absurd hpending (h.counters.pending_pos hb hwaiting).ne'
  · intro hleft upper houtranks
    constructor
    · rw [h.counters.pending upper, List.countP_eq_zero]
      intro b hb
      obtain ⟨j, hj⟩ := List.getElem?_of_mem hb
      by_cases hlane : b.lane = upper
      · simp [LaneRequest.waiting, hleft j b hj (hlane ▸ houtranks)]
      · simp [hlane]
    · by_contra hne
      obtain ⟨j, b, hb, rfl, hexecuting⟩ := (h.counters.running upper).mp (by simpa using hne)
      simp [LaneRequest.executing, hleft j b hb houtranks] at hexecuting

/-- The check of a request that passes it. -/
theorem upperIdle_of_blocked {lane : String}
    (h : s.blocked cfg lane = false) : s.UpperIdle cfg lane := by
  rintro upper ⟨hmem, hne⟩
  have hnot := List.any_eq_false.mp h upper hmem
  rw [decide_eq_true_eq] at hnot
  push Not at hnot
  obtain ⟨hrunning, hpending⟩ := hnot hne
  exact ⟨by omega, by simpa using hrunning⟩

/-- What a step does to the requests. -/
theorem step_requests {s' : LaneManager} {act : LaneAct}
    (h : LaneInv cfg s) (hstep : s.step cfg act = some s') :
    (∃ r, s'.requests = s.requests ++ [r] ∧ r.phase = .priority ∧ r.checkedAt = none) ∨
      s'.requests = s.requests ∨
      ∃ i r r', s.requests[i]? = some r ∧ s'.requests = s.requests.set i r' ∧ r'.lane = r.lane ∧
        r.phase ≠ .left ∧
        ((r'.checkedAt = some s.requests.length ∧ s.UpperIdle cfg r.lane) ∨
          (r'.checkedAt = r.checkedAt ∧ (r.phase = .priority → r'.phase = .left))) := by
  unfold LaneManager.step at hstep
  cases act with
  | enter lane applyPacing =>
    cases hstep
    exact .inl ⟨_, rfl, rfl, rfl⟩
  | advance now =>
    obtain ⟨-, hstep⟩ := guard_bind_eq_some.mp hstep
    cases hstep
    exact .inr (.inl rfl)
  | pass i =>
    obtain ⟨r, hr, hstep⟩ := Option.bind_eq_some_iff.mp hstep
    obtain ⟨⟨hphase, hblocked⟩, hstep⟩ := guard_bind_eq_some.mp hstep
    cases hstep
    exact .inr (.inr ⟨i, r, _, hr, rfl, rfl, by simp [hphase],
      .inl ⟨rfl, upperIdle_of_blocked hblocked⟩⟩)
  | lockLane i =>
    obtain ⟨r, hr, hstep⟩ := Option.bind_eq_some_iff.mp hstep
    obtain ⟨⟨hphase, -⟩, hstep⟩ := guard_bind_eq_some.mp hstep
    cases hstep
    exact .inr (.inr ⟨i, r, _, hr, rfl, rfl, by simp [hphase], .inr ⟨rfl, by simp [hphase]⟩⟩)
  | lockGroup i =>
    obtain ⟨r, hr, hstep⟩ := Option.bind_eq_some_iff.mp hstep
    obtain ⟨group, -, hstep⟩ := Option.bind_eq_some_iff.mp hstep
    obtain ⟨⟨hphase, -⟩, hstep⟩ := guard_bind_eq_some.mp hstep
    cases hstep
    exact .inr (.inr ⟨i, r, _, hr, rfl, rfl, by simp [hphase], .inr ⟨rfl, by simp [hphase]⟩⟩)
  | lockPacing i =>
    obtain ⟨r, hr, hstep⟩ := Option.bind_eq_some_iff.mp hstep
    obtain ⟨⟨hphase, -⟩, hstep⟩ := guard_bind_eq_some.mp hstep
    cases hstep
    exact .inr (.inr ⟨i, r, _, hr, rfl, rfl, by simp [hphase], .inr ⟨rfl, by simp [hphase]⟩⟩)
  | pace i =>
    obtain ⟨r, hr, hstep⟩ := Option.bind_eq_some_iff.mp hstep
    split at hstep
    · rename_i wakeAt hphase
      obtain ⟨-, hstep⟩ := guard_bind_eq_some.mp hstep
      cases hstep
      exact .inr (.inr ⟨i, r, _, hr, rfl, rfl, by simp [hphase], .inr ⟨rfl, by simp [hphase]⟩⟩)
    · cases hstep
  | start i =>
    obtain ⟨r, hr, hstep⟩ := Option.bind_eq_some_iff.mp hstep
    obtain ⟨hphase, hstep⟩ := guard_bind_eq_some.mp hstep
    cases hstep
    exact .inr (.inr ⟨i, r, _, hr, rfl, rfl, by simp [hphase], .inr ⟨rfl, by simp [hphase]⟩⟩)
  | leave i =>
    obtain ⟨r, hr, hstep⟩ := Option.bind_eq_some_iff.mp hstep
    obtain ⟨hin, hstep⟩ := guard_bind_eq_some.mp hstep
    cases hstep
    obtain ⟨hundone, -⟩ := undone_finish h.locks (wf_of_getElem? h.wf hr) hin hr
    exact .inr (.inr ⟨i, r, _, hr, hundone.requests, rfl, hin, .inr ⟨rfl, fun _ => rfl⟩⟩)

theorem CheckedInv.step {s' : LaneManager} {act : LaneAct}
    (h : CheckedInv cfg s) (hstep : s.step cfg act = some s') : CheckedInv cfg s' := by
  have hinv := h.toLaneInv.step hstep
  rcases step_requests h.toLaneInv hstep with ⟨new, hrequests, hphase, hnew⟩ | hrequests |
    ⟨i, r, r', hr, hrequests, hlane, hin, hmove⟩
  · have hback {j : ℕ} {b : LaneRequest} (hb : s'.requests[j]? = some b) :
        s.requests[j]? = some b ∨ (j = s.requests.length ∧ b = new) := by
      rw [hrequests, List.getElem?_append] at hb
      split at hb
      · exact .inl hb
      · rename_i hge
        rw [List.getElem?_singleton] at hb
        split_ifs at hb with hzero
        exact .inr ⟨by omega, (Option.some.inj hb).symm⟩
    refine ⟨hinv, fun j b c hb hc k d hd hlt houtranks => ?_, fun j b hb hb' hb'' => ?_,
      fun j b c hb hc => ?_⟩
    · rcases hback hb with hb | ⟨-, rfl⟩
      · rcases hback hd with hd | ⟨rfl, -⟩
        · exact h.checked j b c hb hc k d hd hlt houtranks
        · exact absurd (h.bound j b c hb hc) (Nat.not_le.mpr hlt)
      · exact absurd (hnew.symm.trans hc) (by simp)
    · rcases hback hb with hb | ⟨-, rfl⟩
      · exact h.passed j b hb hb' hb''
      · exact absurd hphase hb'
    · rw [hrequests, List.length_append]
      rcases hback hb with hb | ⟨-, rfl⟩
      · exact (h.bound j b c hb hc).trans (Nat.le_add_right _ _)
      · exact absurd (hnew.symm.trans hc) (by simp)
  · refine ⟨hinv, ?_, ?_, ?_⟩
    · rw [hrequests]
      exact h.checked
    · rw [hrequests]
      exact h.passed
    · rw [hrequests]
      exact h.bound
  · -- a request that has left is where it was
    have hleft {j : ℕ} {b : LaneRequest} (hb : s'.requests[j]? = some b)
        (hold : ∀ b₀, s.requests[j]? = some b₀ → b₀.lane = b.lane → b₀.phase = .left) :
        b.phase = .left := by
      rw [hrequests] at hb
      rcases Locks.getElem?_set_cases hb with ⟨rfl, rfl⟩ | ⟨-, hb⟩
      · exact absurd (hold r hr hlane.symm) hin
      · exact hold b hb rfl
    refine ⟨hinv, fun j b c hb hc k d hd hlt houtranks => hleft hd fun d₀ hd₀ hsame => ?_,
      fun j b hb hb' hb'' => ?_, fun j b c hb hc => ?_⟩
    · rw [hrequests] at hb
      rcases Locks.getElem?_set_cases hb with ⟨rfl, rfl⟩ | ⟨-, hb⟩
      · rw [← hsame, hlane] at houtranks
        rcases hmove with ⟨-, hidle⟩ | ⟨hcheck, -⟩
        · exact (h.upperIdle_iff r.lane).mp hidle k d₀ hd₀ houtranks
        · exact h.checked j r c hr (hcheck.symm.trans hc) k d₀ hd₀ hlt houtranks
      · exact h.checked j b c hb hc k d₀ hd₀ hlt (hsame ▸ houtranks)
    · rw [hrequests] at hb
      rcases Locks.getElem?_set_cases hb with ⟨rfl, rfl⟩ | ⟨-, hb⟩
      · rcases hmove with ⟨hcheck, -⟩ | ⟨hcheck, hpriority⟩
        · simp [hcheck]
        · rw [hcheck]
          exact h.passed j r hr (fun hphase => hb'' (hpriority hphase)) hin
      · exact h.passed j b hb hb' hb''
    · rw [hrequests, List.length_set]
      rw [hrequests] at hb
      rcases Locks.getElem?_set_cases hb with ⟨rfl, rfl⟩ | ⟨-, hb⟩
      · rcases hmove with ⟨hcheck, -⟩ | ⟨hcheck, -⟩
        · exact (Option.some.inj (hcheck.symm.trans hc)).symm.le
        · exact h.bound j r c hr (hcheck.symm.trans hc)
      · exact h.bound j b c hb hc

theorem checkedInv_of_run {now : ℚ} {acts : List LaneAct}
    (hrun : Run (StepOf fun s => s.step cfg) (.initial now) acts s) : CheckedInv cfg s := by
  have hstart : CheckedInv cfg (.initial now) :=
    ⟨.initial now, by simp [LaneManager.initial], by simp [LaneManager.initial],
      by simp [LaneManager.initial]⟩
  exact hrun.invariant (fun _ _ _ h hstep => h.step hstep) hstart

/-- **Broker lane priority.** In every run, a request is started with no lane above its own
pending or running exactly where every request of such a lane that entered after its check has
left. -/
theorem lane_priority_iff {cfg : ManagerConfig} {now : ℚ} {acts : List LaneAct}
    {s s' : LaneManager} (hrun : Run (StepOf fun s => s.step cfg) (.initial now) acts s) {i : ℕ}
    {r : LaneRequest} (hr : s.requests[i]? = some r) (hstart : s.step cfg (.start i) = some s') :
    s.UpperIdle cfg r.lane ↔ s.Undisturbed cfg r := by
  have h := checkedInv_of_run hrun
  have hphase : r.phase = .ready := by
    obtain ⟨r', hr', hstep⟩ := Option.bind_eq_some_iff.mp hstart
    cases (hr.symm.trans hr')
    exact (guard_bind_eq_some.mp hstep).1
  rw [h.upperIdle_iff]
  constructor
  · exact fun hleft j b hb houtranks _ => hleft j b hb houtranks
  · intro hundisturbed j b hb houtranks
    obtain ⟨c, hc⟩ := Option.ne_none_iff_exists'.mp
      (h.passed i r hr (by simp [hphase]) (by simp [hphase]))
    by_cases hlt : j < c
    · exact h.checked i r c hr hc j b hb hlt houtranks
    · refine hundisturbed j b hb houtranks fun c' hc' => ?_
      rw [hc] at hc'
      cases hc'
      exact Nat.not_lt.mp hlt

namespace LanePriorityExample

/-- The lanes in their order, without pacing. -/
def config : ManagerConfig := ⟨["chart", "quote", "history"], fun _ => 0, []⟩

/-- A history request waits for its lane when a chart request comes. -/
def acts : List LaneAct :=
  [.enter "history" true, .pass 0, .lockLane 0, .start 0, .enter "history" true, .pass 1,
    .enter "chart" true, .pass 2, .lockLane 2, .start 2, .leave 0, .lockLane 1]

/-- The chart request came and left. -/
def quiet : List LaneAct := acts ++ [.leave 2]

def outcome (acts : List LaneAct) : Option LaneManager :=
  acts.foldlM (fun s act => s.step config act) (.initial 0)

end LanePriorityExample

open LanePriorityExample in
theorem lane_priority_iff_quiet :
    ∃ s, outcome quiet = some s ∧ s.UpperIdle config "history" := by
  have hready : (outcome quiet).map (fun s => ((s.requests[1]?).map LaneRequest.lane,
      (s.step config (.start 1)).isSome, s.requests.map fun r => (r.lane, decide (r.phase = .left)))) =
        some (some "history", true, [("history", true), ("history", false), ("chart", true)]) := by
    decide +kernel
  obtain ⟨s, hs, hfacts⟩ := Option.map_eq_some_iff.mp hready
  simp only [Prod.mk.injEq] at hfacts
  obtain ⟨hlane, hstart, hrequests⟩ := hfacts
  obtain ⟨r, hr, hr'⟩ := Option.map_eq_some_iff.mp hlane
  obtain ⟨s', hs'⟩ := Option.isSome_iff_exists.mp hstart
  refine ⟨s, hs, hr' ▸ (lane_priority_iff (.of_foldlM hs) hr hs').mpr fun j b hb houtranks _ => ?_⟩
  have hmem : (b.lane, decide (b.phase = .left)) ∈
      [("history", true), ("history", false), ("chart", true)] := by
    rw [← hrequests]
    exact List.mem_map_of_mem (List.mem_of_getElem? hb)
  rw [hr'] at houtranks
  by_contra hin
  have hhistory : b.lane = "history" := by simpa [hin] using hmem
  exact houtranks.2 hhistory

open LanePriorityExample in
/-- The waiting history request starts while the chart request runs. -/
theorem starts_under_chart :
    ¬∀ (cfg : ManagerConfig) (now : ℚ) (acts : List LaneAct) (s s' : LaneManager) (i : ℕ)
      (r : LaneRequest), Run (StepOf fun s => s.step cfg) (.initial now) acts s →
        s.requests[i]? = some r → s.step cfg (.start i) = some s' → s.UpperIdle cfg r.lane := by
  intro hclaim
  have hready : (outcome acts).map (fun s => ((s.requests[1]?).map LaneRequest.lane,
      (s.step config (.start 1)).isSome, (s.lanes "chart").running)) =
        some (some "history", true, true) := by
    decide +kernel
  obtain ⟨s, hs, hfacts⟩ := Option.map_eq_some_iff.mp hready
  simp only [Prod.mk.injEq] at hfacts
  obtain ⟨hlane, hstart, hrunning⟩ := hfacts
  obtain ⟨r, hr, hr'⟩ := Option.map_eq_some_iff.mp hlane
  obtain ⟨s', hs'⟩ := Option.isSome_iff_exists.mp hstart
  have hidle := hclaim config 0 acts s s' 1 r (.of_foldlM hs) hr hs' "chart"
    (by rw [hr']; decide +kernel)
  exact absurd (hidle.2.symm.trans hrunning) (by simp)

end AefTerminal
