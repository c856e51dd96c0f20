import AefTerminal.Alerts.History

/-!
# Alerts on fuel events

A volume alert remembers one timestamp, the event it consumed last. A tick looks through its window
from the newest event back and takes the first after the creation that is not the consumed one. As
long as that is always the newest event, a generation fires each event at most once and in their
order: what it remembers is then the newest event it ever fired.

It breaks when the newest event was fired already and another event after the creation is still in
the window: the tick goes past the fired event to the older one, remembers that, and the next tick
fires the newer one again.

The window of a tick is the end of all events so far. Ticks come one after the other; between them
commands and deliveries reach the table. A tick is one step, at the time its patch is stored.

## Main definitions

* `FuelWatch`, `FuelAct`, `FuelWatch.step`: one alert under ticks, commands and deliveries
* `FiredForward`: what the alert promises
* `FuelWatch.Passes`: the condition on a tick
* `FuelInv`: the invariant

## Main results

* `fuel_fired_forward`: the promise, on the exact condition
* `fuel_fired_twice`: two events and three ticks
-/

namespace AefTerminal

open Foundation

/-- The stored alerts, and what the alert under one key was shown and fired. -/
structure FuelWatch where
  history : AlertHistory
  /-- All events seen, oldest first. -/
  log : List VsaEvent
  /-- The events fired, with the generation of the alert. -/
  fired : List (ℕ × Time)

inductive FuelAct
  /-- A command, or a delivery. -/
  | call (act : AlertAct)
  /-- A tick with a row of the registry. The events `later` are new. -/
  | tick (snapshot : PriceAlert) (context : VsaVolumeContext) (later : List VsaEvent) (current : ℚ)
      (now : ℕ) (ts : Time)

/-- The state that a context gives an alert, where it gives one. -/
def vsaFuelState (snapshot : PriceAlert) (context : VsaVolumeContext) (current : ℚ) :
    Option VsaFuelAlertState :=
  match requireVsaFuelEvents context with
  | .ok (some fuelEvents) => some (serverVsaFuelAlertState snapshot fuelEvents current)
  | _ => none

/-- The event that is fired by a state whose patch is stored. -/
def firedEvent (state : VsaFuelAlertState) (outcome : Except AlertError AlertCommit) :
    Option Time :=
  match state.touching, outcome with
  | true, .ok m => if m.answer.isSome then state.eventTs else none
  | _, _ => none

namespace FuelWatch

def empty : FuelWatch := ⟨.empty, [], []⟩

def row (s : FuelWatch) (key : AlertKey) : Option PriceAlert := s.history.table.get? key.alertId

/-- `_process_vsa_alert`. -/
def tick (s : FuelWatch) (snapshot : PriceAlert) (context : VsaVolumeContext)
    (later : List VsaEvent) (current : ℚ) (now : ℕ) (ts : Time) : FuelWatch :=
  match vsaFuelState snapshot context current with
  | none => { s with log := s.log ++ later }
  | some state =>
    let outcome := publishVsaAlertState s.history.table snapshot state current now ts
    let event := (firedEvent state outcome).map fun eventTs => (snapshot.rearmedAt, eventTs)
    ⟨s.history.commit outcome, s.log ++ later, s.fired ++ event.toList⟩

def step (s : FuelWatch) : FuelAct → FuelWatch
  | .call act => { s with history := s.history.after act }
  | .tick snapshot context later current now ts => s.tick snapshot context later current now ts

end FuelWatch

/-- In one generation each event is fired after the older ones only: no event is fired twice, and
none after a later one. -/
def FiredForward (fired : List (ℕ × Time)) : Prop :=
  fired.Pairwise fun p q => p.1 = q.1 → p.2 < q.2

namespace FuelWatch

/-- The window of the context ends all events so far, in their order. -/
structure Shown (s : FuelWatch) (context : VsaVolumeContext) (later : List VsaEvent) : Prop where
  sorted : (s.log ++ later).Pairwise fun e e' => e.ts < e'.ts
  window : ∀ fuelEvents, requireVsaFuelEvents context = .ok (some fuelEvents) →
    fuelEvents.reverse <:+ s.log ++ later

/-- The steps of the alert under `key`. A tick has seen what the tick before it stored. -/
def Allowed (key : AlertKey) (s : FuelWatch) : FuelAct → Prop
  | .call act =>
    s.history.Orderly act ∧ act.Requested ∧
      ∀ instrumentId routeFingerprint guard patch,
        act = .update key.alertId instrumentId routeFingerprint guard patch →
          ∃ snapshot pending, guard = deliveryGuard snapshot pending
  | .tick snapshot context later _ _ _ =>
    snapshot ∈ s.history.seen ∧ snapshot.key = key ∧ snapshot.kind = .vsaFuel ∧
      (∀ r, s.row key = some r → r.rearmedAt = snapshot.rearmedAt →
        r.lastEventTs = snapshot.lastEventTs) ∧ s.Shown context later

/-- Where the newest event of the window was fired in the generation, no other event of the window
lies after the creation of the alert. -/
def Passes (s : FuelWatch) : FuelAct → Prop
  | .call _ => True
  | .tick snapshot context _ _ _ _ => ∀ newest rest,
      requireVsaFuelEvents context = .ok (some (newest :: rest)) →
      (snapshot.rearmedAt, newest.ts) ∈ s.fired →
        ∀ e ∈ rest, ¬(snapshot.createdAt : ℤ) * 1000 < e.ts

end FuelWatch

def FuelStep (s : FuelWatch) (act : FuelAct) (s' : FuelWatch) : Prop := s.step act = s'

/-! ### The reported event -/

/-- The newest event of a window, against all events so far. -/
theorem FuelWatch.Shown.newest {s : FuelWatch} {context : VsaVolumeContext} {later : List VsaEvent}
    (h : s.Shown context later) {newest : VsaEvent} {rest : List VsaEvent}
    (hfuel : requireVsaFuelEvents context = .ok (some (newest :: rest))) :
    newest ∈ s.log ++ later ∧ (∀ e ∈ s.log ++ later, e.ts ≤ newest.ts) ∧
      ∀ e ∈ rest, e ∈ s.log ++ later ∧ e.ts < newest.ts := by
  obtain ⟨older, holder⟩ := h.window _ hfuel
  have hsorted := h.sorted
  rw [← holder, List.reverse_cons, ← List.append_assoc] at hsorted ⊢
  obtain ⟨-, -, hbefore⟩ := List.pairwise_append.mp hsorted
  have hlast (e : VsaEvent) (he : e ∈ older ++ rest.reverse) : e.ts < newest.ts :=
    hbefore e he newest (List.mem_singleton_self _)
  refine ⟨by simp, fun e he => ?_, fun e he => ⟨by simp [he], hlast e (by simp [he])⟩⟩
  rcases List.mem_append.mp he with he | he
  · exact (hlast e he).le
  · exact (congrArg VsaEvent.ts (List.mem_singleton.mp he)).le

theorem isTouchableEvent_eq_true {a : PriceAlert} {e : VsaEvent} :
    isTouchableEvent a e = true ↔ a.lastEventTs ≠ some e.ts ∧ (a.createdAt : ℤ) * 1000 < e.ts := by
  unfold isTouchableEvent
  rw [Bool.and_eq_true, decide_eq_true_eq, decide_eq_true_eq]
  exact and_congr_left' ne_comm

/-- What a tick reports: a touchable event, newest first, or else the newest event. -/
theorem serverVsaFuelAlertState_cases (a : PriceAlert) (fuelEvents : List VsaEvent) (current : ℚ) :
    (∃ e ∈ fuelEvents, isTouchableEvent a e = true ∧
        (∀ newest ∈ fuelEvents.head?, newest = e ∨ isTouchableEvent a newest = false) ∧
        serverVsaFuelAlertState a fuelEvents current = ⟨true, some e.ts, current⟩) ∨
      (∀ e ∈ fuelEvents, isTouchableEvent a e = false) ∧
        serverVsaFuelAlertState a fuelEvents current =
          ⟨false, fuelEvents.head?.map VsaEvent.ts, current⟩ := by
  unfold serverVsaFuelAlertState reportedFuelEvent
  cases hfind : fuelEvents.find? (isTouchableEvent a) with
  | some e =>
    have htouch : isTouchableEvent a e = true := List.find?_some hfind
    refine .inl ⟨e, List.mem_of_find?_eq_some hfind, htouch, fun newest hnewest => ?_, ?_⟩
    · cases fuelEvents with
      | nil => exact absurd hnewest (by simp)
      | cons first rest =>
        obtain rfl : first = newest := Option.some.inj hnewest
        rw [List.find?_cons] at hfind
        split at hfind
        · exact .inl (Option.some.inj hfind)
        · rename_i hnot
          exact .inr hnot
    · rw [Option.some_or]
      dsimp only
      rw [htouch]
  | none =>
    have hnone : ∀ e ∈ fuelEvents, isTouchableEvent a e = false := fun e he => by
      simpa using List.find?_eq_none.mp hfind e he
    refine .inr ⟨hnone, ?_⟩
    cases fuelEvents with
    | nil => rfl
    | cons first rest =>
      rw [Option.none_or, List.head?_cons]
      dsimp only
      rw [hnone first List.mem_cons_self]
      rfl

/-! ### The invariant -/

/-- A delivery leaves the event memory alone. -/
theorem Issued.lastEventTs_of_delivery {snapshot s a : PriceAlert} {pending : TelegramPayload}
    {patch : PriceAlert → PriceAlert} (h : Issued snapshot (deliveryGuard s pending) patch) :
    (patch a).lastEventTs = a.lastEventTs := by
  generalize hguard : deliveryGuard s pending = guard at h
  have hpending : guard.expectedPendingPayload = some pending := by rw [← hguard]; rfl
  cases h with
  | claimed | finalized => rfl
  | crossFired | dynamicFired | vsaFired => exact absurd hpending (by simp [firingGuard])
  | dynamicSeen | vsaSeen => exact absurd hpending (by simp [evaluationGuard])

/-- What the row remembers, once its generation fired: the newest event it fired. -/
structure Remembers (s : FuelWatch) (r : PriceAlert) (consumed : Time) : Prop where
  memory : r.lastEventTs = some consumed
  fired : (r.rearmedAt, consumed) ∈ s.fired
  newest : ∀ p ∈ s.fired, p.1 = r.rearmedAt → p.2 ≤ consumed
  created : (r.createdAt : ℤ) * 1000 < consumed
  seen : ∃ e ∈ s.log, e.ts = consumed

structure FuelInv (key : AlertKey) (s : FuelWatch) : Prop where
  history : HistoryInv s.history
  known : ∀ p ∈ s.fired, ∃ b ∈ s.history.seen, b.id = key.alertId ∧ b.rearmedAt = p.1
  forward : FiredForward s.fired
  remembers : ∀ r, s.row key = some r → ∀ p ∈ s.fired, p.1 = r.rearmedAt →
    ∃ consumed, Remembers s r consumed

namespace FuelInv

variable {key : AlertKey} {s : FuelWatch}

theorem empty : FuelInv key .empty :=
  ⟨.empty, by simp [FuelWatch.empty], .nil, by simp [FuelWatch.empty]⟩

/-- Nothing is fired: the row stays, is deleted, starts a later generation, or keeps its generation,
its creation and its memory. -/
theorem unfired (h : FuelInv key s) {history : AlertHistory} (hinv : HistoryInv history)
    (hkept : ∀ b ∈ s.history.seen, b ∈ history.seen) (later : List VsaEvent)
    (hrow : ∀ r', history.table.get? key.alertId = some r' →
      (∀ b ∈ s.history.seen, b.id = key.alertId → b.rearmedAt < r'.rearmedAt) ∨
        ∃ r, s.row key = some r ∧ r'.rearmedAt = r.rearmedAt ∧ r'.createdAt = r.createdAt ∧
          ((∃ p ∈ s.fired, p.1 = r.rearmedAt) → r'.lastEventTs = r.lastEventTs)) :
    FuelInv key ⟨history, s.log ++ later, s.fired⟩ := by
  have hknown (p : ℕ × Time) (hp : p ∈ s.fired) :
      ∃ b ∈ history.seen, b.id = key.alertId ∧ b.rearmedAt = p.1 := by
    obtain ⟨b, hb, hfacts⟩ := h.known p hp
    exact ⟨b, hkept b hb, hfacts⟩
  refine ⟨hinv, hknown, h.forward, fun r' hr' p hp hgeneration => ?_⟩
  rcases hrow r' hr' with hlater | ⟨r, hr, hsame, hcreated, hmemory⟩
  · obtain ⟨b, hb, hid, hb'⟩ := h.known p hp
    exact absurd (hb'.trans hgeneration) (hlater b hb hid).ne
  · obtain ⟨consumed, hremembers⟩ := h.remembers r hr p hp (hgeneration.trans hsame)
    obtain ⟨e, he, hconsumed⟩ := hremembers.seen
    exact ⟨consumed, (hmemory ⟨p, hp, hgeneration.trans hsame⟩).trans hremembers.memory,
      hsame ▸ hremembers.fired, hsame ▸ hremembers.newest, hcreated ▸ hremembers.created,
      e, List.mem_append_left _ he, hconsumed⟩

/-- Commands and deliveries. -/
theorem call (h : FuelInv key s) {act : AlertAct} (hok : s.Allowed key (.call act)) :
    FuelInv key (s.step (.call act)) := by
  obtain ⟨hop, hrequested, hdelivery⟩ := hok
  have hinv := h.history.after hop
  have hmoved := h.unfired hinv (fun b hb => List.mem_append_left _ hb) [] fun r' hr' => ?_
  · rwa [List.append_nil] at hmoved
  rcases h.history.row_call hop hrequested key.alertId with hsame | hgone |
    ⟨a', hrow, -, hlater⟩ | ⟨instrumentId, routeFingerprint, guard, patch, r, hact, hold, hagree,
      hrow⟩
  · exact .inr ⟨r', hsame.symm.trans hr', rfl, rfl, fun _ => rfl⟩
  · exact absurd (hgone.symm.trans hr') (by simp)
  · cases (hrow.symm.trans hr')
    exact .inl hlater
  · cases (hrow.symm.trans hr')
    obtain ⟨snapshot, hsnapshot, hid, hissued⟩ := hop.1.issued_of_update hact
    obtain ⟨s', pending, rfl⟩ := hdelivery _ _ _ _ hact
    have hkind : snapshot.kind = r.kind :=
      h.history.kind_eq hold hsnapshot (hid.trans (h.history.id_eq _ r hold).symm)
        (hissued.generation_eq hagree)
    have hframe := hissued.frame_eq hkind
    exact .inr ⟨r, hold, congrArg AlertFrame.rearmedAt hframe, congrArg AlertFrame.createdAt hframe,
      fun _ => hissued.lastEventTs_of_delivery⟩

/-- The memory of the row is the memory of the snapshot, and their generation has one creation. -/
theorem memory_eq (h : FuelInv key s) {a : PriceAlert} (ha : a ∈ s.history.seen) (hkey : a.key = key)
    (hmemory : ∀ r, s.row key = some r → r.rearmedAt = a.rearmedAt →
      r.lastEventTs = a.lastEventTs) {r : PriceAlert} (hr : s.row key = some r)
    (hgeneration : a.rearmedAt = r.rearmedAt) :
    r.lastEventTs = a.lastEventTs ∧ r.createdAt = a.createdAt := by
  have hid : a.id = key.alertId := congrArg AlertKey.alertId hkey
  have hframe := h.history.frame_eq key.alertId r hr a ha hid hgeneration
  exact ⟨hmemory r hr hgeneration.symm, (congrArg AlertFrame.createdAt hframe).symm⟩

/-- A tick that reports no touch. -/
theorem seen (h : FuelInv key s) {a : PriceAlert} (ha : a ∈ s.history.seen) (hkey : a.key = key)
    (hkind : a.kind = .vsaFuel)
    (hmemory : ∀ r, s.row key = some r → r.rearmedAt = a.rearmedAt →
      r.lastEventTs = a.lastEventTs)
    {context : VsaVolumeContext} {later : List VsaEvent} (hshown : s.Shown context later)
    {fuelEvents : List VsaEvent} (hfuel : requireVsaFuelEvents context = .ok (some fuelEvents))
    (hnone : ∀ e ∈ fuelEvents, isTouchableEvent a e = false) :
    FuelInv key ⟨s.history.commit (persistAlertEvaluationState s.history.table a
      (vsaStatePatch (fuelEvents.head?.map VsaEvent.ts))), s.log ++ later, s.fired⟩ := by
  have hissued := Issued.vsaSeen hkind (fuelEvents.head?.map VsaEvent.ts)
  have hcommit (m : AlertCommit) (hm : persistAlertEvaluationState s.history.table a
      (vsaStatePatch (fuelEvents.head?.map VsaEvent.ts)) = .ok m) :=
    persistAlertEvaluationState_commit hm
  have hinv := h.history.commit fun m hm => (hcommit m hm).imp (fun hm => by rw [hm]; rfl)
    fun hm => ⟨_, ⟨.issued ha hissued, trivial⟩, hm⟩
  refine h.unfired hinv (fun b hb => ?_) later fun r' hr' => ?_
  · unfold AlertHistory.commit
    split
    · exact hb
    · exact List.mem_append_left _ hb
  rcases h.history.row_commit hissued hcommit key.alertId with hsame | ⟨r, hr, -, -, hagree, hrow⟩
  · exact .inr ⟨r', hsame.symm.trans hr', rfl, rfl, fun _ => rfl⟩
  · cases (hrow.symm.trans hr')
    refine .inr ⟨r, hr, rfl, rfl, fun ⟨p, hp, hgeneration⟩ => ?_⟩
    obtain ⟨hlast, hcreated⟩ := h.memory_eq ha hkey hmemory hr (hissued.generation_eq hagree)
    obtain ⟨consumed, hremembers⟩ := h.remembers r hr p hp hgeneration
    cases fuelEvents with
    | nil => rfl
    | cons newest rest =>
      -- the newest event is the consumed one, because it is not before the creation
      obtain ⟨-, hbound, -⟩ := hshown.newest hfuel
      obtain ⟨e, he, hconsumed⟩ := hremembers.seen
      have hle : consumed ≤ newest.ts := hconsumed ▸ hbound e (List.mem_append_left _ he)
      have hafter : (a.createdAt : ℤ) * 1000 < newest.ts :=
        lt_of_lt_of_le (hcreated ▸ hremembers.created) hle
      have hnot := hnone newest List.mem_cons_self
      show some newest.ts = r.lastEventTs
      by_contra hne
      have htouch : isTouchableEvent a newest = true :=
        isTouchableEvent_eq_true.mpr ⟨fun heq => hne (hlast.trans heq).symm, hafter⟩
      exact absurd (hnot.symm.trans htouch) (by simp)

section Touched

variable {a r : PriceAlert} {context : VsaVolumeContext} {later fuelEvents : List VsaEvent}
  {e : VsaEvent}

/-- What the row remembers is the newest event of the window, or lies before it. -/
theorem consumed_le (hshown : s.Shown context later)
    {newest : VsaEvent} {rest : List VsaEvent}
    (hfuel : requireVsaFuelEvents context = .ok (some (newest :: rest))) {consumed : Time}
    (hremembers : Remembers s r consumed) : consumed ≤ newest.ts := by
  obtain ⟨-, hbound, -⟩ := hshown.newest hfuel
  obtain ⟨e, he, hconsumed⟩ := hremembers.seen
  exact hconsumed ▸ hbound e (List.mem_append_left _ he)

/-- A tick that passes fires an event after all that its generation fired. -/
theorem lt_of_touched (h : FuelInv key s) (hshown : s.Shown context later)
    (hfuel : requireVsaFuelEvents context = .ok (some fuelEvents))
    (hpass : ∀ newest rest, requireVsaFuelEvents context = .ok (some (newest :: rest)) →
      (a.rearmedAt, newest.ts) ∈ s.fired → ∀ e ∈ rest, ¬(a.createdAt : ℤ) * 1000 < e.ts)
    (he : e ∈ fuelEvents) (htouch : isTouchableEvent a e = true)
    (hnewest : ∀ newest ∈ fuelEvents.head?, newest = e ∨ isTouchableEvent a newest = false)
    (hr : s.row key = some r) (hgeneration : a.rearmedAt = r.rearmedAt)
    (hmemory : r.lastEventTs = a.lastEventTs) (hcreated : r.createdAt = a.createdAt)
    (p : ℕ × Time) (hp : p ∈ s.fired) (hfired : p.1 = a.rearmedAt) : p.2 < e.ts := by
  obtain ⟨consumed, hremembers⟩ := h.remembers r hr p hp (hfired.trans hgeneration)
  refine lt_of_le_of_lt (hremembers.newest p hp (hfired.trans hgeneration)) ?_
  have hconsumed : a.lastEventTs = some consumed := hmemory.symm.trans hremembers.memory
  obtain ⟨hother, hafter⟩ := isTouchableEvent_eq_true.mp htouch
  cases fuelEvents with
  | nil => exact absurd he (by simp)
  | cons newest rest =>
    have hle := consumed_le hshown hfuel hremembers
    rcases hnewest newest rfl with rfl | hnot
    · exact lt_of_le_of_ne hle fun heq => hother (hconsumed.trans (congrArg some heq))
    · exfalso
      have hnewest_after : (a.createdAt : ℤ) * 1000 < newest.ts :=
        lt_of_lt_of_le (hcreated ▸ hremembers.created) hle
      have hsame : consumed = newest.ts := by
        by_contra hne
        have hnewest_touch : isTouchableEvent a newest = true :=
          isTouchableEvent_eq_true.mpr ⟨fun heq =>
            hne (Option.some.inj (hconsumed.symm.trans heq)), hnewest_after⟩
        exact absurd (hnot.symm.trans hnewest_touch) (by simp)
      have hrest : e ∈ rest := by
        rcases List.mem_cons.mp he with rfl | hrest
        · exact absurd (hnot.symm.trans htouch) (by simp)
        · exact hrest
      refine hpass newest rest hfuel ?_ e hrest hafter
      rw [hgeneration, ← hsame]
      exact hremembers.fired

/-- The patched row of a firing remembers its event. -/
theorem fired (h : FuelInv key s) (ha : a ∈ s.history.seen) (hid : a.id = key.alertId)
    (hshown : s.Shown context later)
    (hfuel : requireVsaFuelEvents context = .ok (some fuelEvents)) (he : e ∈ fuelEvents)
    (htouch : isTouchableEvent a e = true) {history : AlertHistory} (hinv : HistoryInv history)
    (hkept : ∀ b ∈ s.history.seen, b ∈ history.seen) {r' : PriceAlert}
    (hrow : history.table.get? key.alertId = some r') (hgeneration : a.rearmedAt = r'.rearmedAt)
    (hcreated : r'.createdAt = a.createdAt) (hmemory : r'.lastEventTs = some e.ts)
    (hlater : ∀ p ∈ s.fired, p.1 = a.rearmedAt → p.2 < e.ts) :
    FuelInv key ⟨history, s.log ++ later, s.fired ++ [(a.rearmedAt, e.ts)]⟩ := by
  have hlog : e ∈ s.log ++ later :=
    (hshown.window _ hfuel).subset (List.mem_reverse.mpr he)
  refine ⟨hinv, fun p hp => ?_, ?_, fun r hr p hp hsame => ⟨e.ts, ?_⟩⟩
  · rcases List.mem_append.mp hp with hp | hp
    · obtain ⟨b, hb, hfacts⟩ := h.known p hp
      exact ⟨b, hkept b hb, hfacts⟩
    · rw [List.mem_singleton.mp hp]
      exact ⟨a, hkept a ha, hid, rfl⟩
  · refine List.pairwise_append.mpr ⟨h.forward, List.pairwise_singleton _ _, fun p hp q hq hpq => ?_⟩
    obtain rfl := List.mem_singleton.mp hq
    exact hlater p hp hpq
  · cases (hrow.symm.trans hr)
    refine ⟨hmemory, ?_, fun q hq hqr => ?_, ?_, e, hlog, rfl⟩
    · rw [← hgeneration]
      exact List.mem_append_right _ (List.mem_singleton_self _)
    · rcases List.mem_append.mp hq with hq | hq
      · exact (hlater q hq (hqr.trans hgeneration.symm)).le
      · rw [List.mem_singleton.mp hq]
    · rw [hcreated]
      exact (isTouchableEvent_eq_true.mp htouch).2

end Touched

/-- A tick that passes. -/
theorem tick (h : FuelInv key s) {a : PriceAlert} {context : VsaVolumeContext}
    {later : List VsaEvent} {current : ℚ} {now : ℕ} {ts : Time}
    (hok : s.Allowed key (.tick a context later current now ts))
    (hpass : s.Passes (.tick a context later current now ts)) :
    FuelInv key (s.tick a context later current now ts) := by
  obtain ⟨ha, hkey, hkind, hmemory, hshown⟩ := hok
  have hid : a.id = key.alertId := congrArg AlertKey.alertId hkey
  have hsame (r' : PriceAlert) (hr' : s.row key = some r') :
      (∀ b ∈ s.history.seen, b.id = key.alertId → b.rearmedAt < r'.rearmedAt) ∨
        ∃ r, s.row key = some r ∧ r'.rearmedAt = r.rearmedAt ∧ r'.createdAt = r.createdAt ∧
          ((∃ p ∈ s.fired, p.1 = r.rearmedAt) → r'.lastEventTs = r.lastEventTs) :=
    .inr ⟨r', hr', rfl, rfl, fun _ => rfl⟩
  have hstill := h.unfired h.history (fun _ hb => hb) later hsame
  unfold FuelWatch.tick vsaFuelState
  split
  · exact hstill
  rename_i state hstate
  split at hstate
  · rename_i fuelEvents hfuel
    cases hstate
    rcases serverVsaFuelAlertState_cases a fuelEvents current with
      ⟨e, he, htouch, hnewest, hreport⟩ | ⟨hnone, hreport⟩
    · rw [hreport]
      have hissued := Issued.vsaFired hkind e.ts current current now ts
      cases hm : publishVsaAlertState s.history.table a ⟨true, some e.ts, current⟩ current now ts with
      | error error =>
        simp only [firedEvent, Option.map_none, Option.toList_none, List.append_nil]
        exact hstill
      | ok m =>
        have hinv : HistoryInv (s.history.commit (.ok m)) := by
          refine h.history.commit fun m' hm' => ?_
          cases hm'
          rcases persistPriceAlertDelivery_commit hm with rfl | hm
          · exact .inl rfl
          · exact .inr ⟨_, ⟨.issued ha hissued, trivial⟩, hm⟩
        have hkept (b : PriceAlert) (hb : b ∈ s.history.seen) :
            b ∈ (s.history.commit (.ok m)).seen := List.mem_append_left _ hb
        rcases h.history.firing_row hissued hm with
          ⟨hanswer, htable⟩ | ⟨r, hr, -, hagree, hanswer, hrow⟩
        · simp only [firedEvent, hanswer, Option.isSome_none, Bool.false_eq_true, if_false,
            Option.map_none, Option.toList_none, List.append_nil]
          refine h.unfired hinv hkept later fun r' hr' => hsame r' ?_
          exact (congrArg (Dict.get? · key.alertId) htable).symm.trans hr'
        · simp only [firedEvent, hanswer, if_true, Option.map_some, Option.toList_some]
          rw [hid] at hr hrow
          have hgeneration := hissued.generation_eq hagree
          obtain ⟨hlast, hcreated⟩ := h.memory_eq ha hkey hmemory hr hgeneration
          exact h.fired ha hid hshown hfuel he htouch hinv hkept hrow hgeneration hcreated rfl
            (h.lt_of_touched hshown hfuel hpass he htouch hnewest hr hgeneration hlast hcreated)
    · rw [hreport]
      simp only [firedEvent, Option.map_none, Option.toList_none, List.append_nil]
      exact h.seen ha hkey hkind hmemory hshown hfuel hnone
  · cases hstate

theorem step (h : FuelInv key s) {act : FuelAct} (hok : s.Allowed key act) (hpass : s.Passes act) :
    FuelInv key (s.step act) := by
  cases act with
  | call act => exact h.call hok
  | tick => exact h.tick hok hpass

end FuelInv

/-- Once the newest event of the window was fired, a tick that fires goes back. -/
theorem not_forward_of_not_passes {key : AlertKey} {s : FuelWatch} {act : FuelAct}
    (hok : s.Allowed key act) (hnot : ¬s.Passes act) (hfires : (s.step act).fired ≠ s.fired) :
    ¬FiredForward (s.step act).fired := by
  cases act with
  | call act => exact absurd rfl hfires
  | tick a context later current now ts =>
    obtain ⟨-, -, -, -, hshown⟩ := hok
    rw [FuelWatch.Passes] at hnot
    push Not at hnot
    obtain ⟨newest, rest, hfuel, hfired, -⟩ := hnot
    obtain ⟨-, -, hbefore⟩ := hshown.newest hfuel
    have hstate : vsaFuelState a context current =
        some (serverVsaFuelAlertState a (newest :: rest) current) := by
      rw [vsaFuelState, hfuel]
    intro hforward
    unfold FuelWatch.step FuelWatch.tick at hfires hforward
    dsimp only at hfires hforward
    rw [hstate] at hfires hforward
    dsimp only at hfires hforward
    rcases serverVsaFuelAlertState_cases a (newest :: rest) current with
      ⟨e, he, -, -, hreport⟩ | ⟨-, hreport⟩
    · rw [hreport] at hfires hforward
      cases hevent : firedEvent ⟨true, some e.ts, current⟩
          (publishVsaAlertState s.history.table a ⟨true, some e.ts, current⟩ current now ts) with
      | none =>
        rw [hevent] at hfires
        exact hfires (List.append_nil _)
      | some eventTs =>
        have hts : eventTs = e.ts := by
          unfold firedEvent at hevent
          dsimp only at hevent
          split at hevent
          · split_ifs at hevent
            exact (Option.some.inj hevent).symm
          · cases hevent
        rw [hevent, hts] at hforward
        have hlt : newest.ts < e.ts :=
          (List.pairwise_append.mp hforward).2.2 _ hfired _ (List.mem_singleton_self _) rfl
        rcases List.mem_cons.mp he with rfl | hrest
        · exact absurd hlt (lt_irrefl _)
        · exact absurd hlt (hbefore e hrest).2.not_gt
    · rw [hreport] at hfires
      exact hfires (List.append_nil _)

theorem fuelInv_of_run {key : AlertKey} {acts : List FuelAct} {s : FuelWatch}
    (hrun : Run (Guarded (fun s act => s.Allowed key act ∧ s.Passes act) FuelStep) .empty acts s) :
    FuelInv key s := by
  have hstart : FuelInv key .empty := .empty
  refine hrun.invariant ?_ hstart
  rintro s act s' hs ⟨⟨hok, hpass⟩, rfl⟩
  exact hs.step hok hpass

/-- **Fuel events are fired once and forward.** In every run whose ticks pass, each generation of
the alert fires an event only after the older ones; and the first tick that does not pass breaks
this where it fires. -/
theorem fuel_fired_forward {key : AlertKey} {acts : List FuelAct} {s : FuelWatch}
    (hrun : Run (Guarded (fun s act => s.Allowed key act ∧ s.Passes act) FuelStep) .empty acts s) :
    FiredForward s.fired ∧
      ∀ act, s.Allowed key act → ¬s.Passes act → (s.step act).fired ≠ s.fired →
        ¬FiredForward (s.step act).fired :=
  ⟨(fuelInv_of_run hrun).forward, fun _ hok => not_forward_of_not_passes hok⟩

namespace FuelExample

def created : PriceAlert :=
  PriceAlertRequest.candidate
    { id := "pa-1"
      instrumentId := "ibkr|1|ES"
      routeFingerprint := "ibkr|1|ES"
      provider := "ibkr"
      providerContractId := "1"
      symbol := "ES"
      timeframe := "5m"
      kind := .vsaFuel
      direction := .cross
      price := 5000
      levelSource := ⟨.vsaFuel, true, none⟩ } 1000

/-- Two events after the creation. -/
def events : List VsaEvent := [⟨2000000, true, false⟩, ⟨3000000, true, false⟩]

/-- The row after a firing of `eventTs` at `now`. -/
def after (a : PriceAlert) (eventTs : Time) (now : ℕ) : PriceAlert :=
  firingPatch a (alertMonitorPayload { a with price := 5001 } 5001 now (now * 1000))
    (vsaFiredPatch eventTs 5001 now) now a

def look (a : PriceAlert) (later : List VsaEvent) (now : ℕ) : FuelAct :=
  .tick a ⟨.ready, events⟩ later 5001 now (now * 1000)

def create : FuelAct := .call (.createOrRearm created 1000)

def first : PriceAlert := after created 3000000 4000

def second : PriceAlert := after first 2000000 5000

theorem allowed_create : FuelWatch.Allowed created.key .empty create := by
  refine ⟨⟨.createOrRearm _ _, fun _ b hb => absurd hb (List.not_mem_nil)⟩, ?_,
    fun _ _ _ _ h => AlertAct.noConfusion h⟩
  rintro candidate rearmedAt ⟨⟩
  exact ⟨_, _, rfl⟩

theorem require_events :
    requireVsaFuelEvents ⟨.ready, events⟩ = .ok (some events.reverse) := by
  decide +kernel

theorem allowed_look {s : FuelWatch} {a : PriceAlert} {later : List VsaEvent} {now : ℕ}
    (hseen : a ∈ s.history.seen) (hkey : a.key = created.key) (hkind : a.kind = .vsaFuel)
    (hrow : s.row created.key = some a) (hlog : s.log ++ later = events) :
    s.Allowed created.key (look a later now) := by
  refine ⟨hseen, hkey, hkind, fun r hr _ => ?_, ⟨?_, fun fuelEvents hfuel => ?_⟩⟩
  · rw [Option.some.inj (hrow.symm.trans hr)]
  · rw [hlog]
    decide
  · rw [require_events] at hfuel
    have hsame : fuelEvents.reverse = s.log ++ later := by
      rw [hlog, ← Option.some.inj (Except.ok.inj hfuel), List.reverse_reverse]
    exact ⟨[], hsame⟩

/-- The two events are seen, and the newer one is fired. -/
def once : List FuelAct := [create, look created events 4000]

/-- Three ticks that see the same two events. -/
def thrice : List FuelAct :=
  [create, look created events 4000, look first [] 5000, look second [] 6000]

end FuelExample

open FuelExample in
theorem fuel_fired_forward_once :
    (once.foldl FuelWatch.step .empty).fired = [(1000, 3000000)] ∧
      FiredForward (once.foldl FuelWatch.step .empty).fired := by
  have hlook : (FuelWatch.empty.step create).Allowed created.key (look created events 4000) :=
    allowed_look (by decide +kernel) rfl rfl (by decide +kernel) rfl
  have hpass : (FuelWatch.empty.step create).Passes (look created events 4000) := by
    intro newest rest _ hfired
    exact absurd hfired (List.not_mem_nil)
  have hrun : Run (Guarded (fun s act => s.Allowed created.key act ∧ s.Passes act) FuelStep) .empty
      once (once.foldl FuelWatch.step .empty) :=
    .cons ⟨⟨allowed_create, trivial⟩, rfl⟩ (.single ⟨⟨hlook, hpass⟩, rfl⟩)
  exact ⟨by decide +kernel, (fuel_fired_forward hrun).1⟩

open FuelExample in
/-- With two events after the creation the newer one is fired, then the older one, then the newer
one again. -/
theorem fuel_fired_twice :
    (thrice.foldl FuelWatch.step .empty).fired = [(1000, 3000000), (1000, 2000000), (1000, 3000000)] ∧
      ¬∀ key acts s, Run (Guarded (FuelWatch.Allowed key) FuelStep) .empty acts s →
        FiredForward s.fired := by
  have hfired : (thrice.foldl FuelWatch.step .empty).fired =
      [(1000, 3000000), (1000, 2000000), (1000, 3000000)] := by
    decide +kernel
  refine ⟨hfired, fun hclaim => ?_⟩
  have hrun : Run (Guarded (FuelWatch.Allowed created.key) FuelStep) .empty thrice
      (thrice.foldl FuelWatch.step .empty) := by
    refine .cons ⟨allowed_create, rfl⟩ (.cons ⟨?_, rfl⟩ (.cons ⟨?_, rfl⟩ (.single ⟨?_, rfl⟩)))
    · exact allowed_look (by decide +kernel) rfl rfl (by decide +kernel) rfl
    · exact allowed_look (by decide +kernel) rfl rfl (by decide +kernel) (by decide +kernel)
    · exact allowed_look (by decide +kernel) rfl rfl (by decide +kernel) (by decide +kernel)
  have hforward := hclaim _ _ _ hrun
  rw [hfired] at hforward
  revert hforward
  unfold FiredForward
  decide

end AefTerminal
