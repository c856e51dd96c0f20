import AefTerminal.Repair.Orchestrator

/-!
# One lane for each provider

Whatever is submitted, merged, evicted or finishes, each provider has at most one task, its queue
is bounded and ordered by priority, a queue only waits behind a task, and only background requests
are evicted, for foreground ones.

So the head of the queue is a foreground request where there is any. But a task that finishes with
a next chunk starts that chunk and does not look at the queue: the next request is a background one
exactly when a background chunk continues.

## Main results

* `LaneView.Sound`, `HistoryRepairOrchestrator.Step.lanes`
* `HistoryRepairOrchestrator.foreground_first_iff`, `background_continues_first`
-/

namespace AefTerminal

open Foundation

/-- The part of the orchestrator that decides what runs. -/
structure LaneView where
  tasks : Dict RepairKey ℕ
  active : List PendingHistoryRepair
  pending : String → List PendingHistoryRepair
  nextSerial : ℕ
  evictions : List (PendingHistoryRepair × HistoryRepairIntent)

theorem HistoryRepairOrchestrator.prioritizePending_perm (queue : List PendingHistoryRepair) :
    (prioritizePending queue).Perm queue := List.perm_insertionSort _ queue

/-- The queue of one provider. -/
structure QueueSound (provider : String) (queue : List PendingHistoryRepair) : Prop where
  provider : ∀ request ∈ queue, request.provider = provider
  keys : (queue.map PendingHistoryRepair.taskKey).Nodup
  serials : (queue.map PendingHistoryRepair.serial).Nodup
  bound : queue.length ≤ maxPendingRepairsPerProvider
  ordered : queue.Pairwise fun a b => a.intent.priority.value ≤ b.intent.priority.value

namespace QueueSound

variable {provider : String} {queue queue' : List PendingHistoryRepair}

theorem nil (provider : String) : QueueSound provider [] :=
  ⟨fun _ h => absurd h List.not_mem_nil, List.nodup_nil, List.nodup_nil, Nat.zero_le _,
    List.Pairwise.nil⟩

theorem sublist (h : QueueSound provider queue) (hsub : queue'.Sublist queue) :
    QueueSound provider queue' :=
  ⟨fun request hr => h.provider request (hsub.subset hr), h.keys.sublist (hsub.map _),
    h.serials.sublist (hsub.map _), hsub.length_le.trans h.bound, h.ordered.sublist hsub⟩

/-- The stable sort needs no order beforehand. -/
theorem prioritize (hprovider : ∀ request ∈ queue, request.provider = provider)
    (hkeys : (queue.map PendingHistoryRepair.taskKey).Nodup)
    (hserials : (queue.map PendingHistoryRepair.serial).Nodup)
    (hbound : queue.length ≤ maxPendingRepairsPerProvider) :
    QueueSound provider (HistoryRepairOrchestrator.prioritizePending queue) := by
  have hperm := HistoryRepairOrchestrator.prioritizePending_perm queue
  refine ⟨fun request hr => hprovider request (hperm.mem_iff.mp hr),
    (hperm.map _).nodup_iff.mpr hkeys, (hperm.map _).nodup_iff.mpr hserials,
    hperm.length_eq.trans_le hbound, ?_⟩
  let byPriority (a b : PendingHistoryRepair) := a.intent.priority.value ≤ b.intent.priority.value
  have htotal : Std.Total byPriority := ⟨fun a b => le_total _ _⟩
  have htrans : IsTrans _ byPriority := ⟨fun a b c => le_trans⟩
  exact List.pairwise_insertionSort byPriority queue

/-- Requests may be rewritten as others for the same key. -/
theorem rewrite (h : QueueSound provider queue)
    {f : PendingHistoryRepair → PendingHistoryRepair}
    (hkey : ∀ request ∈ queue, (f request).taskKey = request.taskKey)
    (hserial : ∀ request ∈ queue, (f request).serial = request.serial) :
    QueueSound provider (HistoryRepairOrchestrator.prioritizePending (queue.map f)) := by
  have hkeys : (queue.map f).map PendingHistoryRepair.taskKey =
      queue.map PendingHistoryRepair.taskKey := by
    rw [List.map_map]
    exact List.map_congr_left hkey
  have hserials : (queue.map f).map PendingHistoryRepair.serial =
      queue.map PendingHistoryRepair.serial := by
    rw [List.map_map]
    exact List.map_congr_left hserial
  refine prioritize (fun request hr => ?_) (hkeys ▸ h.keys) (hserials ▸ h.serials) ?_
  · obtain ⟨old, hold, rfl⟩ := List.mem_map.mp hr
    have hsame : (f old).provider = old.provider :=
      congrArg (fun key => key.cursor.provider) (hkey old hold)
    exact hsame.trans (h.provider old hold)
  · rw [List.length_map]
    exact h.bound

/-- A new request goes into a queue that has room. -/
theorem push (h : QueueSound provider queue) {request : PendingHistoryRepair}
    (hprovider : request.provider = provider)
    (hroom : queue.length < maxPendingRepairsPerProvider)
    (hkey : ∀ other ∈ queue, other.taskKey ≠ request.taskKey)
    (hserial : ∀ other ∈ queue, other.serial ≠ request.serial) :
    QueueSound provider (HistoryRepairOrchestrator.prioritizePending (queue ++ [request])) := by
  refine prioritize (fun other hother => ?_) ?_ ?_ ?_
  · rcases List.mem_append.mp hother with hother | hother
    · exact h.provider other hother
    · exact List.mem_singleton.mp hother ▸ hprovider
  · rw [List.map_append]
    refine h.keys.append (List.nodup_singleton _) fun key hold hmem => ?_
    obtain ⟨other, hother, rfl⟩ := List.mem_map.mp hold
    exact hkey other hother (List.mem_singleton.mp hmem)
  · rw [List.map_append]
    refine h.serials.append (List.nodup_singleton _) fun serial hold hmem => ?_
    obtain ⟨other, hother, rfl⟩ := List.mem_map.mp hold
    exact hserial other hother (List.mem_singleton.mp hmem)
  · rw [List.length_append]
    exact hroom

/-- The head has the first priority of the queue. -/
theorem head_foreground {request : PendingHistoryRepair} {rest : List PendingHistoryRepair}
    (h : QueueSound provider (request :: rest))
    (hsome : ∃ other ∈ request :: rest, other.Foreground) : request.Foreground := by
  obtain ⟨other, hother, hforeground⟩ := hsome
  rcases List.mem_cons.mp hother with rfl | hother
  · exact hforeground
  · have hle := (List.pairwise_cons.mp h.ordered).1 other hother
    rw [show other.intent.priority = .foreground from hforeground] at hle
    show request.intent.priority = .foreground
    cases hpriority : request.intent.priority with
    | foreground => rfl
    | background =>
      rw [hpriority] at hle
      exact absurd hle (by decide)

end QueueSound

namespace LaneView

variable {v : LaneView} {provider : String} {queue : List PendingHistoryRepair}
  {request : PendingHistoryRepair}

def providers (v : LaneView) : List String := v.active.map PendingHistoryRepair.provider

/-- The serial numbers of the tasks. -/
def serials (v : LaneView) : List ℕ := v.active.map PendingHistoryRepair.serial

def setPending (v : LaneView) (provider : String) (queue : List PendingHistoryRepair) : LaneView :=
  { v with pending := Function.update v.pending provider queue }

@[simp] theorem setPending_self (v : LaneView) (provider : String)
    (queue : List PendingHistoryRepair) : (v.setPending provider queue).pending provider = queue :=
  Function.update_self ..

theorem setPending_of_ne (v : LaneView) {p provider : String} (h : p ≠ provider)
    (queue : List PendingHistoryRepair) : (v.setPending provider queue).pending p = v.pending p :=
  Function.update_of_ne h ..

def start (v : LaneView) (request : PendingHistoryRepair) : LaneView :=
  { v with tasks := v.tasks.insert request.taskKey request.serial, active := v.active ++ [request] }

def stop (v : LaneView) (request : PendingHistoryRepair) : LaneView :=
  { v with
    tasks := if v.tasks.get? request.taskKey = some request.serial then
        v.tasks.erase request.taskKey else v.tasks
    active := v.active.filter fun other => other.serial ≠ request.serial }

def allocate (v : LaneView) : LaneView := { v with nextSerial := v.nextSerial + 1 }

/-- What holds of the lanes also while a task finishes. -/
structure Sound (v : LaneView) : Prop where
  registered : v.tasks.entries = v.active.map fun request => (request.taskKey, request.serial)
  one : v.providers.Nodup
  serials : v.serials.Nodup
  queue : ∀ provider, QueueSound provider (v.pending provider)
  /-- A request is in one place. -/
  waits : ∀ provider, ∀ request ∈ v.pending provider, request.serial ∉ v.serials
  apart : ∀ p q, p ≠ q → ∀ request ∈ v.pending p, ∀ other ∈ v.pending q,
    request.serial ≠ other.serial
  fresh : ∀ request, request ∈ v.active ∨ (∃ p, request ∈ v.pending p) →
    request.serial < v.nextSerial
  evicted : ∀ e ∈ v.evictions, e.1.Background ∧ e.2.priority = .foreground

/-- A queue waits behind a task. -/
def Behind (v : LaneView) : Prop := ∀ provider, v.pending provider ≠ [] → provider ∈ v.providers

/-- The requests of the new queue were in the old one, perhaps rewritten. -/
theorem Sound.setPending (h : v.Sound) (hqueue : QueueSound provider queue)
    (hserials : ∀ request ∈ queue, ∃ other ∈ v.pending provider, other.serial = request.serial) :
    (v.setPending provider queue).Sound := by
  have hmem {p : String} {request : PendingHistoryRepair}
      (hr : request ∈ (v.setPending provider queue).pending p) :
      ∃ other ∈ v.pending p, other.serial = request.serial := by
    by_cases hp : p = provider
    · subst hp
      rw [setPending_self] at hr
      exact hserials request hr
    · rw [setPending_of_ne v hp] at hr
      exact ⟨request, hr, rfl⟩
  refine ⟨h.registered, h.one, h.serials, fun p => ?_, fun p request hr => ?_,
    fun p q hpq request hr other ho => ?_, fun request hr => ?_, h.evicted⟩
  · by_cases hp : p = provider
    · subst hp
      rwa [setPending_self]
    · rw [setPending_of_ne v hp]
      exact h.queue p
  · obtain ⟨old, hold, hserial⟩ := hmem hr
    exact hserial ▸ h.waits p old hold
  · obtain ⟨old, hold, hserial⟩ := hmem hr
    obtain ⟨old', hold', hserial'⟩ := hmem ho
    exact hserial ▸ hserial' ▸ h.apart p q hpq old hold old' hold'
  · rcases hr with hr | ⟨p, hr⟩
    · exact h.fresh request (.inl hr)
    · obtain ⟨old, hold, hserial⟩ := hmem hr
      exact hserial ▸ h.fresh old (.inr ⟨p, hold⟩)

theorem Sound.sublist (h : v.Sound) (hsub : queue.Sublist (v.pending provider)) :
    (v.setPending provider queue).Sound :=
  h.setPending ((h.queue provider).sublist hsub) fun request hr => ⟨request, hsub.subset hr, rfl⟩

theorem Sound.behind_setPending (h : v.Behind)
    (hnil : v.pending provider = [] → queue = []) : (v.setPending provider queue).Behind := by
  intro p hne
  by_cases hp : p = provider
  · subst hp
    rw [setPending_self] at hne
    exact h p fun heq => hne (hnil heq)
  · rw [setPending_of_ne v hp] at hne
    exact h p hne

theorem Sound.allocate (h : v.Sound) : v.allocate.Sound :=
  ⟨h.registered, h.one, h.serials, h.queue, h.waits, h.apart,
    fun request hr => Nat.lt_succ_of_lt (h.fresh request hr), h.evicted⟩

/-- The new queue has the next serial number in it, once. -/
theorem Sound.push (h : v.Sound) (hqueue : QueueSound provider queue)
    (hnew : ∀ request ∈ queue, request ∈ v.pending provider ∨ request.serial = v.nextSerial) :
    (v.setPending provider queue).allocate.Sound := by
  have hfresh {request : PendingHistoryRepair}
      (hlive : request ∈ v.active ∨ ∃ p, request ∈ v.pending p) :
      request.serial ≠ v.nextSerial := (h.fresh request hlive).ne
  have hmem {p : String} {request : PendingHistoryRepair}
      (hr : request ∈ (v.setPending provider queue).pending p) :
      request ∈ v.pending p ∨ (request.serial = v.nextSerial ∧ p = provider) := by
    by_cases hp : p = provider
    · subst hp
      rw [setPending_self] at hr
      exact (hnew request hr).imp id fun heq => ⟨heq, rfl⟩
    · rw [setPending_of_ne v hp] at hr
      exact .inl hr
  refine ⟨h.registered, h.one, h.serials, fun p => ?_, fun p request hr => ?_,
    fun p q hpq request hr other ho => ?_, fun request hr => ?_, h.evicted⟩
  · by_cases hp : p = provider
    · subst hp
      exact (setPending_self ..).symm ▸ hqueue
    · exact (setPending_of_ne v hp _).symm ▸ h.queue p
  · rcases hmem hr with hr | ⟨heq, -⟩
    · exact h.waits p request hr
    · rintro hin
      obtain ⟨task, htask, hserial⟩ := List.mem_map.mp hin
      exact hfresh (.inl htask) (hserial.trans heq)
  · rcases hmem hr with hold | ⟨heq, hp⟩
    · rcases hmem ho with hold' | ⟨heq', -⟩
      · exact h.apart p q hpq request hold other hold'
      · exact heq' ▸ hfresh (.inr ⟨p, hold⟩)
    · rcases hmem ho with hold' | ⟨-, hq⟩
      · exact fun hsame => hfresh (.inr ⟨q, hold'⟩) (hsame.symm.trans heq)
      · exact absurd (hp.trans hq.symm) hpq
  · show request.serial < v.nextSerial + 1
    rcases hr with hr | ⟨p, hr⟩
    · exact Nat.lt_succ_of_lt (h.fresh request (.inl hr))
    · rcases hmem hr with hr | ⟨heq, -⟩
      · exact Nat.lt_succ_of_lt (h.fresh request (.inr ⟨p, hr⟩))
      · exact heq ▸ Nat.lt_succ_self _

theorem Sound.mem_tasks_keys (h : v.Sound) {key : RepairKey} :
    key ∈ v.tasks.keys ↔ ∃ request ∈ v.active, request.taskKey = key := by
  rw [Dict.keys, h.registered, List.map_map, List.mem_map]
  rfl

theorem Sound.get?_tasks (h : v.Sound) {key : RepairKey} {serial : ℕ} :
    v.tasks.get? key = some serial ↔
      ∃ request ∈ v.active, request.taskKey = key ∧ request.serial = serial := by
  rw [Dict.get?_eq_some_iff, h.registered, List.mem_map]
  simp only [Prod.mk.injEq]

theorem taskKey_ne_of_provider_ne {a b : PendingHistoryRepair} (h : a.provider ≠ b.provider) :
    a.taskKey ≠ b.taskKey := fun heq => h (congrArg (fun key => key.cursor.provider) heq)

/-- A request starts in an empty lane. -/
theorem Sound.start (h : v.Sound) (hlane : request.provider ∉ v.providers)
    (hnew : request.serial ∉ v.serials) (hwaits : ∀ p, ∀ other ∈ v.pending p,
      other.serial ≠ request.serial) (hfresh : request.serial < v.nextSerial) :
    (v.start request).Sound := by
  have hkey : request.taskKey ∉ v.tasks.keys := fun hmem => by
    obtain ⟨other, hother, heq⟩ := h.mem_tasks_keys.mp hmem
    refine hlane (List.mem_map.mpr ⟨other, hother, ?_⟩)
    exact congrArg (fun key => key.cursor.provider) heq
  refine ⟨?_, ?_, ?_, h.queue, fun p other ho => ?_, h.apart, fun other ho => ?_, h.evicted⟩
  · show (v.tasks.insert request.taskKey request.serial).entries = _
    rw [Dict.entries_insert_of_notMem hkey, h.registered, LaneView.start, List.map_append]
    rfl
  · show ((v.active ++ [request]).map _).Nodup
    rw [List.map_append]
    exact h.one.append (List.nodup_singleton _) (by simpa using hlane)
  · show ((v.active ++ [request]).map _).Nodup
    rw [List.map_append]
    exact h.serials.append (List.nodup_singleton _) (by simpa using hnew)
  · show other.serial ∉ (v.active ++ [request]).map _
    rw [List.map_append, List.mem_append, not_or]
    exact ⟨h.waits p other ho, by simpa using hwaits p other ho⟩
  · rcases ho with ho | ho
    · rcases List.mem_append.mp ho with ho | ho
      · exact h.fresh other (.inl ho)
      · exact List.mem_singleton.mp ho ▸ hfresh
    · exact h.fresh other (.inr ho)

theorem Behind.start (h : ∀ p, v.pending p ≠ [] → p ∈ v.providers ∨ p = request.provider) :
    (v.start request).Behind := by
  intro p hne
  show p ∈ (v.active ++ [request]).map _
  rw [List.map_append, List.mem_append]
  exact (h p hne).imp id fun heq => by simp [heq]

/-- The task of an active request ends. -/
theorem Sound.stop (h : v.Sound) (hactive : request ∈ v.active) :
    (v.stop request).Sound ∧ request.provider ∉ (v.stop request).providers ∧
      request.serial ∉ (v.stop request).serials := by
  have hsub : (v.stop request).active.Sublist v.active := List.filter_sublist
  have hrest {other : PendingHistoryRepair} (hother : other ∈ v.active)
      (hne : other.serial ≠ request.serial) : other.provider ≠ request.provider := fun heq =>
    hne (congrArg _ (List.inj_on_of_nodup_map h.one hother hactive heq))
  refine ⟨⟨?_, h.one.sublist (hsub.map _), h.serials.sublist (hsub.map _), h.queue,
    fun p other ho hmem => h.waits p other ho ((hsub.map _).subset hmem), h.apart,
    fun other ho => h.fresh other (ho.imp_left fun hmem => hsub.subset hmem), h.evicted⟩, ?_, ?_⟩
  · have hget : v.tasks.get? request.taskKey = some request.serial :=
      h.get?_tasks.mpr ⟨request, hactive, rfl, rfl⟩
    show (if _ then _ else _ : Dict RepairKey ℕ).entries = _
    rw [if_pos hget]
    show v.tasks.entries.filter _ = _
    rw [h.registered, List.filter_map]
    refine congrArg _ (List.filter_congr fun other hother => ?_)
    by_cases heq : other.serial = request.serial
    · have hsame : other = request := List.inj_on_of_nodup_map h.serials hother hactive heq
      simp [hsame]
    · simp [heq, taskKey_ne_of_provider_ne (hrest hother heq)]
  · rintro hmem
    obtain ⟨other, hother, heq⟩ := List.mem_map.mp hmem
    obtain ⟨hother, hne⟩ := List.mem_filter.mp hother
    exact hrest hother (by simpa using hne) heq
  · rintro hmem
    obtain ⟨other, hother, heq⟩ := List.mem_map.mp hmem
    exact absurd heq (by simpa using (List.mem_filter.mp hother).2)

end LaneView

namespace HistoryRepairOrchestrator

variable {s t : HistoryRepairOrchestrator} {request : PendingHistoryRepair}

def lanes (s : HistoryRepairOrchestrator) : LaneView :=
  ⟨s.tasks, s.active, s.pending, s.nextSerial, s.evictions⟩

/-- The invariant of the lanes. -/
structure Laned (s : HistoryRepairOrchestrator) : Prop where
  sound : s.lanes.Sound
  behind : s.lanes.Behind

theorem laned_initial : initial.Laned :=
  ⟨⟨rfl, List.nodup_nil, List.nodup_nil, QueueSound.nil, fun _ _ h => absurd h List.not_mem_nil,
    fun _ _ _ _ h => absurd h List.not_mem_nil, by simp [lanes, initial],
    fun _ h => absurd h List.not_mem_nil⟩, fun _ h => absurd rfl h⟩

/-! ### What a submission does to the lanes -/

theorem lanes_subscribe (s : HistoryRepairOrchestrator) (key : RepairKey) (serial : ℕ)
    (onComplete : Bool) : (s.subscribe key serial onComplete).2.lanes = s.lanes := by
  unfold subscribe
  split
  · rfl
  · rfl

theorem lanes_clearAwaiting (s : HistoryRepairOrchestrator) (intent : HistoryRepairIntent) :
    (s.clearAwaiting intent).lanes = s.lanes := rfl

/-- Every registered task runs. -/
theorem lanes_prune (h : s.lanes.Sound) (now : ℚ) : (s.prune now).lanes = s.lanes := by
  have hnone : (s.tasks.select fun _ serial =>
      serial ∉ s.active.map PendingHistoryRepair.serial) = [] := by
    refine List.filter_eq_nil_iff.mpr fun entry hentry => ?_
    rw [show s.tasks.entries = _ from h.registered] at hentry
    obtain ⟨other, hother, rfl⟩ := List.mem_map.mp hentry
    simpa using ⟨other, hother, rfl⟩
  unfold prune lanes
  rw [hnone]
  rfl

theorem Laned.congr (h : s.Laned) (heq : t.lanes = s.lanes) : t.Laned :=
  ⟨heq ▸ h.sound, heq ▸ h.behind⟩

theorem Laned.promote (h : s.Laned) {existing : PendingHistoryRepair}
    {request : HistoryRepairRequest} (hexisting : existing ∈ s.pending request.intent.provider)
    (hkey : existing.taskKey = repairKey request.intent) : (s.promote existing request).Laned := by
  have hqueue := h.sound.queue request.intent.provider
  have hsame {other : PendingHistoryRepair} (hother : other ∈ s.pending request.intent.provider)
      (heq : other.taskKey = existing.taskKey) : other = existing :=
    List.inj_on_of_nodup_map hqueue.keys hother hexisting heq
  have hserial (other : PendingHistoryRepair) (hother : other ∈ s.pending request.intent.provider) :
      (if other.taskKey = existing.taskKey then promoted existing request else other).serial =
        other.serial := by
    split_ifs with heq
    · rw [hsame hother heq]
      rfl
    · rfl
  unfold HistoryRepairOrchestrator.promote
  split_ifs with hpriority
  · refine ⟨h.sound.setPending (hqueue.rewrite (fun other hother => ?_) hserial)
      fun other hother => ?_, LaneView.Sound.behind_setPending h.behind fun hnil => ?_⟩
    · split_ifs with heq
      · rw [heq, hkey]
        rfl
      · rfl
    · obtain ⟨old, hold, rfl⟩ := List.mem_map.mp ((prioritizePending_perm _).mem_iff.mp hother)
      exact ⟨old, hold, (hserial old hold).symm⟩
    · exact absurd hexisting (by rw [show s.pending request.intent.provider = [] from hnil]; simp)
  · exact h

variable {intent : HistoryRepairIntent}

/-- Only a background request is taken out, for a foreground one. -/
theorem evictee_spec {evicted : PendingHistoryRepair} (h : s.evictee intent = some evicted) :
    evicted ∈ s.pending intent.provider ∧ evicted.Background ∧ intent.priority = .foreground := by
  unfold evictee at h
  split_ifs at h with hpriority
  have hmem := List.mem_of_find?_eq_some h
  have hbackground := List.find?_some h
  exact ⟨List.mem_reverse.mp hmem, of_decide_eq_true hbackground, hpriority⟩

theorem Laned.evict (h : s.Laned) {evicted : PendingHistoryRepair}
    (hevictee : s.evictee intent = some evicted) : (s.evict evicted intent).Laned := by
  obtain ⟨hmem, hbackground, hpriority⟩ := evictee_spec hevictee
  have hset : (s.lanes.setPending intent.provider ((s.pending intent.provider).filter
      fun other => other.taskKey ≠ evicted.taskKey)).Sound := h.sound.sublist List.filter_sublist
  refine ⟨⟨hset.registered, hset.one, hset.serials, hset.queue, hset.waits, hset.apart,
    hset.fresh, fun e he => ?_⟩, LaneView.Sound.behind_setPending h.behind fun hnil => ?_⟩
  · rcases List.mem_append.mp he with he | he
    · exact h.sound.evicted e he
    · rw [List.mem_singleton.mp he]
      exact ⟨hbackground, hpriority⟩
  · rw [show s.pending intent.provider = [] from hnil]
    rfl

/-- There is room after an eviction. -/
theorem length_evict_lt (h : s.Laned)
    {evicted : PendingHistoryRepair} (hevictee : s.evictee intent = some evicted) :
    ((s.evict evicted intent).pending intent.provider).length < maxPendingRepairsPerProvider := by
  obtain ⟨hmem, -, -⟩ := evictee_spec hevictee
  have hpending : (s.evict evicted intent).pending intent.provider =
      (s.pending intent.provider).filter fun other => other.taskKey ≠ evicted.taskKey :=
    Function.update_self ..
  rw [hpending]
  refine (List.length_filter_lt_length_iff_exists.mpr ⟨evicted, hmem, by simp⟩).trans_le ?_
  exact (h.sound.queue intent.provider).bound

theorem Laned.enqueue (h : s.Laned) {request : HistoryRepairRequest} (onComplete : Bool)
    (hlane : request.intent.provider ∈ s.lanes.providers)
    (hroom : (s.pending request.intent.provider).length < maxPendingRepairsPerProvider)
    (hkey : ∀ other ∈ s.pending request.intent.provider,
      other.taskKey ≠ repairKey request.intent) : (s.enqueue request onComplete).2.Laned := by
  have hqueue : QueueSound request.intent.provider
      (prioritizePending (s.pending request.intent.provider ++ [s.admitted request])) :=
    (h.sound.queue request.intent.provider).push rfl hroom hkey fun other hother =>
      (h.sound.fresh other (.inr ⟨_, hother⟩)).ne
  have hview : (s.enqueue request onComplete).2.lanes =
      (s.lanes.setPending request.intent.provider (prioritizePending
        (s.pending request.intent.provider ++ [s.admitted request]))).allocate :=
    lanes_subscribe _ _ _ _
  refine ⟨hview ▸ h.sound.push hqueue fun other hother => ?_, hview ▸ fun p hne => ?_⟩
  · rcases List.mem_append.mp ((prioritizePending_perm _).mem_iff.mp hother) with hother | hother
    · exact .inl hother
    · exact .inr (List.mem_singleton.mp hother ▸ rfl)
  · by_cases hp : p = request.intent.provider
    · exact hp ▸ hlane
    · exact h.behind p fun heq => hne ((LaneView.setPending_of_ne s.lanes hp _).trans heq)

/-- A request with the next serial number starts in an empty lane. -/
theorem Laned.start_next (h : s.lanes.Sound) {request : PendingHistoryRepair}
    (hserial : request.serial = s.nextSerial) (hlane : request.provider ∉ s.lanes.providers)
    (hbehind : ∀ p, s.pending p ≠ [] → p ∈ s.lanes.providers ∨ p = request.provider)
    (hview : t.lanes = s.lanes.allocate.start request) : t.Laned := by
  have hfresh {other : PendingHistoryRepair} (hlive : other ∈ s.active ∨
      ∃ p, other ∈ s.pending p) : other.serial ≠ request.serial :=
    hserial ▸ (h.fresh other hlive).ne
  have hnew : request.serial ∉ s.lanes.allocate.serials := fun hmem => by
    obtain ⟨other, hother, heq⟩ := List.mem_map.mp hmem
    exact hfresh (.inl hother) heq
  refine ⟨hview ▸ h.allocate.start hlane hnew (fun p other hother => hfresh (.inr ⟨p, hother⟩)) ?_,
    hview ▸ LaneView.Behind.start hbehind⟩
  exact hserial ▸ Nat.lt_succ_self _

theorem Laned.begin (h : s.Laned) {request : HistoryRepairRequest} (onComplete : Bool)
    (hlane : request.intent.provider ∉ s.lanes.providers) :
    (s.begin request onComplete).2.Laned := by
  refine Laned.start_next h.sound (rfl : (s.admitted request).serial = s.nextSerial) hlane
    (fun p hne => .inl (h.behind p hne)) ?_
  show ((_ : HistoryRepairOrchestrator).startTask _).lanes = _
  have hsub := lanes_subscribe s.allocate (repairKey request.intent) s.nextSerial onComplete
  exact congrArg (fun v => v.start (s.admitted request)) hsub

theorem mem_providers_iff (h : s.lanes.Sound) {provider : String} :
    (provider ∈ s.tasks.keys.map fun key => key.cursor.provider) ↔
      provider ∈ s.lanes.providers := by
  constructor
  · rintro hmem
    obtain ⟨key, hkey, rfl⟩ := List.mem_map.mp hmem
    obtain ⟨request, hrequest, rfl⟩ := h.mem_tasks_keys.mp hkey
    exact List.mem_map_of_mem hrequest
  · rintro hmem
    obtain ⟨request, hrequest, rfl⟩ := List.mem_map.mp hmem
    exact List.mem_map.mpr ⟨request.taskKey, h.mem_tasks_keys.mpr ⟨request, hrequest, rfl⟩, rfl⟩

/-- What a submission does: it starts nothing, or it starts into an empty lane. -/
structure Submits (s t : HistoryRepairOrchestrator) : Prop where
  laned : t.Laned
  starts : ∀ request ∈ t.active, request ∉ s.active → s.pending request.provider = []

theorem Submits.of_active (h : t.Laned) (hactive : t.active = s.active) : Submits s t :=
  ⟨h, fun _ hr hnew => absurd (hactive ▸ hr) hnew⟩

theorem active_enqueue (s : HistoryRepairOrchestrator) (request : HistoryRepairRequest)
    (onComplete : Bool) : (s.enqueue request onComplete).2.active = s.active :=
  congrArg LaneView.active (lanes_subscribe (s.queued request) _ _ onComplete)

theorem active_begin (s : HistoryRepairOrchestrator) (request : HistoryRepairRequest)
    (onComplete : Bool) :
    (s.begin request onComplete).2.active = s.active ++ [s.admitted request] :=
  congrArg (fun view : LaneView => view.active ++ [s.admitted request])
    (lanes_subscribe s.allocate _ _ onComplete)

theorem submits_enter (h : s.Laned) (request : HistoryRepairRequest) (onComplete : Bool) (now : ℚ)
    (hkey : ∀ other ∈ s.pending request.intent.provider,
      other.taskKey ≠ repairKey request.intent) : Submits s (s.enter request onComplete now).2 := by
  unfold enter
  dsimp only
  split_ifs with hthrottled hkeys hfull
  · exact .of_active h rfl
  · have hlane := (mem_providers_iff h.sound).mp hkeys
    cases hevictee : s.evictee request.intent with
    | none => exact .of_active h rfl
    | some evicted =>
      refine .of_active ((h.evict hevictee).enqueue onComplete hlane
        (length_evict_lt h hevictee) fun other hother => ?_) (active_enqueue _ request onComplete)
      have hpending : (s.evict evicted request.intent).pending request.intent.provider = _ :=
        Function.update_self ..
      exact hkey other (List.mem_of_mem_filter (hpending ▸ hother))
  · have hlane := (mem_providers_iff h.sound).mp hkeys
    exact .of_active (h.enqueue onComplete hlane (by omega) hkey) (active_enqueue s request onComplete)
  · have hlane : request.intent.provider ∉ s.lanes.providers :=
      fun hmem => hkeys ((mem_providers_iff h.sound).mpr hmem)
    refine ⟨h.begin onComplete hlane, fun other hother hnew => ?_⟩
    rw [active_begin] at hother
    rcases List.mem_append.mp hother with hother | hother
    · exact absurd hother hnew
    · rw [List.mem_singleton.mp hother]
      by_contra hne
      exact hlane (h.behind _ hne)

theorem submits_schedule (h : s.Laned) (request : HistoryRepairRequest) (onComplete : Bool)
    (now : ℚ) : Submits s (s.schedule request onComplete now).2 := by
  have hclear : (s.clearAwaiting request.intent).Laned := h.congr (lanes_clearAwaiting s _)
  have hprune : ((s.clearAwaiting request.intent).prune now).Laned :=
    hclear.congr (lanes_prune hclear.sound now)
  have hsubscribed {u : HistoryRepairOrchestrator} (hu : u.Laned) (hactive : u.active = s.active)
      (key : RepairKey) (serial : ℕ) : Submits s (u.subscribe key serial onComplete).2 :=
    .of_active (hu.congr (lanes_subscribe ..))
      ((congrArg LaneView.active (lanes_subscribe ..)).trans hactive)
  unfold schedule
  dsimp only
  split_ifs with hawaits
  · exact .of_active hclear rfl
  · cases htask : ((s.clearAwaiting request.intent).prune now).tasks.get?
        (repairKey request.intent) with
    | some serial => exact hsubscribed hprune rfl _ _
    | none =>
      cases hfind : (((s.clearAwaiting request.intent).prune now).pending
          request.intent.provider).find? fun other => other.taskKey = repairKey request.intent with
      | some existing =>
        have hmem := List.mem_of_find?_eq_some hfind
        have hsame := List.find?_some hfind
        refine hsubscribed (hprune.promote hmem (of_decide_eq_true hsame)) ?_ _ _
        unfold promote
        split
        · rfl
        · rfl
      | none =>
        have henter := submits_enter hprune request onComplete now fun other hother heq =>
          absurd heq (by simpa using List.find?_eq_none.mp hfind other hother)
        exact ⟨henter.laned, henter.starts⟩

/-! ### A task that finishes -/

theorem lanes_complete (s : HistoryRepairOrchestrator) (request : PendingHistoryRepair)
    (outcome : HistoryRepairOutcome) : (s.complete request outcome).lanes = s.lanes := rfl

theorem lanes_settle (s : HistoryRepairOrchestrator) (request : PendingHistoryRepair)
    (outcome : HistoryRepairOutcome) (now : ℚ) :
    (s.settle request outcome now).lanes = s.lanes.stop request := rfl

theorem lanes_cancelPending (s : HistoryRepairOrchestrator) (provider : String) :
    (s.cancelPending provider).lanes = s.lanes.setPending provider [] := by
  have hfold (queue : List PendingHistoryRepair) : ∀ u : HistoryRepairOrchestrator,
      (queue.foldl (fun u request =>
        u.complete request { status := .cancelled, intent := request.intent }) u).lanes =
          u.lanes := by
    induction queue with
    | nil => exact fun _ => rfl
    | cons request queue ih =>
      intro u
      rw [List.foldl_cons, ih, lanes_complete]
  exact hfold _ _

/-- The lane of a task that finishes is empty, its queue waits for the next one. -/
theorem settle_behind (h : s.Laned) (hactive : request ∈ s.active)
    (outcome : HistoryRepairOutcome) (now : ℚ) (provider : String)
    (hne : (s.settle request outcome now).pending provider ≠ []) :
    provider ∈ (s.settle request outcome now).lanes.providers ∨ provider = request.provider := by
  rw [lanes_settle]
  by_cases hp : provider = request.provider
  · exact .inr hp
  · obtain ⟨task, htask, rfl⟩ := List.mem_map.mp (h.behind provider hne)
    refine .inl (List.mem_map.mpr ⟨task, List.mem_filter.mpr ⟨htask, ?_⟩, rfl⟩)
    refine decide_eq_true fun heq => hp ?_
    exact congrArg _ (List.inj_on_of_nodup_map h.sound.serials htask hactive heq)

/-- What a finished task leaves, and what starts after it. -/
structure Finishes (s : HistoryRepairOrchestrator) (request : PendingHistoryRepair)
    (next : Option PendingHistoryRepair) (t : HistoryRepairOrchestrator) : Prop where
  laned : t.Laned
  active : t.active = (s.active.filter fun other => other.serial ≠ request.serial) ++ next.toList

theorem finishes_continueWith (h : s.Laned) (hactive : request ∈ s.active)
    (outcome : HistoryRepairOutcome) (now : ℚ) (hprovider : intent.provider = request.provider) :
    Finishes s request (some { request with intent := intent, serial := s.nextSerial })
      ((s.settle request outcome now).continueWith request intent) := by
  obtain ⟨hsound, hlane, -⟩ := h.sound.stop hactive
  refine ⟨Laned.start_next (s := s.settle request outcome now) hsound rfl ?_ (fun p hne => ?_) rfl,
    rfl⟩
  · show intent.provider ∉ _
    rw [hprovider]
    exact hlane
  · show _ ∨ p = intent.provider
    rw [hprovider]
    exact settle_behind h hactive outcome now p hne

theorem finishes_startNext (h : s.Laned) (hactive : request ∈ s.active)
    (outcome : HistoryRepairOutcome) (now : ℚ) :
    Finishes s request (s.pending request.provider).head?
      ((s.settle request outcome now).startNext request.provider) := by
  obtain ⟨hsound, hlane, -⟩ := h.sound.stop hactive
  have hpending : (s.settle request outcome now).pending = s.pending := rfl
  unfold startNext
  rw [hpending]
  cases hqueue : s.pending request.provider with
  | nil =>
    refine ⟨⟨hsound, fun p hne => ?_⟩, (List.append_nil _).symm⟩
    exact (settle_behind h hactive outcome now p hne).resolve_right fun heq => hne (heq ▸ hqueue)
  | cons next rest =>
    have hnext : next ∈ s.pending request.provider := hqueue ▸ List.mem_cons_self
    have hprovider : next.provider = request.provider :=
      (h.sound.queue request.provider).provider next hnext
    have hsub : rest.Sublist (s.pending request.provider) := hqueue ▸ List.sublist_cons_self ..
    have hpopped : ((s.lanes.stop request).setPending request.provider rest).Sound :=
      hsound.sublist hsub
    have hwaits : next.serial ∉ (s.lanes.stop request).serials :=
      hsound.waits request.provider next hnext
    have hrest (p : String) (other : PendingHistoryRepair)
        (hother : other ∈ ((s.lanes.stop request).setPending request.provider rest).pending p) :
        other.serial ≠ next.serial := by
      by_cases hp : p = request.provider
      · subst hp
        have hserials := (h.sound.queue request.provider).serials
        rw [show s.lanes.pending request.provider = next :: rest from hqueue, List.map_cons,
          List.nodup_cons] at hserials
        rw [LaneView.setPending_self] at hother
        exact fun heq => hserials.1 (List.mem_map.mpr ⟨other, hother, heq⟩)
      · rw [LaneView.setPending_of_ne _ hp] at hother
        exact h.sound.apart p request.provider hp other hother next hnext
    have hsound' : (((s.lanes.stop request).setPending request.provider rest).start next).Sound :=
      hpopped.start (hprovider ▸ hlane) hwaits hrest (h.sound.fresh next (.inr ⟨_, hnext⟩))
    have hbehind : (((s.lanes.stop request).setPending request.provider rest).start next).Behind := by
      refine LaneView.Behind.start fun p hne => ?_
      by_cases hp : p = request.provider
      · exact .inr (hp.trans hprovider.symm)
      · rw [LaneView.setPending_of_ne _ hp] at hne
        exact (settle_behind h hactive outcome now p hne).imp id fun heq => absurd heq hp
    exact ⟨⟨hsound', hbehind⟩, rfl⟩

theorem finishes_cancelled (h : s.Laned) (hactive : request ∈ s.active) (now : ℚ) :
    Finishes s request none (s.finishCancelled request now) := by
  obtain ⟨hsound, -, -⟩ := h.sound.stop hactive
  have hview : (s.finishCancelled request now).lanes =
      (s.lanes.stop request).setPending request.provider [] := lanes_cancelPending _ _
  refine ⟨⟨hview ▸ hsound.sublist (List.nil_sublist _), ?_⟩, ?_⟩
  · rw [hview]
    intro p hne
    by_cases hp : p = request.provider
    · subst hp
      exact absurd (LaneView.setPending_self ..) hne
    · rw [LaneView.setPending_of_ne _ hp] at hne
      exact (settle_behind h hactive { status := .cancelled, intent := request.intent } now p
        hne).resolve_right hp
  · exact (congrArg LaneView.active hview).trans (List.append_nil _).symm

/-! ### Runs -/

theorem continuationIntent_spec {next : HistoryRepairIntent}
    {outcome : HistoryRepairOutcome} (h : continuationIntent intent outcome = some next) :
    next.provider = intent.provider ∧ next.priority = intent.priority := by
  unfold continuationIntent at h
  split_ifs at h
  cases h
  exact ⟨rfl, rfl⟩

/-- A finished task is followed by its next chunk, or by the head of the queue. -/
theorem finishes_finish (h : s.Laned) (hactive : request ∈ s.active)
    (outcome : HistoryRepairOutcome) (now : ℚ) :
    Finishes s request
      (match continuationIntent request.intent outcome with
        | some intent => some { request with intent := intent, serial := s.nextSerial }
        | none => (s.pending request.provider).head?) (s.finish request outcome now) := by
  unfold finish
  cases hcontinuation : continuationIntent request.intent outcome with
  | some intent =>
    exact finishes_continueWith h hactive outcome now (continuationIntent_spec hcontinuation).1
  | none => exact finishes_startNext h hactive outcome now

theorem latestOutcome_lanes (s : HistoryRepairOrchestrator) (intent : HistoryRepairIntent) :
    (s.latestOutcome intent).2.lanes = s.lanes := by
  unfold latestOutcome
  split
  · rfl
  · rfl

theorem Step.laned {a : Act} (h : s.Laned) (hstep : Step s a t) : t.Laned := by
  cases hstep with
  | schedule request onComplete now => exact (submits_schedule h request onComplete now).laned
  | finish request outcome now hactive hintent => exact (finishes_finish h hactive outcome now).laned
  | cancel request now hactive => exact (finishes_cancelled h hactive now).laned
  | call i call hdue => exact h.congr rfl
  | latestOutcome intent => exact h.congr (latestOutcome_lanes s intent)

theorem run_laned {as : List Act} (h : Run Step initial as s) : s.Laned :=
  h.invariant (fun _ _ _ hs hstep => hstep.laned hs) laned_initial

/-- The step starts no background request before a foreground one that waits. -/
def StartsForeground (s t : HistoryRepairOrchestrator) : Prop :=
  ∀ request ∈ t.active, request ∉ s.active →
    (∃ other ∈ s.pending request.provider, other.Foreground) → request.Foreground

/-- A background request that finishes has a next chunk while a foreground one waits. -/
def BackgroundContinues (s : HistoryRepairOrchestrator) : Act → Prop
  | .finish serial outcome _ => ∃ request ∈ s.active, request.serial = serial ∧
      request.Background ∧ (continuationIntent request.intent outcome).isSome ∧
        ∃ other ∈ s.pending request.provider, other.Foreground
  | _ => False

theorem not_foreground_iff {request : PendingHistoryRepair} :
    ¬ request.Foreground ↔ request.Background := by
  unfold PendingHistoryRepair.Foreground PendingHistoryRepair.Background
  cases request.intent.priority <;> simp

theorem Finishes.startsForeground {next : Option PendingHistoryRepair}
    (h : Finishes s request next t) (hnext : ∀ started ∈ next,
      (∃ other ∈ s.pending started.provider, other.Foreground) → started.Foreground) :
    StartsForeground s t := by
  intro started hstarted hnew
  rw [h.active] at hstarted
  rcases List.mem_append.mp hstarted with hold | hstarted
  · exact absurd (List.mem_of_mem_filter hold) hnew
  · exact hnext started (Option.mem_toList.mp hstarted)

theorem startsForeground_of_active_eq (h : t.active = s.active) : StartsForeground s t :=
  fun _ hr hnew => absurd (h ▸ hr) hnew

/-- **Foreground first.** After any run, a step starts a background request before a foreground one
that waits exactly when a background request that finishes has a next chunk. -/
theorem foreground_first_iff {as : List Act} {a : Act} (hrun : Run Step initial as s)
    (hstep : Step s a t) : StartsForeground s t ↔ ¬ BackgroundContinues s a := by
  have h := run_laned hrun
  cases hstep with
  | schedule request onComplete now =>
    refine iff_of_true (fun started hstarted hnew hwaits => ?_) not_false
    obtain ⟨other, hother, -⟩ := hwaits
    rw [(submits_schedule h request onComplete now).starts started hstarted hnew] at hother
    exact absurd hother List.not_mem_nil
  | finish request outcome now hactive hintent =>
    have hfinishes := finishes_finish h hactive outcome now
    have hrequest {other : PendingHistoryRepair} (hother : other ∈ s.active)
        (hserial : other.serial = request.serial) : other = request :=
      List.inj_on_of_nodup_map h.sound.serials hother hactive hserial
    cases hcontinuation : continuationIntent request.intent outcome with
    | some intent =>
      rw [hcontinuation] at hfinishes
      obtain ⟨hprovider, hpriority⟩ := continuationIntent_spec hcontinuation
      let next : PendingHistoryRepair := { request with intent := intent, serial := s.nextSerial }
      have hsame : next.Foreground ↔ request.Foreground := by
        show intent.priority = _ ↔ request.intent.priority = _
        rw [hpriority]
      have hnext : next.provider = request.provider := hprovider
      constructor
      · rintro hstarts ⟨other, hother, hserial, hbackground, -, hwaits⟩
        obtain rfl := hrequest hother hserial
        have hmem : next ∈ (s.finish other outcome now).active := by
          rw [hfinishes.active]
          exact List.mem_append_right _ (List.mem_singleton_self _)
        have hnew : next ∉ s.active := fun hin => (h.sound.fresh next (.inl hin)).ne rfl
        exact not_foreground_iff.mpr hbackground
          (hsame.mp (hstarts next hmem hnew (hnext.symm ▸ hwaits)))
      · refine fun hnot => hfinishes.startsForeground fun started hstarted hwaits => ?_
        obtain rfl : next = started := Option.some.inj hstarted
        by_contra hbackground
        refine hnot ⟨request, hactive, rfl, not_foreground_iff.mp (hsame.not.mp hbackground), ?_, ?_⟩
        · rw [hcontinuation]
          rfl
        · exact hnext ▸ hwaits
    | none =>
      rw [hcontinuation] at hfinishes
      refine iff_of_true (hfinishes.startsForeground fun started hstarted hwaits => ?_) ?_
      · obtain ⟨rest, hqueue⟩ := List.head?_eq_some_iff.mp hstarted
        have hprovider : started.provider = request.provider :=
          (h.sound.queue request.provider).provider started
            ((show s.lanes.pending request.provider = _ from hqueue) ▸ List.mem_cons_self)
        have hsound : QueueSound request.provider (started :: rest) :=
          hqueue ▸ h.sound.queue request.provider
        rw [hprovider, hqueue] at hwaits
        exact hsound.head_foreground hwaits
      · rintro ⟨other, hother, hserial, -, hsome, -⟩
        rw [hrequest hother hserial, hcontinuation] at hsome
        exact absurd hsome (by simp)
  | cancel request now hactive =>
    exact iff_of_true ((finishes_cancelled h hactive now).startsForeground
      fun _ hstarted => absurd hstarted (by simp)) not_false
  | call i call hdue => exact iff_of_true (startsForeground_of_active_eq rfl) not_false
  | latestOutcome intent =>
    exact iff_of_true (startsForeground_of_active_eq
      (congrArg LaneView.active (latestOutcome_lanes s intent))) not_false

/-- A chunk of the target from 0 to 100 of one chart. -/
def demoIntent (startsAt endsAt : ℤ) (priority : HistoryRepairPriority)
    (hnonempty : startsAt < endsAt) (hinside : 0 ≤ startsAt ∧ endsAt ≤ 100) :
    HistoryRepairIntent where
  provider := "demo"
  instrumentId := "demo:1"
  routeFingerprint := "route"
  timeframe := "1m"
  startsAt := startsAt
  endsAt := endsAt
  targetStartsAt := 0
  targetEndsAt := 100
  requestIdentity := ⟨1, 1, "exact", "demo", "1", "STK", .exact⟩
  canonicalGeneration := 0
  priority := priority
  cooldownSeconds := 0
  nonempty := hnonempty
  inside := hinside
  cooldown_nonneg := by decide

def demoBackground : HistoryRepairIntent := demoIntent 90 100 .background (by decide) (by decide)

def demoForeground : HistoryRepairIntent := demoIntent 40 50 .foreground (by decide) (by decide)

/-- A background request runs and a foreground one waits. -/
def demoWaiting : HistoryRepairOrchestrator :=
  ((initial.schedule ⟨true, demoBackground, 1⟩ false 0).2.schedule ⟨true, demoForeground, 1⟩ false
    0).2

theorem demoWaiting_run : Run Step initial
    [.schedule ⟨true, demoBackground, 1⟩ false 0, .schedule ⟨true, demoForeground, 1⟩ false 0]
    demoWaiting :=
  .cons (.schedule ..) <| .cons (.schedule ..) <| .nil _

/-- The task that ends without progress is followed by the foreground request. -/
theorem foreground_first_iff_failed :
    ∃ t, Step demoWaiting (.finish 0 { status := .fetchFailed, intent := demoBackground } 1) t ∧
      t.active.map PendingHistoryRepair.serial = [1] ∧
      (StartsForeground demoWaiting t ↔ ¬ BackgroundContinues demoWaiting
        (.finish 0 { status := .fetchFailed, intent := demoBackground } 1)) := by
  have hactive : (⟨⟨true, demoBackground, 1⟩, 0⟩ : PendingHistoryRepair) ∈ demoWaiting.active := by
    decide +kernel
  have hstep := Step.finish _ { status := .fetchFailed, intent := demoBackground } 1 hactive rfl
  exact ⟨_, hstep, by decide +kernel, foreground_first_iff demoWaiting_run hstep⟩

/-- The task that committed its chunk is followed by its next chunk, a background one. -/
theorem background_continues_first :
    ∃ as s a t, Run Step initial as s ∧ Step s a t ∧ ¬ StartsForeground s t := by
  have hactive : (⟨⟨true, demoBackground, 1⟩, 0⟩ : PendingHistoryRepair) ∈ demoWaiting.active := by
    decide +kernel
  have hstep := Step.finish _ { status := .committed, intent := demoBackground } 1 hactive rfl
  refine ⟨_, _, _, _, demoWaiting_run, hstep, fun hstarts => ?_⟩
  let next : PendingHistoryRepair :=
    ⟨⟨true, demoIntent 80 90 .background (by decide) (by decide), 1⟩, 2⟩
  let waiting : PendingHistoryRepair := ⟨⟨true, demoForeground, 1⟩, 1⟩
  have hwaits : waiting ∈ demoWaiting.pending next.provider := by decide +kernel
  have hforeground : next.Foreground :=
    hstarts next (by decide +kernel) (by decide +kernel) ⟨waiting, hwaits, by decide⟩
  exact absurd hforeground (by decide)

end HistoryRepairOrchestrator

end AefTerminal
