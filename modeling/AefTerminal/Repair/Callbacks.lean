import AefTerminal.Foundation.Notifier
import AefTerminal.Repair.Lanes

/-!
# Every callback is called once, with the end of its request

The table of callbacks is keyed by what is repaired, not by request. As long as no two requests in
progress have the same key, a callback is called once, with the outcome of the request it was
subscribed to: when the request finishes, when it is evicted, and when it is cancelled.

Submissions merge with the request that has their key. The next chunk of a finished task does not:
it may start under the key of a queued request. Then the callbacks of the two are one list, and the
first of the two to end takes it.

## Main results

* `HistoryRepairOrchestrator.Step.booked`
* `HistoryRepairOrchestrator.repairs_booked`, `callback_misinformed`
-/

namespace AefTerminal

open Foundation

namespace PendingHistoryRepair

/-- What identifies the request and what it repairs. -/
def tag (request : PendingHistoryRepair) : RepairKey × ℕ := (request.taskKey, request.serial)

end PendingHistoryRepair

namespace LaneView

variable {v : LaneView} {provider : String} {queue : List PendingHistoryRepair}
  {request : PendingHistoryRepair} {key key' : RepairKey} {serial serial' : ℕ}

/-- A request for the key is in progress. -/
def Live (v : LaneView) (key : RepairKey) (serial : ℕ) : Prop :=
  (key, serial) ∈ v.active.map PendingHistoryRepair.tag ∨
    ∃ p, (key, serial) ∈ (v.pending p).map PendingHistoryRepair.tag

/-- No task works under the key of a request that waits. -/
def Apart (v : LaneView) : Prop :=
  ∀ task ∈ v.active, ∀ p, ∀ request ∈ v.pending p, request.taskKey ≠ task.taskKey

theorem live_iff : v.Live key serial ↔ ∃ request, (request ∈ v.active ∨ ∃ p, request ∈ v.pending p) ∧
    request.taskKey = key ∧ request.serial = serial := by
  unfold Live PendingHistoryRepair.tag
  simp only [List.mem_map, Prod.mk.injEq]
  constructor
  · rintro (⟨request, hr, h⟩ | ⟨p, request, hr, h⟩)
    · exact ⟨request, .inl hr, h⟩
    · exact ⟨request, .inr ⟨p, hr⟩, h⟩
  · rintro ⟨request, hr | ⟨p, hr⟩, h⟩
    · exact .inl ⟨request, hr, h⟩
    · exact .inr ⟨p, request, hr, h⟩

theorem live_of_active (h : request ∈ v.active) : v.Live request.taskKey request.serial :=
  live_iff.mpr ⟨request, .inl h, rfl, rfl⟩

theorem live_of_pending (h : request ∈ v.pending provider) :
    v.Live request.taskKey request.serial :=
  live_iff.mpr ⟨request, .inr ⟨provider, h⟩, rfl, rfl⟩

theorem Sound.live_lt (h : v.Sound) (hlive : v.Live key serial) : serial < v.nextSerial := by
  obtain ⟨request, hr, -, rfl⟩ := live_iff.mp hlive
  exact h.fresh request hr

/-- A serial number belongs to one request. -/
theorem Sound.live_serial (h : v.Sound) (hlive : v.Live key serial) (hlive' : v.Live key' serial) :
    key = key' := by
  obtain ⟨request, hr, rfl, hserial⟩ := live_iff.mp hlive
  obtain ⟨other, ho, rfl, rfl⟩ := live_iff.mp hlive'
  rcases hr with hr | ⟨p, hr⟩
  · rcases ho with ho | ⟨q, ho⟩
    · exact congrArg _ (List.inj_on_of_nodup_map h.serials hr ho hserial)
    · exact absurd (List.mem_map.mpr ⟨request, hr, hserial⟩) (h.waits q other ho)
  · rcases ho with ho | ⟨q, ho⟩
    · exact absurd (List.mem_map.mpr ⟨other, ho, hserial.symm⟩) (h.waits p request hr)
    · by_cases hpq : p = q
      · subst hpq
        exact congrArg _ (List.inj_on_of_nodup_map (h.queue p).serials hr ho hserial)
      · exact absurd hserial (h.apart p q hpq request hr other ho)

/-- A key belongs to one request, as long as no task works under the key of one that waits. -/
theorem Sound.live_key (h : v.Sound) (hapart : v.Apart) (hlive : v.Live key serial)
    (hlive' : v.Live key serial') : serial = serial' := by
  obtain ⟨request, hr, hkey, rfl⟩ := live_iff.mp hlive
  obtain ⟨other, ho, rfl, rfl⟩ := live_iff.mp hlive'
  have hprovider : request.provider = other.provider :=
    congrArg (fun key => key.cursor.provider) hkey
  rcases hr with hr | ⟨p, hr⟩
  · rcases ho with ho | ⟨q, ho⟩
    · exact congrArg _ (List.inj_on_of_nodup_map h.one hr ho hprovider)
    · exact absurd hkey.symm (hapart request hr q other ho)
  · rcases ho with ho | ⟨q, ho⟩
    · exact absurd hkey (hapart other ho p request hr)
    · have hp := (h.queue p).provider request hr
      have hq := (h.queue q).provider other ho
      obtain rfl : p = q := by rw [← hp, hprovider, hq]
      exact congrArg _ (List.inj_on_of_nodup_map (h.queue p).keys hr ho hkey)

theorem live_setPending_iff : (v.setPending provider queue).Live key serial ↔
    (key, serial) ∈ v.active.map PendingHistoryRepair.tag ∨
      (key, serial) ∈ queue.map PendingHistoryRepair.tag ∨
        ∃ p, p ≠ provider ∧ (key, serial) ∈ (v.pending p).map PendingHistoryRepair.tag := by
  refine or_congr_right ⟨?_, ?_⟩
  · rintro ⟨p, h⟩
    by_cases hp : p = provider
    · subst hp
      rw [setPending_self] at h
      exact .inl h
    · rw [setPending_of_ne v hp] at h
      exact .inr ⟨p, hp, h⟩
  · rintro (h | ⟨p, hp, h⟩)
    · exact ⟨provider, by rwa [setPending_self]⟩
    · exact ⟨p, by rwa [setPending_of_ne v hp]⟩

/-- The queue keeps its requests, perhaps rewritten, and may get others. -/
theorem live_setPending_of_tags {new : RepairKey × ℕ → Prop}
    (htags : ∀ tag, tag ∈ queue.map PendingHistoryRepair.tag ↔
      tag ∈ (v.pending provider).map PendingHistoryRepair.tag ∨ new tag) :
    (v.setPending provider queue).Live key serial ↔ v.Live key serial ∨ new (key, serial) := by
  rw [live_setPending_iff, htags]
  constructor
  · rintro (h | (h | h) | ⟨p, -, h⟩)
    · exact .inl (.inl h)
    · exact .inl (.inr ⟨provider, h⟩)
    · exact .inr h
    · exact .inl (.inr ⟨p, h⟩)
  · rintro ((h | ⟨p, h⟩) | h)
    · exact .inl h
    · by_cases hp : p = provider
      · exact .inr (.inl (.inl (hp ▸ h)))
      · exact .inr (.inr ⟨p, hp, h⟩)
    · exact .inr (.inl (.inr h))

/-- What is in progress is in the queue or elsewhere. -/
theorem live_clear_iff : v.Live key serial ↔ (v.setPending provider []).Live key serial ∨
    (key, serial) ∈ (v.pending provider).map PendingHistoryRepair.tag := by
  rw [live_setPending_iff]
  constructor
  · rintro (h | ⟨p, h⟩)
    · exact .inl (.inl h)
    · by_cases hp : p = provider
      · exact .inr (hp ▸ h)
      · exact .inl (.inr (.inr ⟨p, hp, h⟩))
  · rintro ((h | h | ⟨p, -, h⟩) | h)
    · exact .inl h
    · exact absurd h List.not_mem_nil
    · exact .inr ⟨p, h⟩
    · exact .inr ⟨provider, h⟩

/-- A request leaves the queue. -/
theorem Sound.live_remove_iff (h : v.Sound) (hrequest : request ∈ v.pending provider)
    (hqueue : ∀ other, other ∈ queue ↔
      other ∈ v.pending provider ∧ other.serial ≠ request.serial) :
    (v.setPending provider queue).Live key serial ↔
      v.Live key serial ∧ serial ≠ request.serial := by
  rw [live_iff, live_iff]
  have hmem (p : String) (other : PendingHistoryRepair) :
      other ∈ (v.setPending provider queue).pending p ↔
        other ∈ v.pending p ∧ other.serial ≠ request.serial := by
    by_cases hp : p = provider
    · subst hp
      rw [setPending_self]
      exact hqueue other
    · rw [setPending_of_ne v hp]
      exact ⟨fun ho => ⟨ho, h.apart p provider hp other ho request hrequest⟩, And.left⟩
  constructor
  · rintro ⟨other, ho | ⟨p, ho⟩, rfl, rfl⟩
    · refine ⟨⟨other, .inl ho, rfl, rfl⟩, fun heq => h.waits provider request hrequest ?_⟩
      exact List.mem_map.mpr ⟨other, ho, heq⟩
    · obtain ⟨hold, hne⟩ := (hmem p other).mp ho
      exact ⟨⟨other, .inr ⟨p, hold⟩, rfl, rfl⟩, hne⟩
  · rintro ⟨⟨other, ho | ⟨p, ho⟩, rfl, rfl⟩, hne⟩
    · exact ⟨other, .inl ho, rfl, rfl⟩
    · exact ⟨other, .inr ⟨p, (hmem p other).mpr ⟨ho, hne⟩⟩, rfl, rfl⟩

theorem Apart.setPending (h : v.Apart)
    (hqueue : ∀ task ∈ v.active, ∀ other ∈ queue, other.taskKey ≠ task.taskKey) :
    (v.setPending provider queue).Apart := by
  intro task htask p other hother
  by_cases hp : p = provider
  · subst hp
    rw [setPending_self] at hother
    exact hqueue task htask other hother
  · rw [setPending_of_ne v hp] at hother
    exact h task htask p other hother

theorem Apart.sublist (h : v.Apart) (hsub : queue.Sublist (v.pending provider)) :
    (v.setPending provider queue).Apart :=
  h.setPending fun task htask other hother => h task htask provider other (hsub.subset hother)

theorem Apart.stop (h : v.Apart) : (v.stop request).Apart :=
  fun task htask => h task (List.mem_of_mem_filter htask)

theorem Apart.start (h : v.Apart)
    (hnew : ∀ p, ∀ other ∈ v.pending p, other.taskKey ≠ request.taskKey) :
    (v.start request).Apart := by
  intro task htask p other hother
  rcases List.mem_append.mp htask with htask | htask
  · exact h task htask p other hother
  · exact List.mem_singleton.mp htask ▸ hnew p other hother

theorem live_start_iff : (v.start request).Live key serial ↔
    v.Live key serial ∨ (key, serial) = request.tag := by
  show (key, serial) ∈ (v.active ++ [request]).map _ ∨ _ ↔ _
  rw [List.map_append, List.mem_append, List.map_singleton, List.mem_singleton, or_right_comm]
  rfl

theorem Sound.live_stop_iff (h : v.Sound) (hactive : request ∈ v.active) :
    (v.stop request).Live key serial ↔ v.Live key serial ∧ serial ≠ request.serial := by
  rw [live_iff, live_iff]
  constructor
  · rintro ⟨other, ho | ⟨p, ho⟩, rfl, rfl⟩
    · obtain ⟨hmem, hne⟩ := List.mem_filter.mp ho
      exact ⟨⟨other, .inl hmem, rfl, rfl⟩, by simpa using hne⟩
    · refine ⟨⟨other, .inr ⟨p, ho⟩, rfl, rfl⟩, fun heq => h.waits p other ho ?_⟩
      exact List.mem_map.mpr ⟨request, hactive, heq.symm⟩
  · rintro ⟨⟨other, ho | ⟨p, ho⟩, rfl, rfl⟩, hne⟩
    · exact ⟨other, .inl (List.mem_filter.mpr ⟨ho, by simpa using hne⟩), rfl, rfl⟩
    · exact ⟨other, .inr ⟨p, ho⟩, rfl, rfl⟩

end LaneView

namespace HistoryRepairOrchestrator

variable {s t : HistoryRepairOrchestrator} {request : PendingHistoryRepair}

/-- The callbacks as subscribers of the requests. -/
def books (s : HistoryRepairOrchestrator) : Notifier RepairKey ℕ HistoryRepairOutcome :=
  ⟨s.callbacks, s.due, s.invoked, s.subscriptions, s.ended⟩

/-- The callbacks are in order for the requests in progress. -/
structure Kept (s : HistoryRepairOrchestrator) (live : RepairKey → ℕ → Prop) : Prop where
  sound : s.books.Sound live
  below : ∀ entry ∈ s.ended, entry.1 < s.nextSerial

/-- The invariant of the callbacks. -/
structure Booked (s : HistoryRepairOrchestrator) : Prop where
  laned : s.Laned
  apart : s.lanes.Apart
  kept : s.Kept s.lanes.Live

theorem booked_initial : initial.Booked :=
  ⟨laned_initial, fun _ h => absurd h List.not_mem_nil, Notifier.sound_empty,
    fun _ h => absurd h List.not_mem_nil⟩

theorem Booked.congr (h : s.Booked) (hlanes : t.lanes = s.lanes) (hbooks : t.books = s.books) :
    t.Booked := by
  have hended : t.ended = s.ended := congrArg Notifier.ended hbooks
  have hnext : t.nextSerial = s.nextSerial := congrArg LaneView.nextSerial hlanes
  exact ⟨h.laned.congr hlanes, hlanes ▸ h.apart, hlanes ▸ hbooks ▸ h.kept.sound,
    hended ▸ hnext ▸ h.kept.below⟩

variable {live live' : RepairKey → ℕ → Prop}

theorem Kept.subscribe (h : s.Kept live) {key : RepairKey} {serial : ℕ} (onComplete : Bool)
    (hlive : live key serial) : (s.subscribe key serial onComplete).2.Kept live := by
  unfold HistoryRepairOrchestrator.subscribe
  split_ifs
  · exact h
  · exact ⟨h.sound.subscribe hlive, h.below⟩

theorem Booked.subscribe (h : s.Booked) {key : RepairKey} {serial : ℕ} (onComplete : Bool)
    (hlive : s.lanes.Live key serial) : (s.subscribe key serial onComplete).2.Booked := by
  have hlanes := lanes_subscribe s key serial onComplete
  exact ⟨h.laned.congr hlanes, hlanes ▸ h.apart, hlanes ▸ h.kept.subscribe onComplete hlive⟩

theorem Kept.congr (h : s.Kept live) (hiff : ∀ key serial, live' key serial ↔ live key serial)
    (hbooks : t.books = s.books) (hnext : t.nextSerial = s.nextSerial) : t.Kept live' := by
  have hended : t.ended = s.ended := congrArg Notifier.ended hbooks
  refine ⟨hbooks ▸ h.sound.mono (fun key serial => (hiff key serial).mpr) fun key serial hlive =>
    .inl ((hiff key serial).mp hlive), hended ▸ hnext ▸ h.below⟩

/-- A request begins with the next serial number. -/
theorem Kept.begin (h : s.Kept live) {key : RepairKey}
    (hiff : ∀ k n, live' k n ↔ live k n ∨ (k = key ∧ n = s.nextSerial)) :
    s.allocate.Kept live' := by
  refine ⟨h.sound.mono (fun k n hlive => (hiff k n).mpr (.inl hlive)) fun k n hlive => ?_,
    fun entry he => Nat.lt_succ_of_lt (h.below entry he)⟩
  refine ((hiff k n).mp hlive).imp id fun ⟨_, hn⟩ hmem => ?_
  obtain ⟨entry, hentry, rfl⟩ := List.mem_map.mp hmem
  exact (h.below entry hentry).ne hn

/-- A request ends, the only one under its key. -/
theorem Kept.complete (h : s.Kept live) (hlive : live request.taskKey request.serial)
    (hkey : ∀ n, live request.taskKey n → n = request.serial)
    (hserial : ∀ k, live k request.serial → k = request.taskKey)
    (hlt : request.serial < s.nextSerial) (outcome : HistoryRepairOutcome) :
    (s.complete request outcome).Kept fun k n => live k n ∧ n ≠ request.serial := by
  refine ⟨h.sound.complete hlive hkey hserial outcome, fun entry he => ?_⟩
  rcases List.mem_append.mp he with he | he
  · exact h.below entry he
  · rw [List.mem_singleton.mp he]
    exact hlt

/-! ### Submissions -/

/-- A promotion leaves every request under its key. -/
theorem tag_mem_promoted_iff (h : s.Laned) {existing : PendingHistoryRepair}
    {request : HistoryRepairRequest} (hexisting : existing ∈ s.pending request.intent.provider)
    (hkey : existing.taskKey = repairKey request.intent) (tag : RepairKey × ℕ) :
    tag ∈ (prioritizePending ((s.pending request.intent.provider).map fun other =>
        if other.taskKey = existing.taskKey then promoted existing request else other)).map
          PendingHistoryRepair.tag ↔
      tag ∈ (s.pending request.intent.provider).map PendingHistoryRepair.tag := by
  have htag : ∀ other ∈ s.pending request.intent.provider,
      (if other.taskKey = existing.taskKey then promoted existing request else other).tag =
        other.tag := fun other hother => by
    split_ifs with heq
    · have hsame : other = existing := List.inj_on_of_nodup_map
        (h.sound.queue request.intent.provider).keys hother hexisting heq
      rw [hsame]
      exact Prod.ext hkey.symm rfl
    · rfl
  rw [((prioritizePending_perm _).map _).mem_iff, List.map_map]
  exact iff_of_eq (congrArg (tag ∈ ·) (List.map_congr_left htag))

theorem live_promote_iff (h : s.Laned) {existing : PendingHistoryRepair}
    {request : HistoryRepairRequest} (hexisting : existing ∈ s.pending request.intent.provider)
    (hkey : existing.taskKey = repairKey request.intent) {key : RepairKey} {serial : ℕ} :
    (s.promote existing request).lanes.Live key serial ↔ s.lanes.Live key serial := by
  unfold HistoryRepairOrchestrator.promote
  split_ifs with hpriority
  · refine (LaneView.live_setPending_of_tags (v := s.lanes) fun tag =>
      (tag_mem_promoted_iff h hexisting hkey tag).trans (iff_of_eq (or_false _)).symm).trans ?_
    exact iff_of_eq (or_false _)
  · exact Iff.rfl

theorem Booked.promote (h : s.Booked) {existing : PendingHistoryRepair}
    {request : HistoryRepairRequest} (hexisting : existing ∈ s.pending request.intent.provider)
    (hkey : existing.taskKey = repairKey request.intent) : (s.promote existing request).Booked := by
  have hbooks : (s.promote existing request).books = s.books ∧
      (s.promote existing request).nextSerial = s.nextSerial := by
    unfold HistoryRepairOrchestrator.promote
    split
    · exact ⟨rfl, rfl⟩
    · exact ⟨rfl, rfl⟩
  refine ⟨h.laned.promote hexisting hkey, ?_, h.kept.congr
    (fun key serial => live_promote_iff h.laned hexisting hkey) hbooks.1 hbooks.2⟩
  unfold HistoryRepairOrchestrator.promote
  split_ifs with hpriority
  · refine h.apart.setPending (v := s.lanes) fun task htask other hother => ?_
    obtain ⟨old, hold, htag⟩ := List.mem_map.mp
      ((tag_mem_promoted_iff h.laned hexisting hkey other.tag).mp (List.mem_map_of_mem hother))
    have hsame : old.taskKey = other.taskKey := congrArg Prod.fst htag
    exact hsame ▸ h.apart task htask _ old hold
  · exact h.apart

theorem Booked.evict (h : s.Booked) {intent : HistoryRepairIntent} {evicted : PendingHistoryRepair}
    (hevictee : s.evictee intent = some evicted) : (s.evict evicted intent).Booked := by
  obtain ⟨hmem, -, -⟩ := evictee_spec hevictee
  have hqueue := h.laned.sound.queue intent.provider
  have hlive := LaneView.live_of_pending (v := s.lanes) hmem
  have hkept := h.kept.complete hlive
    (fun n hn => h.laned.sound.live_key h.apart hn hlive)
    (fun k hk => h.laned.sound.live_serial hk hlive) (h.laned.sound.live_lt hlive)
    { status := .superseded, intent := evicted.intent }
  refine ⟨h.laned.evict hevictee, h.apart.sublist List.filter_sublist, hkept.congr
    (fun key serial => h.laned.sound.live_remove_iff hmem fun other => ?_) rfl rfl⟩
  rw [List.mem_filter]
  refine and_congr_right fun hother => ?_
  rw [decide_eq_true_iff]
  refine not_congr ⟨fun hkey => ?_, fun hserial => ?_⟩
  · rw [List.inj_on_of_nodup_map hqueue.keys hother hmem hkey]
  · rw [List.inj_on_of_nodup_map hqueue.serials hother hmem hserial]

theorem Booked.enqueue (h : s.Booked) {request : HistoryRepairRequest} (onComplete : Bool)
    (hlane : request.intent.provider ∈ s.lanes.providers)
    (hroom : (s.pending request.intent.provider).length < maxPendingRepairsPerProvider)
    (hkey : ∀ other ∈ s.pending request.intent.provider, other.taskKey ≠ repairKey request.intent)
    (htask : ∀ task ∈ s.active, task.taskKey ≠ repairKey request.intent) :
    (s.enqueue request onComplete).2.Booked := by
  have hlaned := h.laned.enqueue onComplete hlane hroom hkey
  have hview : (s.enqueue request onComplete).2.lanes =
      (s.lanes.setPending request.intent.provider (prioritizePending
        (s.pending request.intent.provider ++ [s.admitted request]))).allocate :=
    lanes_subscribe _ _ _ _
  have hmem (tag : RepairKey × ℕ) : tag ∈ (prioritizePending (s.pending request.intent.provider ++
      [s.admitted request])).map PendingHistoryRepair.tag ↔
        tag ∈ (s.pending request.intent.provider).map PendingHistoryRepair.tag ∨
          tag = (repairKey request.intent, s.nextSerial) := by
    rw [((prioritizePending_perm _).map _).mem_iff, List.map_append, List.mem_append,
      List.map_singleton, List.mem_singleton]
    rfl
  have hiff (key : RepairKey) (serial : ℕ) : (s.enqueue request onComplete).2.lanes.Live key serial ↔
      s.lanes.Live key serial ∨ (key = repairKey request.intent ∧ serial = s.nextSerial) := by
    rw [hview, ← Prod.mk.injEq]
    exact LaneView.live_setPending_of_tags (v := s.lanes) hmem
  refine ⟨hlaned, ?_, ?_⟩
  · rw [hview]
    refine h.apart.setPending (v := s.lanes) fun task ht other hother => ?_
    rcases List.mem_append.mp ((prioritizePending_perm _).mem_iff.mp hother) with hother | hother
    · exact h.apart task ht _ other hother
    · rw [List.mem_singleton.mp hother]
      exact (htask task ht).symm
  · have hqueued : (s.queued request).Kept (s.enqueue request onComplete).2.lanes.Live :=
      (h.kept.begin hiff).congr (fun _ _ => Iff.rfl) rfl rfl
    exact hqueued.subscribe onComplete ((hiff _ _).mpr (.inr ⟨rfl, rfl⟩))

theorem Booked.begin (h : s.Booked) {request : HistoryRepairRequest} (onComplete : Bool)
    (hlane : request.intent.provider ∉ s.lanes.providers) :
    (s.begin request onComplete).2.Booked := by
  have hlaned := h.laned.begin onComplete hlane
  have hview : (s.begin request onComplete).2.lanes =
      s.lanes.allocate.start (s.admitted request) := by
    have hsub := lanes_subscribe s.allocate (repairKey request.intent) s.nextSerial onComplete
    exact congrArg (fun v => v.start (s.admitted request)) hsub
  have hiff (key : RepairKey) (serial : ℕ) : (s.begin request onComplete).2.lanes.Live key serial ↔
      s.lanes.Live key serial ∨ (key = repairKey request.intent ∧ serial = s.nextSerial) := by
    rw [hview, LaneView.live_start_iff, ← Prod.mk.injEq]
    rfl
  refine ⟨hlaned, ?_, ?_⟩
  · rw [hview]
    refine LaneView.Apart.start (v := s.lanes.allocate) h.apart fun p other hother heq => ?_
    have hp : other.provider = p := (h.laned.sound.queue p).provider other hother
    have hprovider : other.provider = request.intent.provider :=
      congrArg (fun key => key.cursor.provider) heq
    have hempty : s.lanes.pending p = [] := by
      by_contra hne
      exact hlane (hprovider ▸ hp ▸ h.laned.behind p hne)
    exact List.not_mem_nil (hempty ▸ hother)
  · have hsubscribed := (h.kept.begin hiff).subscribe onComplete
      ((hiff (repairKey request.intent) s.nextSerial).mpr (.inr ⟨rfl, rfl⟩))
    exact hsubscribed.congr (fun _ _ => Iff.rfl) rfl rfl

theorem Booked.enter (h : s.Booked) (request : HistoryRepairRequest) (onComplete : Bool) (now : ℚ)
    (hkey : ∀ other ∈ s.pending request.intent.provider, other.taskKey ≠ repairKey request.intent)
    (htask : ∀ task ∈ s.active, task.taskKey ≠ repairKey request.intent) :
    (s.enter request onComplete now).2.Booked := by
  unfold HistoryRepairOrchestrator.enter
  dsimp only
  split_ifs with hthrottled hkeys hfull
  · exact h
  · have hlane := (mem_providers_iff h.laned.sound).mp hkeys
    cases hevictee : s.evictee request.intent with
    | none => exact h
    | some evicted =>
      refine (h.evict hevictee).enqueue onComplete hlane (length_evict_lt h.laned hevictee)
        (fun other hother => ?_) htask
      have hpending : (s.evict evicted request.intent).pending request.intent.provider = _ :=
        Function.update_self ..
      exact hkey other (List.mem_of_mem_filter (hpending ▸ hother))
  · have hlane := (mem_providers_iff h.laned.sound).mp hkeys
    exact h.enqueue onComplete hlane (by omega) hkey htask
  · exact h.begin onComplete fun hmem => hkeys ((mem_providers_iff h.laned.sound).mpr hmem)

theorem Booked.schedule (h : s.Booked) (request : HistoryRepairRequest) (onComplete : Bool)
    (now : ℚ) : (s.schedule request onComplete now).2.Booked := by
  have hclear : (s.clearAwaiting request.intent).Booked := h.congr (lanes_clearAwaiting s _) rfl
  have hprune : ((s.clearAwaiting request.intent).prune now).Booked :=
    hclear.congr (lanes_prune hclear.laned.sound now) rfl
  unfold HistoryRepairOrchestrator.schedule
  dsimp only
  split_ifs with hawaits
  · exact hclear
  · generalize (s.clearAwaiting request.intent).prune now = u at hprune ⊢
    cases htask : u.tasks.get? (repairKey request.intent) with
    | some serial =>
      obtain ⟨task, hactive, hkey, hserial⟩ := hprune.laned.sound.get?_tasks.mp htask
      exact hprune.subscribe onComplete (LaneView.live_iff.mpr ⟨task, .inl hactive, hkey, hserial⟩)
    | none =>
      cases hfind : (u.pending request.intent.provider).find? fun other =>
          other.taskKey = repairKey request.intent with
      | some existing =>
        have hmem := List.mem_of_find?_eq_some hfind
        have hsame := List.find?_some hfind
        have hkey : existing.taskKey = repairKey request.intent := of_decide_eq_true hsame
        refine (hprune.promote hmem hkey).subscribe onComplete ?_
        rw [live_promote_iff hprune.laned hmem hkey]
        exact hkey ▸ LaneView.live_of_pending (v := u.lanes) hmem
      | none =>
        refine hprune.enter request onComplete now (fun other hother => ?_) fun task hactive heq => ?_
        · simpa using List.find?_eq_none.mp hfind other hother
        · have hmem := hprune.laned.sound.mem_tasks_keys.mpr ⟨task, hactive, heq⟩
          exact Dict.notMem_keys_iff.mpr htask hmem

/-! ### Tasks that finish -/

/-- The callbacks of a finished task are due. -/
theorem Booked.settle (h : s.Booked) (hactive : request ∈ s.active)
    (outcome : HistoryRepairOutcome) (now : ℚ) :
    (s.settle request outcome now).Kept (s.lanes.stop request).Live := by
  have hlive := LaneView.live_of_active (v := s.lanes) hactive
  have hkept := h.kept.complete hlive
    (fun n hn => h.laned.sound.live_key h.apart hn hlive)
    (fun k hk => h.laned.sound.live_serial hk hlive) (h.laned.sound.live_lt hlive) outcome
  exact hkept.congr (fun key serial => h.laned.sound.live_stop_iff hactive) rfl rfl

theorem booked_continueWith (h : s.Booked) (hactive : request ∈ s.active)
    (outcome : HistoryRepairOutcome) (now : ℚ) {intent : HistoryRepairIntent}
    (hprovider : intent.provider = request.provider)
    (hkey : ∀ other ∈ s.pending request.provider, other.taskKey ≠ repairKey intent) :
    ((s.settle request outcome now).continueWith request intent).Booked := by
  refine ⟨(finishes_continueWith h.laned hactive outcome now hprovider).laned, ?_, ?_⟩
  · refine LaneView.Apart.start (v := (s.lanes.stop request).allocate) (LaneView.Apart.stop h.apart)
      fun p other hother heq => ?_
    have hp : other.provider = p := (h.laned.sound.queue p).provider other hother
    have hsame : other.provider = intent.provider :=
      congrArg (fun key => key.cursor.provider) heq
    obtain rfl : p = request.provider := by rw [← hp, hsame, hprovider]
    exact hkey other hother heq
  · have hiff (key : RepairKey) (serial : ℕ) :
        ((s.settle request outcome now).continueWith request intent).lanes.Live key serial ↔
          (s.lanes.stop request).Live key serial ∨
            (key = repairKey intent ∧ serial = s.nextSerial) := by
      show ((s.lanes.stop request).allocate.start
        { request with intent := intent, serial := s.nextSerial }).Live key serial ↔ _
      rw [LaneView.live_start_iff, ← Prod.mk.injEq]
      rfl
    exact ((h.settle hactive outcome now).begin hiff).congr (fun _ _ => Iff.rfl) rfl rfl

/-- The head of the queue starts: it was in progress already. -/
theorem live_pop_iff {v : LaneView} {provider : String} {next : PendingHistoryRepair}
    {rest : List PendingHistoryRepair} (hqueue : v.pending provider = next :: rest)
    {key : RepairKey} {serial : ℕ} :
    ((v.setPending provider rest).start next).Live key serial ↔ v.Live key serial := by
  rw [LaneView.live_start_iff, LaneView.live_setPending_iff]
  constructor
  · rintro ((h | h | ⟨p, -, h⟩) | h)
    · exact .inl h
    · exact .inr ⟨provider, by rw [hqueue]; exact List.mem_cons_of_mem _ h⟩
    · exact .inr ⟨p, h⟩
    · exact .inr ⟨provider, by rw [hqueue, h]; exact List.mem_cons_self⟩
  · rintro (h | ⟨p, h⟩)
    · exact .inl (.inl h)
    · by_cases hp : p = provider
      · rw [hp, hqueue, List.map_cons, List.mem_cons] at h
        exact h.elim .inr fun h => .inl (.inr (.inl h))
      · exact .inl (.inr (.inr ⟨p, hp, h⟩))

theorem booked_startNext (h : s.Booked) (hactive : request ∈ s.active)
    (outcome : HistoryRepairOutcome) (now : ℚ) :
    ((s.settle request outcome now).startNext request.provider).Booked := by
  have hlaned := (finishes_startNext h.laned hactive outcome now).laned
  have hkept := h.settle hactive outcome now
  have hpending : (s.settle request outcome now).pending = s.pending := rfl
  unfold startNext at hlaned ⊢
  rw [hpending] at hlaned ⊢
  cases hqueue : s.pending request.provider with
  | nil =>
    rw [hqueue] at hlaned
    exact ⟨hlaned, LaneView.Apart.stop h.apart, hkept⟩
  | cons next rest =>
    rw [hqueue] at hlaned
    have hsub : rest.Sublist (s.pending request.provider) := hqueue ▸ List.sublist_cons_self ..
    have hapart : ((s.lanes.stop request).setPending request.provider rest).Apart :=
      LaneView.Apart.sublist (v := s.lanes.stop request) (LaneView.Apart.stop h.apart) hsub
    refine ⟨hlaned, hapart.start fun p other hother => ?_, hkept.congr
      (fun key serial => live_pop_iff (v := s.lanes.stop request) hqueue) rfl rfl⟩
    have hnext := h.laned.sound.queue request.provider
    rw [show s.lanes.pending request.provider = next :: rest from hqueue] at hnext
    by_cases hp : p = request.provider
    · subst hp
      rw [LaneView.setPending_self] at hother
      exact fun heq => (List.nodup_cons.mp hnext.keys).1 (List.mem_map.mpr ⟨other, hother, heq⟩)
    · rw [LaneView.setPending_of_ne _ hp] at hother
      refine LaneView.taskKey_ne_of_provider_ne ?_
      rw [(h.laned.sound.queue p).provider other hother,
        hnext.provider next List.mem_cons_self]
      exact hp

/-- A request that waits in a queue is nowhere else. -/
theorem serial_ne_of_live_cleared {v : LaneView} (h : v.Sound) {provider : String}
    (hrequest : request ∈ v.pending provider) {key : RepairKey} {serial : ℕ}
    (hlive : (v.setPending provider []).Live key serial) : serial ≠ request.serial := by
  rintro rfl
  rcases LaneView.live_setPending_iff.mp hlive with hmem | hmem | ⟨p, hp, hmem⟩
  · obtain ⟨task, htask, htag⟩ := List.mem_map.mp hmem
    exact h.waits provider request hrequest
      (List.mem_map.mpr ⟨task, htask, congrArg Prod.snd htag⟩)
  · exact absurd hmem List.not_mem_nil
  · obtain ⟨other, hother, htag⟩ := List.mem_map.mp hmem
    exact h.apart p provider hp other hother request hrequest (congrArg Prod.snd htag)

/-- A cancellation ends all that waits, one after the other. -/
theorem kept_cancelPending {v : LaneView} (hsound : v.Sound) (hapart : v.Apart) {provider : String}
    (queue : List PendingHistoryRepair) (hqueue : queue.Sublist (v.pending provider)) :
    ∀ {u : HistoryRepairOrchestrator} {live : RepairKey → ℕ → Prop}, u.nextSerial = v.nextSerial →
      (∀ key serial, live key serial ↔ (v.setPending provider []).Live key serial ∨
        (key, serial) ∈ queue.map PendingHistoryRepair.tag) → u.Kept live →
      (queue.foldl (fun u request =>
        u.complete request { status := .cancelled, intent := request.intent }) u).Kept
          (v.setPending provider []).Live := by
  induction queue with
  | nil =>
    intro u live hnext hiff hkept
    exact hkept.congr (fun key serial => by rw [hiff]; simp) rfl rfl
  | cons request queue ih =>
    intro u live hnext hiff hkept
    have hmem : request ∈ v.pending provider := hqueue.subset List.mem_cons_self
    have hsub (key : RepairKey) (serial : ℕ) (h : live key serial) : v.Live key serial :=
      LaneView.live_clear_iff.mpr
        (((hiff key serial).mp h).imp_right fun hmem => (hqueue.map _).subset hmem)
    have hlive : live request.taskKey request.serial := (hiff _ _).mpr (.inr List.mem_cons_self)
    have hcomplete := hkept.complete hlive
      (fun n hn => hsound.live_key hapart (hsub _ _ hn) (hsub _ _ hlive))
      (fun k hk => hsound.live_serial (hsub _ _ hk) (hsub _ _ hlive))
      (hnext ▸ hsound.live_lt (hsub _ _ hlive)) { status := .cancelled, intent := request.intent }
    have hserials := (hsound.queue provider).serials.sublist (hqueue.map _)
    rw [List.foldl_cons]
    refine ih ((List.sublist_cons_self ..).trans hqueue) ?_ (fun key serial => ?_) hcomplete
    · exact hnext
    · rw [hiff, List.map_cons, List.mem_cons]
      constructor
      · rintro ⟨h | h | h, hne⟩
        · exact .inl h
        · exact absurd (congrArg Prod.snd h) hne
        · exact .inr h
      · rintro (h | h)
        · exact ⟨.inl h, serial_ne_of_live_cleared hsound hmem h⟩
        · refine ⟨.inr (.inr h), fun heq => (List.nodup_cons.mp hserials).1 ?_⟩
          obtain ⟨other, hother, htag⟩ := List.mem_map.mp h
          exact List.mem_map.mpr ⟨other, hother, (congrArg Prod.snd htag).trans heq⟩

theorem booked_finishCancelled (h : s.Booked) (hactive : request ∈ s.active) (now : ℚ) :
    (s.finishCancelled request now).Booked := by
  have hview : (s.finishCancelled request now).lanes =
      (s.lanes.stop request).setPending request.provider [] := lanes_cancelPending _ _
  have hsettled := h.settle hactive { status := .cancelled, intent := request.intent } now
  obtain ⟨hsound, -, -⟩ := h.laned.sound.stop hactive
  refine ⟨(finishes_cancelled h.laned hactive now).laned, ?_, ?_⟩
  · rw [hview]
    exact LaneView.Apart.sublist (v := s.lanes.stop request) (LaneView.Apart.stop h.apart)
      (List.nil_sublist _)
  · rw [hview]
    have hcleared : ((s.settle request { status := .cancelled, intent := request.intent }
        now).setPending request.provider []).Kept (s.lanes.stop request).Live :=
      hsettled.congr (fun _ _ => Iff.rfl) rfl rfl
    exact kept_cancelPending hsound (LaneView.Apart.stop h.apart) (s.pending request.provider) (.refl _) rfl
      (fun key serial => LaneView.live_clear_iff) hcleared

/-! ### Runs -/

/-- No task that finishes goes on with a chunk under the key of a request that waits. -/
def ContinuesApart (s : HistoryRepairOrchestrator) : Act → Prop
  | .finish serial outcome _ => ∀ request ∈ s.active, request.serial = serial →
      ∀ intent ∈ continuationIntent request.intent outcome,
        ∀ other ∈ s.pending request.provider, other.taskKey ≠ repairKey intent
  | _ => True

theorem Step.booked {a : Act} (h : s.Booked) (hstep : Step s a t) (happart : ContinuesApart s a) :
    t.Booked := by
  cases hstep with
  | schedule request onComplete now => exact h.schedule request onComplete now
  | finish request outcome now hactive hintent =>
    unfold HistoryRepairOrchestrator.finish
    cases hcontinuation : continuationIntent request.intent outcome with
    | some intent =>
      exact booked_continueWith h hactive outcome now (continuationIntent_spec hcontinuation).1
        (happart request hactive rfl intent hcontinuation)
    | none => exact booked_startNext h hactive outcome now
  | cancel request now hactive => exact booked_finishCancelled h hactive now
  | call i call hdue => exact ⟨h.laned.congr rfl, h.apart, h.kept.sound.call hdue, h.kept.below⟩
  | latestOutcome intent =>
    refine h.congr (latestOutcome_lanes s intent) ?_
    unfold HistoryRepairOrchestrator.latestOutcome
    split
    · rfl
    · rfl

/-- The bookkeeping of the orchestrator. -/
structure RepairsBooked (s : HistoryRepairOrchestrator) : Prop where
  one_active : (s.active.map PendingHistoryRepair.provider).Nodup
  bound : ∀ provider, (s.pending provider).length ≤ maxPendingRepairsPerProvider
  ordered : ∀ provider, (s.pending provider).Pairwise fun a b =>
    a.intent.priority.value ≤ b.intent.priority.value
  evictions : ∀ e ∈ s.evictions, e.1.Background ∧ e.2.priority = .foreground
  /-- A callback of a request that ended is called, or about to be, once and with its outcome. -/
  told : ∀ callback serial outcome, (callback, serial) ∈ s.subscriptions →
    (serial, outcome) ∈ s.ended → (callback, outcome) ∈ s.due ++ s.invoked ∧
      ((s.due ++ s.invoked).map Prod.fst).count callback = 1
  /-- A callback of any other request waits for it in the table. -/
  waits : ∀ callback serial, (callback, serial) ∈ s.subscriptions →
    serial ∉ s.ended.map Prod.fst → callback ∈ s.callbacks.map Prod.snd ∧
      callback ∉ (s.due ++ s.invoked).map Prod.fst ∧
        ∃ request, (request ∈ s.active ∨ request ∈ s.pending request.provider) ∧
          request.serial = serial
  /-- A request ends once. -/
  ends : (s.ended.map Prod.fst).Nodup

theorem Booked.repairsBooked (h : s.Booked) : RepairsBooked s := by
  refine ⟨h.laned.sound.one, fun p => (h.laned.sound.queue p).bound,
    fun p => (h.laned.sound.queue p).ordered, h.laned.sound.evicted,
    fun callback serial outcome hsub hended => ?_, fun callback serial hsub hopen => ?_,
    h.kept.sound.once⟩
  · obtain ⟨hmem, hcount, -⟩ := h.kept.sound.told_once hsub hended
    exact ⟨hmem, hcount⟩
  · obtain ⟨⟨key, hlive⟩, hwaits, hnot⟩ := h.kept.sound.still_waiting hsub hopen
    obtain ⟨request, hr, -, hserial⟩ := LaneView.live_iff.mp hlive
    refine ⟨hwaits, hnot, request, hr.imp_right fun ⟨p, hp⟩ => ?_, hserial⟩
    rwa [(h.laned.sound.queue p).provider request hp]

/-- **Bookkeeping.** In every run whose next chunks start under keys that no queued request has. -/
theorem repairs_booked {as : List Act} (h : Run (Guarded ContinuesApart Step) initial as s) :
    RepairsBooked s :=
  (h.invariant (fun _ _ _ hs hstep => hstep.2.booked hs hstep.1) booked_initial).repairsBooked

/-- A foreground request waits while a task fails; the callback of the task is due. -/
theorem repairs_booked_failed :
    ∃ s, s.due.map Prod.fst = [0] ∧ s.active.map PendingHistoryRepair.serial = [1] ∧
      RepairsBooked s := by
  have hrun : Run (Guarded ContinuesApart Step) initial
      [.schedule ⟨true, demoBackground, 1⟩ true 0, .schedule ⟨true, demoForeground, 1⟩ true 0,
        .finish 0 { status := .fetchFailed, intent := demoBackground } 1] _ :=
    .cons ⟨trivial, .schedule ..⟩ <| .cons ⟨trivial, .schedule ..⟩ <|
    .cons ⟨fun request _ _ intent hintent => absurd hintent (by simp [continuationIntent]),
      .finish ⟨⟨true, demoBackground, 1⟩, 0⟩ _ _ (by decide +kernel) rfl⟩ <| .nil _
  exact ⟨_, by decide +kernel, by decide +kernel, repairs_booked hrun⟩

/-- The next chunk starts under the key of a queued request and fails: the callback of the queued
request is told so, and not how its own task ends. -/
theorem callback_misinformed :
    ∃ as s, Run Step initial as s ∧ ¬ RepairsBooked s := by
  let chunk : HistoryRepairIntent := demoIntent 80 90 .background (by decide) (by decide)
  have hrun : Run Step initial
      [.schedule ⟨true, demoBackground, 1⟩ false 0, .schedule ⟨true, chunk, 1⟩ true 0,
        .finish 0 { status := .committed, intent := demoBackground } 1,
        .finish 2 { status := .fetchFailed, intent := chunk } 2,
        .finish 1 { status := .committed, intent := chunk } 3] _ :=
    .cons (.schedule ..) <| .cons (.schedule ..) <|
    .cons (.finish ⟨⟨true, demoBackground, 1⟩, 0⟩ _ _ (by decide +kernel) rfl) <|
    .cons (.finish ⟨⟨true, chunk, 1⟩, 2⟩ _ _ (by decide +kernel) rfl) <|
    .cons (.finish ⟨⟨true, chunk, 1⟩, 1⟩ _ _ (by decide +kernel) rfl) <| .nil _
  refine ⟨_, _, hrun, fun h => ?_⟩
  have htold := (h.told 0 1 { status := .committed, intent := chunk } (by decide +kernel)
    (by decide +kernel)).1
  exact absurd htold (by decide +kernel)

end HistoryRepairOrchestrator

end AefTerminal
