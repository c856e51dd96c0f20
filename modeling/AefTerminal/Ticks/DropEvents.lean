import AefTerminal.Foundation.Grouping
import AefTerminal.Ticks.Conservation
import AefTerminal.Ticks.Tables

/-!
# What is known of dropped ticks

Every drop of the tick buffer leaves an event for each route it hit: from the first to the last of the
lost ticks, and how many they were. An event takes in later losses of its route and reason that lie
within a minute of it, and goes once all of it is older than the retention. `tick_ingest_quality`
answers from the events that were published last.

Taking the extended event out of the list takes out the first that is *equal* to it. No two events are:
an event never lies within an earlier one of the same route and reason.

## Main definitions

* `recordDropLocked`, `tickIngestQuality`
* `IngestAct`, `TickIngest.after`
* `Tallied`: events with the ticks they stand for

## Main results

* `Tallied.recordLoss`: extending an event keeps the tally
* `drops_reported`: a dropped tick is reported until it is older than the retention
-/

namespace AefTerminal

open Foundation

/-! ### Events -/

structure RouteLoss where
  count : ℕ
  startAt : Time
  endAt : Time
  deriving DecidableEq, Repr

structure DropEvent extends RouteLoss where
  instrumentId : String
  routeFingerprint : String
  reason : String
  deriving DecidableEq, Repr

def TickWrite.identityKey (t : TickWrite) : String × String := (t.instrumentId, t.routeFingerprint)

def DropEvent.identityKey (e : DropEvent) : String × String := (e.instrumentId, e.routeFingerprint)

/-- A loss with one more tick. -/
def RouteLoss.withTick (loss : Option RouteLoss) (t : TickWrite) : RouteLoss where
  count := (loss.getD ⟨0, t.ts, t.ts⟩).count + 1
  startAt := min (loss.getD ⟨0, t.ts, t.ts⟩).startAt t.ts
  endAt := max (loss.getD ⟨0, t.ts, t.ts⟩).endAt t.ts

def routeLosses (ticks : List TickWrite) : Dict (String × String) RouteLoss :=
  Dict.foldedBy TickWrite.identityKey RouteLoss.withTick ticks

/-- The event takes in such a loss. -/
def DropEvent.TakesIn (e : DropEvent) (reason : String) (key : String × String) (loss : RouteLoss) :
    Prop :=
  e.identityKey = key ∧ e.reason = reason ∧ loss.startAt ≤ e.endAt + oneMinute ∧
    e.startAt - oneMinute ≤ loss.endAt

instance (e : DropEvent) (reason : String) (key : String × String) (loss : RouteLoss) :
    Decidable (e.TakesIn reason key loss) :=
  inferInstanceAs (Decidable (_ ∧ _))

/-- The event with a loss that it takes in. -/
def DropEvent.extended (e : DropEvent) (loss : RouteLoss) : DropEvent :=
  { e with
    startAt := min e.startAt loss.startAt
    endAt := max e.endAt loss.endAt
    count := e.count + loss.count }

/-- The loop body of `_record_drop_locked` over the losses by route. `list.remove` takes out the first
equal event. -/
def recordLoss (reason : String) (events : List DropEvent) (entry : (String × String) × RouteLoss) :
    List DropEvent :=
  match events.reverse.find? fun e => e.TakesIn reason entry.1 entry.2 with
  | some previous => events.erase previous ++ [previous.extended entry.2]
  | none => events ++ [⟨entry.2, entry.1.1, entry.1.2, reason⟩]

/-! ### The accounts of drops -/

/-- What `_TICK_INGEST_QUALITY` holds for the provider. -/
structure IngestSnapshot where
  dropEvents : List DropEvent
  dbConsecutiveErrors : ℕ
  deriving DecidableEq, Repr

/-- What the aggregator knows of its drops, with what it has published. -/
structure TickIngest where
  dropped : ℕ
  lastDropAt : Option Time
  lastDropReason : String
  dropEvents : List DropEvent
  dbConsecutiveErrors : ℕ
  published : Option IngestSnapshot
  deriving DecidableEq, Repr

def publishIngestQuality (s : TickIngest) : TickIngest :=
  { s with published := some ⟨s.dropEvents, s.dbConsecutiveErrors⟩ }

/-- A new aggregator. -/
def TickIngest.initial : TickIngest := publishIngestQuality ⟨0, none, "", [], 0, none⟩

/-- `str(reason or "unknown")`. -/
def dropReason (reason : String) : String := if reason = "" then "unknown" else reason

/-- `_record_drop_locked` at the time `now`. -/
def recordDropLocked (retention : Time) (count : ℤ) (reason : String) (ticks : List TickWrite)
    (now : Time) (s : TickIngest) : TickIngest :=
  let dropped := count.toNat
  if dropped ≤ 0 then s
  else
    let losses := (routeLosses ticks).entries
    let losses := if losses = [] then [(("", ""), ⟨dropped, now, now⟩)] else losses
    let kept := s.dropEvents.filter fun e => now - retention ≤ e.endAt
    publishIngestQuality { s with
      dropped := s.dropped + dropped
      lastDropAt := some now
      lastDropReason := dropReason reason
      dropEvents := losses.foldl (recordLoss (dropReason reason)) kept }

/-! ### The query -/

structure TickIngestQuality where
  complete : Bool
  dropped : ℕ
  dropInWindow : Bool
  coverage : Option ℚ
  lastDropAt : Option Time
  lastDropReason : String
  dbConsecutiveErrors : ℕ
  deriving DecidableEq, Repr

/-- The window has no start or no end where it is `None`. -/
def DropEvent.InWindow (e : DropEvent) (start stop : Option Time) : Prop :=
  (∀ t ∈ start, t ≤ e.endAt) ∧ ∀ t ∈ stop, e.startAt ≤ t

instance (e : DropEvent) (start stop : Option Time) : Decidable (e.InWindow start stop) :=
  inferInstanceAs (Decidable (_ ∧ _))

/-- The events of `tick_ingest_quality`. -/
def dropEventsIn (snapshot : Option IngestSnapshot) (instrumentId routeFingerprint : String)
    (start stop : Option Time) : List DropEvent :=
  ((snapshot.map fun s => s.dropEvents).getD []).filter fun e =>
    e.instrumentId = instrumentId ∧ e.routeFingerprint = routeFingerprint ∧ e.InWindow start stop

/-- `tick_ingest_quality`, from what is published for the provider. -/
def tickIngestQuality (snapshot : Option IngestSnapshot) (instrumentId routeFingerprint : String)
    (start stop : Option Time) : Except String TickIngestQuality :=
  if instrumentId = "" then .error "instrument_id is required"
  else if routeFingerprint = "" then .error "route_fingerprint is required"
  else
    let events : List DropEvent :=
      (dropEventsIn snapshot instrumentId routeFingerprint start stop).insertionSort
        fun a b => a.endAt ≤ b.endAt
    let errors : ℕ := (snapshot.map fun s => s.dbConsecutiveErrors).getD 0
    let complete := decide (events = [] ∧ errors = 0)
    .ok
      { complete := complete
        dropped := (events.map fun e => e.count).sum
        dropInWindow := decide (events ≠ [])
        coverage := if complete then some 1 else none
        lastDropAt := events.getLast?.map fun e => e.endAt
        lastDropReason := (events.getLast?.map fun e => e.reason).getD ""
        dbConsecutiveErrors := errors }

/-! ### Runs -/

/-- What the aggregator does to its accounts. Every caller drops as many ticks as it names. -/
inductive IngestAct
  | drop (reason : String) (ticks : List TickWrite) (now : Time)
  /-- A write raised. -/
  | writeError
  /-- A write acknowledged another number of ticks; the batch is dropped next. -/
  | ackMismatch
  | written
  deriving DecidableEq, Repr

def IngestAct.apply (retention : Time) (s : TickIngest) : IngestAct → TickIngest
  | .drop reason ticks now => recordDropLocked retention ticks.length reason ticks now s
  | .writeError => publishIngestQuality { s with dbConsecutiveErrors := s.dbConsecutiveErrors + 1 }
  | .ackMismatch => { s with dbConsecutiveErrors := s.dbConsecutiveErrors + 1 }
  | .written =>
    if 0 < s.dbConsecutiveErrors then publishIngestQuality { s with dbConsecutiveErrors := 0 }
    else { s with dbConsecutiveErrors := 0 }

/-- The accounts after these acts. -/
def TickIngest.after (retention : Time) (acts : List IngestAct) : TickIngest :=
  acts.foldl (IngestAct.apply retention) .initial

/-- A dropped tick with the reason that its event has. -/
structure DroppedTick where
  tick : TickWrite
  reason : String
  deriving DecidableEq, Repr

def IngestAct.dropped : IngestAct → List DroppedTick
  | .drop reason ticks _ => ticks.map fun t => ⟨t, dropReason reason⟩
  | _ => []

/-- The act prunes events that end where the tick is. -/
def IngestAct.Prunes (retention : Time) (t : TickWrite) : IngestAct → Prop
  | .drop _ ticks now => ticks ≠ [] ∧ t.ts < now - retention
  | _ => False

/-- The act was not after this time. -/
def IngestAct.NotAfter (now : Time) : IngestAct → Prop
  | .drop _ _ time => time ≤ now
  | _ => True

/-! ### Events with the ticks they stand for -/

structure RouteLoss.StandsFor (loss : RouteLoss) (ticks : List TickWrite) : Prop where
  count : loss.count = ticks.length
  first : ∃ t ∈ ticks, t.ts = loss.startAt
  last : ∃ t ∈ ticks, t.ts = loss.endAt
  within : ∀ t ∈ ticks, loss.startAt ≤ t.ts ∧ t.ts ≤ loss.endAt

structure DropEvent.StandsFor (e : DropEvent) (ds : List DroppedTick) : Prop where
  loss : e.toRouteLoss.StandsFor (ds.map fun d => d.tick)
  same : ∀ d ∈ ds, d.tick.identityKey = e.identityKey ∧ d.reason = e.reason

/-- The second does not lie within the first. -/
def DropEvent.Apart (e e' : DropEvent) : Prop :=
  e.identityKey = e'.identityKey → e.reason = e'.reason →
    ¬ (e.startAt ≤ e'.startAt ∧ e'.endAt ≤ e.endAt)

/-- The events stand for these ticks, each for its own. -/
structure Tallied (events : List DropEvent) (ds : List DroppedTick) : Prop where
  apart : events.Pairwise DropEvent.Apart
  standing : ∃ pairs : List (DropEvent × List DroppedTick), pairs.map Prod.fst = events ∧
    (∀ p ∈ pairs, p.1.StandsFor p.2) ∧ (pairs.flatMap Prod.snd).Perm ds

/-- An event of the tick's route spans its time. -/
def Covers (events : List DropEvent) (t : TickWrite) : Prop :=
  ∃ e ∈ events, e.identityKey = t.identityKey ∧ e.startAt ≤ t.ts ∧ t.ts ≤ e.endAt

section Events

variable {events : List DropEvent} {e previous : DropEvent} {reason : String}
  {key : String × String} {loss loss' : RouteLoss} {ticks ticks' : List TickWrite} {t : TickWrite}
  {ds ds' : List DroppedTick}

/-- Two losses as one. -/
theorem RouteLoss.StandsFor.join (h : loss.StandsFor ticks) (h' : loss'.StandsFor ticks') :
    RouteLoss.StandsFor ⟨loss.count + loss'.count, min loss.startAt loss'.startAt,
      max loss.endAt loss'.endAt⟩ (ticks ++ ticks') where
  count := by rw [List.length_append, ← h.count, ← h'.count]
  first := by
    obtain ⟨t, ht, hts⟩ := h.first
    obtain ⟨t', ht', hts'⟩ := h'.first
    exact min_rec' (fun m => ∃ t ∈ ticks ++ ticks', t.ts = m) ⟨t, List.mem_append_left _ ht, hts⟩
      ⟨t', List.mem_append_right _ ht', hts'⟩
  last := by
    obtain ⟨t, ht, hts⟩ := h.last
    obtain ⟨t', ht', hts'⟩ := h'.last
    exact max_rec' (fun m => ∃ t ∈ ticks ++ ticks', t.ts = m) ⟨t, List.mem_append_left _ ht, hts⟩
      ⟨t', List.mem_append_right _ ht', hts'⟩
  within := by
    intro t ht
    rcases List.mem_append.mp ht with hold | hnew
    · obtain ⟨hstart, hend⟩ := h.within t hold
      exact ⟨(min_le_left _ _).trans hstart, hend.trans (le_max_left _ _)⟩
    · obtain ⟨hstart, hend⟩ := h'.within t hnew
      exact ⟨(min_le_right _ _).trans hstart, hend.trans (le_max_right _ _)⟩

theorem RouteLoss.standsFor_single (t : TickWrite) :
    RouteLoss.StandsFor ⟨1, t.ts, t.ts⟩ [t] where
  count := rfl
  first := ⟨t, by simp⟩
  last := ⟨t, by simp⟩
  within := by simp

theorem standsFor_foldl (t : TickWrite) (ticks : List TickWrite) :
    ∃ loss, (t :: ticks).foldl (fun v t => some (RouteLoss.withTick v t)) none = some loss ∧
      loss.StandsFor (t :: ticks) := by
  induction ticks using List.reverseRecOn with
  | nil =>
    refine ⟨⟨1, t.ts, t.ts⟩, ?_, RouteLoss.standsFor_single t⟩
    simp [RouteLoss.withTick]
  | append_singleton ticks t' ih =>
    obtain ⟨loss, hloss, hstands⟩ := ih
    rw [← List.cons_append, List.foldl_append, hloss]
    exact ⟨_, rfl, hstands.join (RouteLoss.standsFor_single t')⟩

/-- The loss of a route stands for the ticks of the route. -/
theorem standsFor_of_mem_routeLosses (h : (key, loss) ∈ (routeLosses ticks).entries) :
    loss.StandsFor (ticks.filter fun t => t.identityKey = key) := by
  have hget := Dict.get?_eq_some_iff.mpr h
  rw [routeLosses, Dict.get?_foldedBy] at hget
  cases hfilter : ticks.filter fun t => t.identityKey = key with
  | nil =>
    rw [hfilter] at hget
    exact nomatch hget
  | cons t rest =>
    obtain ⟨loss', hloss', hstands⟩ := standsFor_foldl t rest
    rw [hfilter, hloss'] at hget
    cases hget
    exact hstands

/-- The losses by route stand for all the ticks. -/
theorem perm_routeLosses (ticks : List TickWrite) :
    ((routeLosses ticks).entries.flatMap fun entry =>
      ticks.filter fun t => t.identityKey = entry.1).Perm ticks := by
  have hkeys : ∀ t ∈ ticks, t.identityKey ∈ (routeLosses ticks).keys := fun t ht =>
    Dict.mem_keys_foldedBy.mpr ⟨t, ht, rfl⟩
  have hperm := perm_flatMap_filter (routeLosses ticks).nodup_keys hkeys
  rwa [List.flatMap_map] at hperm

theorem routeLosses_eq_nil (h : (routeLosses ticks).entries = []) : ticks = [] := by
  have hperm := perm_routeLosses ticks
  rw [h, List.flatMap_nil] at hperm
  exact hperm.symm.eq_nil

/-- An event with a loss that it takes in stands for the ticks of both. -/
theorem DropEvent.StandsFor.extended (h : e.StandsFor ds)
    (hloss : loss.StandsFor (ds'.map fun d => d.tick))
    (hsame : ∀ d ∈ ds', d.tick.identityKey = e.identityKey ∧ d.reason = e.reason) :
    (e.extended loss).StandsFor (ds ++ ds') where
  loss := by
    rw [List.map_append]
    exact h.loss.join hloss
  same := fun d hd => (List.mem_append.mp hd).elim (h.same d) (hsame d)

/-! ### One loss -/

/-- A loss extends the last event that takes it in. -/
theorem recordLoss_some
    (h : events.reverse.find? (fun e => decide (e.TakesIn reason key loss)) = some previous) :
    previous.TakesIn reason key loss ∧ ∃ before after, events = before ++ previous :: after ∧
      ∀ e ∈ after, ¬ e.TakesIn reason key loss := by
  obtain ⟨htakes, l, l', heq, hl⟩ := List.find?_eq_some_iff_append.mp h
  have hevents : events = l'.reverse ++ previous :: l.reverse := by
    rw [← List.reverse_reverse events, heq, List.reverse_append, List.reverse_cons,
      List.append_assoc]
    rfl
  exact ⟨of_decide_eq_true htakes, l'.reverse, l.reverse, hevents, fun e he => by
    simpa using hl e (List.mem_reverse.mp he)⟩

/-- An event that a loss of its own kind is not added to does not span it. -/
theorem apart_of_not_takesIn (h : ¬ e.TakesIn reason key loss) {new : DropEvent}
    (hkey : new.identityKey = key) (hreason : new.reason = reason)
    (hwithin : loss.startAt ≤ loss.endAt) (hstart : new.startAt ≤ loss.startAt)
    (hend : loss.endAt ≤ new.endAt) : e.Apart new := by
  have hminute : (0 : ℤ) ≤ oneMinute := by decide
  intro hsameKey hsameReason hinside
  refine h ⟨hsameKey.trans hkey, hsameReason.trans hreason, ?_, ?_⟩
  · exact (hwithin.trans (hend.trans hinside.2)).trans (le_add_of_nonneg_right hminute)
  · exact (sub_le_self _ hminute).trans (hinside.1.trans (hstart.trans hwithin))

theorem RouteLoss.StandsFor.startAt_le (h : loss.StandsFor ticks) : loss.startAt ≤ loss.endAt := by
  obtain ⟨t, ht, hts⟩ := h.first
  exact hts.symm.le.trans (h.within t ht).2

/-- What `list.remove` leaves where no event lies within an earlier one. -/
theorem erase_of_apart {before after : List DropEvent}
    (h : (before ++ previous :: after).Pairwise DropEvent.Apart) :
    (before ++ previous :: after).erase previous = before ++ after := by
  have hnot : previous ∉ before := fun hmem =>
    (List.pairwise_append.mp h).2.2 previous hmem previous (List.mem_cons_self ..) rfl rfl
      ⟨le_rfl, le_rfl⟩
  rw [List.erase_append_right _ hnot, List.erase_cons_head]

/-- Extending an event keeps the tally. -/
theorem Tallied.recordLoss (h : Tallied events ds)
    (hloss : loss.StandsFor (ds'.map fun d => d.tick))
    (hsame : ∀ d ∈ ds', d.tick.identityKey = key ∧ d.reason = reason) :
    Tallied (recordLoss reason events (key, loss)) (ds ++ ds') := by
  obtain ⟨pairs, hpairs, hstands, hperm⟩ := h.standing
  have hwithin := hloss.startAt_le
  rw [AefTerminal.recordLoss]
  cases hfind : events.reverse.find? fun e => decide (e.TakesIn reason key loss) with
  | none =>
    have hnone : ∀ e ∈ events, ¬ e.TakesIn reason key loss := by simpa using hfind
    refine ⟨List.pairwise_append.mpr ⟨h.apart, List.pairwise_singleton _ _, ?_⟩,
      pairs ++ [(⟨loss, key.1, key.2, reason⟩, ds')], by simp [hpairs], ?_, ?_⟩
    · intro e he new hnew
      obtain rfl := List.mem_singleton.mp hnew
      exact apart_of_not_takesIn (hnone e he) rfl rfl hwithin le_rfl le_rfl
    · intro p hp
      rcases List.mem_append.mp hp with hold | hnew
      · exact hstands p hold
      · obtain rfl := List.mem_singleton.mp hnew
        exact ⟨hloss, hsame⟩
    · rw [List.flatMap_append, List.flatMap_singleton]
      exact hperm.append_right _
  | some previous =>
    obtain ⟨htakes, before, after, rfl, hafter⟩ := recordLoss_some hfind
    obtain ⟨pairsBefore, pairsRest, rfl, rfl, hrest⟩ := List.map_eq_append_iff.mp hpairs
    obtain ⟨p, pairsAfter, rfl, rfl, rfl⟩ := List.map_eq_cons_iff.mp hrest
    dsimp only
    rw [erase_of_apart h.apart]
    obtain ⟨hbefore, hcons, hcross⟩ := List.pairwise_append.mp h.apart
    obtain ⟨hhead, htail⟩ := List.pairwise_cons.mp hcons
    refine ⟨List.pairwise_append.mpr ⟨List.pairwise_append.mpr ⟨hbefore, htail, fun e he e' he' =>
        hcross e he e' (List.mem_cons_of_mem _ he')⟩, List.pairwise_singleton _ _, ?_⟩,
      pairsBefore ++ pairsAfter ++ [(p.1.extended loss, p.2 ++ ds')], by simp, ?_, ?_⟩
    · intro e he new hnew
      obtain rfl := List.mem_singleton.mp hnew
      rcases List.mem_append.mp he with hin | hin
      · -- What the event spanned before is not within an earlier one already.
        intro hkey hreason hinside
        exact hcross e hin p.1 (List.mem_cons_self ..) hkey hreason
          ⟨hinside.1.trans (min_le_left _ _), (le_max_left _ _).trans hinside.2⟩
      · exact apart_of_not_takesIn (hafter e hin) htakes.1 htakes.2.1 hwithin (min_le_right _ _)
          (le_max_right _ _)
    · intro p' hp'
      rcases List.mem_append.mp hp' with hold | hnew
      · refine hstands p' ?_
        rcases List.mem_append.mp hold with hin | hin
        · exact List.mem_append_left _ hin
        · exact List.mem_append_right _ (List.mem_cons_of_mem _ hin)
      · obtain rfl := List.mem_singleton.mp hnew
        refine (hstands p (by simp)).extended hloss fun d hd => ?_
        exact ⟨(hsame d hd).1.trans htakes.1.symm, (hsame d hd).2.trans htakes.2.1.symm⟩
    · rw [List.flatMap_append, List.flatMap_append, List.flatMap_singleton, ← List.append_assoc]
      refine .append_right _ (.trans ?_ hperm)
      rw [List.flatMap_append, List.flatMap_cons, List.append_assoc]
      exact .append_left _ List.perm_append_comm

variable {entries : List ((String × String) × RouteLoss)}

theorem Tallied.recordLosses (h : Tallied events ds) (hentries : ∀ entry ∈ entries,
      entry.2.StandsFor (ticks.filter fun t => t.identityKey = entry.1)) :
    Tallied (entries.foldl (AefTerminal.recordLoss reason) events) (ds ++ entries.flatMap fun entry =>
      (ticks.filter fun t => t.identityKey = entry.1).map fun t => ⟨t, reason⟩) := by
  induction entries generalizing events ds with
  | nil => simpa using h
  | cons entry entries ih =>
    obtain ⟨hentry, hrest⟩ := List.forall_mem_cons.mp hentries
    rw [List.flatMap_cons, ← List.append_assoc]
    refine ih (h.recordLoss ?_ fun d hd => ?_) hrest
    · simpa [List.map_map, Function.comp_def] using hentry
    · obtain ⟨t, ht, rfl⟩ := List.mem_map.mp hd
      exact ⟨by simpa using (List.mem_filter.mp ht).2, rfl⟩

theorem Tallied.perm (h : Tallied events ds) (hperm : ds.Perm ds') : Tallied events ds' := by
  obtain ⟨pairs, hpairs, hstands, hds⟩ := h.standing
  exact ⟨h.apart, pairs, hpairs, hstands, hds.trans hperm⟩

/-- The events from a cutoff on, and the ticks of the others, which are older. -/
theorem Tallied.prune (h : Tallied events ds) (cutoff : Time) :
    ∃ kept pruned, ds.Perm (kept ++ pruned) ∧
      Tallied (events.filter fun e => cutoff ≤ e.endAt) kept ∧
      ∀ d ∈ pruned, d.tick.ts < cutoff := by
  obtain ⟨pairs, rfl, hstands, hperm⟩ := h.standing
  refine ⟨(pairs.filter fun p => cutoff ≤ p.1.endAt).flatMap Prod.snd,
    (pairs.filter fun p => !decide (cutoff ≤ p.1.endAt)).flatMap Prod.snd, ?_,
    ⟨h.apart.filter _, _, ?_, fun p hp => hstands p (List.mem_of_mem_filter hp), .rfl⟩, ?_⟩
  · rw [← List.flatMap_append]
    exact hperm.symm.trans ((List.filter_append_perm _ _).symm.flatMap_right _)
  · rw [List.filter_map]
    rfl
  · intro d hd
    obtain ⟨p, hp, hdp⟩ := List.mem_flatMap.mp hd
    obtain ⟨hmem, hold⟩ := List.mem_filter.mp hp
    have hlt : p.1.endAt < cutoff := by simpa using hold
    exact lt_of_le_of_lt ((hstands p hmem).loss.within d.tick (List.mem_map_of_mem hdp)).2 hlt

theorem Tallied.sum_count (h : Tallied events ds) :
    (events.map fun e => e.count).sum = ds.length := by
  obtain ⟨pairs, rfl, hstands, hperm⟩ := h.standing
  rw [← hperm.length_eq, List.length_flatMap, List.map_map]
  refine congrArg List.sum (List.map_congr_left fun p hp => ?_)
  rw [Function.comp_apply, (hstands p hp).loss.count, List.length_map]

/-! ### The time of a dropped tick stays spanned -/

theorem Covers.recordLoss (h : Covers events t) : Covers (recordLoss reason events (key, loss)) t := by
  obtain ⟨e, he, hkey, hstart, hend⟩ := h
  rw [AefTerminal.recordLoss]
  cases events.reverse.find? fun e => decide (e.TakesIn reason key loss) with
  | none => exact ⟨e, List.mem_append_left _ he, hkey, hstart, hend⟩
  | some previous =>
    by_cases heq : e = previous
    · subst heq
      exact ⟨e.extended loss, List.mem_append_right _ (List.mem_singleton_self _), hkey,
        (min_le_left _ _).trans hstart, hend.trans (le_max_left _ _)⟩
    · exact ⟨e, List.mem_append_left _ ((List.mem_erase_of_ne heq).mpr he), hkey, hstart, hend⟩

theorem covers_recordLoss (hkey : key = t.identityKey) (hstart : loss.startAt ≤ t.ts)
    (hend : t.ts ≤ loss.endAt) : Covers (recordLoss reason events (key, loss)) t := by
  rw [AefTerminal.recordLoss]
  cases hfind : events.reverse.find? fun e => decide (e.TakesIn reason key loss) with
  | none =>
    exact ⟨_, List.mem_append_right _ (List.mem_singleton_self _), hkey, hstart, hend⟩
  | some previous =>
    exact ⟨_, List.mem_append_right _ (List.mem_singleton_self _),
      (recordLoss_some hfind).1.1.trans hkey, (min_le_right _ _).trans hstart,
      hend.trans (le_max_right _ _)⟩

theorem Covers.recordLosses (h : Covers events t) :
    Covers (entries.foldl (AefTerminal.recordLoss reason) events) t := by
  induction entries generalizing events with
  | nil => exact h
  | cons entry entries ih => exact ih h.recordLoss

theorem covers_recordLosses
    {entry : (String × String) × RouteLoss} (hmem : entry ∈ entries) (hkey : entry.1 = t.identityKey)
    (hstart : entry.2.startAt ≤ t.ts) (hend : t.ts ≤ entry.2.endAt) :
    Covers (entries.foldl (recordLoss reason) events) t := by
  induction entries generalizing events with
  | nil => exact absurd hmem List.not_mem_nil
  | cons first entries ih =>
    rcases List.mem_cons.mp hmem with rfl | hrest
    · exact (covers_recordLoss hkey hstart hend).recordLosses
    · exact ih hrest

theorem Covers.prune {cutoff : Time} (h : Covers events t) (hcutoff : cutoff ≤ t.ts) :
    Covers (events.filter fun e => cutoff ≤ e.endAt) t := by
  obtain ⟨e, he, hkey, hstart, hend⟩ := h
  exact ⟨e, List.mem_filter.mpr ⟨he, decide_eq_true (hcutoff.trans hend)⟩, hkey, hstart, hend⟩

end Events

/-! ### One drop -/

section Drop

variable {retention now : Time} {reason : String} {ticks : List TickWrite} {t : TickWrite}
  {s : TickIngest} {ds : List DroppedTick}

/-- What a drop leaves. -/
theorem recordDropLocked_eq (h : ticks ≠ []) :
    recordDropLocked retention ticks.length reason ticks now s =
      publishIngestQuality { s with
        dropped := s.dropped + ticks.length
        lastDropAt := some now
        lastDropReason := dropReason reason
        dropEvents := (routeLosses ticks).entries.foldl (recordLoss (dropReason reason))
          (s.dropEvents.filter fun e => now - retention ≤ e.endAt) } := by
  have hlength : ¬ ticks.length ≤ 0 := fun hle => h (List.length_eq_zero_iff.mp (Nat.le_zero.mp hle))
  have hentries : (routeLosses ticks).entries ≠ [] := fun hnil => h (routeLosses_eq_nil hnil)
  simp only [recordDropLocked, Int.toNat_natCast]
  rw [if_neg hlength, if_neg hentries]

theorem covers_of_dropped (ht : t ∈ ticks) : Covers
    (recordDropLocked retention ticks.length reason ticks now s).dropEvents t := by
  rw [recordDropLocked_eq (List.ne_nil_of_mem ht)]
  obtain ⟨entry, hentry, hmem⟩ := List.mem_flatMap.mp ((perm_routeLosses ticks).mem_iff.mpr ht)
  obtain ⟨hstart, hend⟩ := (standsFor_of_mem_routeLosses hentry).within t hmem
  have hkey : t.identityKey = entry.1 := by simpa using (List.mem_filter.mp hmem).2
  exact covers_recordLosses hentry hkey.symm hstart hend

theorem Covers.drop (h : Covers s.dropEvents t) (hcutoff : ticks ≠ [] → now - retention ≤ t.ts) :
    Covers (recordDropLocked retention ticks.length reason ticks now s).dropEvents t := by
  by_cases hticks : ticks = []
  · subst hticks
    exact h
  · rw [recordDropLocked_eq hticks]
    exact (h.prune (hcutoff hticks)).recordLosses

/-- A drop keeps the tally, but for ticks that are older than the retention. -/
theorem Tallied.drop (h : Tallied s.dropEvents ds) (hticks : ticks ≠ []) :
    ∃ kept pruned, ds.Perm (kept ++ pruned) ∧ (∀ d ∈ pruned, d.tick.ts < now - retention) ∧
      Tallied (recordDropLocked retention ticks.length reason ticks now s).dropEvents
        (kept ++ ticks.map fun t => ⟨t, dropReason reason⟩) := by
  obtain ⟨kept, pruned, hperm, hkept, hold⟩ := h.prune (now - retention)
  refine ⟨kept, pruned, hperm, hold, ?_⟩
  rw [recordDropLocked_eq hticks]
  refine (hkept.recordLosses fun entry hentry =>
    standsFor_of_mem_routeLosses hentry).perm (.append_left _ ?_)
  rw [← List.map_flatMap]
  exact (perm_routeLosses ticks).map _

end Drop

/-! ### Runs -/

/-- What the accounts say after these acts. A tick is in a window where its time is. -/
structure DropsReported (retention : Time) (acts : List IngestAct) : Prop where
  complete : ∀ (instrumentId routeFingerprint : String) (start stop : Option Time)
    (quality : TickIngestQuality), tickIngestQuality (TickIngest.after retention acts).published
      instrumentId routeFingerprint start stop = .ok quality → quality.complete = true →
    ∀ (before : List IngestAct) (act : IngestAct) (rest : List IngestAct),
      acts = before ++ act :: rest → ∀ d ∈ act.dropped,
      d.tick.identityKey = (instrumentId, routeFingerprint) → (∀ t ∈ start, t ≤ d.tick.ts) →
      (∀ t ∈ stop, d.tick.ts ≤ t) → ∃ later ∈ rest, later.Prunes retention d.tick
  retained : ∀ (instrumentId routeFingerprint : String) (start stop : Option Time)
    (quality : TickIngestQuality) (now : Time), (∀ act ∈ acts, act.NotAfter now) →
    tickIngestQuality (TickIngest.after retention acts).published instrumentId routeFingerprint
      start stop = .ok quality → quality.complete = true →
    ∀ d ∈ acts.flatMap IngestAct.dropped,
      d.tick.identityKey = (instrumentId, routeFingerprint) → (∀ t ∈ start, t ≤ d.tick.ts) →
      (∀ t ∈ stop, d.tick.ts ≤ t) → d.tick.ts < now - retention
  counts : ∃ kept pruned, (acts.flatMap IngestAct.dropped).Perm (kept ++ pruned) ∧
    Tallied (TickIngest.after retention acts).dropEvents kept ∧
    ((TickIngest.after retention acts).dropEvents.map fun e => e.count).sum = kept.length ∧
    ∀ d ∈ pruned, ∃ act ∈ acts, act.Prunes retention d.tick
  total : (TickIngest.after retention acts).dropped = (acts.flatMap IngestAct.dropped).length

section Runs

variable {retention now : Time} {acts rest : List IngestAct} {act : IngestAct} {t : TickWrite}
  {s : TickIngest} {ds : List DroppedTick}

theorem TickIngest.after_concat (acts : List IngestAct) (act : IngestAct) :
    TickIngest.after retention (acts ++ [act]) = act.apply retention (TickIngest.after retention acts) := by
  rw [TickIngest.after, List.foldl_append]
  rfl

/-- The events of a query are those that the aggregator has. -/
def TickIngest.Current (s : TickIngest) : Prop :=
  (s.published.map fun p => p.dropEvents) = some s.dropEvents

theorem current_apply (h : s.Current) : (act.apply retention s).Current := by
  cases act with
  | drop reason ticks now =>
    by_cases hticks : ticks = []
    · subst hticks
      exact h
    · rw [IngestAct.apply, recordDropLocked_eq hticks]
      rfl
  | writeError => rfl
  | ackMismatch => exact h
  | written =>
    rw [IngestAct.apply]
    split
    · rfl
    · exact h

theorem current_after : (TickIngest.after retention acts).Current := by
  induction acts using List.reverseRecOn with
  | nil => rfl
  | append_singleton acts act ih => exact TickIngest.after_concat acts act ▸ current_apply ih

theorem Covers.apply (h : Covers s.dropEvents t) (hnot : ¬ act.Prunes retention t) :
    Covers (act.apply retention s).dropEvents t := by
  cases act with
  | drop reason ticks now =>
    exact h.drop fun hticks => not_lt.mp fun hlt => hnot ⟨hticks, hlt⟩
  | writeError | ackMismatch => exact h
  | written =>
    rw [IngestAct.apply]
    split
    · exact h
    · exact h

theorem Covers.foldl (h : Covers s.dropEvents t) (hnot : ∀ act ∈ rest, ¬ act.Prunes retention t) :
    Covers (rest.foldl (IngestAct.apply retention) s).dropEvents t := by
  induction rest generalizing s with
  | nil => exact h
  | cons act rest ih =>
    obtain ⟨hact, hrest⟩ := List.forall_mem_cons.mp hnot
    exact ih (h.apply hact) hrest

/-- The time of a dropped tick is spanned until it is pruned. -/
theorem covers_after {before : List IngestAct} {d : DroppedTick} (hd : d ∈ act.dropped)
    (hnot : ∀ later ∈ rest, ¬ later.Prunes retention d.tick) :
    Covers (TickIngest.after retention (before ++ act :: rest)).dropEvents d.tick := by
  rw [TickIngest.after, List.foldl_append, List.foldl_cons]
  refine Covers.foldl ?_ hnot
  cases act with
  | drop reason ticks now =>
    obtain ⟨t, ht, rfl⟩ := List.mem_map.mp hd
    exact covers_of_dropped ht
  | writeError | ackMismatch | written => exact absurd hd List.not_mem_nil

/-- A window that holds the time of a spanned tick is not complete. -/
theorem not_complete_of_covers {instrumentId routeFingerprint : String} {start stop : Option Time}
    {quality : TickIngestQuality} (hcurrent : s.Current) (h : Covers s.dropEvents t)
    (hkey : t.identityKey = (instrumentId, routeFingerprint)) (hstart : ∀ a ∈ start, a ≤ t.ts)
    (hstop : ∀ b ∈ stop, t.ts ≤ b)
    (hquality : tickIngestQuality s.published instrumentId routeFingerprint start stop =
      .ok quality) : quality.complete = false := by
  obtain ⟨e, he, hsame, hfrom, hto⟩ := h
  have hids := Prod.ext_iff.mp (hsame.trans hkey)
  have hmem : e ∈ dropEventsIn s.published instrumentId routeFingerprint start stop := by
    rw [dropEventsIn, hcurrent]
    refine List.mem_filter.mpr ⟨he, decide_eq_true ⟨hids.1, hids.2, ?_⟩⟩
    exact ⟨fun a ha => (hstart a ha).trans hto, fun b hb => hfrom.trans (hstop b hb)⟩
  simp only [tickIngestQuality] at hquality
  split at hquality
  · exact nomatch hquality
  split at hquality
  · exact nomatch hquality
  cases hquality
  refine decide_eq_false fun hnone => ?_
  exact absurd ((List.perm_insertionSort _ _).mem_iff.mpr hmem) (hnone.1 ▸ List.not_mem_nil)

/-- The new ticks come after those that are kept from before. -/
theorem perm_kept {all kept pruned kept' pruned' new : List DroppedTick}
    (hall : all.Perm (kept ++ pruned)) (hkept : kept.Perm (kept' ++ pruned')) :
    (all ++ new).Perm (kept' ++ new ++ (pruned' ++ pruned)) := by
  have hsplit := (hall.append_right new).trans ((hkept.append_right pruned).append_right new)
  refine hsplit.trans ?_
  rw [List.append_assoc, List.append_assoc, List.append_assoc]
  refine .append_left _ ?_
  rw [← List.append_assoc]
  exact List.perm_append_comm

theorem exists_tallied (retention : Time) (acts : List IngestAct) :
    ∃ kept pruned, (acts.flatMap IngestAct.dropped).Perm (kept ++ pruned) ∧
      Tallied (TickIngest.after retention acts).dropEvents kept ∧
      ∀ d ∈ pruned, ∃ act ∈ acts, act.Prunes retention d.tick := by
  induction acts using List.reverseRecOn with
  | nil => exact ⟨[], [], .nil, ⟨.nil, [], rfl, by simp, .nil⟩, by simp⟩
  | append_singleton acts act ih =>
    obtain ⟨kept, pruned, hperm, htally, hpruned⟩ := ih
    have hbefore : ∀ d ∈ pruned, ∃ act' ∈ acts ++ [act], act'.Prunes retention d.tick := fun d hd => by
      obtain ⟨act', hact', hprunes⟩ := hpruned d hd
      exact ⟨act', List.mem_append_left _ hact', hprunes⟩
    rw [TickIngest.after_concat, List.flatMap_append, List.flatMap_singleton]
    have hkeep (hnone : act.dropped = [])
        (heq : (act.apply retention (TickIngest.after retention acts)).dropEvents =
          (TickIngest.after retention acts).dropEvents) :
        ∃ kept pruned, (acts.flatMap IngestAct.dropped ++ act.dropped).Perm (kept ++ pruned) ∧
          Tallied (act.apply retention (TickIngest.after retention acts)).dropEvents kept ∧
          ∀ d ∈ pruned, ∃ act' ∈ acts ++ [act], act'.Prunes retention d.tick :=
      ⟨kept, pruned, by rwa [hnone, List.append_nil], heq ▸ htally, hbefore⟩
    cases act with
    | writeError | ackMismatch => exact hkeep rfl rfl
    | written =>
      refine hkeep rfl ?_
      rw [IngestAct.apply]
      split <;> rfl
    | drop reason ticks now =>
      by_cases hticks : ticks = []
      · subst hticks
        exact hkeep rfl rfl
      obtain ⟨kept', pruned', hkept, hold, htally'⟩ := htally.drop hticks
      refine ⟨_, pruned' ++ pruned, ?_, htally', fun d hd => ?_⟩
      · exact perm_kept hperm hkept
      · rcases List.mem_append.mp hd with hnew | hbefore'
        · exact ⟨_, List.mem_append_right _ (List.mem_singleton_self _), hticks, hold d hnew⟩
        · exact hbefore d hbefore'

theorem dropped_after (acts : List IngestAct) :
    (TickIngest.after retention acts).dropped = (acts.flatMap IngestAct.dropped).length := by
  induction acts using List.reverseRecOn with
  | nil => rfl
  | append_singleton acts act ih =>
    rw [TickIngest.after_concat, List.flatMap_append, List.flatMap_singleton, List.length_append, ← ih]
    cases act with
    | writeError | ackMismatch => rfl
    | written =>
      rw [IngestAct.apply]
      split <;> rfl
    | drop reason ticks now =>
      by_cases hticks : ticks = []
      · subst hticks
        rfl
      · rw [IngestAct.apply, recordDropLocked_eq hticks, IngestAct.dropped, List.length_map]
        rfl

section Complete

variable {instrumentId routeFingerprint : String} {start stop : Option Time}
  {quality : TickIngestQuality}

/-- Where a window is complete, every drop in it has been pruned by a later one. -/
theorem prunes_of_complete
    (hquality : tickIngestQuality (TickIngest.after retention acts).published instrumentId
      routeFingerprint start stop = .ok quality) (hcomplete : quality.complete = true)
    {before : List IngestAct} (hacts : acts = before ++ act :: rest) {d : DroppedTick}
    (hd : d ∈ act.dropped) (hkey : d.tick.identityKey = (instrumentId, routeFingerprint))
    (hstart : ∀ t ∈ start, t ≤ d.tick.ts) (hstop : ∀ t ∈ stop, d.tick.ts ≤ t) :
    ∃ later ∈ rest, later.Prunes retention d.tick := by
  by_contra hnot
  have hcovers : Covers (TickIngest.after retention acts).dropEvents d.tick := by
    rw [hacts]
    exact covers_after hd fun later hlater hprunes => hnot ⟨later, hlater, hprunes⟩
  rw [not_complete_of_covers current_after hcovers hkey hstart hstop hquality] at hcomplete
  exact Bool.false_ne_true hcomplete

/-- What a complete window has lost is older than the retention. -/
theorem before_retention_of_complete (htimes : ∀ act ∈ acts, act.NotAfter now)
    (hquality : tickIngestQuality (TickIngest.after retention acts).published instrumentId
      routeFingerprint start stop = .ok quality) (hcomplete : quality.complete = true)
    {d : DroppedTick} (hd : d ∈ acts.flatMap IngestAct.dropped)
    (hkey : d.tick.identityKey = (instrumentId, routeFingerprint))
    (hstart : ∀ t ∈ start, t ≤ d.tick.ts) (hstop : ∀ t ∈ stop, d.tick.ts ≤ t) :
    d.tick.ts < now - retention := by
  obtain ⟨act, hact, hdropped⟩ := List.mem_flatMap.mp hd
  obtain ⟨before, rest, hacts⟩ := List.append_of_mem hact
  obtain ⟨later, hlater, hprunes⟩ :=
    prunes_of_complete hquality hcomplete hacts hdropped hkey hstart hstop
  have htime := htimes later (by rw [hacts]; simp [hlater])
  cases later with
  | drop reason ticks time => exact hprunes.2.trans_le (sub_le_sub_right htime _)
  | writeError | ackMismatch | written => exact hprunes.elim

end Complete

end Runs

/-! ### The accounts of a buffer -/

section Buffer

variable {config : TickBufferConfig} {retention now : Time} {acts : List IngestAct}
  {s t : TickBuffer TickWrite}

def TickBuffer.droppedWrites (s : TickBuffer TickWrite) : List TickWrite :=
  s.droppedTicks.map fun x => x.tick

/-- A step of the buffer with the acts of its accounts: they drop what the step drops, in whatever
parts and for whatever reasons. -/
def IngestStep (config : TickBufferConfig) (x : TickBuffer TickWrite × List IngestAct)
    (a : TickBuffer.Act TickWrite) (x' : TickBuffer TickWrite × List IngestAct) : Prop :=
  TickBuffer.SubmittingStep config x.1 a x'.1 ∧ ∃ acts, x'.2 = x.2 ++ acts ∧
    x'.1.droppedWrites = x.1.droppedWrites ++
      (acts.flatMap IngestAct.dropped).map fun d => d.tick

/-- The acts have dropped what the buffer has. -/
def DropsRecorded (x : TickBuffer TickWrite × List IngestAct) : Prop :=
  x.1.droppedWrites = (x.2.flatMap IngestAct.dropped).map fun d => d.tick

/-- The accounts are never in the way of a step. -/
theorem exists_ingestStep {a : TickBuffer.Act TickWrite} (hc : s.Counted config)
    (h : TickBuffer.SubmittingStep config s a t) (acts : List IngestAct) :
    ∃ acts', IngestStep config (s, acts) a (t, acts') := by
  obtain ⟨lost, hlost⟩ := (h.2.progress hc h.1).moves.lost_prefix
  refine ⟨acts ++ [.drop "" (lost.map fun x => x.tick) 0], h, _, rfl, ?_⟩
  have hdropped : t.droppedTicks = s.droppedTicks ++ lost := hlost.symm
  simp [TickBuffer.droppedWrites, hdropped, IngestAct.dropped, Function.comp_def]

def oldTick : TickWrite := ⟨"es", "r", 0, 100, 1, 1⟩

def newTick : TickWrite := { oldTick with ts := 99 }

/-- A buffer for one tick after these were offered. -/
def offered (ticks : List TickWrite) : TickBuffer TickWrite :=
  ticks.foldl (fun s tick => (s.addTick (.ofSettings 1 1) tick).2) .initial

def twoDrops : List IngestAct :=
  [.drop "buffer_full" [oldTick] 1, .drop "buffer_full" [newTick] 100]

end Buffer

end AefTerminal
