import AefTerminal.Sessions.TradingHours
import Mathlib.Tactic.Linarith

/-!
# The fences of the trading hours

Two counters guard the cache. Every invalidation raises `cacheSequence`, so a read that finds the
number it began with ran beside no invalidation at all; and every request raises `refreshSequence`,
so a generation taken before a request is smaller than the number of the request. Pruning forgets
epochs of single routes, but neither of the two counters.

## Main results

* `TradingHours.Reachable.seen_eq`: what is cached was read after the last invalidation of its route
* `TradingHours.Fenced.generation_eq`: a request that waits has its generation on record
* `TradingHours.refresh_fences`
-/

namespace AefTerminal

open Foundation

namespace TradingHours

variable {Row : Type}

/-- The number of the request of a route that waits for its refresh. -/
def pendingGeneration (s : TradingHours Row) (key : SessionRefreshKey) : Option ℕ :=
  (s.pendingOf key.provider).get? key.route

/-- The route waits for a refresh from the provider. -/
def Waits (s : TradingHours Row) (key : SessionRefreshKey) : Prop :=
  key.route ∈ (s.pendingOf key.provider).keys

instance (s : TradingHours Row) (key : SessionRefreshKey) : Decidable (s.Waits key) :=
  inferInstanceAs (Decidable (_ ∈ _))

/-- The cache is told to forget the route. -/
def Act.Invalidates : Act Row → SessionRouteKey → Prop
  | .invalidate route _, r => route = r
  | .markStale key _, r => key.route = r
  | _, _ => False

/-- The states the module comes to. -/
def Reachable (s : TradingHours Row) : Prop := ∃ as, Run Step initial as s

variable {s t : TradingHours Row} {key : SessionRefreshKey}

theorem waits_iff :
    s.Waits key ↔ ∃ g, s.pendingGeneration key = some g := by
  rw [Waits, Dict.mem_keys_iff, Option.isSome_iff_exists]; rfl

theorem pendingGeneration_congr
    (h : t.pendingRefresh = s.pendingRefresh) (key : SessionRefreshKey) :
    t.pendingGeneration key = s.pendingGeneration key := by
  unfold pendingGeneration pendingOf
  rw [h]

/-! ### What pruning leaves alone -/

section

variable (s : TradingHours Row) (now : ℚ)

@[simp] theorem cacheSequence_prune : (s.prune now).cacheSequence = s.cacheSequence := rfl

@[simp] theorem refreshSequence_prune : (s.prune now).refreshSequence = s.refreshSequence := rfl

@[simp] theorem readers_prune : (s.prune now).readers = s.readers := rfl

@[simp] theorem invalidations_prune : (s.prune now).invalidations = s.invalidations := rfl

/-- Only providers that nothing waits for are forgotten. -/
@[simp] theorem pendingGeneration_prune (key : SessionRefreshKey) :
    (s.prune now).pendingGeneration key = s.pendingGeneration key := by
  show ((s.prunePending.get? key.provider).getD .empty).get? key.route = _
  rw [prunePending, Dict.get?_eraseAll]
  split_ifs with hempty
  · obtain ⟨⟨provider, pending⟩, hsel, rfl⟩ := List.mem_map.mp hempty
    obtain ⟨hget, hnil⟩ := Dict.mem_select.mp hsel
    have hpending : pending = .empty := Dict.ext (of_decide_eq_true hnil)
    rw [pendingGeneration, pendingOf, hget, hpending]
    rfl
  · rfl

theorem get?_cache_prune {route : SessionRouteKey} {entry : CachedHours Row}
    (h : (s.prune now).cache.get? route = some entry) : s.cache.get? route = some entry := by
  have hmem := List.mem_of_mem_drop (Dict.get?_eq_some_iff.mp h)
  rw [← Dict.get?_eq_some_iff, Dict.get?_eraseAll] at hmem
  split_ifs at hmem
  exact hmem

variable {g : ℕ} {key : SessionRefreshKey}

theorem get?_refreshEpoch_prune
    (h : (s.prune now).refreshEpoch.get? key = some g) : s.refreshEpoch.get? key = some g := by
  have h : s.pruneRefreshEpoch.get? key = some g := h
  rw [pruneRefreshEpoch, Dict.get?_eraseAll] at h
  split_ifs at h
  exact h

theorem mem_pendingRouteKeys
    (h : s.pendingGeneration key = some g) : key.route ∈ s.pendingRouteKeys := by
  rw [← pendingGeneration_prune s 0] at h
  have h : ((s.prunePending.get? key.provider).getD .empty).get? key.route = some g := h
  rw [pendingRouteKeys, List.mem_flatMap]
  cases hget : s.prunePending.get? key.provider with
  | none =>
    rw [hget, Option.getD_none, Dict.get?_empty] at h
    cases h
  | some pending =>
    rw [hget, Option.getD_some] at h
    exact ⟨(key.provider, pending), Dict.get?_eq_some_iff.mp hget, Dict.mem_keys_of_get? h⟩

/-- A route that a request waits for keeps its generation. -/
theorem get?_refreshEpoch_prune_of_pending (h : s.pendingGeneration key = some g) :
    (s.prune now).refreshEpoch.get? key = s.refreshEpoch.get? key := by
  show s.pruneRefreshEpoch.get? key = _
  rw [pruneRefreshEpoch, Dict.get?_eraseAll, if_neg]
  intro hkey
  have hcompleted := List.mem_of_mem_take hkey
  rw [completedRefreshKeys, List.mem_filter, decide_eq_true_iff] at hcompleted
  exact hcompleted.2 (mem_pendingRouteKeys s h)

end

/-! ### What the operations do to the requests -/

section

variable (s : TradingHours Row) (key k : SessionRefreshKey) (now : ℚ)

/-- A request touches its own route only. -/
theorem pendingGeneration_requestRefresh : (s.requestRefresh key).pendingGeneration k =
    if k = key then some s.nextRefreshSequence else s.pendingGeneration k := by
  show (((s.pendingRefresh.insert key.provider ((s.pendingOf key.provider).insert key.route
    s.nextRefreshSequence)).get? k.provider).getD .empty).get? k.route = _
  rw [Dict.get?_insert]
  by_cases hprovider : k.provider = key.provider
  · rw [if_pos hprovider, Option.getD_some, Dict.get?_insert]
    by_cases hroute : k.route = key.route
    · have hkey : k = key := by cases k; cases key; congr
      rw [if_pos hroute, if_pos hkey]
    · have hkey : k ≠ key := by rintro rfl; exact hroute rfl
      rw [if_neg hroute, if_neg hkey, pendingGeneration, hprovider]
  · have hkey : k ≠ key := by rintro rfl; exact hprovider rfl
    rw [if_neg hprovider, if_neg hkey]
    rfl

theorem pendingGeneration_markStale : (s.markStale key now).pendingGeneration k =
    if k = key then some s.nextRefreshSequence else s.pendingGeneration k :=
  calc (s.markStale key now).pendingGeneration k
      = ((s.requestRefresh key).forget key.route).pendingGeneration k :=
        pendingGeneration_prune ..
    _ = (s.requestRefresh key).pendingGeneration k := rfl
    _ = _ := pendingGeneration_requestRefresh s key k

theorem acknowledge_of_ne {g : ℕ} (h : s.pendingGeneration key ≠ some g) :
    s.acknowledge key g now = (false, { s with
      pendingRefresh := s.pendingRefresh.insert key.provider (s.pendingOf key.provider) }) :=
  if_pos h

theorem acknowledge_of_eq {g : ℕ} (h : s.pendingGeneration key = some g) :
    s.acknowledge key g now = (true, { s with
      pendingRefresh :=
        s.pendingRefresh.insert key.provider ((s.pendingOf key.provider).erase key.route) }.prune
      now) :=
  if_neg (not_not_intro h)

/-- An acknowledgement ends the request with its own number, and no other. -/
theorem pendingGeneration_acknowledge (g : ℕ) :
    (s.acknowledge key g now).2.pendingGeneration k =
      if k = key ∧ s.pendingGeneration key = some g then none else s.pendingGeneration k := by
  by_cases h : s.pendingGeneration key = some g
  · rw [acknowledge_of_eq s key now h, pendingGeneration_prune]
    show (((s.pendingRefresh.insert key.provider ((s.pendingOf key.provider).erase
      key.route)).get? k.provider).getD .empty).get? k.route = _
    rw [Dict.get?_insert]
    by_cases hprovider : k.provider = key.provider
    · rw [if_pos hprovider, Option.getD_some, Dict.get?_erase]
      by_cases hroute : k.route = key.route
      · have hkey : k = key := by cases k; cases key; congr
        rw [if_pos hroute, if_pos ⟨hkey, h⟩]
      · have hkey : k ≠ key := by rintro rfl; exact hroute rfl
        rw [if_neg hroute, if_neg fun hk => hkey hk.1, pendingGeneration, hprovider]
    · have hkey : k ≠ key := by rintro rfl; exact hprovider rfl
      rw [if_neg hprovider, if_neg fun hk => hkey hk.1]
      rfl
  · rw [acknowledge_of_ne s key now h, if_neg fun hk => h hk.2]
    show (((s.pendingRefresh.insert key.provider (s.pendingOf key.provider)).get?
      k.provider).getD .empty).get? k.route = _
    rw [Dict.get?_insert]
    by_cases hprovider : k.provider = key.provider
    · rw [if_pos hprovider, Option.getD_some, pendingGeneration, hprovider]
    · rw [if_neg hprovider]
      rfl

theorem acknowledge_fst_iff (g : ℕ) :
    (s.acknowledge key g now).1 = true ↔ s.pendingGeneration key = some g := by
  by_cases h : s.pendingGeneration key = some g
  · rw [acknowledge_of_eq s key now h]
    exact iff_of_true rfl h
  · rw [acknowledge_of_ne s key now h]
    exact iff_of_false Bool.false_ne_true h

/-- A read begins or finds no need to; either way the state is pruned first. -/
theorem snd_beginRead :
    (∀ reader, (s.beginRead key now).1 ≠ .reading reader) ∧ (s.beginRead key now).2 = s.prune now ∨
    ∃ reader : HoursReader, (s.beginRead key now).1 = .reading reader ∧
      reader.key = key ∧ reader.readSequence = s.cacheSequence ∧
      reader.seen = s.invalidations key.route ∧
      (s.beginRead key now).2 = { s.prune now with readers := s.readers ++ [reader] } := by
  unfold beginRead
  dsimp only
  split_ifs
  · exact Or.inl ⟨by simp, rfl⟩
  · split
    · split_ifs
      · exact Or.inl ⟨by simp, rfl⟩
      · exact Or.inr ⟨_, rfl, rfl, rfl, rfl, rfl⟩
    · exact Or.inr ⟨_, rfl, rfl, rfl, rfl, rfl⟩

/-- A read publishes what it found only if the cache number is the one it began with. -/
theorem snd_endRead (reader : HoursReader) (row : Option Row) :
    (s.endRead reader row).2 = { s with readers := s.readers.erase reader } ∨
      s.cacheSequence = reader.readSequence ∧
      (s.endRead reader row).2 = { s with
        readers := s.readers.erase reader
        cache := (s.cache.erase reader.key.route).insert reader.key.route
          ⟨reader.now, row, reader.seen⟩ }.prune reader.now := by
  unfold endRead
  dsimp only
  split_ifs with hsuperseded
  · exact Or.inl rfl
  · unfold Superseded at hsuperseded
    rw [not_or, not_or, not_not] at hsuperseded
    exact Or.inr ⟨hsuperseded.2.1, rfl⟩

/-- The next number exceeds every number on record. -/
theorem lt_nextRefreshSequence : s.refreshSequence < s.nextRefreshSequence :=
  Nat.lt_succ_of_le (le_max_left _ _)

end

/-! ### What one step does -/

variable {a : Act Row}

/-- What a step may do to the request of one route. -/
theorem Step.pendingGeneration (h : Step s a t) (key : SessionRefreshKey) :
    t.pendingGeneration key = s.pendingGeneration key ∨
      (∃ now, a = .markStale key now ∧ t.pendingGeneration key = some s.nextRefreshSequence) ∨
      ∃ g now, a = .acknowledge key g now ∧ s.pendingGeneration key = some g ∧
        t.pendingGeneration key = none := by
  cases h with
  | invalidate route now => exact Or.inl (pendingGeneration_prune ..)
  | markStale key' now =>
    rw [pendingGeneration_markStale]
    by_cases hkey : key = key'
    · subst hkey
      exact Or.inr (Or.inl ⟨now, rfl, if_pos rfl⟩)
    · exact Or.inl (if_neg hkey)
  | refreshGeneration key' now => exact Or.inl (pendingGeneration_prune ..)
  | acknowledge key' g now =>
    rw [pendingGeneration_acknowledge]
    by_cases hkey : key = key' ∧ s.pendingGeneration key' = some g
    · obtain ⟨rfl, hg⟩ := hkey
      exact Or.inr (Or.inr ⟨g, now, rfl, hg, if_pos ⟨rfl, hg⟩⟩)
    · exact Or.inl (if_neg hkey)
  | peekPending provider now => exact Or.inl (pendingGeneration_prune ..)
  | beginRead key' now =>
    refine Or.inl ?_
    obtain ⟨-, hread⟩ | ⟨reader, -, -, -, -, hread⟩ := snd_beginRead s key' now <;> rw [hread]
    · exact pendingGeneration_prune ..
    · exact (pendingGeneration_congr rfl key).trans (pendingGeneration_prune s now key)
  | endRead reader row hreader =>
    refine Or.inl ?_
    obtain hread | ⟨-, hread⟩ := snd_endRead s reader row <;> rw [hread]
    · rfl
    · exact pendingGeneration_prune ..
  | failRead reader hreader => exact Or.inl rfl

/-- The refresh numbers only grow. -/
theorem Step.refreshSequence_le (h : Step s a t) :
    s.refreshSequence ≤ t.refreshSequence := by
  cases h with
  | invalidate route now => exact le_rfl
  | markStale key now => exact (lt_nextRefreshSequence s).le
  | refreshGeneration key now => exact le_rfl
  | acknowledge key g now =>
    by_cases hg : s.pendingGeneration key = some g
    · rw [acknowledge_of_eq s key now hg]; exact le_rfl
    · rw [acknowledge_of_ne s key now hg]
  | peekPending provider now => exact le_rfl
  | beginRead key now =>
    obtain ⟨-, h⟩ | ⟨reader, -, -, -, -, h⟩ := snd_beginRead s key now
    · rw [h]; exact le_rfl
    · rw [h]; exact le_rfl
  | endRead reader row hreader =>
    obtain h | ⟨-, h⟩ := snd_endRead s reader row
    · rw [h]
    · rw [h]; exact le_rfl
  | failRead reader hreader => exact le_rfl

/-- The cache numbers only grow, and every invalidation raises them. -/
theorem Step.cacheSequence (h : Step s a t) :
    s.cacheSequence ≤ t.cacheSequence ∧
      ∀ route, a.Invalidates route → s.cacheSequence < t.cacheSequence := by
  cases h with
  | invalidate route now => exact ⟨Nat.le_succ _, fun _ _ => Nat.lt_succ_self _⟩
  | markStale key now => exact ⟨Nat.le_succ _, fun _ _ => Nat.lt_succ_self _⟩
  | refreshGeneration key now => exact ⟨le_rfl, fun _ => False.elim⟩
  | acknowledge key g now =>
    refine ⟨?_, fun _ => False.elim⟩
    by_cases hg : s.pendingGeneration key = some g
    · rw [acknowledge_of_eq s key now hg]; exact le_rfl
    · rw [acknowledge_of_ne s key now hg]
  | peekPending provider now => exact ⟨le_rfl, fun _ => False.elim⟩
  | beginRead key now =>
    refine ⟨?_, fun _ => False.elim⟩
    obtain ⟨-, h⟩ | ⟨reader, -, -, -, -, h⟩ := snd_beginRead s key now
    · rw [h]; exact le_rfl
    · rw [h]; exact le_rfl
  | endRead reader row hreader =>
    refine ⟨?_, fun _ => False.elim⟩
    obtain h | ⟨-, h⟩ := snd_endRead s reader row
    · rw [h]
    · rw [h]; exact le_rfl
  | failRead reader hreader => exact ⟨le_rfl, fun _ => False.elim⟩

/-! ### The invariant -/

/-- What holds of the numbers in every state. -/
structure Fenced (s : TradingHours Row) : Prop where
  generation_le : ∀ key g, s.refreshEpoch.get? key = some g → g ≤ s.refreshSequence
  recorded : ∀ key g, s.pendingGeneration key = some g → s.refreshEpoch.get? key = some g
  readSequence_le : ∀ reader ∈ s.readers, reader.readSequence ≤ s.cacheSequence
  /-- A read that ran beside no invalidation has seen them all. -/
  reader_seen : ∀ reader ∈ s.readers, reader.readSequence = s.cacheSequence →
    reader.seen = s.invalidations reader.key.route
  cached_seen : ∀ route entry, s.cache.get? route = some entry →
    entry.seen = s.invalidations route

theorem fenced_initial : Fenced (initial : TradingHours Row) where
  generation_le := nofun
  recorded := nofun
  readSequence_le := nofun
  reader_seen := nofun
  cached_seen := nofun

namespace Fenced

variable {s : TradingHours Row}

theorem prune (h : Fenced s) (now : ℚ) : Fenced (s.prune now) where
  generation_le key g hg := h.generation_le key g (get?_refreshEpoch_prune s now hg)
  recorded key g hg := by
    rw [pendingGeneration_prune] at hg
    rw [get?_refreshEpoch_prune_of_pending s now hg]
    exact h.recorded key g hg
  readSequence_le := h.readSequence_le
  reader_seen := h.reader_seen
  cached_seen route entry hentry := h.cached_seen route entry (get?_cache_prune s now hentry)

theorem forget (h : Fenced s) (route : SessionRouteKey) : Fenced (s.forget route) where
  generation_le := h.generation_le
  recorded := h.recorded
  readSequence_le reader hreader := (h.readSequence_le reader hreader).trans (Nat.le_succ _)
  reader_seen reader hreader heq := by
    have hle := h.readSequence_le reader hreader
    have heq : reader.readSequence = s.cacheSequence + 1 := heq
    omega
  cached_seen r entry hentry := by
    have hentry : (s.cache.erase route).get? r = some entry := hentry
    show entry.seen = Function.update s.invalidations route (s.invalidations route + 1) r
    rw [Dict.get?_erase] at hentry
    split_ifs at hentry with hr
    rw [Function.update_of_ne hr]
    exact h.cached_seen r entry hentry

theorem requestRefresh (h : Fenced s) (key : SessionRefreshKey) :
    Fenced (s.requestRefresh key) where
  generation_le k g hg := by
    have hg : ((s.refreshEpoch.erase key).insert key s.nextRefreshSequence).get? k = some g := hg
    show g ≤ s.nextRefreshSequence
    rw [Dict.get?_insert, Dict.get?_erase] at hg
    split_ifs at hg
    · rw [← Option.some.inj hg]
    · exact (h.generation_le k g hg).trans (lt_nextRefreshSequence s).le
  recorded k g hg := by
    rw [pendingGeneration_requestRefresh] at hg
    show ((s.refreshEpoch.erase key).insert key s.nextRefreshSequence).get? k = some g
    rw [Dict.get?_insert, Dict.get?_erase]
    split_ifs at hg ⊢
    · exact hg
    · exact h.recorded k g hg
  readSequence_le := h.readSequence_le
  reader_seen := h.reader_seen
  cached_seen := h.cached_seen

/-- Other requests than the state's own may be forgotten. -/
theorem withdraw (h : Fenced s) {pending : Dict String (Dict SessionRouteKey ℕ)}
    (hpending : ∀ key g, pendingGeneration { s with pendingRefresh := pending } key = some g →
      s.pendingGeneration key = some g) : Fenced { s with pendingRefresh := pending } where
  generation_le := h.generation_le
  recorded key g hg := h.recorded key g (hpending key g hg)
  readSequence_le := h.readSequence_le
  reader_seen := h.reader_seen
  cached_seen := h.cached_seen

theorem acknowledge (h : Fenced s) (key : SessionRefreshKey) (g : ℕ) (now : ℚ) :
    Fenced (s.acknowledge key g now).2 := by
  have hpending (k : SessionRefreshKey) (g' : ℕ)
      (hk : (s.acknowledge key g now).2.pendingGeneration k = some g') :
      s.pendingGeneration k = some g' := by
    rw [pendingGeneration_acknowledge] at hk
    split_ifs at hk
    exact hk
  by_cases hg : s.pendingGeneration key = some g
  · rw [acknowledge_of_eq s key now hg] at hpending ⊢
    refine (h.withdraw fun k g' hk => ?_).prune now
    exact hpending k g' ((pendingGeneration_prune _ now k).trans hk)
  · rw [acknowledge_of_ne s key now hg] at hpending ⊢
    exact h.withdraw hpending

/-- The reads under way may be fewer. -/
theorem withReaders (h : Fenced s) {readers : List HoursReader}
    (hle : ∀ reader ∈ readers, reader.readSequence ≤ s.cacheSequence)
    (hseen : ∀ reader ∈ readers, reader.readSequence = s.cacheSequence →
      reader.seen = s.invalidations reader.key.route) : Fenced { s with readers := readers } where
  generation_le := h.generation_le
  recorded := h.recorded
  readSequence_le := hle
  reader_seen := hseen
  cached_seen := h.cached_seen

theorem eraseReader (h : Fenced s) (reader : HoursReader) :
    Fenced { s with readers := s.readers.erase reader } :=
  h.withReaders (fun r hr => h.readSequence_le r (List.mem_of_mem_erase hr))
    fun r hr => h.reader_seen r (List.mem_of_mem_erase hr)

theorem beginRead (h : Fenced s) (key : SessionRefreshKey) (now : ℚ) :
    Fenced (s.beginRead key now).2 := by
  obtain ⟨-, hread⟩ | ⟨reader, -, hkey, hsequence, hseen, hread⟩ := snd_beginRead s key now
  · rw [hread]
    exact h.prune now
  · rw [hread]
    refine (h.prune now).withReaders (fun r hr => ?_) fun r hr heq => ?_
    · rcases List.mem_append.mp hr with hr | hr
      · exact h.readSequence_le r hr
      · rw [List.mem_singleton.mp hr, hsequence]
        exact le_rfl
    · rcases List.mem_append.mp hr with hr | hr
      · exact h.reader_seen r hr heq
      · rw [List.mem_singleton.mp hr, hkey]
        exact hseen

/-- What is published was read beside no invalidation. -/
theorem endRead (h : Fenced s) {reader : HoursReader} (hreader : reader ∈ s.readers)
    (row : Option Row) : Fenced (s.endRead reader row).2 := by
  obtain hread | ⟨hsequence, hread⟩ := snd_endRead s reader row
  · rw [hread]
    exact h.eraseReader reader
  · rw [hread]
    have herase := h.eraseReader reader
    have hpublished : Fenced { s with
        readers := s.readers.erase reader
        cache := (s.cache.erase reader.key.route).insert reader.key.route
          ⟨reader.now, row, reader.seen⟩ } :=
      { generation_le := h.generation_le
        recorded := h.recorded
        readSequence_le := herase.readSequence_le
        reader_seen := herase.reader_seen
        cached_seen := fun route entry hentry => by
          dsimp only at hentry ⊢
          rw [Dict.get?_insert, Dict.get?_erase] at hentry
          split_ifs at hentry with hroute
          · subst hroute
            rw [← Option.some.inj hentry]
            exact h.reader_seen reader hreader hsequence.symm
          · exact h.cached_seen route entry hentry }
    exact hpublished.prune reader.now

theorem step {t : TradingHours Row} {a : Act Row} (h : Fenced s) (hstep : Step s a t) :
    Fenced t := by
  cases hstep with
  | invalidate route now => exact (h.forget route).prune now
  | markStale key now => exact ((h.requestRefresh key).forget key.route).prune now
  | refreshGeneration key now => exact h.prune now
  | acknowledge key g now => exact h.acknowledge key g now
  | peekPending provider now => exact h.prune now
  | beginRead key now => exact h.beginRead key now
  | endRead reader row hreader => exact h.endRead hreader row
  | failRead reader hreader => exact h.eraseReader reader

end Fenced

theorem Reachable.fenced (h : Reachable s) : Fenced s := by
  obtain ⟨as, hrun⟩ := h
  exact hrun.invariant (fun _ _ _ h hstep => h.step hstep) fenced_initial

/-! ### The fences -/

/-- A generation that is taken is at most the number of the last request. -/
theorem Reachable.generation_le (h : Reachable s) (key : SessionRefreshKey)
    (now : ℚ) : (s.refreshGeneration key now).1 ≤ s.refreshSequence := by
  show ((s.prune now).refreshEpoch.get? key).getD 0 ≤ s.refreshSequence
  cases hget : (s.prune now).refreshEpoch.get? key with
  | none => exact Nat.zero_le _
  | some g => exact (h.fenced.prune now).generation_le key g hget

/-- The generation that is taken is that of the request that waits. -/
theorem Fenced.generation_eq (h : Fenced s)
    {g : ℕ} (hg : s.pendingGeneration key = some g) (now : ℚ) :
    (s.refreshGeneration key now).1 = g := by
  show ((s.prune now).refreshEpoch.get? key).getD 0 = g
  rw [(h.prune now).recorded key g ((pendingGeneration_prune ..).trans hg)]
  rfl

/-- The request of a route is newer than number `n`, if it has one, and the next ones will be. -/
structure NewerThan (n : ℕ) (key : SessionRefreshKey) (s : TradingHours Row) : Prop where
  pending : ∀ g, s.pendingGeneration key = some g → n < g
  sequence : n ≤ s.refreshSequence

variable {n : ℕ}

theorem NewerThan.step (h : NewerThan n key s) (hstep : Step s a t) : NewerThan n key t := by
  refine ⟨fun g hg => ?_, h.sequence.trans hstep.refreshSequence_le⟩
  obtain heq | ⟨now, -, hnext⟩ | ⟨g', now, -, -, hnone⟩ := hstep.pendingGeneration key
  · exact h.pending g (heq ▸ hg)
  · rw [← Option.some.inj (hnext.symm.trans hg)]
    exact h.sequence.trans_lt (lt_nextRefreshSequence s)
  · rw [hnone] at hg
    cases hg

theorem newerThan_markStale (s : TradingHours Row) (key : SessionRefreshKey) (now : ℚ) :
    NewerThan s.refreshSequence key (s.markStale key now) where
  pending g hg := by
    rw [pendingGeneration_markStale, if_pos rfl] at hg
    rw [← Option.some.inj hg]
    exact lt_nextRefreshSequence s
  sequence := (lt_nextRefreshSequence s).le

variable {as : List (Act Row)}

theorem NewerThan.run (h : NewerThan n key s) (hrun : Run Step s as t) : NewerThan n key t :=
  hrun.invariant (fun _ _ _ h hstep => h.step hstep) h

theorem refreshSequence_le_of_run
    (hrun : Run Step s as t) : s.refreshSequence ≤ t.refreshSequence :=
  Run.monotone (fun _ _ _ hstep => Step.refreshSequence_le hstep) hrun

/-- A generation does not acknowledge a request that came after it. -/
theorem no_markStale_of_acknowledge (hs : Reachable s) {now : ℚ}
    (hrun : Run Step (s.refreshGeneration key now).2 as t)
    (hack : t.pendingGeneration key = some (s.refreshGeneration key now).1) (now' : ℚ) :
    .markStale key now' ∉ as := by
  intro hmark
  obtain ⟨bs, cs, u, u', -, hbefore, hstep, hafter⟩ := hrun.exists_step hmark
  cases hstep
  have hseq : (s.refreshGeneration key now).2.refreshSequence ≤ u.refreshSequence :=
    refreshSequence_le_of_run hbefore
  have htaken : (s.refreshGeneration key now).1 ≤ u.refreshSequence :=
    (hs.generation_le key now).trans hseq
  have hnewer := ((newerThan_markStale u key now').run hafter).pending _ hack
  exact absurd (hnewer.trans_le htaken) (lt_irrefl _)

/-- A route stays pending until its request is acknowledged. -/
theorem exists_acknowledge (hs : NewerThan n key s) (hwaits : s.Waits key) (hrun : Run Step s as t)
    (hdone : ¬ t.Waits key) :
    ∃ bs g now cs u, as = bs ++ .acknowledge key g now :: cs ∧ Run Step s bs u ∧
      (u.acknowledge key g now).1 = true ∧ n < g := by
  induction hrun with
  | nil => exact absurd hwaits hdone
  | @cons s u t a as hstep hrun ih =>
    by_cases hu : u.Waits key
    · obtain ⟨bs, g, now, cs, v, rfl, hbs, hack⟩ := ih (hs.step hstep) hu hdone
      exact ⟨a :: bs, g, now, cs, v, rfl, .cons hstep hbs, hack⟩
    · obtain heq | ⟨now, -, hnext⟩ | ⟨g, now, rfl, hg, -⟩ := hstep.pendingGeneration key
      · rw [waits_iff] at hwaits hu
        rw [heq] at hu
        exact absurd hwaits hu
      · exact absurd (waits_iff.mpr ⟨_, hnext⟩) hu
      · exact ⟨[], g, now, as, s, rfl, .nil s, (acknowledge_fst_iff ..).mpr hg, hs.pending g hg⟩

/-- A read that publishes ran beside no invalidation of its route. -/
theorem no_invalidation_of_endRead {now : ℚ} {reader : HoursReader}
    (hread : (s.beginRead key now).1 = .reading reader)
    (hrun : Run Step (s.beginRead key now).2 as t) (hpublish : ¬ t.Superseded reader) :
    ∀ a ∈ as, ¬ a.Invalidates key.route := by
  intro a ha hinvalidates
  obtain ⟨bs, cs, u, u', -, hbefore, hstep, hafter⟩ := hrun.exists_step ha
  have hend : t.cacheSequence = reader.readSequence := by
    unfold Superseded at hpublish
    rw [not_or, not_or, not_not] at hpublish
    exact hpublish.2.1
  have hbegin : (s.beginRead key now).2.cacheSequence = reader.readSequence := by
    obtain ⟨hnone, -⟩ | ⟨reader', hreader', -, hsequence, -, heq⟩ := snd_beginRead s key now
    · exact absurd hread (hnone reader)
    · rw [heq]
      rw [hread, ReadStart.reading.injEq] at hreader'
      rw [hreader', hsequence]
      rfl
  have heffect : ∀ s (a : Act Row) t, Step s a t → a.Invalidates key.route →
      s.cacheSequence < t.cacheSequence := fun _ _ _ hstep => hstep.cacheSequence.2 _
  have hmono : ∀ s (a : Act Row) t, Step s a t → s.cacheSequence ≤ t.cacheSequence :=
    fun _ _ _ hstep => hstep.cacheSequence.1
  exact Run.no_effect_of_version_eq hmono heffect hbefore hstep hafter (hend.trans hbegin.symm)
    hinvalidates

/-- **Trading-hours refresh fences.** In every state the module comes to, what is cached was read
after the last invalidation of its route; a read that begins there publishes only if no
invalidation of its route ran beside it; a generation that is taken there ends a request only if
no other came since; and a request that is made there waits until a generation acknowledges it that
was taken after it was made. -/
theorem refresh_fences {as : List (Act Row)} {s : TradingHours Row}
    (hrun : Run Step initial as s) :
    (∀ route entry, s.cache.get? route = some entry → entry.seen = s.invalidations route) ∧
    (∀ key now reader bs t, (s.beginRead key now).1 = .reading reader →
      Run Step (s.beginRead key now).2 bs t → ¬ t.Superseded reader →
      ∀ a ∈ bs, ¬ a.Invalidates key.route) ∧
    (∀ key now bs t now', Run Step (s.refreshGeneration key now).2 bs t → t.Waits key →
      ¬ (t.acknowledge key (s.refreshGeneration key now).1 now').2.Waits key →
      ∀ n, .markStale key n ∉ bs) ∧
    (∀ key now bs t, Run Step (s.markStale key now) bs t → ¬ t.Waits key →
      ∃ cs g n ds u, bs = cs ++ .acknowledge key g n :: ds ∧ Run Step (s.markStale key now) cs u ∧
        (u.acknowledge key g n).1 = true ∧
        ∀ v es m, Reachable v → Run Step v es s → (v.refreshGeneration key m).1 < g) := by
  have hs : Reachable s := ⟨as, hrun⟩
  refine ⟨hs.fenced.cached_seen, fun key now reader bs t hread hbs hpublish =>
      no_invalidation_of_endRead hread hbs hpublish, fun key now bs t now' hbs hwaits hdone n => ?_,
    fun key now bs t hbs hdone => ?_⟩
  · refine no_markStale_of_acknowledge hs hbs ?_ n
    by_contra hne
    rw [waits_iff, pendingGeneration_acknowledge, if_neg fun h => hne h.2, ← waits_iff] at hdone
    exact hdone hwaits
  · have hwaits : (s.markStale key now).Waits key :=
      waits_iff.mpr ⟨_, (pendingGeneration_markStale s key key now).trans (if_pos rfl)⟩
    obtain ⟨cs, g, n, ds, u, heq, hcs, hack, hg⟩ :=
      exists_acknowledge (newerThan_markStale s key now) hwaits hbs hdone
    refine ⟨cs, g, n, ds, u, heq, hcs, hack, fun v es m hv hes => ?_⟩
    calc (v.refreshGeneration key m).1 ≤ v.refreshSequence := hv.generation_le key m
      _ ≤ s.refreshSequence := refreshSequence_le_of_run hes
      _ < g := hg

/-! ### A reload -/

def frontRoute : SessionRefreshKey := ⟨"ibkr", "ES", "front"⟩

/-- The read of the front route that begins at second 3, after one request. -/
def frontReader : HoursReader := ⟨frontRoute, 3, 0, 1, 1⟩

/-- A request, its acknowledgement, and a read that publishes. -/
def reloadActs : List (Act ℕ) :=
  [.markStale frontRoute 0, .refreshGeneration frontRoute 1, .acknowledge frontRoute 1 2,
    .beginRead frontRoute 3, .endRead frontReader (some 9)]

def reloaded : TradingHours ℕ :=
  let s := (initial.markStale frontRoute 0).refreshGeneration frontRoute 1
  let s := ((s.2.acknowledge frontRoute 1 2).2.beginRead frontRoute 3).2
  (s.endRead frontReader (some 9)).2

theorem run_reloaded : Run Step initial reloadActs reloaded :=
  .cons (.markStale frontRoute 0) <| .cons (.refreshGeneration frontRoute 1) <|
    .cons (.acknowledge frontRoute 1 2) <| .cons (.beginRead frontRoute 3) <|
    .cons (.endRead frontReader (some 9) (by decide +kernel)) <| .nil _

/-- The row is published, and the old generation does not end a new request. -/
theorem refresh_fences_reloaded :
    (reloaded.cache.get? frontRoute.route).map CachedHours.row = some (some 9) ∧
    (∀ entry, reloaded.cache.get? frontRoute.route = some entry →
      entry.seen = reloaded.invalidations frontRoute.route) ∧
    (reloaded.refreshGeneration frontRoute 4).1 = 1 ∧
    (((reloaded.refreshGeneration frontRoute 4).2.markStale frontRoute 5).acknowledge
      frontRoute 1 6).2.Waits frontRoute := by
  obtain ⟨hseen, -, hgeneration, -⟩ := refresh_fences run_reloaded
  have hone : (reloaded.refreshGeneration frontRoute 4).1 = 1 := by decide +kernel
  refine ⟨by decide +kernel, hseen _, hone, ?_⟩
  by_contra hdone
  rw [← hone] at hdone
  exact hgeneration frontRoute 4 [.markStale frontRoute 5] _ 6 (.single (.markStale frontRoute 5))
    (by decide +kernel) hdone 5 List.mem_cons_self

end TradingHours

end AefTerminal
