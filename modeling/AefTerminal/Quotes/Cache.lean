import AefTerminal.Foundation.Fallible
import AefTerminal.Foundation.Run
import AefTerminal.Quotes.Envelope
import Mathlib.Algebra.Order.Ring.Rat
import Mathlib.Data.List.Sort

/-!
# The quote cache

The cache of the quote stream is four tables over the same identities: the quotes, when each was
published last, when its freshness changes next, and the current routes. A publication evaluates the
new rows and those whose freshness is due, writes them one by one, evicts what is over the bound, and
raises the generation when a row differs from what was there in more than its ages.

The rows are written one by one, and the next deadline of a row is computed after the row was
written. That computation raises for a timestamp at the ends of the calendar; then the row stays, and
the generation, the bound and the earliest deadline are left as they were.

Times of the cache that only tell how old the last publication is are left out.

## Main definitions

* `QuoteStream`, `storeCache`, `replaceRouteSnapshot`, `cacheForInstruments`
* `QuoteCacheInv`
* `DatesFit`: no deadline of a row that is written leaves the calendar

## Main results

* `quoteCache_revisions`: in runs of such calls the tables agree and a generation names one content
* `quoteCache_revisions_lastDay`: without it a row is published under the old generation
-/

namespace AefTerminal

open Foundation

abbrev QuoteIdentity := String × String

/-! ### Routes -/

structure QuoteRouteEntry where
  instrumentId : String
  provider : String
  providerSymbol : String
  routeFingerprint : String
  instrument : Quote

def sameMapping (a b : Quote) : Bool := (a.keys ++ b.keys).all fun k => a.get? k = b.get? k

/-- The items of the signature of a snapshot, and the payload. -/
def sameEntry (a b : QuoteRouteEntry) : Bool :=
  a.instrumentId = b.instrumentId && a.provider = b.provider &&
    a.providerSymbol = b.providerSymbol && a.routeFingerprint = b.routeFingerprint &&
    sameMapping a.instrument b.instrument

structure QuoteRouteSnapshot where
  generation : ℕ
  watchlistVersion : ℤ
  entries : Dict String QuoteRouteEntry

def QuoteRouteSnapshot.routeIdentities (snapshot : QuoteRouteSnapshot) : List QuoteIdentity :=
  snapshot.entries.entries.map fun e => (e.2.instrumentId, e.2.routeFingerprint)

/-- The entries of a new snapshot. A row that `route_instrument` rejects is `none`. -/
def routeEntries (instruments : List (Option QuoteRouteEntry)) :
    Option (Dict String QuoteRouteEntry) :=
  instruments.foldlM (fun entries instrument => do
    let entry ← instrument
    if entry.instrumentId ∈ entries.keys then none
    else some (entries.insert entry.instrumentId entry)) Dict.empty

/-- Equal signatures and equal payloads. -/
def unchangedEntries (current entries : Dict String QuoteRouteEntry) : Bool :=
  entries.size = current.size &&
    entries.entries.all fun e => (current.get? e.1).any fun entry => sameEntry entry e.2

/-! ### The state -/

structure QuoteStreamConfig where
  /-- `max(quote_stream_seconds * 10.0, 5.0)`, in microseconds. -/
  staleAfter : Time
  maxCacheEntries : ℕ
  maxCacheEntries_pos : 0 < maxCacheEntries

structure QuoteStream where
  cache : Dict QuoteIdentity Quote
  routeUpdatedAt : Dict QuoteIdentity ℚ
  freshnessDeadlines : Dict QuoteIdentity Time
  /-- None is the infinity of an empty table. -/
  nextFreshnessAt : Option Time
  freshnessCheckedAt : Time
  warning : String
  generation : ℕ
  snapshot : QuoteRouteSnapshot

def QuoteStream.start : QuoteStream where
  cache := Dict.empty
  routeUpdatedAt := Dict.empty
  freshnessDeadlines := Dict.empty
  nextFreshnessAt := none
  freshnessCheckedAt := (0 : ℤ)
  warning := ""
  generation := 0
  snapshot := ⟨0, -1, Dict.empty⟩

def QuoteStream.earliestDeadline (s : QuoteStream) : Option Time :=
  earliest (s.freshnessDeadlines.entries.map Prod.snd)

/-! ### Publication -/

/-- One call of `store_cache`. A row that is not a dictionary is `none`. -/
structure StoreCache where
  liveMap : Option (Dict QuoteIdentity (Option Quote))
  warning : String
  wallNow : Time
  now : ℚ

/-- A row to be written. -/
structure CacheRow where
  identity : QuoteIdentity
  quote : Quote
  incoming : Bool

section Publication

variable (cfg : QuoteStreamConfig) (s : QuoteStream) (c : StoreCache)

def liveRows : List (QuoteIdentity × Option Quote) := (c.liveMap.getD Dict.empty).entries

/-- `require_exact_identity_text` refuses empty texts. -/
def exactIdentities : Bool := (liveRows c).all fun e => e.1.1 ≠ "" && e.1.2 ≠ ""

/-- The new rows of routes of the current snapshot. -/
def incomingRows : List CacheRow :=
  (liveRows c).filterMap fun e =>
    match e.2 with
    | none => none
    | some quote =>
      if quote.entries = [] ∨ e.1 ∉ s.snapshot.routeIdentities then none
      else some ⟨e.1, quoteEnvelope quote c.wallNow cfg.staleAfter, true⟩

def clockRegressed : Bool := (c.wallNow : ℤ) < s.freshnessCheckedAt

def isDue (deadline : Option Time) : Bool := deadline.any fun d => (d : ℤ) ≤ c.wallNow

/-- The cached rows whose freshness may have changed. -/
def reevaluatedRows : List CacheRow :=
  if clockRegressed s c || isDue c s.nextFreshnessAt then
    (s.cache.entries.filter fun e =>
      e.1 ∉ (incomingRows cfg s c).map CacheRow.identity &&
        (clockRegressed s c || isDue c (s.freshnessDeadlines.get? e.1))).map fun e =>
      ⟨e.1, quoteEnvelope e.2 c.wallNow cfg.staleAfter, false⟩
  else []

def publishedRows : List CacheRow := incomingRows cfg s c ++ reevaluatedRows cfg s c

/-- One pass of the loop; the error is the state that a raise leaves behind. -/
def publishRow (acc : QuoteStream × Bool) (row : CacheRow) :
    Except QuoteStream (QuoteStream × Bool) :=
  let changed :=
    match acc.1.cache.get? row.identity with
    | none => true
    | some current => acc.2 || !samePayload current row.quote
  let written := { acc.1 with
    cache := acc.1.cache.insert row.identity row.quote
    routeUpdatedAt :=
      if row.incoming then acc.1.routeUpdatedAt.insert row.identity c.now
      else acc.1.routeUpdatedAt }
  match quoteEnvelopeNextTransition row.quote c.wallNow cfg.staleAfter with
  | none => .error written
  | some none =>
    .ok ({ written with freshnessDeadlines := written.freshnessDeadlines.erase row.identity },
      changed)
  | some (some deadline) =>
    .ok ({ written with
      freshnessDeadlines := written.freshnessDeadlines.insert row.identity deadline }, changed)

/-- The identities that were published longest ago, as many as are over the bound. -/
def oldestIdentities : List QuoteIdentity :=
  ((s.routeUpdatedAt.entries.insertionSort fun a b => a.2 ≤ b.2).take
    (s.cache.size - cfg.maxCacheEntries)).map Prod.fst

def dropIdentities (identities : List QuoteIdentity) : QuoteStream :=
  { s with
    cache := s.cache.eraseAll identities
    routeUpdatedAt := s.routeUpdatedAt.eraseAll identities
    freshnessDeadlines := s.freshnessDeadlines.eraseAll identities }

/-- The end of a publication with rows. -/
def settlePublication (changed : Bool) : QuoteStream × Bool :=
  let evicted :=
    if cfg.maxCacheEntries < s.cache.size then (dropIdentities s (oldestIdentities cfg s), true)
    else (s, changed)
  ({ evicted.1 with nextFreshnessAt := evicted.1.earliestDeadline }, evicted.2)

def storeCache : QuoteStream :=
  if ¬ exactIdentities c ∨ s.snapshot.generation = 0 then s
  else
    let rows := publishedRows cfg s c
    match rows.foldlM (publishRow cfg c)
        ({ s with freshnessCheckedAt := c.wallNow }, decide (s.warning ≠ c.warning)) with
    | .error written => written
    | .ok (written, changed) =>
      let settled := if rows.isEmpty then (written, changed) else settlePublication cfg written changed
      { settled.1 with
        warning := c.warning
        generation := if settled.2 then settled.1.generation + 1 else settled.1.generation }

end Publication

/-! ### Route replacement and reading -/

/-- `_replace_route_snapshot`; it raises before it changes anything. -/
def replaceRouteSnapshot (s : QuoteStream) (instruments : List (Option QuoteRouteEntry))
    (watchlistVersion : ℤ) : QuoteStream :=
  if watchlistVersion < 0 ∨ watchlistVersion < s.snapshot.watchlistVersion then s
  else
    match routeEntries instruments with
    | none => s
    | some entries =>
      if watchlistVersion = s.snapshot.watchlistVersion ∧
          unchangedEntries s.snapshot.entries entries then s
      else
        let snapshot : QuoteRouteSnapshot := ⟨s.snapshot.generation + 1, watchlistVersion, entries⟩
        let stale := s.cache.keys.filter fun i => i ∉ snapshot.routeIdentities
        let dropped := dropIdentities s stale
        { dropped with
          generation := if stale.isEmpty then dropped.generation else dropped.generation + 1
          nextFreshnessAt :=
            if stale.isEmpty then dropped.nextFreshnessAt else dropped.earliestDeadline
          snapshot := snapshot }

/-- `cache_for_instruments`, without the envelopes and warnings that it adds at the time of reading:
a reader that has the current revision is told nothing. -/
def cacheForInstruments (s : QuoteStream) (wanted : List QuoteIdentity) (afterGeneration : Option ℕ) :
    Option (List (QuoteIdentity × Quote)) × String × ℕ :=
  if afterGeneration = some s.generation then (none, s.warning, s.generation)
  else (some (wanted.map fun i => (i, (s.cache.get? i).getD Dict.empty)), s.warning, s.generation)

inductive QuoteStreamAct
  | store (c : StoreCache)
  | replaceRoutes (instruments : List (Option QuoteRouteEntry)) (watchlistVersion : ℤ)

def quoteStreamStep (cfg : QuoteStreamConfig) (s : QuoteStream) : QuoteStreamAct → QuoteStream
  | .store c => storeCache cfg s c
  | .replaceRoutes instruments version => replaceRouteSnapshot s instruments version

def QuoteStreamStep (cfg : QuoteStreamConfig) (s : QuoteStream) (a : QuoteStreamAct)
    (t : QuoteStream) : Prop :=
  t = quoteStreamStep cfg s a

/-! ### The condition and the invariant -/

/-- No boundary of a row that the call writes leaves the calendar. -/
def DatesFit (cfg : QuoteStreamConfig) (s : QuoteStream) : QuoteStreamAct → Prop
  | .store c => ∀ row ∈ publishedRows cfg s c, ∀ t ∈ quoteObservations row.quote,
      ∀ b ∈ freshnessBoundaries (freshnessLimit cfg.staleAfter) t, IsDatetime b
  | .replaceRoutes _ _ => True

/-- The tables have the identities they should have; this holds between two rows, too. -/
structure TablesAgree (s : QuoteStream) : Prop where
  allowed : ∀ i ∈ s.cache.keys, i ∈ s.snapshot.routeIdentities
  updated : ∀ i, i ∈ s.routeUpdatedAt.keys ↔ i ∈ s.cache.keys
  deadlines : ∀ i ∈ s.freshnessDeadlines.keys, i ∈ s.cache.keys

structure QuoteCacheInv (cfg : QuoteStreamConfig) (s : QuoteStream) : Prop where
  tables : TablesAgree s
  bound : s.cache.size ≤ cfg.maxCacheEntries
  next : s.nextFreshnessAt = s.earliestDeadline

/-- What a revision is about: the warning, and of each identity whether it is there and what its
quote says besides its ages. -/
def SameContent (s t : QuoteStream) : Prop :=
  s.warning = t.warning ∧
    ∀ i, (s.cache.get? i).map semanticPayload = (t.cache.get? i).map semanticPayload

/-- A generation names one content. -/
def Revises (s t : QuoteStream) : Prop :=
  s.generation ≤ t.generation ∧ (t.generation = s.generation → SameContent s t)

theorem SameContent.refl (s : QuoteStream) : SameContent s s := ⟨rfl, fun _ => rfl⟩

variable {s t : QuoteStream}

theorem SameContent.trans {u : QuoteStream} (h : SameContent s t) (k : SameContent t u) :
    SameContent s u :=
  ⟨h.1.trans k.1, fun i => (h.2 i).trans (k.2 i)⟩

theorem Revises.refl (s : QuoteStream) : Revises s s := ⟨le_rfl, fun _ => .refl s⟩

theorem Revises.trans {u : QuoteStream} (h : Revises s t) (k : Revises t u) : Revises s u := by
  refine ⟨h.1.trans k.1, fun heq => ?_⟩
  have hst : t.generation = s.generation := le_antisymm (heq ▸ k.1) h.1
  have htu : u.generation = t.generation := by rw [heq, hst]
  exact (h.2 hst).trans (k.2 htu)

theorem QuoteCacheInv.start (cfg : QuoteStreamConfig) : QuoteCacheInv cfg QuoteStream.start where
  tables := ⟨by simp [QuoteStream.start], by simp [QuoteStream.start], by simp [QuoteStream.start]⟩
  bound := Nat.zero_le _
  next := rfl

/-! ### Dropping identities -/

theorem TablesAgree.dropIdentities (h : TablesAgree s)
    (identities : List QuoteIdentity) : TablesAgree (dropIdentities s identities) where
  allowed i hi := h.allowed i (Dict.mem_keys_eraseAll.mp hi).2
  updated i := by
    show i ∈ (s.routeUpdatedAt.eraseAll identities).keys ↔ i ∈ (s.cache.eraseAll identities).keys
    rw [Dict.mem_keys_eraseAll, Dict.mem_keys_eraseAll, h.updated]
  deadlines i hi := by
    obtain ⟨hnot, hmem⟩ := Dict.mem_keys_eraseAll.mp hi
    exact Dict.mem_keys_eraseAll.mpr ⟨hnot, h.deadlines i hmem⟩

/-- What is evicted are as many cached identities as are over the bound. -/
theorem size_evicted (cfg : QuoteStreamConfig) (h : TablesAgree s) :
    (s.cache.eraseAll (oldestIdentities cfg s)).size
      + (s.cache.size - cfg.maxCacheEntries) = s.cache.size := by
  let sorted := s.routeUpdatedAt.entries.insertionSort fun a b => a.2 ≤ b.2
  have hperm : sorted.Perm s.routeUpdatedAt.entries := List.perm_insertionSort _ _
  have hkeys : (sorted.map Prod.fst).Perm s.routeUpdatedAt.keys := hperm.map _
  have hnodup : (sorted.map Prod.fst).Nodup := hkeys.nodup_iff.mpr s.routeUpdatedAt.nodup_keys
  have hold : oldestIdentities cfg s
      = (sorted.map Prod.fst).take (s.cache.size - cfg.maxCacheEntries) := List.map_take
  have hlen : (oldestIdentities cfg s).length = s.cache.size - cfg.maxCacheEntries := by
    have hsize : s.routeUpdatedAt.size = s.cache.size := Dict.size_eq_of_keys h.updated
    rw [hold, List.length_take, hkeys.length_eq, Dict.length_keys, hsize]
    omega
  have hmem : ∀ i ∈ oldestIdentities cfg s, i ∈ s.cache.keys := by
    intro i hi
    rw [hold] at hi
    exact (h.updated i).mp (hkeys.mem_iff.mp (List.mem_of_mem_take hi))
  have hsize := Dict.size_eraseAll (hold ▸ hnodup.sublist (List.take_sublist _ _)) hmem
  rw [hlen] at hsize
  exact hsize

/-! ### Writing one row -/

theorem nextTransition_eq_some {row : Quote} {now staleAfter : Time}
    (h : ∀ t ∈ quoteObservations row,
      ∀ b ∈ freshnessBoundaries (freshnessLimit staleAfter) t, IsDatetime b) :
    ∃ d, quoteEnvelopeNextTransition row now staleAfter = some d := by
  refine ⟨_, if_pos fun b hb => ?_⟩
  obtain ⟨t, ht, hb⟩ := List.mem_flatMap.mp hb
  exact h t ht b hb

/-- What the loop has kept so far, from the state and the flag it started with. -/
structure PublishInv (s : QuoteStream) (changed : Bool) (acc : QuoteStream × Bool) : Prop where
  tables : TablesAgree acc.1
  snapshot : acc.1.snapshot = s.snapshot
  generation : acc.1.generation = s.generation
  warning : acc.1.warning = s.warning
  grows : ∀ i ∈ s.cache.keys, i ∈ acc.1.cache.keys
  unchanged : acc.2 = false → changed = false ∧ ∀ i,
    (s.cache.get? i).map semanticPayload = (acc.1.cache.get? i).map semanticPayload

variable {cfg : QuoteStreamConfig}

theorem publishRow_eq_ok {c : StoreCache} {acc : QuoteStream × Bool}
    {row : CacheRow} (h : ∃ d, quoteEnvelopeNextTransition row.quote c.wallNow cfg.staleAfter
      = some d) : ∃ acc', publishRow cfg c acc row = .ok acc' := by
  obtain ⟨d, hd⟩ := h
  rw [publishRow]
  dsimp only
  rw [hd]
  cases d with
  | none => exact ⟨_, rfl⟩
  | some deadline => exact ⟨_, rfl⟩

/-- A row that was written is in both tables, and in the third at most. -/
theorem publishRow_spec {c : StoreCache} {acc acc' : QuoteStream × Bool}
    {row : CacheRow} (h : publishRow cfg c acc row = .ok acc') :
    acc'.1.cache = acc.1.cache.insert row.identity row.quote ∧
    acc'.1.routeUpdatedAt = (if row.incoming then acc.1.routeUpdatedAt.insert row.identity c.now
      else acc.1.routeUpdatedAt) ∧ (∀ i ∈ acc'.1.freshnessDeadlines.keys,
      i = row.identity ∨ i ∈ acc.1.freshnessDeadlines.keys) ∧
    acc'.1.snapshot = acc.1.snapshot ∧ acc'.1.generation = acc.1.generation ∧
    acc'.1.warning = acc.1.warning ∧ acc'.2 = (match acc.1.cache.get? row.identity with
      | none => true
      | some current => acc.2 || !samePayload current row.quote) := by
  rw [publishRow] at h
  dsimp only at h
  split at h
  · cases h
  · cases h
    exact ⟨rfl, rfl, fun i hi => Or.inr (Dict.mem_keys_erase.mp hi).2, rfl, rfl, rfl, rfl⟩
  · cases h
    exact ⟨rfl, rfl, fun i hi => Dict.mem_keys_insert.mp hi, rfl, rfl, rfl, rfl⟩

theorem PublishInv.publishRow {c : StoreCache}
    {changed : Bool} {acc acc' : QuoteStream × Bool} {row : CacheRow}
    (h : PublishInv s changed acc) (hallowed : row.identity ∈ s.snapshot.routeIdentities)
    (hknown : row.incoming = true ∨ row.identity ∈ s.cache.keys)
    (hpub : publishRow cfg c acc row = .ok acc') : PublishInv s changed acc' := by
  obtain ⟨hcache, hupdated, hdeadlines, hsnapshot, hgeneration, hwarning, hflag⟩ :=
    publishRow_spec hpub
  have hkeys : ∀ i, i ∈ acc'.1.cache.keys ↔ i = row.identity ∨ i ∈ acc.1.cache.keys := fun i => by
    rw [hcache, Dict.mem_keys_insert]
  refine ⟨⟨?_, ?_, ?_⟩, hsnapshot.trans h.snapshot, hgeneration.trans h.generation,
    hwarning.trans h.warning, fun i hi => (hkeys i).mpr (Or.inr (h.grows i hi)), ?_⟩
  · intro i hi
    rw [hsnapshot]
    rcases (hkeys i).mp hi with rfl | hi
    · exact h.snapshot ▸ hallowed
    · exact h.tables.allowed i hi
  · intro i
    rw [hkeys, hupdated]
    split
    · rw [Dict.mem_keys_insert, h.tables.updated]
    · rename_i hnot
      have hold : row.identity ∈ acc.1.cache.keys :=
        h.grows _ (hknown.resolve_left hnot)
      rw [h.tables.updated]
      constructor
      · exact Or.inr
      · rintro (rfl | hi)
        · exact hold
        · exact hi
  · intro i hi
    rcases hdeadlines i hi with rfl | hi
    · exact (hkeys _).mpr (Or.inl rfl)
    · exact (hkeys i).mpr (Or.inr (h.tables.deadlines i hi))
  · intro hfalse
    rw [hfalse] at hflag
    split at hflag
    · cases hflag
    · rename_i current hcurrent
      obtain ⟨hacc, hsame⟩ := Bool.or_eq_false_iff.mp hflag.symm
      obtain ⟨hchanged, hcontent⟩ := h.unchanged hacc
      refine ⟨hchanged, fun i => ?_⟩
      rw [hcontent i, hcache, Dict.get?_insert]
      split
      · rename_i hi
        rw [hi, hcurrent, Option.map_some, Option.map_some,
          samePayload_iff.mp (by simpa using hsame)]
      · rfl

/-! ### One publication -/

section Publication

variable {cfg : QuoteStreamConfig} {s : QuoteStream} {c : StoreCache}

/-- The rows of a publication are of current routes; a row that was not sent was cached. -/
theorem mem_publishedRows (h : TablesAgree s) {row : CacheRow}
    (hrow : row ∈ publishedRows cfg s c) :
    row.identity ∈ s.snapshot.routeIdentities ∧
      (row.incoming = true ∨ row.identity ∈ s.cache.keys) := by
  rcases List.mem_append.mp hrow with hrow | hrow
  · obtain ⟨e, -, he⟩ := List.mem_filterMap.mp hrow
    split at he
    · cases he
    · split at he
      · cases he
      · rename_i hcond
        cases he
        push Not at hcond
        exact ⟨hcond.2, Or.inl rfl⟩
  · rw [reevaluatedRows] at hrow
    split at hrow
    · obtain ⟨e, he, rfl⟩ := List.mem_map.mp hrow
      have hkey : e.1 ∈ s.cache.keys := List.mem_map_of_mem (List.mem_filter.mp he).1
      exact ⟨h.allowed _ hkey, Or.inr hkey⟩
    · simp at hrow

/-- Where the dates fit the loop comes to its end. -/
theorem publish_loop (h : TablesAgree s) (hfit : DatesFit cfg s (.store c)) :
    ∃ acc, (publishedRows cfg s c).foldlM (publishRow cfg c)
        ({ s with freshnessCheckedAt := c.wallNow }, decide (s.warning ≠ c.warning)) = .ok acc ∧
      PublishInv s (decide (s.warning ≠ c.warning)) acc := by
  obtain ⟨acc, hacc⟩ := exists_foldlM_eq_ok (f := publishRow cfg c)
    (l := publishedRows cfg s c)
    (b := ({ s with freshnessCheckedAt := c.wallNow }, decide (s.warning ≠ c.warning)))
    fun row hrow _ => publishRow_eq_ok (nextTransition_eq_some (hfit row hrow))
  refine ⟨acc, hacc, ?_⟩
  refine foldlM_induct (P := PublishInv s (decide (s.warning ≠ c.warning))) ?_ ?_ hacc
  · intro acc row acc' hrow hinv hpub
    obtain ⟨hallowed, hknown⟩ := mem_publishedRows h hrow
    exact hinv.publishRow hallowed hknown hpub
  · exact ⟨⟨h.allowed, h.updated, h.deadlines⟩, rfl, rfl, rfl, fun _ hi => hi,
      fun hc => ⟨hc, fun _ => rfl⟩⟩

theorem settlePublication_spec (cfg : QuoteStreamConfig) (h : TablesAgree s) (changed : Bool) :
    QuoteCacheInv cfg (settlePublication cfg s changed).1 ∧
    (settlePublication cfg s changed).1.snapshot = s.snapshot ∧
    (settlePublication cfg s changed).1.generation = s.generation ∧
    ((settlePublication cfg s changed).2 = false → changed = false ∧
      (settlePublication cfg s changed).1.cache = s.cache) := by
  rw [settlePublication]
  split
  · rename_i hover
    have hdrop := h.dropIdentities (oldestIdentities cfg s)
    refine ⟨⟨⟨hdrop.allowed, hdrop.updated, hdrop.deadlines⟩, ?_, rfl⟩, rfl, rfl, nofun⟩
    have hsize := size_evicted cfg h
    show (s.cache.eraseAll (oldestIdentities cfg s)).size ≤ cfg.maxCacheEntries
    omega
  · rename_i hfits
    exact ⟨⟨⟨h.allowed, h.updated, h.deadlines⟩, not_lt.mp hfits, rfl⟩, rfl, rfl,
      fun hc => ⟨hc, rfl⟩⟩

theorem storeCache_spec (h : QuoteCacheInv cfg s) (hfit : DatesFit cfg s (.store c)) :
    QuoteCacheInv cfg (storeCache cfg s c) ∧ Revises s (storeCache cfg s c) := by
  obtain ⟨acc, hacc, hloop⟩ := publish_loop h.tables hfit
  rw [storeCache]
  split
  · exact ⟨h, .refl s⟩
  dsimp only
  rw [hacc]
  dsimp only
  split
  · rename_i hempty
    rw [List.isEmpty_iff.mp hempty, List.foldlM_nil] at hacc
    cases hacc
    refine ⟨⟨⟨h.tables.allowed, h.tables.updated, h.tables.deadlines⟩, h.bound, h.next⟩, ?_⟩
    show Revises s _
    by_cases hw : s.warning = c.warning
    · exact ⟨by simp [hw], fun _ => ⟨hw, fun _ => rfl⟩⟩
    · exact ⟨by simp [hw], fun heq => absurd heq (by simp [hw])⟩
  · obtain ⟨hinv, hsnapshot, hgeneration, hkept⟩ :=
      settlePublication_spec cfg hloop.tables acc.2
    refine ⟨⟨⟨hinv.tables.allowed, hinv.tables.updated, hinv.tables.deadlines⟩, hinv.bound,
      hinv.next⟩, ?_⟩
    have hsame : (settlePublication cfg acc.1 acc.2).1.generation = s.generation :=
      hgeneration.trans hloop.generation
    cases hflag : (settlePublication cfg acc.1 acc.2).2 with
    | true => exact ⟨by simp [hsame], fun heq => absurd heq (by simp [hsame])⟩
    | false =>
      obtain ⟨hacc, hcache⟩ := hkept hflag
      obtain ⟨hwarning, hcontent⟩ := hloop.unchanged hacc
      refine ⟨by simp [hsame], fun _ => ⟨by simpa using hwarning, fun i => ?_⟩⟩
      show _ = ((settlePublication cfg acc.1 acc.2).1.cache.get? i).map semanticPayload
      rw [hcache, hcontent i]

end Publication

theorem replaceRouteSnapshot_spec
    (h : QuoteCacheInv cfg s) (instruments : List (Option QuoteRouteEntry)) (version : ℤ) :
    QuoteCacheInv cfg (replaceRouteSnapshot s instruments version) ∧
      Revises s (replaceRouteSnapshot s instruments version) := by
  rw [replaceRouteSnapshot]
  split
  · exact ⟨h, .refl s⟩
  split
  · exact ⟨h, .refl s⟩
  rename_i entries _
  split
  · exact ⟨h, .refl s⟩
  dsimp only
  generalize hstale : (s.cache.keys.filter fun i => decide
    (i ∉ QuoteRouteSnapshot.routeIdentities ⟨s.snapshot.generation + 1, version, entries⟩)) = stale
  have hdrop := h.tables.dropIdentities stale
  have hallowed : ∀ i ∈ (dropIdentities s stale).cache.keys,
      i ∈ QuoteRouteSnapshot.routeIdentities ⟨s.snapshot.generation + 1, version, entries⟩ := by
    intro i hi
    obtain ⟨hnot, hmem⟩ := Dict.mem_keys_eraseAll.mp hi
    by_contra hout
    exact hnot (hstale ▸ List.mem_filter.mpr ⟨hmem, by simpa using hout⟩)
  have hbound : (dropIdentities s stale).cache.size ≤ cfg.maxCacheEntries :=
    (Dict.size_eraseAll_le s.cache stale).trans h.bound
  cases stale with
  | nil =>
    exact ⟨⟨⟨hallowed, hdrop.updated, hdrop.deadlines⟩, hbound, h.next⟩, le_rfl,
      fun _ => ⟨rfl, fun _ => rfl⟩⟩
  | cons i stale =>
    refine ⟨⟨⟨hallowed, hdrop.updated, hdrop.deadlines⟩, hbound, rfl⟩, Nat.le_succ _, ?_⟩
    intro heq
    exact absurd heq (Nat.succ_ne_self _)

/-! ### Runs -/

theorem quoteStreamStep_spec {a : QuoteStreamAct}
    (h : QuoteCacheInv cfg s) (hstep : Guarded (DatesFit cfg) (QuoteStreamStep cfg) s a t) :
    QuoteCacheInv cfg t ∧ Revises s t := by
  obtain ⟨hfit, rfl⟩ := hstep
  cases a with
  | store c => exact storeCache_spec h hfit
  | replaceRoutes instruments version => exact replaceRouteSnapshot_spec h instruments version

theorem QuoteCacheInv.run {as : List QuoteStreamAct}
    (h : Run (Guarded (DatesFit cfg) (QuoteStreamStep cfg)) s as t) (hs : QuoteCacheInv cfg s) :
    QuoteCacheInv cfg t :=
  h.invariant (fun _ _ _ hinv hstep => (quoteStreamStep_spec hinv hstep).1) hs

theorem Revises.run {as : List QuoteStreamAct}
    (h : Run (Guarded (DatesFit cfg) (QuoteStreamStep cfg)) s as t) (hs : QuoteCacheInv cfg s) :
    Revises s t := by
  have hinv : ∀ s a t, QuoteCacheInv cfg s →
      Guarded (DatesFit cfg) (QuoteStreamStep cfg) s a t → QuoteCacheInv cfg t :=
    fun _ _ _ hs hstep => (quoteStreamStep_spec hs hstep).1
  have hrev : ∀ s a t, QuoteCacheInv cfg s →
      Guarded (DatesFit cfg) (QuoteStreamStep cfg) s a t → Revises s t :=
    fun _ _ _ hs hstep => (quoteStreamStep_spec hs hstep).2
  exact h.relates hinv Revises.refl (fun _ _ _ => Revises.trans) hrev hs

/-- The reader that is told nothing has the warning and the payloads of its revision. -/
theorem sameContent_of_told_nothing (h : Revises s t) {wanted : List QuoteIdentity}
    (hnone : (cacheForInstruments t wanted (some s.generation)).1 = none) : SameContent s t := by
  rw [cacheForInstruments] at hnone
  split at hnone
  · rename_i heq
    exact h.2 (Option.some.inj heq).symm
  · cases hnone

/-- In runs of calls whose deadlines stay in the calendar, the tables of every state agree, and two
moments of one generation have the same content: a reader that is told nothing missed nothing. -/
theorem quoteCache_revisions (cfg : QuoteStreamConfig) {s t : QuoteStream}
    {before after : List QuoteStreamAct}
    (hs : Run (Guarded (DatesFit cfg) (QuoteStreamStep cfg)) .start before s)
    (ht : Run (Guarded (DatesFit cfg) (QuoteStreamStep cfg)) s after t) :
    QuoteCacheInv cfg t ∧ (¬ SameContent s t → t.generation ≠ s.generation) ∧
      ∀ wanted, (cacheForInstruments t wanted (some s.generation)).1 = none → SameContent s t := by
  have hinv : QuoteCacheInv cfg s := .run hs (.start cfg)
  have hrev : Revises s t := .run ht hinv
  exact ⟨.run ht hinv, fun hdiff heq => hdiff (hrev.2 heq),
    fun _ hnone => sameContent_of_told_nothing hrev hnone⟩

/-! ### A row of the last day -/

namespace LastDay

def config : QuoteStreamConfig := ⟨(5000000 : ℤ), 1, by decide⟩

def identity : QuoteIdentity := ("US.NVDA", "route")

def entry : QuoteRouteEntry := ⟨"US.NVDA", "ibkr", "NVDA", "route", Dict.empty⟩

def row (at_ : Time) : Quote :=
  (Dict.empty.insert "time_basis" (.text "provider_event")).insert "provider_ts" (.instant at_)

def publish (at_ : Time) : QuoteStreamAct :=
  .store ⟨some (Dict.empty.insert identity (some (row at_))), "", (0 : ℤ), 1⟩

def routes : QuoteStreamAct := .replaceRoutes [some entry] 1

def routed : QuoteStream := quoteStreamStep config .start routes

/-- `9999-12-31T23:59:59+00:00`. -/
def lastSecond : Time := (253402300799000000 : ℤ)

theorem run_routed : Run (Guarded (DatesFit config) (QuoteStreamStep config)) .start [routes] routed :=
  .single ⟨trivial, rfl⟩

end LastDay

open LastDay in
/-- A quote of this moment is published under a new generation. -/
theorem quoteCache_revisions_now :
    Run (Guarded (DatesFit config) (QuoteStreamStep config)) .start [routes] routed ∧
    QuoteCacheInv config (quoteStreamStep config routed (publish (0 : ℤ))) := by
  have hfit : ∀ r ∈ publishedRows config routed
      ⟨some (Dict.empty.insert identity (some (row (0 : ℤ)))), "", (0 : ℤ), 1⟩,
      ∀ t ∈ quoteObservations r.quote,
        ∀ b ∈ freshnessBoundaries (freshnessLimit config.staleAfter) t, IsDatetime b := by
    decide +kernel
  have hrun : Run (Guarded (DatesFit config) (QuoteStreamStep config)) routed
      [publish (0 : ℤ)] (quoteStreamStep config routed (publish (0 : ℤ))) :=
    .single ⟨hfit, rfl⟩
  exact ⟨run_routed, (quoteCache_revisions config run_routed hrun).1⟩

open LastDay in
/-- A quote of the last second of the calendar is there afterwards, under the generation of the state
without it, with no deadline, and a reader of that generation is told nothing. -/
theorem quoteCache_revisions_lastDay :
    ∃ t, Run (QuoteStreamStep config) .start [routes, publish lastSecond] t ∧
      identity ∉ routed.cache.keys ∧ identity ∈ t.cache.keys ∧ t.generation = routed.generation ∧
      (cacheForInstruments t [identity] (some routed.generation)).1 = none :=
  ⟨_, .cons rfl (.cons rfl (.nil _)), by decide +kernel, by decide +kernel, by decide +kernel,
    by decide +kernel⟩

end AefTerminal
