import AefTerminal.Quotes.LiveTrades

/-!
# Delivery of live quote trades

The hub compares a trade with the last signature of its identity. That collapses an immediate
repeat, and it is enough where a batch is seen once and the identity is still in the table. It does
not recognise a batch that is seen again: of two different trades the first one differs from the
signature, so both are published a second time.

Readers get what is published exactly once and in order, and a read says when it missed an event.

## Main definitions

* `TradeFeed.Remembers`: a callback meets no trade again, except one whose signature is still there
* `LiveTradesSound`

## Main results

* `live_trades_sound`: what is published and what the readers get, in runs with such callbacks
* `carried_batch_published_again`
-/

namespace AefTerminal

open Foundation TradeFeed

namespace TradeFeed

def arrivedOf (s : TradeFeed) (identity : QuoteIdentity) : List QuoteTradeEvent :=
  s.arrived.filter fun e => e.identity = identity

def publishedOf (s : TradeFeed) (identity : QuoteIdentity) : List QuoteTradeEvent :=
  (s.published.map (·.event)).filter fun e => e.identity = identity

/-- A trade that has the time and the price of the one before it finds its identity in the table,
which sees the identities of the trades before it. -/
def RepeatsKnown (s : TradeFeed) (trades : List QuoteTradeEvent) : Prop :=
  ∀ i (hi : i < trades.length),
    lastKey (·.signature)
        ((s.arrived ++ trades.take i).filter fun d => d.identity = trades[i].identity) =
      some trades[i].signature →
    trades[i].identity ∈ ((trades.take i).map (·.identity)).foldl
      (rememberKey liveTradeSignatureLimit) s.hub.signatures.keys

instance (s : TradeFeed) (trades : List QuoteTradeEvent) : Decidable (s.RepeatsKnown trades) :=
  inferInstanceAs (Decidable (∀ i (_ : i < trades.length), _ → _))

/-- A callback meets no trade again, except one whose signature is still there. -/
def Remembers (routes : ℕ → Option TickerRoute) (s : TradeFeed) : TradeAct → Prop
  | .update batches => s.RepeatsKnown (arrivals routes batches)
  | .error tickers => ∀ t ∈ tickers, ∀ e ∈ tickerEvents (routes t) (s.carried t), s.hub.repeats e
  | .join .. => True
  | .read _ => True

instance (routes : ℕ → Option TickerRoute) (s : TradeFeed) (a : TradeAct) :
    Decidable (s.Remembers routes a) :=
  match a with
  | .update batches => inferInstanceAs (Decidable (s.RepeatsKnown (arrivals routes batches)))
  | .error tickers => inferInstanceAs (Decidable
      (∀ t ∈ tickers, ∀ e ∈ tickerEvents (routes t) (s.carried t), s.hub.repeats e))
  | .join .. => isTrue trivial
  | .read _ => isTrue trivial

end TradeFeed

/-- Every valid trade is published once, and every reader gets every published event once. -/
structure LiveTradesSound (s : TradeFeed) : Prop where
  published : ∀ identity, s.publishedOf identity = collapse (·.signature) (s.arrivedOf identity)
  numbered : s.published.map (·.sequence) = List.range' 1 s.hub.sequence
  once : ∀ (k : ℕ) r, s.readers k = some r →
    r.delivered.Sublist (s.published.filter (wantedTrade r.wanted))
  complete : ∀ (k : ℕ) r, s.readers k = some r → ∀ e ∈ s.published, wantedTrade r.wanted e →
    r.since < e.sequence → (e.sequence : ℤ) ≤ r.cursor → e ∈ r.delivered
  overflowed : ∀ (k : ℕ) r, s.readers k = some r → 0 ≤ r.cursor →
    ((readLiveQuoteTradeEvents s.hub r.cursor r.wanted).overflowed = true ↔
      ∃ e ∈ s.published, r.cursor < e.sequence ∧ e ∉ s.hub.events)

/-! ### The table of signatures -/

theorem keys_trimSignatures {d : Dict QuoteIdentity (Time × ℚ)} {i : QuoteIdentity} (hi : i ∉ d.keys)
    (v : Time × ℚ) :
    (trimSignatures (d.insert i v) i).keys = rememberKey liveTradeSignatureLimit d.keys i := by
  have hkeys := Dict.keys_insert_of_notMem hi v
  have hnodup : (d.insert i v).keys.Nodup := (d.insert i v).nodup_keys
  rw [rememberKey, if_neg hi, ← hkeys, Dict.length_keys, trimSignatures]
  split_ifs with hfull
  · cases hd : d.keys with
    | nil =>
      rw [← Dict.length_keys, hkeys, hd] at hfull
      simp [liveTradeSignatureLimit] at hfull
    | cons stale rest =>
      have hcons : (d.insert i v).keys = stale :: (rest ++ [i]) := by rw [hkeys, hd]; rfl
      have hne : stale ≠ i := by
        rintro rfl
        exact hi (hd ▸ List.mem_cons_self)
      have hnot : stale ∉ rest ++ [i] := (List.nodup_cons.mp (hcons ▸ hnodup)).1
      simp only [hcons]
      rw [if_pos hne, Dict.keys_erase, hcons, List.filter_cons_of_neg (by simp), List.tail_cons]
      refine List.filter_eq_self.mpr fun k hk => decide_eq_true ?_
      rintro rfl
      exact hnot hk
  · rfl

theorem get?_of_trimSignatures {d : Dict QuoteIdentity (Time × ℚ)} {i j : QuoteIdentity}
    {v : Time × ℚ} (h : (trimSignatures d i).get? j = some v) : d.get? j = some v := by
  rw [trimSignatures] at h
  split_ifs at h with hfull
  · split at h
    · split_ifs at h
      · rw [Dict.get?_erase] at h
        split_ifs at h
        exact h
      · exact h
    · exact h
  · exact h

/-- The identities of the table after a trade. -/
theorem TradeHub.keys_publishTrade {h : TradeHub} (hsize : h.signatures.size ≤ liveTradeSignatureLimit)
    (e : QuoteTradeEvent) :
    (h.publishTrade e).signatures.keys =
      rememberKey liveTradeSignatureLimit h.signatures.keys e.identity := by
  rw [TradeHub.publishTrade]
  split_ifs with hrepeats
  · rw [rememberKey, if_pos (Dict.mem_keys_of_get? hrepeats)]
  · by_cases hmem : e.identity ∈ h.signatures.keys
    · have hkeys := Dict.keys_insert_of_mem hmem e.signature
      have hfits : ¬ liveTradeSignatureLimit < (h.signatures.insert e.identity e.signature).size := by
        rw [← Dict.length_keys, hkeys, Dict.length_keys]
        omega
      rw [rememberKey, if_pos hmem, trimSignatures, if_neg hfits, hkeys]
    · exact keys_trimSignatures hmem e.signature

theorem length_rememberKey_le {κ : Type*} [DecidableEq κ] {limit : ℕ} {keys : List κ}
    (h : keys.length ≤ limit) (k : κ) : (rememberKey limit keys k).length ≤ limit := by
  rw [rememberKey]
  split_ifs with hmem hfull
  · exact h
  · simp only [List.length_tail, List.length_append, List.length_singleton]
    omega
  · omega

theorem TradeHub.publishTrade_of_not_repeats {h : TradeHub} {e : QuoteTradeEvent}
    (hnew : ¬ h.repeats e) :
    h.publishTrade e =
      { sequence := h.sequence + 1
        events := keepLast liveTradeEventLimit (h.events ++ [⟨h.sequence + 1, e⟩])
        signatures := trimSignatures (h.signatures.insert e.identity e.signature) e.identity } := by
  rw [publishTrade, if_neg hnew]

/-! ### What is published -/

/-- The hub against what arrived so far. -/
structure HubInv (s : TradeFeed) : Prop where
  size : s.hub.signatures.size ≤ liveTradeSignatureLimit
  table : ∀ identity v, s.hub.signatures.get? identity = some v →
    lastKey (·.signature) (s.arrivedOf identity) = some v
  published : ∀ identity, s.publishedOf identity = collapse (·.signature) (s.arrivedOf identity)

/-- One trade arrives and is handled. -/
def TradeFeed.arrive (s : TradeFeed) (e : QuoteTradeEvent) : TradeFeed :=
  { s.publish e with arrived := s.arrived ++ [e] }

theorem TradeFeed.arrivedOf_arrive (s : TradeFeed) (e : QuoteTradeEvent) (identity : QuoteIdentity) :
    (s.arrive e).arrivedOf identity =
      if e.identity = identity then s.arrivedOf identity ++ [e] else s.arrivedOf identity := by
  rw [arrivedOf, arrive, List.filter_append]
  by_cases h : e.identity = identity <;> simp [h, arrivedOf]

/-- A trade that is not a repeat, or whose identity is still in the table. -/
theorem HubInv.arrive {s : TradeFeed} (h : HubInv s) {e : QuoteTradeEvent}
    (hknown : lastKey (·.signature) (s.arrivedOf e.identity) = some e.signature →
      e.identity ∈ s.hub.signatures.keys) : HubInv (s.arrive e) := by
  have hlast : lastKey (·.signature) (s.arrivedOf e.identity) = some e.signature ↔
      s.hub.repeats e := by
    constructor
    · intro hsame
      obtain ⟨v, hv⟩ := Option.isSome_iff_exists.mp (Dict.mem_keys_iff.mp (hknown hsame))
      have hequal := (h.table _ v hv).symm.trans hsame
      rwa [Option.some.inj hequal] at hv
    · exact h.table _ _
  have hsize : (s.hub.publishTrade e).signatures.size ≤ liveTradeSignatureLimit := by
    rw [← Dict.length_keys, TradeHub.keys_publishTrade h.size]
    exact length_rememberKey_le (by rw [Dict.length_keys]; exact h.size) _
  by_cases hrepeats : s.hub.repeats e
  · have hhub : s.hub.publishTrade e = s.hub := if_pos hrepeats
    have hpublished : (s.arrive e).published = s.published := if_pos hrepeats
    refine ⟨hsize, ?_, ?_⟩
    · intro identity v hv
      have hv : (s.hub.publishTrade e).signatures.get? identity = some v := hv
      rw [hhub] at hv
      rw [arrivedOf_arrive]
      split_ifs with hid
      · subst hid
        rw [lastKey_concat, ← hv]
        exact hrepeats.symm
      · exact h.table identity v hv
    · intro identity
      rw [arrivedOf_arrive, publishedOf, hpublished]
      split_ifs with hid
      · subst hid
        rw [collapse_concat, if_pos (hlast.mpr hrepeats)]
        exact h.published _
      · exact h.published identity
  · have hpublished : (s.arrive e).published = s.published ++ [⟨s.hub.sequence + 1, e⟩] :=
      if_neg hrepeats
    have hhub := TradeHub.publishTrade_of_not_repeats hrepeats
    refine ⟨hsize, ?_, ?_⟩
    · intro identity v hv
      have hv : (s.hub.publishTrade e).signatures.get? identity = some v := hv
      rw [hhub] at hv
      have hget := get?_of_trimSignatures hv
      rw [Dict.get?_insert] at hget
      rw [arrivedOf_arrive]
      split_ifs at hget ⊢ with h₁ h₂ h₃
      · rw [lastKey_concat]
        exact hget
      · exact absurd h₁.symm h₂
      · exact absurd h₃.symm h₁
      · exact h.table identity v hget
    · intro identity
      have hprior := h.published identity
      rw [publishedOf] at hprior
      rw [arrivedOf_arrive, publishedOf, hpublished, List.map_append, List.filter_append, hprior]
      split_ifs with hid
      · subst hid
        rw [collapse_concat, if_neg fun hsame => hrepeats (hlast.mp hsame)]
        simp
      · simp [hid]

/-- All trades of a callback. -/
theorem HubInv.foldl_arrive {s : TradeFeed} (h : HubInv s) {trades : List QuoteTradeEvent}
    (hknown : s.RepeatsKnown trades) : HubInv (trades.foldl TradeFeed.arrive s) := by
  induction trades generalizing s with
  | nil => exact h
  | cons e trades ih =>
    rw [List.foldl_cons]
    refine ih (h.arrive fun hsame => ?_) fun i hi hsame => ?_
    · refine hknown 0 (Nat.succ_pos _) ?_
      rwa [List.take_zero, List.append_nil]
    · have harrived : (s.arrive e).arrived ++ trades.take i = s.arrived ++ (e :: trades).take (i + 1) := by
        rw [TradeFeed.arrive, List.append_assoc]
        rfl
      rw [harrived] at hsame
      have hmem := hknown (i + 1) (Nat.succ_lt_succ hi) hsame
      have hkeys := TradeHub.keys_publishTrade h.size e
      show trades[i].identity ∈
        ((trades.take i).map (·.identity)).foldl _ (s.hub.publishTrade e).signatures.keys
      rw [hkeys]
      exact hmem

theorem TradeFeed.foldl_publish_arrived (s : TradeFeed) (trades : List QuoteTradeEvent)
    (arrived : List QuoteTradeEvent) :
    trades.foldl publish { s with arrived } = { trades.foldl publish s with arrived } := by
  induction trades generalizing s with
  | nil => rfl
  | cons e trades ih => exact ih (s.publish e)

theorem TradeFeed.foldl_arrive (s : TradeFeed) (trades : List QuoteTradeEvent) :
    trades.foldl arrive s =
      { trades.foldl publish s with arrived := s.arrived ++ trades } := by
  induction trades generalizing s with
  | nil => rw [List.append_nil]; rfl
  | cons e trades ih =>
    rw [List.foldl_cons, ih (s.arrive e), arrive, foldl_publish_arrived, List.append_assoc]
    rfl

theorem TradeFeed.foldl_publish_of_repeats {s : TradeFeed} {trades : List QuoteTradeEvent}
    (h : ∀ e ∈ trades, s.hub.repeats e) : trades.foldl publish s = s := by
  induction trades with
  | nil => rfl
  | cons e trades ih =>
    obtain ⟨he, hrest⟩ := List.forall_mem_cons.mp h
    have hsame : s.publish e = s := by
      rw [publish, TradeHub.publishTrade, if_pos he, if_pos he]
    rw [List.foldl_cons, hsame]
    exact ih hrest

/-! ### What is read -/

/-- What a reader has, once it has a place. -/
structure ReaderInv (published : List PublishedTrade) (r : LiveReader) : Prop where
  fresh : r.cursor < 0 → r.delivered = []
  reading : 0 ≤ r.cursor →
    Reading (·.sequence) (wantedTrade r.wanted) published r.delivered r.since r.cursor.toNat

/-- The numbered log and its readers, whatever the callbacks see again. -/
structure LogInv (s : TradeFeed) : Prop where
  log : RetainedLog (·.sequence) s.published s.hub.events
  sequence : s.hub.sequence = s.published.length
  readers : ∀ (k : ℕ) r, s.readers k = some r → ReaderInv s.published r

theorem LogInv.publish {s : TradeFeed} (h : LogInv s) (e : QuoteTradeEvent) :
    LogInv (s.publish e) := by
  by_cases hrepeats : s.hub.repeats e
  · have hsame : s.publish e = s := by
      rw [TradeFeed.publish, TradeHub.publishTrade, if_pos hrepeats, if_pos hrepeats]
    rwa [hsame]
  · have hnext : s.hub.sequence + 1 = s.published.length + 1 := by rw [h.sequence]
    have hpublished : (s.publish e).published = s.published ++ [⟨s.hub.sequence + 1, e⟩] :=
      if_neg hrepeats
    have hhub := TradeHub.publishTrade_of_not_repeats hrepeats
    refine ⟨?_, ?_, fun k r hr => ?_⟩
    · show RetainedLog _ (s.publish e).published (s.hub.publishTrade e).events
      rw [hpublished, hhub]
      dsimp only
      exact h.log.push hnext (by simp [liveTradeEventLimit])
    · show (s.hub.publishTrade e).sequence = (s.publish e).published.length
      rw [hpublished, hhub, List.length_append, h.sequence, List.length_singleton]
    · have hr := h.readers k r hr
      rw [hpublished]
      exact ⟨hr.fresh, fun hplace => (hr.reading hplace).push hnext⟩

theorem LogInv.foldl_publish {s : TradeFeed} (h : LogInv s) (trades : List QuoteTradeEvent) :
    LogInv (trades.foldl TradeFeed.publish s) := by
  induction trades generalizing s with
  | nil => exact h
  | cons e trades ih => exact ih (h.publish e)

/-- A read from a place in the log. -/
theorem readLiveQuoteTradeEvents_of_nonneg (h : TradeHub) {afterSequence : ℤ}
    (hplace : 0 ≤ afterSequence) (wanted : List QuoteIdentity) :
    readLiveQuoteTradeEvents h afterSequence wanted =
      ⟨h.sequence,
        (readAfter (·.sequence) h.events afterSequence.toNat).filter (wantedTrade wanted),
        missed (·.sequence) h.events afterSequence.toNat⟩ := by
  rw [readLiveQuoteTradeEvents, if_neg (not_lt.mpr hplace), readAfter, List.filter_reverse]
  cases h.events with
  | nil => simp [missed]
  | cons e l => rfl

theorem ReaderInv.receive {s : TradeFeed} (h : LogInv s) {r : LiveReader}
    (hr : ReaderInv s.published r) :
    ReaderInv s.published
      (receive r (readLiveQuoteTradeEvents s.hub r.cursor r.wanted)) := by
  rcases lt_or_ge r.cursor 0 with hfresh | hplace
  · have hread : readLiveQuoteTradeEvents s.hub r.cursor r.wanted = ⟨s.hub.sequence, [], false⟩ :=
      if_pos hfresh
    rw [hread, TradeFeed.receive, if_pos (.inl hfresh), hr.fresh hfresh]
    exact ⟨fun _ => rfl, fun _ => Reading.start _⟩
  · rw [readLiveQuoteTradeEvents_of_nonneg _ hplace, TradeFeed.receive]
    refine ⟨fun hneg => absurd hneg (by simp), fun _ => ?_⟩
    have hread := (hr.reading hplace).read h.log
    simp only [not_lt.mpr hplace, false_or, h.sequence]
    exact hread

/-! ### Steps and runs -/

theorem LogInv.step {routes : ℕ → Option TickerRoute} {s s' : TradeFeed} {a : TradeAct}
    (h : LogInv s) (hstep : tradeStep routes s a = some s') : LogInv s' := by
  cases a with
  | update batches =>
    obtain ⟨-, h'⟩ := guard_bind_eq_some.mp hstep
    cases h'
    have hcarry : LogInv ({ s with arrived := s.arrived ++ arrivals routes batches }.carry batches) :=
      ⟨h.log, h.sequence, h.readers⟩
    exact hcarry.foldl_publish _
  | error tickers =>
    cases hstep
    exact h.foldl_publish _
  | join k wanted after =>
    cases hstep
    refine ⟨h.log, h.sequence, fun j r hr => ?_⟩
    by_cases hj : j = k
    · subst hj
      have hr : Function.update s.readers j _ j = some r := hr
      rw [Function.update_self] at hr
      cases hr
      exact ⟨fun _ => rfl, fun _ => Reading.start _⟩
    · have hr : Function.update s.readers k _ j = some r := hr
      rw [Function.update_of_ne hj] at hr
      exact h.readers j r hr
  | read k =>
    obtain ⟨r, hr, h'⟩ := Option.bind_eq_some_iff.mp hstep
    cases h'
    refine ⟨h.log, h.sequence, fun j r' hr' => ?_⟩
    by_cases hj : j = k
    · subst hj
      have hr' : Function.update s.readers j _ j = some r' := hr'
      rw [Function.update_self] at hr'
      cases hr'
      exact (h.readers j r hr).receive h
    · have hr' : Function.update s.readers k _ j = some r' := hr'
      rw [Function.update_of_ne hj] at hr'
      exact h.readers j r' hr'

theorem lookup_of_nodup {κ ν : Type*} [DecidableEq κ] {l : List (κ × ν)}
    (hnodup : (l.map Prod.fst).Nodup) {b : κ × ν} (hb : b ∈ l) : l.lookup b.1 = some b.2 := by
  induction l with
  | nil => exact absurd hb List.not_mem_nil
  | cons a l ih =>
    rw [List.map_cons, List.nodup_cons] at hnodup
    obtain ⟨hnot, hrest⟩ := hnodup
    rcases List.mem_cons.mp hb with rfl | hb
    · exact List.lookup_cons_self
    · have hne : b.1 ≠ a.1 := fun heq => hnot (heq ▸ List.mem_map_of_mem hb)
      rw [List.lookup_cons, beq_false_of_ne hne]
      exact ih hrest hb

/-- The trades that a callback handles are those that the update brings. -/
theorem flatMap_carried (routes : ℕ → Option TickerRoute) {batches : List (ℕ × List ProviderTick)}
    (hnodup : (batches.map Prod.fst).Nodup) (carried : ℕ → List ProviderTick) :
    ((batches.map Prod.fst).flatMap fun t =>
      tickerEvents (routes t) ((batches.lookup t).getD (carried t))) = arrivals routes batches := by
  rw [arrivals, List.flatMap_map]
  refine List.flatMap_congr fun b hb => ?_
  rw [lookup_of_nodup hnodup hb, Option.getD_some]

theorem HubInv.step {routes : ℕ → Option TickerRoute} {s s' : TradeFeed} {a : TradeAct}
    (h : HubInv s) (hok : s.Remembers routes a) (hstep : tradeStep routes s a = some s') :
    HubInv s' := by
  cases a with
  | update batches =>
    obtain ⟨hnodup, h'⟩ := guard_bind_eq_some.mp hstep
    cases h'
    have hcarry : HubInv (s.carry batches) := ⟨h.size, h.table, h.published⟩
    have hall : HubInv ((arrivals routes batches).foldl TradeFeed.arrive (s.carry batches)) :=
      hcarry.foldl_arrive hok
    rw [TradeFeed.foldl_arrive, ← foldl_publish_arrived] at hall
    show HubInv (((batches.map Prod.fst).flatMap fun t =>
      tickerEvents (routes t) ((batches.lookup t).getD (s.carried t))).foldl TradeFeed.publish _)
    rw [flatMap_carried routes hnodup]
    exact hall
  | error tickers =>
    cases hstep
    have hsame : s.record routes tickers = s := by
      refine foldl_publish_of_repeats fun e he => ?_
      obtain ⟨t, ht, he⟩ := List.mem_flatMap.mp he
      exact hok t ht e he
    rwa [hsame]
  | join k wanted after =>
    cases hstep
    exact ⟨h.size, h.table, h.published⟩
  | read k =>
    obtain ⟨r, -, h'⟩ := Option.bind_eq_some_iff.mp hstep
    cases h'
    exact ⟨h.size, h.table, h.published⟩

theorem logInv_empty : LogInv TradeFeed.empty := ⟨.nil, rfl, fun _ _ h => nomatch h⟩

theorem hubInv_empty : HubInv TradeFeed.empty where
  size := Nat.zero_le _
  table _ _ h := nomatch h
  published _ := rfl

theorem LogInv.overflowed_iff {s : TradeFeed} (h : LogInv s) {r : LiveReader} (hplace : 0 ≤ r.cursor) :
    (readLiveQuoteTradeEvents s.hub r.cursor r.wanted).overflowed = true ↔
      ∃ e ∈ s.published, r.cursor < e.sequence ∧ e ∉ s.hub.events := by
  rw [readLiveQuoteTradeEvents_of_nonneg _ hplace, h.log.lost_iff]
  refine exists_congr fun e => and_congr_right fun _ => and_congr_left fun _ => ?_
  omega

/-- What was read is sound in every run, whatever the callbacks see again. -/
theorem LogInv.once {s : TradeFeed} (h : LogInv s) {k : ℕ} {r : LiveReader}
    (hr : s.readers k = some r) : r.delivered.Sublist (s.published.filter (wantedTrade r.wanted)) := by
  have hinv := h.readers k r hr
  rcases lt_or_ge r.cursor 0 with hfresh | hplace
  · rw [hinv.fresh hfresh]
    exact List.nil_sublist _
  · refine (hinv.reading hplace).once.trans ?_
    rw [← List.filter_filter]
    exact List.filter_sublist

theorem LogInv.complete {s : TradeFeed} (h : LogInv s) {k : ℕ} {r : LiveReader}
    (hr : s.readers k = some r) {e : PublishedTrade} (he : e ∈ s.published)
    (hwanted : wantedTrade r.wanted e) (hafter : r.since < e.sequence)
    (huntil : (e.sequence : ℤ) ≤ r.cursor) : e ∈ r.delivered := by
  have hplace : 0 ≤ r.cursor := by omega
  exact ((h.readers k r hr).reading hplace).complete e he hwanted hafter (by omega)

/-- In a run whose callbacks meet no trade again, except one whose signature is still there, every
valid trade is published once, and every reader gets every published event once. -/
theorem live_trades_sound {routes : ℕ → Option TickerRoute} {as : List TradeAct} {s : TradeFeed}
    (h : Run (Guarded (TradeFeed.Remembers routes) (StepOf (tradeStep routes))) .empty as s) :
    LiveTradesSound s := by
  have hlog : LogInv s := h.unguard.invariant (fun _ _ _ hinv hstep => hinv.step hstep) logInv_empty
  have hhub : HubInv s :=
    h.invariant (fun _ _ _ hinv hstep => hinv.step hstep.1 hstep.2) hubInv_empty
  exact {
    published := hhub.published
    numbered := by rw [hlog.log.numbered, hlog.sequence]
    once := fun _ _ hr => hlog.once hr
    complete := fun _ _ hr _ he hwanted hafter huntil => hlog.complete hr he hwanted hafter huntil
    overflowed := fun _ _ _ hplace => hlog.overflowed_iff hplace }

/-! ### A run -/

namespace LiveTradesRun

def route : TickerRoute := ⟨"NQ", "CME.NQ", "route"⟩

def routes (ticker : ℕ) : Option TickerRoute := if ticker = 0 then some route else none

def tick (price : ℚ) (time : Time) : ProviderTick := ⟨some 4, some price, some time⟩

/-- A batch of two trades, and one more trade after it. -/
def acts : List TradeAct :=
  [.join 0 [("CME.NQ", "route")] 0,
    .update [(0, [tick 100 (1 : ℤ), tick 101 (2 : ℤ)])],
    .read 0,
    .update [(0, [tick 101 (2 : ℤ), ⟨some 1, some 99, some (3 : ℤ)⟩])],
    .error [0],
    .read 0]

/-- A batch of two trades that the error callback sees again. -/
def again : List TradeAct :=
  [.update [(0, [tick 100 (1 : ℤ), tick 101 (2 : ℤ)])], .error [0]]

def checked (s : TradeFeed) (a : TradeAct) : Option TradeFeed :=
  if s.Remembers routes a then tradeStep routes s a else none

end LiveTradesRun

open LiveTradesRun in
theorem live_trades_sound_acts :
    ∃ s r, Run (Guarded (TradeFeed.Remembers routes) (StepOf (tradeStep routes))) .empty acts s ∧
      LiveTradesSound s ∧ s.readers 0 = some r ∧
      r.delivered.map (·.event.price) = [100, 101] := by
  have hsome : (acts.foldlM checked .empty).isSome := by decide +kernel
  obtain ⟨s, hs⟩ := Option.isSome_iff_exists.mp hsome
  have hprices : (acts.foldlM checked .empty).map (fun s => (s.readers 0).map fun r =>
      r.delivered.map (·.event.price)) = some (some [100, 101]) := by decide +kernel
  rw [hs] at hprices
  obtain ⟨r, hr, hdelivered⟩ := Option.map_eq_some_iff.mp (Option.some.inj hprices)
  have hrun : Run (Guarded (TradeFeed.Remembers routes) (StepOf (tradeStep routes))) .empty acts s :=
    .guarded_of_foldlM hs
  exact ⟨s, r, hrun, live_trades_sound hrun, hr, hdelivered⟩

open LiveTradesRun in
/-- A batch of two trades that an error callback sees again is published again. -/
theorem carried_batch_published_again :
    ¬ ∀ (routes : ℕ → Option TickerRoute) (as : List TradeAct) (s : TradeFeed),
      Run (StepOf (tradeStep routes)) .empty as s → LiveTradesSound s := by
  intro hclaim
  have hsome : (again.foldlM (tradeStep routes) .empty).isSome := by decide +kernel
  obtain ⟨s, hs⟩ := Option.isSome_iff_exists.mp hsome
  have hsound := hclaim routes again s (.of_foldlM hs)
  have hcounts : (again.foldlM (tradeStep routes) .empty).map (fun s =>
      ((s.publishedOf ("CME.NQ", "route")).length,
        (collapse (·.signature) (s.arrivedOf ("CME.NQ", "route"))).length)) = some (4, 2) := by
    decide +kernel
  rw [hs] at hcounts
  have hpair := Prod.mk.inj (Option.some.inj hcounts)
  rw [hsound.published] at hpair
  exact absurd (hpair.1.symm.trans hpair.2) (by decide)

end AefTerminal
