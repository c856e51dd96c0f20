import AefTerminal.Alerts.History
import Mathlib.Data.List.Chain

/-!
# Alerts on a crossing price

The monitor evaluates the quotes of a route one after the other. It forms a crossing between a
quote and its baseline only, the quote evaluated before in the same generation of the alert. What
an alert promises speaks of all quotes evaluated since the baseline was last dropped.

The two agree because a crossing that the next quote does not make stays to be made from that
quote. An armed row has no cooldown, so no quote is ignored, and it does not change until it fires,
so a snapshot of its generation is the row itself.

A quote is one step, at the time its firing is stored. Its snapshot may be older than the row.

## Main definitions

* `PriceWatch`, `WatchAct`, `PriceWatch.step`: one alert under quotes, commands and deliveries
* `Crossed`: what the alert promises to report
* `WatchInv`: the invariant

## Main results

* `fires_iff`: when a quote fires the alert, with the exact condition
* `quote_after_delivery`: a re-armed alert misses its crossing
-/

namespace AefTerminal

open Foundation

/-- A quote that was evaluated, in a generation of the alert. -/
structure SeenQuote where
  generation : ℕ
  price : ℚ
  fired : Bool
  deriving DecidableEq

/-- The stored alerts, and what the monitor holds of the alert under one key. -/
structure PriceWatch where
  history : AlertHistory
  baseline : Option AlertCrossingBaseline
  /-- The quotes evaluated since the baseline was last dropped. -/
  quotes : List SeenQuote
  /-- The generations in which the alert fired. -/
  fired : List ℕ

inductive WatchAct
  /-- A command, or a delivery. -/
  | call (act : AlertAct)
  /-- A quote is evaluated with a row of the registry. -/
  | quote (snapshot : PriceAlert) (price : ℚ) (now : ℕ) (ts : Time)
  /-- The quote buffer overflowed, or the server slept. -/
  | reset
  /-- `_prune_crossing_baselines` -/
  | prune (active : List PriceAlert)

namespace PriceWatch

def empty : PriceWatch := ⟨.empty, none, [], []⟩

def row (s : PriceWatch) (key : AlertKey) : Option PriceAlert := s.history.table.get? key.alertId

/-- The firing of a quote that hits the level. -/
def firing (s : PriceWatch) (snapshot : PriceAlert) (price : ℚ) (now : ℕ) (ts : Time) :
    Except AlertError AlertCommit :=
  persistPriceAlertDelivery s.history.table snapshot (alertMonitorPayload snapshot price now ts)
    (crossFiredPatch snapshot price now) now

/-- The quote fires the alert. -/
def fires (s : PriceWatch) (snapshot : PriceAlert) (price : ℚ) (now : ℕ) (ts : Time) : Bool :=
  match crossDecision s.baseline snapshot price now, s.firing snapshot price now ts with
  | .hit, .ok m => m.answer.isSome
  | _, _ => false

/-- A prune drops the baseline of an alert that is not active in its generation. -/
def prunes (active : List PriceAlert) (key : AlertKey) (b : AlertCrossingBaseline) : Bool :=
  ((active.filter fun a => a.kind = .price ∧ a.key = key).getLast?.map fun a =>
    (a.timeframe, a.rearmedAt)) ≠ some (b.timeframe, b.rearmedAt)

def dropped (s : PriceWatch) : PriceWatch :=
  { s with
    baseline := none
    quotes := [] }

/-- `_process_cross_alert`. A quote that raises is evaluated again. -/
def quote (s : PriceWatch) (snapshot : PriceAlert) (price : ℚ) (now : ℕ) (ts : Time) :
    PriceWatch :=
  match crossDecision s.baseline snapshot price now with
  | .observed b => { s with
      baseline := some b
      quotes := s.quotes ++ [⟨snapshot.rearmedAt, price, false⟩] }
  | .frozen => { s with quotes := s.quotes ++ [⟨snapshot.rearmedAt, price, false⟩] }
  | .hit =>
    match s.firing snapshot price now ts with
    | .error _ => s
    | .ok m =>
      if m.answer.isSome then
        { history := s.history.commit (.ok m)
          baseline := some ⟨snapshot.timeframe, snapshot.rearmedAt, price⟩
          quotes := s.quotes ++ [⟨snapshot.rearmedAt, price, true⟩]
          fired := s.fired ++ [snapshot.rearmedAt] }
      else { s.dropped with history := s.history.commit (.ok m) }

def step (key : AlertKey) (s : PriceWatch) : WatchAct → PriceWatch
  | .call act => { s with history := s.history.after act }
  | .quote snapshot price now ts => s.quote snapshot price now ts
  | .reset => s.dropped
  | .prune active => if s.baseline.any (prunes active key) then s.dropped else s

end PriceWatch

/-- An earlier quote of the generation stood on one side of the level, the price reaches the level
from there, and no quote in between fired. -/
def Crossed (a : PriceAlert) (quotes : List SeenQuote) (price : ℚ) : Prop :=
  ∃ before q after, quotes = before ++ q :: after ∧ q.generation = a.rearmedAt ∧
    alertCrossHit q.price price a.price a.direction = true ∧ ∀ q' ∈ after, q'.fired = false

/-- The steps of the alert under `key`. -/
def PriceWatch.Allowed (key : AlertKey) (s : PriceWatch) : WatchAct → Prop
  | .call act =>
    s.history.Orderly act ∧ act.Requested ∧
      ∀ instrumentId routeFingerprint guard patch,
        act = .update key.alertId instrumentId routeFingerprint guard patch →
          ∃ snapshot pending, guard = deliveryGuard snapshot pending
  | .quote snapshot _ now _ =>
    snapshot ∈ s.history.seen ∧ snapshot.key = key ∧ snapshot.kind = .price ∧
      snapshot.active = true ∧ 0 < now ∧ ∀ q ∈ s.quotes, q.generation ≤ snapshot.rearmedAt
  | .reset => True
  | .prune _ => True

def WatchStep (key : AlertKey) (s : PriceWatch) (act : WatchAct) (s' : PriceWatch) : Prop :=
  s.step key act = s'

/-! ### Crossings -/

/-- A crossing that the next price does not make stays to be made from that price. -/
theorem alertCrossHit_carry {x y z level : ℚ} {direction : PriceAlertDirection}
    (hxy : alertCrossHit x y level direction = false)
    (hxz : alertCrossHit x z level direction = true) :
    alertCrossHit y z level direction = true := by
  cases direction <;>
    simp only [alertCrossHit, Bool.or_eq_true, Bool.or_eq_false_iff, decide_eq_true_eq,
      decide_eq_false_iff_not, not_and, not_le] at hxy hxz ⊢
  · rcases hxz with ⟨hx, hz⟩ | ⟨hx, hz⟩
    · exact .inl ⟨hxy.1 hx, hz⟩
    · exact .inr ⟨hxy.2 hx, hz⟩
  · exact ⟨hxy hxz.1, hxz.2⟩
  · exact ⟨hxy hxz.1, hxz.2⟩

/-- No two quotes in a row make a crossing of the row that did not fire. -/
def NoneMissed (r : PriceAlert) (q q' : SeenQuote) : Prop :=
  q.generation = r.rearmedAt → q'.generation = r.rearmedAt → q'.fired = false →
    alertCrossHit q.price q'.price r.price r.direction = false

/-- Where nothing was missed, a crossing from any quote is one from the last quote. -/
theorem hit_last {r : PriceAlert} {price : ℚ} {quotes : List SeenQuote} {q : SeenQuote}
    (hchain : (q :: quotes).IsChain (NoneMissed r)) (hq : q.generation = r.rearmedAt)
    (hsame : ∀ q' ∈ quotes, q'.generation = r.rearmedAt ∧ q'.fired = false)
    (hhit : alertCrossHit q.price price r.price r.direction = true) :
    ∃ last, (q :: quotes).getLast? = some last ∧ last.generation = r.rearmedAt ∧
      alertCrossHit last.price price r.price r.direction = true := by
  induction quotes generalizing q with
  | nil => exact ⟨q, rfl, hq, hhit⟩
  | cons q' quotes ih =>
    rw [List.isChain_cons_cons] at hchain
    obtain ⟨hmissed, hchain⟩ := hchain
    obtain ⟨⟨hq', hfired⟩, hrest⟩ := List.forall_mem_cons.mp hsame
    have hcarry := alertCrossHit_carry (hmissed hq hq' hfired) hhit
    obtain ⟨last, hlast, hfacts⟩ := ih hchain hq' hrest hcarry
    exact ⟨last, by rw [List.getLast?_cons_cons]; exact hlast, hfacts⟩

/-! ### The invariant -/

/-- What one step may do to the row of an alert. -/
inductive RowMove (h : AlertHistory) (id : String) (row' : Option PriceAlert) : Prop
  | same (hrow : row' = h.table.get? id)
  | gone (hrow : row' = none)
  | renewed {a' : PriceAlert} (hrow : row' = some a') (hrenewed : a'.Renewed)
      (hlater : ∀ b ∈ h.seen, b.id = id → b.rearmedAt < a'.rearmedAt)
  /-- A firing, or a write to a row that is not armed. -/
  | quiet {r a' : PriceAlert} (hold : h.table.get? id = some r) (hrow : row' = some a')
      (hframe : a'.frame = r.frame) (hdisarmed : a'.kind = .price → a'.armed = false)
      (harmed : a'.armed = true → r.armed = true)

/-- The rows of an alert: one with a fixed price does not change while it is armed. -/
structure WatchedRows (id : String) (h : AlertHistory) : Prop extends HistoryInv h where
  cooldown : ∀ b ∈ h.seen, b.id = id → b.kind = .price → b.armed = true → b.cooldownUntil = 0
  settled : ∀ r, h.table.get? id = some r → r.kind = .price → r.armed = true →
    r.delivery.telegramPendingPayload = none
  still : ∀ r, h.table.get? id = some r → r.kind = .price → r.armed = true →
    ∀ b ∈ h.seen, b.id = id → b.rearmedAt = r.rearmedAt → b = r

namespace WatchedRows

variable {id : String} {h h' : AlertHistory}

theorem empty : WatchedRows id .empty :=
  ⟨.empty, by simp [AlertHistory.empty], by simp [AlertHistory.empty],
    by simp [AlertHistory.empty]⟩

theorem move (hrows : WatchedRows id h) (hinv : HistoryInv h')
    (hseen : ∀ b ∈ h'.seen, b.id = id → b ∈ h.seen ∨ h'.table.get? id = some b)
    (hmove : RowMove h id (h'.table.get? id)) : WatchedRows id h' := by
  cases hmove with
  | same hrow =>
    have hold (b : PriceAlert) (hb : b ∈ h'.seen) (hid : b.id = id) : b ∈ h.seen :=
      (hseen b hb hid).elim (fun hb => hb) fun hb => hrows.seen id b (hrow ▸ hb)
    rw [hrow] at hseen
    exact ⟨hinv, fun b hb hid => hrows.cooldown b (hold b hb hid) hid,
      fun r hr => hrows.settled r (hrow ▸ hr),
      fun r hr hkind harmed b hb hid => hrows.still r (hrow ▸ hr) hkind harmed b (hold b hb hid) hid⟩
  | gone hrow =>
    refine ⟨hinv, fun b hb hid => ?_, fun r hr => absurd (hrow.symm.trans hr) (by simp),
      fun r hr => absurd (hrow.symm.trans hr) (by simp)⟩
    rcases hseen b hb hid with hb | hb
    · exact hrows.cooldown b hb hid
    · exact absurd (hrow.symm.trans hb) (by simp)
  | @renewed a' hrow hrenewed hlater =>
    refine ⟨hinv, fun b hb hid => ?_, fun r hr _ _ => ?_, fun r hr _ _ b hb hid hgeneration => ?_⟩
    · rcases hseen b hb hid with hb | hb
      · exact hrows.cooldown b hb hid
      · cases (hrow.symm.trans hb)
        exact fun _ _ => hrenewed.cooldown
    · cases (hrow.symm.trans hr)
      exact hrenewed.settled
    · cases (hrow.symm.trans hr)
      rcases hseen b hb hid with hb | hb
      · exact absurd hgeneration (hlater b hb hid).ne
      · exact (Option.some.inj (hrow.symm.trans hb)).symm
  | @quiet r a' hold hrow hframe hdisarmed harmed =>
    have hnot {b : PriceAlert} (hb : h'.table.get? id = some b) (hkind : b.kind = .price)
        (hb' : b.armed = true) : False := by
      cases (hrow.symm.trans hb)
      exact absurd ((hdisarmed hkind).symm.trans hb') (by simp)
    refine ⟨hinv, fun b hb hid => ?_, fun r hr hkind hr' => (hnot hr hkind hr').elim,
      fun r hr hkind hr' => (hnot hr hkind hr').elim⟩
    rcases hseen b hb hid with hb | hb
    · exact hrows.cooldown b hb hid
    · exact fun hkind hb' => (hnot hb hkind hb').elim

end WatchedRows

/-- The baseline is the last quote. -/
inductive BaselineOf (id : String) (h : AlertHistory) :
    Option AlertCrossingBaseline → List SeenQuote → Prop
  | none : BaselineOf id h none []
  | last {c : PriceAlert} (quotes : List SeenQuote) (price : ℚ) (fired : Bool) (hc : c ∈ h.seen)
      (hid : c.id = id) :
      BaselineOf id h (some ⟨c.timeframe, c.rearmedAt, price⟩)
        (quotes ++ [⟨c.rearmedAt, price, fired⟩])

theorem BaselineOf.mono {id : String} {h h' : AlertHistory}
    {baseline : Option AlertCrossingBaseline} {quotes : List SeenQuote}
    (hb : BaselineOf id h baseline quotes) (hkept : ∀ b ∈ h.seen, b ∈ h'.seen) :
    BaselineOf id h' baseline quotes := by
  cases hb with
  | none => exact .none
  | last quotes price fired hc hid => exact .last quotes price fired (hkept _ hc) hid

/-- Rows of one frame with a fixed price miss the same quotes. -/
theorem noneMissed_of_frame {r r' : PriceAlert} (h : r'.frame = r.frame) (hkind : r'.kind = .price)
    (quotes : List SeenQuote) (hr : quotes.IsChain (NoneMissed r)) :
    quotes.IsChain (NoneMissed r') := by
  obtain ⟨-, -, -, -, -, hsame, -, hdirection, hprice, -, -, -, -, -, hgeneration, -⟩ :=
    AlertFrame.mk.inj h
  have hkind' : r.kind = .price := hsame.symm.trans hkind
  rw [if_pos hkind, if_pos hkind'] at hprice
  refine hr.imp fun q q' hq => ?_
  rw [NoneMissed] at hq ⊢
  rw [hgeneration, hdirection, Option.some.inj hprice]
  exact hq

structure WatchInv (key : AlertKey) (s : PriceWatch) : Prop where
  rows : WatchedRows key.alertId s.history
  sorted : s.quotes.Pairwise fun q q' => q.generation ≤ q'.generation
  known : ∀ q ∈ s.quotes, ∃ b ∈ s.history.seen, b.id = key.alertId ∧ b.rearmedAt = q.generation
  baseline : BaselineOf key.alertId s.history s.baseline s.quotes
  missed : ∀ r, s.row key = some r → r.kind = .price → s.quotes.IsChain (NoneMissed r)
  nodup : s.fired.Nodup
  fired : ∀ g ∈ s.fired, (∃ b ∈ s.history.seen, b.id = key.alertId ∧ b.rearmedAt = g) ∧
    ∀ r, s.row key = some r → r.rearmedAt = g → r.armed = false

namespace WatchInv

variable {key : AlertKey} {s : PriceWatch}

theorem empty : WatchInv key .empty where
  rows := .empty
  sorted := .nil
  known := by simp [PriceWatch.empty]
  baseline := .none
  missed _ _ _ := .nil
  nodup := .nil
  fired := by simp [PriceWatch.empty]

theorem dropped (h : WatchInv key s) : WatchInv key s.dropped :=
  ⟨h.rows, .nil, by simp [PriceWatch.dropped], .none, fun _ _ _ => .nil, h.nodup, h.fired⟩

/-- The quotes and the firings stay as they are. -/
theorem move (h : WatchInv key s) {history : AlertHistory} (hinv : HistoryInv history)
    (hkept : ∀ b ∈ s.history.seen, b ∈ history.seen)
    (hseen : ∀ b ∈ history.seen, b.id = key.alertId →
      b ∈ s.history.seen ∨ history.table.get? key.alertId = some b)
    (hmove : RowMove s.history key.alertId (history.table.get? key.alertId)) :
    WatchInv key { s with history := history } := by
  have hknown (g : ℕ)
      (hg : ∃ b ∈ s.history.seen, b.id = key.alertId ∧ b.rearmedAt = g) :
      ∃ b ∈ history.seen, b.id = key.alertId ∧ b.rearmedAt = g := by
    obtain ⟨b, hb, hfacts⟩ := hg
    exact ⟨b, hkept b hb, hfacts⟩
  refine ⟨h.rows.move hinv hseen hmove, h.sorted, fun q hq => hknown _ (h.known q hq),
    h.baseline.mono hkept, fun r hr hkind => ?_, h.nodup,
    fun g hg => ⟨hknown g (h.fired g hg).1, fun r hr hgeneration => ?_⟩⟩
  · cases hmove with
    | same hrow => exact h.missed r (hrow.symm.trans hr) hkind
    | gone hrow => exact absurd (hrow.symm.trans hr) (by simp)
    | @renewed a' hrow _ hlater =>
      cases (hrow.symm.trans hr)
      -- no quote was evaluated in the new generation
      refine List.Pairwise.isChain (h.sorted.imp_of_mem fun {q q'} hq _ _ hgeneration => ?_)
      obtain ⟨b, hb, hid, hb'⟩ := h.known q hq
      exact absurd (hb'.trans hgeneration) (hlater b hb hid).ne
    | @quiet r₀ a' hold hrow hframe =>
      cases (hrow.symm.trans hr)
      have hkind' : r₀.kind = .price := (congrArg AlertFrame.kind hframe).symm.trans hkind
      exact noneMissed_of_frame hframe hkind _ (h.missed r₀ hold hkind')
  · cases hmove with
    | same hrow => exact (h.fired g hg).2 r (hrow.symm.trans hr) hgeneration
    | gone hrow => exact absurd (hrow.symm.trans hr) (by simp)
    | @renewed a' hrow _ hlater =>
      cases (hrow.symm.trans hr)
      obtain ⟨b, hb, hid, hb'⟩ := (h.fired g hg).1
      exact absurd (hb'.trans hgeneration.symm) (hlater b hb hid).ne
    | @quiet r₀ a' hold hrow hframe _ harmed =>
      cases (hrow.symm.trans hr)
      have hsame : r₀.rearmedAt = g :=
        (congrArg AlertFrame.rearmedAt hframe).symm.trans hgeneration
      have hold' := (h.fired g hg).2 r₀ hold hsame
      by_contra hne
      exact absurd (hold'.symm.trans (harmed (by simpa using hne))) (by simp)

/-- A quote is evaluated and becomes the baseline. -/
theorem append (h : WatchInv key s) {a : PriceAlert} (ha : a ∈ s.history.seen) (hkey : a.key = key)
    (hle : ∀ q ∈ s.quotes, q.generation ≤ a.rearmedAt) (price : ℚ) (fired : Bool)
    (hmissed : ∀ r q, s.row key = some r → r.kind = .price → s.quotes.getLast? = some q →
      NoneMissed r q ⟨a.rearmedAt, price, fired⟩) :
    WatchInv key { s with
      baseline := some ⟨a.timeframe, a.rearmedAt, price⟩
      quotes := s.quotes ++ [⟨a.rearmedAt, price, fired⟩] } := by
  have hid : a.id = key.alertId := congrArg AlertKey.alertId hkey
  refine ⟨h.rows, ?_, ?_, .last _ _ _ ha hid, fun r hr hkind => ?_, h.nodup, h.fired⟩
  · rw [List.pairwise_append]
    refine ⟨h.sorted, List.pairwise_singleton _ _, fun q hq q' hq' => ?_⟩
    rw [List.mem_singleton.mp hq']
    exact hle q hq
  · intro q hq
    rcases List.mem_append.mp hq with hq | hq
    · exact h.known q hq
    · rw [List.mem_singleton.mp hq]
      exact ⟨a, ha, hid, rfl⟩
  · rw [List.isChain_append]
    refine ⟨h.missed r hr hkind, .singleton _, fun q hq q' hq' => ?_⟩
    obtain rfl : _ = q' := Option.some.inj hq'
    exact hmissed r q hr hkind hq

end WatchInv

/-! ### A quote -/

/-- What a quote does to an alert without a cooldown. -/
theorem crossDecision_cases (baseline : Option AlertCrossingBaseline) {a : PriceAlert} (price : ℚ)
    (now : ℕ) (hcooldown : a.cooldownUntil = 0) :
    (crossDecision baseline a price now = .observed ⟨a.timeframe, a.rearmedAt, price⟩ ∧
        ∀ b, baseline = some b → b.timeframe = a.timeframe → b.rearmedAt = a.rearmedAt →
          alertCrossHit b.price price a.price a.direction = false) ∨
      (crossDecision baseline a price now = .hit ∧
        ∃ b, baseline = some b ∧ b.timeframe = a.timeframe ∧ b.rearmedAt = a.rearmedAt ∧
          alertCrossHit b.price price a.price a.direction = true) := by
  have hfreeze : alertFreezeActive a price a.price now = false := by
    simp [alertFreezeActive, hcooldown]
  cases baseline with
  | none => exact .inl ⟨rfl, nofun⟩
  | some b =>
    by_cases hscope : b.timeframe ≠ a.timeframe ∨ b.rearmedAt ≠ a.rearmedAt
    · refine .inl ⟨by simp only [crossDecision, if_pos hscope], ?_⟩
      rintro b ⟨⟩ htimeframe hgeneration
      exact absurd hscope (by simp [htimeframe, hgeneration])
    · have hsame : b.timeframe = a.timeframe ∧ b.rearmedAt = a.rearmedAt := by
        simpa [not_or] using hscope
      cases hhit : alertCrossHit b.price price a.price a.direction with
      | true =>
        refine .inr ⟨?_, b, rfl, hsame.1, hsame.2, hhit⟩
        simp [crossDecision, hscope, hfreeze, hhit]
      | false =>
        refine .inl ⟨?_, ?_⟩
        · simp [crossDecision, hscope, hfreeze, hhit]
        · rintro b ⟨⟩ - -
          exact hhit

namespace WatchInv

variable {key : AlertKey} {s : PriceWatch}

/-- A delivery writes no armed row of a fixed price. -/
theorem move_call (h : WatchInv key s) {act : AlertAct} (hok : s.Allowed key (.call act)) :
    RowMove s.history key.alertId ((s.history.after act).table.get? key.alertId) := by
  obtain ⟨hop, hrequested, hdelivery⟩ := hok
  have hhistory := h.rows.toHistoryInv
  rcases hhistory.row_call hop hrequested key.alertId with hsame | hgone |
    ⟨a', hrow, hrenewed, hlater⟩ | ⟨instrumentId, routeFingerprint, guard, patch, r, hact, hold,
      hagree, hrow⟩
  · exact .same hsame
  · exact .gone hgone
  · exact .renewed hrow hrenewed hlater
  · obtain ⟨snapshot, hsnapshot, hid, hissued⟩ := hop.1.issued_of_update hact
    obtain ⟨s', pending, rfl⟩ := hdelivery _ _ _ _ hact
    have hkind : snapshot.kind = r.kind :=
      hhistory.kind_eq hold hsnapshot (hid.trans (hhistory.id_eq _ r hold).symm)
        (hissued.generation_eq hagree)
    have hframe := hissued.frame_eq hkind
    refine .quiet hold hrow hframe (fun hprice => ?_) (hissued.armed hagree)
    by_contra harmed
    have hr : r.armed = true := hissued.armed hagree (by simpa using harmed)
    have hsettled := h.rows.settled r hold ((congrArg AlertFrame.kind hframe).symm.trans hprice) hr
    simp [PayloadGuard.agree, deliveryGuard, hsettled] at hagree

/-- The rows in one generation with the stored row have its frame. -/
theorem frame_eq (h : WatchInv key s) {r a : PriceAlert} (hr : s.row key = some r)
    (ha : a ∈ s.history.seen) (hid : a.id = key.alertId) (hgeneration : a.rearmedAt = r.rearmedAt) :
    a.frame = r.frame :=
  h.rows.frame_eq key.alertId r hr a ha hid hgeneration

/-- A quote that is only observed misses no crossing. -/
theorem observed (h : WatchInv key s) {a : PriceAlert} (ha : a ∈ s.history.seen)
    (hkey : a.key = key) (hkind : a.kind = .price)
    (hle : ∀ q ∈ s.quotes, q.generation ≤ a.rearmedAt) {price : ℚ}
    (hmiss : ∀ b, s.baseline = some b → b.timeframe = a.timeframe → b.rearmedAt = a.rearmedAt →
      alertCrossHit b.price price a.price a.direction = false) :
    WatchInv key { s with
      baseline := some ⟨a.timeframe, a.rearmedAt, price⟩
      quotes := s.quotes ++ [⟨a.rearmedAt, price, false⟩] } := by
  refine h.append ha hkey hle price false fun r q hr hprice hq hq₁ hq₂ _ => ?_
  have hid : a.id = key.alertId := congrArg AlertKey.alertId hkey
  have hframe := h.frame_eq hr ha hid hq₂
  have hbaseline := h.baseline
  generalize hb : s.baseline = baseline at hbaseline
  generalize s.quotes = quotes at hbaseline hq
  cases hbaseline with
  | none => exact absurd hq (by simp)
  | @last c quotes price' fired hc hcid =>
    rw [List.getLast?_append, List.getLast?_singleton, Option.some_or] at hq
    cases hq
    have hgeneration : c.rearmedAt = r.rearmedAt := hq₁
    have htimeframe : c.timeframe = a.timeframe :=
      congrArg AlertFrame.timeframe ((h.frame_eq hr hc hcid hgeneration).trans hframe.symm)
    have hnot := hmiss _ hb htimeframe (hgeneration.trans hq₂.symm)
    obtain ⟨-, -, -, -, -, -, -, hdirection, hlevel, -⟩ := AlertFrame.mk.inj hframe
    rw [if_pos hkind, if_pos hprice] at hlevel
    rw [← hdirection, ← Option.some.inj hlevel]
    exact hnot

/-- The row after the firing of a quote that did not raise. -/
theorem firing_row (h : WatchInv key s) {a : PriceAlert} (hid : a.id = key.alertId)
    (hkind : a.kind = .price) {price : ℚ} {now : ℕ} {ts : Time} {m : AlertCommit}
    (hm : s.firing a price now ts = .ok m) :
    (m.answer = none ∧ m.table = s.history.table) ∨
      ∃ r, s.row key = some r ∧ a.id = r.id ∧ (firingGuard a).agree r = true ∧
        m.answer.isSome = true ∧ m.table.get? key.alertId = some
          (firingPatch a (alertMonitorPayload a price now ts) (crossFiredPatch a price now) now r) := by
  have hrow := h.rows.firing_row (.crossFired hkind price now ts) hm
  rw [hid] at hrow ⊢
  exact hrow

theorem quote (h : WatchInv key s) {a : PriceAlert} {price : ℚ} {now : ℕ} {ts : Time}
    (hok : s.Allowed key (.quote a price now ts)) : WatchInv key (s.quote a price now ts) := by
  obtain ⟨ha, hkey, hkind, hactive, -, hle⟩ := hok
  have hid : a.id = key.alertId := congrArg AlertKey.alertId hkey
  have harmed : a.armed = true := by
    simp only [PriceAlert.active, Bool.and_eq_true] at hactive
    exact hactive.2
  rw [PriceWatch.quote]
  rcases crossDecision_cases s.baseline price now (h.rows.cooldown a ha hid hkind harmed) with
    ⟨hobserved, hmiss⟩ | ⟨hhit, -⟩
  · rw [hobserved]
    exact h.observed ha hkey hkind hle hmiss
  rw [hhit]
  dsimp only
  split
  · exact h
  rename_i m hm
  have hissued := Issued.crossFired hkind price now ts
  have hhistory : HistoryInv (s.history.commit (.ok m)) := by
    refine h.rows.commit fun m' hm' => ?_
    cases hm'
    rcases persistPriceAlertDelivery_commit hm with rfl | hm
    · exact .inl rfl
    · exact .inr ⟨_, ⟨.issued ha hissued, trivial⟩, hm⟩
  have hkept (b : PriceAlert) (hb : b ∈ s.history.seen) : b ∈ (s.history.commit (.ok m)).seen :=
    List.mem_append_left _ hb
  have hseen (b : PriceAlert) (hb : b ∈ (s.history.commit (.ok m)).seen) (hbid : b.id = key.alertId) :
      b ∈ s.history.seen ∨ (s.history.commit (.ok m)).table.get? key.alertId = some b := by
    rcases mem_seen_commit hb with hb | ⟨j, hb⟩
    · exact .inl hb
    · obtain rfl : j = key.alertId := (hhistory.id_eq j b hb).symm.trans hbid
      exact .inr hb
  rcases h.firing_row hid hkind hm with ⟨hanswer, hsame⟩ | ⟨r, hr, hrid, hagree, hanswer, hrow⟩
  · rw [hanswer]
    exact (h.move hhistory hkept hseen (.same (congrArg (Dict.get? · key.alertId) hsame))).dropped
  · rw [if_pos hanswer]
    have hgeneration := hissued.generation_eq hagree
    have hframe := hissued.frame_eq (h.rows.kind_eq hr ha hrid hgeneration)
    have hmoved := h.move hhistory hkept hseen
      (.quiet hr hrow hframe (fun _ => rfl) (hissued.armed hagree))
    have hnew := hmoved.append (hkept a ha) hkey hle price true
      fun _ _ _ _ _ _ _ hfired => absurd hfired (by simp)
    have hfresh : a.rearmedAt ∉ s.fired := by
      intro hmem
      have hdisarmed := (h.fired _ hmem).2 r hr hgeneration.symm
      have hr' := PayloadGuard.active hagree rfl
      simp only [PriceAlert.active, Bool.and_eq_true] at hr'
      exact absurd (hdisarmed.symm.trans hr'.2) (by simp)
    refine ⟨hnew.rows, hnew.sorted, hnew.known, hnew.baseline, hnew.missed, ?_, fun g hg => ?_⟩
    · exact List.nodup_append.mpr ⟨h.nodup, List.nodup_singleton _, fun g hg g' hg' heq =>
        hfresh (List.mem_singleton.mp hg' ▸ heq ▸ hg)⟩
    · rcases List.mem_append.mp hg with hg | hg
      · exact hnew.fired g hg
      · rw [List.mem_singleton.mp hg]
        refine ⟨⟨a, hkept a ha, hid, rfl⟩, fun r' hr' _ => ?_⟩
        cases (hrow.symm.trans hr')
        rfl

theorem step (h : WatchInv key s) {act : WatchAct} (hok : s.Allowed key act) :
    WatchInv key (s.step key act) := by
  cases act with
  | call act =>
    have hhistory := h.rows.after hok.1
    refine h.move hhistory (fun b hb => List.mem_append_left _ hb) (fun b hb hid => ?_)
      (h.move_call hok)
    rcases HistoryInv.mem_seen_after hb with hb | ⟨j, hb⟩
    · exact .inl hb
    · obtain rfl : j = key.alertId := (hhistory.id_eq j b hb).symm.trans hid
      exact .inr hb
  | quote => exact h.quote hok
  | reset => exact h.dropped
  | prune active =>
    rw [PriceWatch.step]
    split
    · exact h.dropped
    · exact h

end WatchInv

/-! ### When a quote fires -/

/-- The alert is armed in the generation of the snapshot. -/
def PriceWatch.Armed (s : PriceWatch) (key : AlertKey) (a : PriceAlert) : Prop :=
  ∃ r, s.row key = some r ∧ r.active = true ∧ r.rearmedAt = a.rearmedAt

/-- Neither the stored row of the alert nor the crossing stands in the way: where the quote has to
fire, no success is on record. -/
def PriceWatch.Firable (s : PriceWatch) (key : AlertKey) (a : PriceAlert) (price : ℚ) : Prop :=
  Crossed a s.quotes price → ∀ r, s.row key = some r → r.active = true →
    r.rearmedAt = a.rearmedAt → deliveredOk r.result = false

theorem PriceWatch.fires_eq_true {s : PriceWatch} {a : PriceAlert} {price : ℚ} {now : ℕ} {ts : Time}
    (h : s.fires a price now ts = true) :
    crossDecision s.baseline a price now = .hit ∧
      ∃ m, s.firing a price now ts = .ok m ∧ m.answer.isSome = true := by
  rw [PriceWatch.fires] at h
  split at h
  · rename_i m hhit hm
    exact ⟨hhit, m, hm, h⟩
  · cases h

namespace WatchInv

variable {key : AlertKey} {s : PriceWatch} {a : PriceAlert} {price : ℚ} {now : ℕ} {ts : Time}

/-- A quote that fires makes a crossing, on an armed alert. -/
theorem crossed_of_fires (h : WatchInv key s) (hok : s.Allowed key (.quote a price now ts))
    (hfires : s.fires a price now ts = true) : s.Armed key a ∧ Crossed a s.quotes price := by
  obtain ⟨ha, hkey, hkind, hactive, -, hle⟩ := hok
  have hid : a.id = key.alertId := congrArg AlertKey.alertId hkey
  have harmed : a.armed = true := by
    simp only [PriceAlert.active, Bool.and_eq_true] at hactive
    exact hactive.2
  obtain ⟨hhit, m, hm, hanswer⟩ := PriceWatch.fires_eq_true hfires
  constructor
  · rcases h.firing_row hid hkind hm with ⟨hnone, -⟩ | ⟨r, hr, -, hagree, -⟩
    · exact absurd hanswer (by simp [hnone])
    · exact ⟨r, hr, PayloadGuard.active hagree rfl,
        ((Issued.crossFired hkind price now ts).generation_eq hagree).symm⟩
  · rcases crossDecision_cases s.baseline price now (h.rows.cooldown a ha hid hkind harmed) with
      ⟨hobserved, -⟩ | ⟨-, b, hb, -, hgeneration, hcross⟩
    · exact absurd (hobserved.symm.trans hhit) (by simp)
    have hbaseline := h.baseline
    rw [hb] at hbaseline
    generalize s.quotes = quotes at hbaseline ⊢
    cases hbaseline with
    | last quotes price' fired => exact ⟨quotes, _, [], rfl, hgeneration, hcross, by simp⟩

/-- A crossing on an armed alert is a hit, on the stored row itself. -/
theorem hit_of_crossed (h : WatchInv key s) (hok : s.Allowed key (.quote a price now ts))
    (harmed : s.Armed key a) (hcrossed : Crossed a s.quotes price) :
    s.row key = some a ∧ crossDecision s.baseline a price now = .hit := by
  obtain ⟨ha, hkey, hkind, hactive, -, hle⟩ := hok
  have hid : a.id = key.alertId := congrArg AlertKey.alertId hkey
  obtain ⟨r, hr, hr', hgeneration⟩ := harmed
  simp only [PriceAlert.active, Bool.and_eq_true] at hactive hr'
  have hrid : a.id = r.id := hid.trans (h.rows.id_eq _ r hr).symm
  have hrkind : r.kind = .price := (h.rows.kind_eq hr ha hrid hgeneration.symm).symm.trans hkind
  obtain rfl := h.rows.still r hr hrkind hr'.2 a ha hid hgeneration.symm
  refine ⟨hr, ?_⟩
  obtain ⟨before, q, after, hquotes, hq, hhit, hafter⟩ := hcrossed
  have hchain := h.missed a hr hkind
  have hsorted := h.sorted
  rw [hquotes] at hchain hsorted hle
  have hsame : ∀ q' ∈ after, q'.generation = a.rearmedAt ∧ q'.fired = false := by
    intro q' hq'
    have hlater := List.rel_of_pairwise_cons (List.pairwise_append.mp hsorted).2.1 hq'
    refine ⟨le_antisymm (hle q' ?_) (hq ▸ hlater), hafter q' hq'⟩
    exact List.mem_append_right _ (List.mem_cons_of_mem _ hq')
  obtain ⟨last, hlast, hlast', hcross⟩ := hit_last hchain.right_of_append hq hsame hhit
  have hget : s.quotes.getLast? = some last := by
    rw [hquotes, List.getLast?_append, hlast]
    rfl
  rcases crossDecision_cases s.baseline price now (h.rows.cooldown a ha hid hkind hactive.2) with
    ⟨-, hmiss⟩ | ⟨hhit, -⟩
  · exfalso
    have hbaseline := h.baseline
    generalize hb : s.baseline = baseline at hbaseline
    generalize s.quotes = quotes at hbaseline hget
    cases hbaseline with
    | none => exact absurd hget (by simp)
    | @last c quotes price' fired hc hcid =>
      rw [List.getLast?_append, List.getLast?_singleton, Option.some_or] at hget
      cases hget
      have htimeframe : c.timeframe = a.timeframe :=
        congrArg AlertFrame.timeframe (h.frame_eq hr hc hcid hlast')
      exact absurd ((hmiss _ hb htimeframe hlast').symm.trans hcross) (by simp)
  · exact hhit

/-- Where a success is on record the hit raises, else it is stored. -/
theorem fires_of_hit (h : WatchInv key s) (hok : s.Allowed key (.quote a price now ts))
    (hr : s.row key = some a) (hhit : crossDecision s.baseline a price now = .hit) :
    s.fires a price now ts = true ↔ deliveredOk a.result = false := by
  obtain ⟨-, hkey, hkind, hactive, hnow, -⟩ := hok
  have hid : a.id = key.alertId := congrArg AlertKey.alertId hkey
  have hrow : s.history.table.get? a.id = some a := hid ▸ hr
  have hfiring : MonitorFiring a now _ _ := .cross hkind price ts
  rw [PriceWatch.fires, hhit]
  cases hsent : deliveredOk a.result with
  | true =>
    obtain ⟨e, he⟩ := firing_raises h.rows.toTableInv hrow hactive hsent hnow hfiring
    have he : s.firing a price now ts = .error e := he
    simp [he]
  | false =>
    obtain ⟨m, hm, hget⟩ := firing_stored h.rows.toTableInv hrow hactive hsent hnow hfiring
    have hm : s.firing a price now ts = .ok m := hm
    rcases h.firing_row hid hkind hm with ⟨-, hsame⟩ | ⟨-, -, -, -, hanswer, -⟩
    · exfalso
      rw [hsame, hrow] at hget
      have hfields := congrArg PriceAlert.armed (Option.some.inj hget)
      simp only [PriceAlert.active, Bool.and_eq_true] at hactive
      exact absurd (hfields.symm.trans hactive.2) (by simp [firingPatch, crossFiredPatch])
    · simp [hm, hanswer]

end WatchInv

theorem watchInv_of_run {key : AlertKey} {acts : List WatchAct} {s : PriceWatch}
    (hrun : Run (Guarded (PriceWatch.Allowed key) (WatchStep key)) .empty acts s) :
    WatchInv key s := by
  have hstart : WatchInv key .empty := .empty
  refine hrun.invariant ?_ hstart
  rintro s act s' hs ⟨hok, rfl⟩
  exact hs.step hok

/-- **Price alerts fire on a crossing.** In every run, a quote fires the alert exactly where it is
armed and the quote makes a crossing with an earlier quote of the generation, if and only if no
success is on record where that is so; and no generation fires twice. -/
theorem fires_iff {key : AlertKey} {acts : List WatchAct} {s : PriceWatch}
    (hrun : Run (Guarded (PriceWatch.Allowed key) (WatchStep key)) .empty acts s) :
    (∀ a price now ts, s.Allowed key (.quote a price now ts) →
      ((s.fires a price now ts = true ↔ s.Armed key a ∧ Crossed a s.quotes price) ↔
        s.Firable key a price)) ∧
      s.fired.Nodup := by
  have hinv := watchInv_of_run hrun
  refine ⟨fun a price now ts hok => ⟨fun hiff hcrossed r hr hactive hgeneration => ?_,
    fun hfirable => ⟨hinv.crossed_of_fires hok, fun ⟨harmed, hcrossed⟩ => ?_⟩⟩, hinv.nodup⟩
  · have harmed : s.Armed key a := ⟨r, hr, hactive, hgeneration⟩
    obtain ⟨hrow, hhit⟩ := hinv.hit_of_crossed hok harmed hcrossed
    cases (hrow.symm.trans hr)
    exact (hinv.fires_of_hit hok hrow hhit).mp (hiff.mpr ⟨harmed, hcrossed⟩)
  · obtain ⟨hrow, hhit⟩ := hinv.hit_of_crossed hok harmed hcrossed
    have hactive : a.active = true := hok.2.2.2.1
    exact (hinv.fires_of_hit hok hrow hhit).mpr (hfirable hcrossed a hrow hactive rfl)

namespace WatchExample

open SecondFiring

theorem allowed_create {key : AlertKey} (request : PriceAlertRequest) (now rearmedAt : ℕ) :
    PriceWatch.Allowed key .empty (.call (.createOrRearm (request.candidate now) rearmedAt)) := by
  refine ⟨⟨.createOrRearm _ _, fun _ b hb => absurd hb (List.not_mem_nil)⟩, ?_,
    fun _ _ _ _ h => AlertAct.noConfusion h⟩
  rintro candidate rearmedAt ⟨⟩
  exact ⟨request, now, rfl⟩

theorem allowed_delivery {key : AlertKey} {s : PriceWatch} {snapshot : PriceAlert}
    {pending : TelegramPayload} {patch : PriceAlert → PriceAlert}
    (hseen : snapshot ∈ s.history.seen)
    (hissued : Issued snapshot (deliveryGuard snapshot pending) patch) :
    s.Allowed key (.call (.updateOf snapshot (deliveryGuard snapshot pending) patch)) := by
  refine ⟨⟨.issued hseen hissued, trivial⟩, fun _ _ h => AlertAct.noConfusion h, ?_⟩
  rintro instrumentId routeFingerprint guard patch' h
  rw [AlertAct.updateOf] at h
  obtain ⟨-, -, -, rfl, -⟩ := AlertAct.update.inj h
  exact ⟨snapshot, pending, rfl⟩

theorem allowed_rearm {key : AlertKey} (s : PriceWatch) (alertId instrumentId fingerprint : String)
    (rearmedAt : ℕ) (patch : DefinitionPatch) (expected : Option ℕ) :
    s.Allowed key (.call (.rearm alertId instrumentId fingerprint rearmedAt patch expected)) :=
  ⟨⟨.rearm _ _ _ _ _ _, trivial⟩, fun _ _ h => AlertAct.noConfusion h,
    fun _ _ _ _ h => AlertAct.noConfusion h⟩

/-- Created, and seen below its level. -/
def below : List WatchAct :=
  [ .call (.createOrRearm created 1000),
    .quote created 4990 1500 1500000 ]

theorem run_below : Run (Guarded (PriceWatch.Allowed created.key) (WatchStep created.key)) .empty
    below (below.foldl (PriceWatch.step created.key) .empty) := by
  refine .cons ⟨allowed_create _ _ _, rfl⟩ (.single ⟨?_, rfl⟩)
  exact ⟨by decide +kernel, rfl, rfl, by decide +kernel, by decide, by decide +kernel⟩

def rearmed : PriceAlert :=
  (finalizePatch (.attempted ⟨true, .sent, ""⟩ payload 2500 0 (some 2000))
    (TelegramSendResult.recorded ⟨true, .sent, ""⟩ 2500) claimed).rearmed 3000

/-- Fired, claimed, delivered, armed again, and seen below its level. -/
def again : List WatchAct :=
  [ .call (.createOrRearm created 1000),
    .quote created 4990 1500 1500000,
    .quote created 5001 2000 2000000,
    .call (.updateOf fired (deliveryGuard fired payload) (claimPatch (claimAttemptAt fired 2500))),
    .call (.updateOf claimed (deliveryGuard claimed payload)
      (finalizePatch (.attempted ⟨true, .sent, ""⟩ payload 2500 0 (some 2000))
        (TelegramSendResult.recorded ⟨true, .sent, ""⟩ 2500))),
    .call (.rearm "pa-1" "ibkr|1|ES" "ibkr|1|ES" 3000 {} none),
    .quote rearmed 4990 3500 3500000 ]

theorem run_again : Run (Guarded (PriceWatch.Allowed created.key) (WatchStep created.key)) .empty
    again (again.foldl (PriceWatch.step created.key) .empty) := by
  refine .cons ⟨allowed_create _ _ _, rfl⟩ (.cons ⟨?_, rfl⟩ (.cons ⟨?_, rfl⟩ (.cons ⟨?_, rfl⟩
    (.cons ⟨?_, rfl⟩ (.cons ⟨allowed_rearm _ _ _ _ _ _ _, rfl⟩ (.single ⟨?_, rfl⟩))))))
  · exact ⟨by decide +kernel, rfl, rfl, by decide +kernel, by decide, by decide +kernel⟩
  · exact ⟨by decide +kernel, rfl, rfl, by decide +kernel, by decide, by decide +kernel⟩
  · exact allowed_delivery (by decide +kernel) (.claimed _ _)
  · exact allowed_delivery (by decide +kernel) (.finalized _ _ _)
  · exact ⟨by decide +kernel, rfl, rfl, by decide +kernel, by decide, by decide +kernel⟩

end WatchExample

open SecondFiring WatchExample in
theorem fires_iff_created :
    (below.foldl (PriceWatch.step created.key) .empty).fires created 5001 2000 2000000 = true := by
  have hrow : (below.foldl (PriceWatch.step created.key) .empty).row created.key = some created := by
    decide +kernel
  have hquotes : (below.foldl (PriceWatch.step created.key) .empty).quotes =
      [⟨1000, 4990, false⟩] := by
    decide +kernel
  have hok : (below.foldl (PriceWatch.step created.key) .empty).Allowed created.key
      (.quote created 5001 2000 2000000) :=
    ⟨by decide +kernel, rfl, rfl, by decide +kernel, by decide, by decide +kernel⟩
  refine (((fires_iff run_below).1 _ _ _ _ hok).mpr fun _ r hr _ _ => ?_).mpr ⟨?_, ?_⟩
  · rw [← Option.some.inj (hrow.symm.trans hr)]
    rfl
  · exact ⟨created, hrow, by decide +kernel, rfl⟩
  · exact ⟨[], _, [], hquotes, rfl, by decide +kernel, by simp⟩

open SecondFiring WatchExample in
/-- An alert that was delivered once and armed again misses its crossing. -/
theorem quote_after_delivery :
    ¬ ∀ acts s, Run (Guarded (PriceWatch.Allowed created.key) (WatchStep created.key)) .empty
        acts s → ∀ a price now ts, s.Allowed created.key (.quote a price now ts) →
      (s.fires a price now ts = true ↔ s.Armed created.key a ∧ Crossed a s.quotes price) := by
  intro hclaim
  have hrow : (again.foldl (PriceWatch.step created.key) .empty).row created.key =
      some rearmed := by
    decide +kernel
  have hquotes : (again.foldl (PriceWatch.step created.key) .empty).quotes =
      [⟨1000, 4990, false⟩, ⟨1000, 5001, true⟩, ⟨3000, 4990, false⟩] := by
    decide +kernel
  have hfires := (hclaim _ _ run_again rearmed 5001 4000 4000000
    ⟨by decide +kernel, rfl, rfl, by decide +kernel, by decide, by decide +kernel⟩).mpr
    ⟨⟨rearmed, hrow, by decide +kernel, rfl⟩,
      ⟨[⟨1000, 4990, false⟩, ⟨1000, 5001, true⟩], _, [], hquotes, rfl, by decide +kernel, by simp⟩⟩
  exact absurd hfires (by decide +kernel)

end AefTerminal
