import AefTerminal.Discord.Lifecycle

/-!
# What an event can do

A round of the replay expires what has elapsed and then does one of six things: the event names
no position, repeats the entry of the active one, is written to it, ends it, opens one where none
is active, or opens one in its place. `Took` lists them with what the round knew, and
`Lifecycle.take_took` says that nothing else happens.

## Main results

* `resolveActivePosition_active`, `resolveActivePosition_reply`: a resolved position is the
  active one, and that of the message an event replies to
* `Lifecycle.take_took`: the six things an event can do
* `Lifecycle.Took.positions`: a position after an event goes on from one before it, or is new
* `Kept.carries`, `Ended.ends`: what is written to a position leaves its trade alone
-/

namespace AefTerminal

open Foundation

namespace Discord

/-! ### What no write changes -/

/-- The trade of a position: what it was opened with. -/
structure Continues (p q : Position) : Prop where
  positionId : q.positionId = p.positionId
  entryEventId : q.entryEventId = p.entryEventId
  sourceSessionDate : q.sourceSessionDate = p.sourceSessionDate
  expiry : q.expiry = p.expiry

/-- The event is the last of the position's events. -/
structure Joins (p : Position) (event : SignalEvent) (q : Position) : Prop extends
    Continues p q where
  eventIds : q.eventIds = p.eventIds ++ [event.eventId]
  expiredUnresolvedAsOf : q.expiredUnresolvedAsOf = p.expiredUnresolvedAsOf

/-- The position goes on. -/
structure Carries (p : Position) (event : SignalEvent) (q : Position) : Prop extends
    Joins p event q where
  state : q.state = p.state
  exitEventId : q.exitEventId = p.exitEventId
  exitReason : q.exitReason = p.exitReason

/-- The event ends the position. -/
structure Ends (p : Position) (event : SignalEvent) (q : Position) : Prop extends
    Joins p event q where
  state : q.state = .closed
  exitEventId : q.exitEventId = some event.eventId

theorem Continues.refl (p : Position) : Continues p p := ⟨rfl, rfl, rfl, rfl⟩

/-! ### What is written to the active position -/

/-- The writes after which a position goes on. -/
inductive Kept (p : Position) (event : SignalEvent) : Position → Prop
  | added : event.action = .add → Kept p event (p.takeAdd event)
  | reduced : event.action = .reduce → ¬ (p.takeReduction event).sizes.FullyReduced →
      Kept p event (p.takeReduction event)
  | stopUpdated : Kept p event (p.takeStopUpdate event)
  | positionUpdated : event.action = .positionUpdate → Kept p event (p.takePositionUpdate event)

/-- The writes after which it is over. -/
inductive Ended (p : Position) (event : SignalEvent) : Position → Prop
  | closed : Ended p event (p.close event)
  | reducedOut : event.action = .reduce → (p.takeReduction event).sizes.FullyReduced →
      Ended p event ((p.takeReduction event).terminalize event "fully_reduced")

theorem linkEvent_carries (p : Position) (event : SignalEvent) :
    Carries p event (p.linkEvent event) :=
  ⟨⟨⟨rfl, rfl, rfl, rfl⟩, rfl, rfl⟩, rfl, rfl, rfl⟩

theorem Kept.carries {p q : Position} {event : SignalEvent} (h : Kept p event q) :
    Carries p event q := by
  cases h <;> exact ⟨⟨⟨rfl, rfl, rfl, rfl⟩, rfl, rfl⟩, rfl, rfl, rfl⟩

theorem Ended.ends {p q : Position} {event : SignalEvent} (h : Ended p event q) :
    Ends p event q := by
  cases h <;> exact ⟨⟨⟨rfl, rfl, rfl, rfl⟩, rfl, rfl⟩, rfl, rfl⟩

theorem terminalizeWithoutFill_ends (p : Position) (event : SignalEvent) :
    Ends p event (p.terminalizeWithoutFill event) :=
  ⟨⟨⟨rfl, rfl, rfl, rfl⟩, rfl, rfl⟩, rfl, rfl⟩

/-! ### The resolved position -/

namespace Lifecycle

variable {s : Lifecycle} {event : SignalEvent} {p : Position} {basis : String}

theorem positionById_active {active : Position} (h : s.active = some active) :
    s.positionById active.positionId = some active := by
  rw [positionById, positions, h, Option.toList_some, List.reverse_append]
  exact List.find?_cons_of_pos (decide_eq_true rfl)

theorem positionId_of_positionById {id : String} (h : s.positionById id = some p) :
    p.positionId = id :=
  of_decide_eq_true (List.find?_some (p := fun q : Position => q.positionId = id) h)

theorem resolveActivePosition_reply {parent : String}
    (h : s.resolveActivePosition event = (some p, basis))
    (hreply : event.replyToMessageId = some parent) :
    s.active = some p ∧ s.positionIdByMessage.get? parent = some p.positionId := by
  rw [resolveActivePosition, hreply] at h
  dsimp only at h
  split at h
  · cases h
  · rename_i repliedId hparent
    split at h
    · rename_i replied active hreplied hactive
      split_ifs at h with hterminal hscope
      · cases h
      · have hsame : replied.positionId = active.positionId := not_not.mp (not_or.mp hterminal).2
        obtain rfl : replied = p := Option.some.inj (Prod.mk.inj h).1
        have hrepliedId := positionId_of_positionById hreplied
        -- the last position of that id is the active one
        have hfound := positionById_active hactive
        rw [← hsame, hrepliedId, hreplied] at hfound
        cases hfound
        exact ⟨hactive, hrepliedId ▸ hparent⟩
      · cases h
    · cases h

theorem resolveActivePosition_active (h : s.resolveActivePosition event = (some p, basis)) :
    s.active = some p := by
  cases hreply : event.replyToMessageId with
  | some parent => exact (resolveActivePosition_reply h hreply).1
  | none =>
    rw [resolveActivePosition, hreply] at h
    dsimp only at h
    split at h
    · cases h
    · rename_i active hactive
      have hp : active = p := by
        split at h
        · split_ifs at h
          · cases h
          · exact Option.some.inj (Prod.mk.inj h).1
        · split_ifs at h
          · exact Option.some.inj (Prod.mk.inj h).1
          · exact Option.some.inj (Prod.mk.inj h).1
          · cases h
          · cases h
      rw [hactive, hp]

/-! ### What an event does -/

/-- The event opens a position: an entry of a contract that is not the active one, or an add of a
contract where none is active. -/
def Opens (s : Lifecycle) (event : SignalEvent) : Prop :=
  event.Parsed ∧ event.contractKey.isSome ∧
    (event.action = .entry ∧ (∀ p ∈ s.active, event.contractKey ≠ some p.contractKey) ∨
      event.action = .add ∧ event.contextCue = none ∧ s.active = none)

/-- What a round knew and did, once the event's session date has expired what it expires. -/
inductive Took (ids : PositionIds) (s : Lifecycle) (event : SignalEvent) : Lifecycle → Prop
  /-- The event names no position. -/
  | advised (status : String) : Took ids s event (s.advise event status)
  | unmatched (status : String) : Took ids s event (s.unmatched event status)
  /-- The event repeats the entry of the active position. -/
  | rebroadcast {p : Position} (hactive : s.active = some p)
      (hkey : event.contractKey = some p.contractKey) :
      Took ids s event
        (s.keep event (p.linkEvent event) "entry_rebroadcast" "same_contract" .commentary)
  | kept {p q : Position} {status basis : String} {effectiveAction : SignalAction}
      (hresolved : s.resolveActivePosition event = (some p, basis)) (hkept : Kept p event q)
      (hparsed : event.Parsed) (heffect : effectiveAction ≠ .entry ∧ effectiveAction ≠ .commentary) :
      Took ids s event (s.keep event q status basis effectiveAction)
  | ended {p q : Position} {status basis : String}
      (hresolved : s.resolveActivePosition event = (some p, basis)) (hended : Ended p event q) :
      Took ids s event (s.conclude event q status basis)
  | opened {key : ContractKey} {status : String} (hactive : s.active = none)
      (hkey : event.contractKey = some key) (hopens : Opens s event) :
      Took ids s event (s.start event (openPosition ids key event) status)
  | replaced {p : Position} {key : ContractKey} {status : String} (hactive : s.active = some p)
      (hkey : event.contractKey = some key) (hopens : Opens s event) :
      Took ids s event
        ({ s with past := s.past ++ [p.terminalizeWithoutFill event], active := none }.start event
          (openPosition ids key event) status)

variable {ids : PositionIds}

theorem entry_took (hparsed : event.Parsed) (hentry : event.action = .entry) :
    Took ids s event (s.entry ids event) := by
  unfold entry
  cases hkey : event.contractKey with
  | none => exact .unmatched _
  | some key =>
    cases hactive : s.active with
    | none =>
      refine .opened hactive hkey ⟨hparsed, by rw [hkey]; rfl, .inl ⟨hentry, fun p hp => ?_⟩⟩
      rw [hactive] at hp
      exact absurd hp (Option.not_mem_none p)
    | some active =>
      dsimp only
      by_cases hsame : active.contractKey = key
      · rw [if_pos hsame]
        exact .rebroadcast hactive (hkey.trans (congrArg some hsame.symm))
      · rw [if_neg hsame]
        refine .replaced hactive hkey ⟨hparsed, by rw [hkey]; rfl, .inl ⟨hentry, fun p hp => ?_⟩⟩
        rw [hactive] at hp
        cases hp
        rw [hkey]
        exact fun heq => hsame (Option.some.inj heq).symm

theorem cue_took : Took ids s event (s.cue event) := by
  unfold cue
  split
  · exact .unmatched _
  · rename_i hresolved
    split
    · exact .unmatched _
    · exact .ended hresolved .closed

theorem manage_took (hparsed : event.Parsed) : Took ids s event (s.manage event) := by
  unfold manage
  split
  · exact .unmatched _
  · rename_i hresolved hadd
    exact .kept hresolved (.added hadd) hparsed (by decide)
  · exact .unmatched _
  · rename_i position basis hresolved hreduce
    unfold reduce
    dsimp only
    split_ifs with hfull
    · exact .ended hresolved (.reducedOut hreduce hfull)
    · exact .kept hresolved (.reduced hreduce hfull) hparsed (by decide)
  · exact .unmatched _
  · rename_i hresolved _
    exact .ended hresolved .closed
  · exact .unmatched _
  · rename_i hresolved _
    exact .kept hresolved .stopUpdated hparsed (by decide)
  · exact .unmatched _
  · rename_i hresolved hupdate
    exact .kept hresolved (.positionUpdated hupdate) hparsed (by decide)
  · exact .advised _

theorem openFromAdd_took (hparsed : event.Parsed) (hadd : event.action = .add)
    (hcue : event.contextCue = none) (hactive : s.active = none) :
    Took ids s event (s.openFromAdd ids event) := by
  unfold openFromAdd
  cases hkey : event.contractKey with
  | none => exact .unmatched _
  | some key =>
    exact .opened hactive hkey ⟨hparsed, by rw [hkey]; rfl, .inr ⟨hadd, hcue, hactive⟩⟩

theorem take_took (ids : PositionIds) (s : Lifecycle) (event : SignalEvent) :
    Took ids s event (s.take ids event) := by
  unfold take
  split_ifs with hparsed hentry hcue hadd
  · exact entry_took hparsed hentry
  · exact cue_took
  · refine openFromAdd_took hparsed hadd.1 ?_ (Option.isNone_iff_eq_none.mp hadd.2)
    exact Option.not_isSome_iff_eq_none.mp hcue
  · exact manage_took hparsed
  · exact .advised _

/-! ### Positions after an event -/

theorem mem_positions : p ∈ s.positions ↔ p ∈ s.past ∨ s.active = some p := by
  rw [positions, List.mem_append, Option.mem_toList]

variable {t : Lifecycle} {q : Position}

/-- A position after an event goes on from one before it, or the event opened it. -/
theorem Took.positions (h : Took ids s event t) (hq : q ∈ t.positions) :
    (∃ p ∈ s.positions, Continues p q ∧ q.expiredUnresolvedAsOf = p.expiredUnresolvedAsOf) ∨
      Opens s event ∧ ∃ key, q = openPosition ids key event := by
  have hsame : q ∈ s.past → ∃ p ∈ s.positions, Continues p q ∧
      q.expiredUnresolvedAsOf = p.expiredUnresolvedAsOf := fun hpast =>
    ⟨q, mem_positions.mpr (.inl hpast), .refl q, rfl⟩
  cases h with
  | advised => exact .inl ⟨q, hq, .refl q, rfl⟩
  | unmatched => exact .inl ⟨q, hq, .refl q, rfl⟩
  | @rebroadcast p hactive =>
    rcases mem_positions.mp hq with hpast | hlive
    · exact .inl (hsame hpast)
    · cases hlive
      exact .inl ⟨p, mem_positions.mpr (.inr hactive), ⟨rfl, rfl, rfl, rfl⟩, rfl⟩
  | @kept p q' _ _ _ hresolved hkept =>
    rcases mem_positions.mp hq with hpast | hlive
    · exact .inl (hsame hpast)
    · cases hlive
      exact .inl ⟨p, mem_positions.mpr (.inr (resolveActivePosition_active hresolved)),
        hkept.carries.toContinues, hkept.carries.expiredUnresolvedAsOf⟩
  | @ended p q' _ _ hresolved hended =>
    rcases mem_positions.mp hq with hpast | hlive
    · rcases List.mem_append.mp hpast with hpast | hlast
      · exact .inl (hsame hpast)
      · rw [List.mem_singleton.mp hlast]
        exact .inl ⟨p, mem_positions.mpr (.inr (resolveActivePosition_active hresolved)),
          hended.ends.toContinues, hended.ends.expiredUnresolvedAsOf⟩
    · exact nomatch hlive
  | opened _ _ hopens =>
    rcases mem_positions.mp hq with hpast | hlive
    · exact .inl (hsame hpast)
    · cases hlive
      exact .inr ⟨hopens, _, rfl⟩
  | @replaced p _ _ hactive _ hopens =>
    rcases mem_positions.mp hq with hpast | hlive
    · rcases List.mem_append.mp hpast with hpast | hlast
      · exact .inl (hsame hpast)
      · rw [List.mem_singleton.mp hlast]
        exact .inl ⟨p, mem_positions.mpr (.inr hactive), ⟨rfl, rfl, rfl, rfl⟩, rfl⟩
    · cases hlive
      exact .inr ⟨hopens, _, rfl⟩

/-! ### Expiry -/

theorem expireElapsed_cases (s : Lifecycle) (session : CivilDate) :
    s.expireElapsed session = s ∨
      ∃ p expiry, s.active = some p ∧ p.expiry = some expiry ∧ expiry < session ∧
        s.expireElapsed session =
          { s with past := s.past ++ [p.expire expiry session], active := none } := by
  unfold expireElapsed
  split
  · exact .inl rfl
  · rename_i active hactive
    split
    · exact .inl rfl
    · rename_i expiry hexpiry
      split_ifs with hle
      · exact .inl rfl
      · exact .inr ⟨active, expiry, hactive, hexpiry, not_le.mp hle, rfl⟩

/-- What is still active has not expired. -/
theorem session_le_expiry_of_active {session expiry : CivilDate}
    (h : (s.expireElapsed session).active = some p) (hexpiry : p.expiry = some expiry) :
    session ≤ expiry := by
  unfold expireElapsed at h
  split at h
  · rename_i hnone
    exact nomatch hnone.symm.trans h
  · rename_i active hactive
    split at h
    · rename_i hnone
      cases (hactive.symm.trans h)
      exact nomatch hnone.symm.trans hexpiry
    · rename_i expiry' hexpiry'
      split_ifs at h with hle
      cases (hactive.symm.trans h)
      cases (hexpiry'.symm.trans hexpiry)
      exact hle

theorem expireFor_cases (s : Lifecycle) (event : SignalEvent) :
    s.expireFor event = s ∨
      ∃ session, event.sourceSessionDate = some session ∧
        s.expireFor event = s.expireElapsed session := by
  unfold expireFor
  cases event.sourceSessionDate with
  | none => exact .inl rfl
  | some session => exact .inr ⟨session, rfl, rfl⟩

/-- What every expiry keeps, the expiry for an event keeps. -/
theorem expireFor_induct {motive : Lifecycle → Prop} (hs : motive s)
    (hexpire : ∀ session, motive (s.expireElapsed session)) : motive (s.expireFor event) := by
  rcases expireFor_cases s event with heq | ⟨session, -, heq⟩
  · rw [heq]
    exact hs
  · rw [heq]
    exact hexpire session

theorem expireElapsed_links (s : Lifecycle) (session : CivilDate) :
    (s.expireElapsed session).links = s.links ∧
      (s.expireElapsed session).positionIdByMessage = s.positionIdByMessage := by
  rcases expireElapsed_cases s session with heq | ⟨a, expiry, -, -, -, heq⟩ <;> rw [heq] <;>
    exact ⟨rfl, rfl⟩

theorem expireFor_links (s : Lifecycle) (event : SignalEvent) :
    (s.expireFor event).links = s.links ∧
      (s.expireFor event).positionIdByMessage = s.positionIdByMessage :=
  expireFor_induct (motive := fun t => t.links = s.links ∧
    t.positionIdByMessage = s.positionIdByMessage) ⟨rfl, rfl⟩ (expireElapsed_links s)

end Lifecycle

end Discord

end AefTerminal
