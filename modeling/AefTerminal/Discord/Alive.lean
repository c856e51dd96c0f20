import AefTerminal.Discord.Steps

/-!
# Options that are alive when they are announced

A message that names a contract is announced at its session date. Where the expiry it writes is
resolved to a date that has not gone by, the position it opens outlives every event of that date.
The parser completes a written month and day with the year of the session date, so around the end
of a year the date it builds may be one that has gone by, and the position is taken for expired at
the next message.

## Main results

* `run_expires_later`: positions opened with dates ahead are not expired on their session date
* `announced_option_alive_iff`: what a parsed option is promised holds exactly where the zone's
  clock keeps its cutoff and every written date is of the year of its session
-/

namespace AefTerminal

open Foundation

namespace Discord

/-- A message that names a contract, as far as its expiry goes. -/
structure Announcement where
  publishedAt : Time
  text : ExpiryText

section Announced

variable (clock : ZoneClock) (defaultDte : ℤ)

def Announcement.session (message : Announcement) : CivilDate :=
  discordSourceSessionDate clock message.publishedAt

/-- The expiry the parser gives the contract of a message. -/
def Announcement.expiry (message : Announcement) : Option CivilDate :=
  (expiryFromContent message.text (message.session clock) defaultDte).1

/-- An event of the message: only that of its contract has an expiry. -/
def EventOf (message : Announcement) (event : SignalEvent) : Prop :=
  event.publishedAt = message.publishedAt ∧
    event.sourceSessionDate = some (message.session clock) ∧
      (event.expiry = message.expiry clock defaultDte ∨ event.expiry = none)

/-- What a feed's messages are promised. -/
structure AliveWhenAnnounced (messages : List Announcement) : Prop where
  weekday : ∀ t, (discordSourceSessionDate clock t).weekday < 5
  not_before : ∀ t, clock.localDate t ≤ discordSourceSessionDate clock t
  mono : ∀ t t', t ≤ t' → discordSourceSessionDate clock t ≤ discordSourceSessionDate clock t'
  resolves : ∀ message ∈ messages, ∀ month day, message.text.written = some (month, day) →
    IsFirstOf (occurrences (message.session clock) month day) (message.expiry clock defaultDte)
  outlives : ∀ ids events,
    (∀ event ∈ events, ∃ message ∈ messages, EventOf clock defaultDte message event) →
      ∀ p ∈ (Lifecycle.replay ids events).positions, ∀ expiry, p.expiry = some expiry →
        p.expiredUnresolvedAsOf = none ∨ p.expiredUnresolvedAsOf ≠ p.sourceSessionDate

end Announced

/-! ### The run -/

/-- The event's expiry is not before its session date. -/
def SignalEvent.DatedAhead (event : SignalEvent) : Prop :=
  ∀ expiry session, event.expiry = some expiry → event.sourceSessionDate = some session →
    session ≤ expiry

/-- A position that was alive when it was opened, and expired no earlier than it says. -/
structure Position.ExpiresLater (p : Position) : Prop where
  ahead : ∀ expiry session, p.expiry = some expiry → p.sourceSessionDate = some session →
    session ≤ expiry
  later : ∀ asOf, p.expiredUnresolvedAsOf = some asOf →
    ∃ expiry, p.expiry = some expiry ∧ expiry < asOf

theorem Position.ExpiresLater.continues {p q : Position} (h : p.ExpiresLater)
    (hq : Continues p q) (hasOf : q.expiredUnresolvedAsOf = p.expiredUnresolvedAsOf) :
    q.ExpiresLater := by
  constructor
  · rw [hq.expiry, hq.sourceSessionDate]
    exact h.ahead
  · rw [hasOf, hq.expiry]
    exact h.later

theorem openPosition_expiresLater (ids : PositionIds) (key : ContractKey) {event : SignalEvent}
    (h : event.DatedAhead) : (openPosition ids key event).ExpiresLater :=
  ⟨h, fun _ hasOf => nomatch hasOf⟩

theorem Position.ExpiresLater.expire {p : Position} (h : p.ExpiresLater)
    {expiry session : CivilDate} (hexpiry : p.expiry = some expiry) (hlt : expiry < session) :
    (p.expire expiry session).ExpiresLater := by
  refine ⟨h.ahead, fun asOf hasOf => ⟨expiry, hexpiry, ?_⟩⟩
  cases hasOf
  exact hlt

/-- An expired position did not expire on its session date. -/
theorem Position.ExpiresLater.ne {p : Position} (h : p.ExpiresLater) :
    p.expiredUnresolvedAsOf = none ∨ p.expiredUnresolvedAsOf ≠ p.sourceSessionDate := by
  cases hasOf : p.expiredUnresolvedAsOf with
  | none => exact .inl rfl
  | some asOf =>
    obtain ⟨expiry, hexpiry, hlt⟩ := h.later asOf hasOf
    exact .inr fun hsession => absurd (h.ahead expiry asOf hexpiry hsession.symm) (not_le.mpr hlt)

namespace Lifecycle

variable {ids : PositionIds} {s : Lifecycle} {event : SignalEvent}

theorem expireElapsed_expiresLater (h : ∀ p ∈ s.positions, p.ExpiresLater) (session : CivilDate) :
    ∀ p ∈ (s.expireElapsed session).positions, p.ExpiresLater := by
  rcases expireElapsed_cases s session with heq | ⟨a, expiry, hactive, hexpiry, hlt, heq⟩
  · rw [heq]
    exact h
  · rw [heq]
    intro p hp
    rcases List.mem_append.mp ((mem_positions.mp hp).resolve_right fun hnone => nomatch hnone)
      with hpast | hlast
    · exact h p (mem_positions.mpr (.inl hpast))
    · rw [List.mem_singleton.mp hlast]
      exact (h a (mem_positions.mpr (.inr hactive))).expire hexpiry hlt

theorem step_expiresLater (h : ∀ p ∈ s.positions, p.ExpiresLater) (hevent : event.DatedAhead) :
    ∀ p ∈ (step ids s event).positions, p.ExpiresLater := by
  have hexpired : ∀ p ∈ (s.expireFor event).positions, p.ExpiresLater :=
    expireFor_induct (motive := fun t => ∀ p ∈ t.positions, p.ExpiresLater) h
      (expireElapsed_expiresLater h)
  intro q hq
  rcases (take_took ids _ event).positions hq with ⟨p, hp, hcontinues, hasOf⟩ | ⟨-, key, rfl⟩
  · exact (hexpired p hp).continues hcontinues hasOf
  · exact openPosition_expiresLater ids key hevent

theorem run_expires_later {events : List SignalEvent} (h : ∀ event ∈ events, event.DatedAhead) :
    ∀ p ∈ (run ids events).positions, p.ExpiresLater := by
  induction events using List.reverseRecOn with
  | nil => exact fun p hp => absurd hp List.not_mem_nil
  | append_singleton events event ih =>
    rw [run_snoc]
    refine step_expiresLater (ih fun e he => h e (List.mem_append_left _ he)) ?_
    exact h event (List.mem_append_right _ List.mem_cons_self)

end Lifecycle

/-! ### When the promise is kept -/

/-- A parsed option is alive when it is announced exactly where the clock keeps its cutoff and the
year of the session fits every date that is written. -/
theorem announced_option_alive_iff (clock : ZoneClock) (defaultDte : ℤ)
    (messages : List Announcement) :
    AliveWhenAnnounced clock defaultDte messages ↔
      clock.KeepsCutoff ∧ ∀ message ∈ messages, ∀ month day,
        message.text.written = some (month, day) →
          YearFits (message.session clock) month day := by
  constructor
  · intro h
    refine ⟨(sessionDate_mono_iff clock).mp h.mono, fun message hmem month day hwritten => ?_⟩
    exact (expiryFromContent_resolves_iff hwritten _ _).mp (h.resolves message hmem month day hwritten)
  · rintro ⟨hkeeps, hfits⟩
    refine ⟨sessionDate_weekday clock, localDate_le_sessionDate clock,
      (sessionDate_mono_iff clock).mpr hkeeps, fun message hmem month day hwritten =>
        (expiryFromContent_resolves_iff hwritten _ _).mpr (hfits message hmem month day hwritten),
      fun ids events hevents p hp _ _ => ?_⟩
    have hahead : ∀ event ∈ events, event.DatedAhead := by
      intro event hevent expiry session hexpiry hsession
      obtain ⟨message, hmem, -, hdate, hfrom⟩ := hevents event hevent
      cases (hdate.symm.trans hsession)
      rcases hfrom with hfrom | hnone
      · exact session_le_expiry (hfits message hmem) (hfrom.symm.trans hexpiry)
      · exact nomatch hnone.symm.trans hexpiry
    have hrun : ∀ q ∈ (Lifecycle.run ids (inOrder events)).positions, q.ExpiresLater :=
      Lifecycle.run_expires_later fun event hevent => hahead event (mem_inOrder.mp hevent)
    exact (hrun p hp).ne

/-- A zone on the thirtieth of December 2026, a Wednesday. -/
def newYearClock : ZoneClock where
  localDate _ := ⟨2026, 12, 30, by decide, by decide, by decide⟩
  timeOfDay _ := 0
  localDate_mono _ := le_rfl

/-- `Jan 5`. -/
def january5 : Announcement := ⟨0, ⟨some ("jan", 5), none⟩⟩

theorem january5_session : january5.session newYearClock = newYearClock.localDate 0 :=
  skipWeekend_of_weekday (by decide)

def januaryEntry : SignalEvent where
  messageId := "1"
  channelId := "1"
  replyToMessageId := none
  ordinal := 0
  publishedAt := 0
  action := .entry
  parseStatus := .parsedUnqualified
  sourceSessionDate := some (newYearClock.localDate 0)
  expiry := CivilDate.ofParts 2026 1 5
  strike := some 6900
  optionRight := some "call"
  reportedPremium := some 2

def sameDayMessage : SignalEvent :=
  { januaryEntry with messageId := "2", action := .commentary, expiry := none }

/-- A call for the fifth of January, announced on the thirtieth of December, expires at the next
message of that day. -/
theorem january_option_expires_in_december :
    ((Lifecycle.replay entryIds [januaryEntry, sameDayMessage]).positions.map fun p =>
        p.expiredUnresolvedAsOf) = [some (newYearClock.localDate 0)] ∧
      ¬ AliveWhenAnnounced newYearClock 0 [january5] := by
  refine ⟨by decide +kernel, fun h => ?_⟩
  have hevents : ∀ event ∈ [januaryEntry, sameDayMessage], ∃ message ∈ [january5],
      EventOf newYearClock 0 message event := by
    intro event hevent
    refine ⟨january5, List.mem_singleton_self january5, ?_⟩
    rcases List.mem_pair.mp hevent with rfl | rfl
    · refine ⟨rfl, congrArg some january5_session.symm, .inl ?_⟩
      rw [Announcement.expiry, january5_session]
      rfl
    · exact ⟨rfl, congrArg some january5_session.symm, .inr rfl⟩
  have hoften : ∃ p ∈ (Lifecycle.replay entryIds [januaryEntry, sameDayMessage]).positions,
      p.expiry = CivilDate.ofParts 2026 1 5 ∧ p.expiredUnresolvedAsOf.isSome ∧
        p.expiredUnresolvedAsOf = p.sourceSessionDate := by decide +kernel
  obtain ⟨p, hp, hexpiry, hexpired, hsame⟩ := hoften
  rcases h.outlives entryIds _ hevents p hp _ hexpiry with hnone | hne
  · rw [hnone] at hexpired
    exact Bool.false_ne_true hexpired
  · exact hne hsame

end Discord

end AefTerminal
