import AefTerminal.Foundation.Threads
import AefTerminal.Discord.Alive

/-!
# Every event is linked once

Seen from its events, a position is a thread: it starts with the event that opens it, is joined by
those that name it and ended by the last of them, or by the entry that takes its place. The replay
refines the threads of its events, so what holds of threads holds of positions. Beyond that the
message table is the memory of the links: it has, for each message, the position its last linked
event was linked to.

## Main results

* `Linked.step`: what the links, the threads and the message table keep
* `run_links_get?`: later events change no earlier link
* `run_inTime`: no event is linked to a position whose expiry has gone by, where no position is
  opened from a contract that has expired
* `links_once`: what the links of a feed are promised
-/

namespace AefTerminal

open Foundation

namespace Discord

/-- The position a link names. -/
def Link.names (link : Link) : Option String :=
  if link.positionId = "" then none else some link.positionId

/-- A position as the thread of its events. -/
def Position.thread (p : Position) : Thread String String :=
  ⟨p.positionId, p.eventIds, p.exitEventId, p.exitReason = some "superseded"⟩

theorem Carries.thread {p q : Position} {event : SignalEvent} (h : Carries p event q) :
    q.thread = p.thread.join event.eventId := by
  simp only [Position.thread, Thread.join, h.positionId, h.eventIds, h.exitEventId, h.exitReason]

theorem Ends.thread {p q : Position} {event : SignalEvent} (h : Ends p event q) :
    q.thread = p.thread.finish event.eventId (q.exitReason = some "superseded") := by
  simp only [Position.thread, Thread.finish, Thread.join, h.positionId, h.eventIds, h.exitEventId]

namespace Lifecycle

/-- The position an event is linked to. -/
def named (s : Lifecycle) (event : SignalEvent) : Option String :=
  (s.links.get? event.eventId).bind Link.names

/-- The position that the last linked event of a message is linked to. -/
def lastNamed (s : Lifecycle) (events : List SignalEvent) (messageId : String) : Option String :=
  events.reverse.findSome? fun event => if event.messageId = messageId then s.named event else none

def threads (s : Lifecycle) (events : List SignalEvent) : Threads String String :=
  ⟨s.past.map Position.thread, s.active.map Position.thread,
    events.map fun event => (event.eventId, s.named event)⟩

theorem threads_all (s : Lifecycle) (events : List SignalEvent) :
    (s.threads events).all = s.positions.map Position.thread := by
  rw [threads, Threads.all, positions, List.map_append]
  cases s.active <;> rfl

/-- What holds of the replay after the events. -/
structure Linked (ids : PositionIds) (events : List SignalEvent) (s : Lifecycle) : Prop where
  keys : s.links.keys = events.map SignalEvent.eventId
  opened : ∀ p ∈ s.positions, ∃ key, ∃ id ∈ events.map SignalEvent.eventId,
    p.positionId = ids.id key id
  sound : (s.threads events).Sound
  active : ∀ p, s.active = some p → p.state = .opened
  past : ∀ p ∈ s.past, p.state ≠ .opened
  messages : ∀ m, s.positionIdByMessage.get? m = s.lastNamed events m

section Links

variable {ids : PositionIds} {s t : Lifecycle} {events : List SignalEvent} {event : SignalEvent}
  {link : Link}

theorem named_of_insert (h : t.links = s.links.insert event.eventId link) :
    t.named event = link.names := by
  rw [named, h, Dict.get?_insert_self]
  rfl

theorem named_of_insert_ne (h : t.links = s.links.insert event.eventId link) {e : SignalEvent}
    (hne : e.eventId ≠ event.eventId) : t.named e = s.named e := by
  rw [named, h, Dict.get?_insert_of_ne _ hne]
  rfl

theorem ne_of_mem (hnew : event.eventId ∉ events.map SignalEvent.eventId) {e : SignalEvent}
    (he : e ∈ events) : e.eventId ≠ event.eventId := fun heq =>
  hnew (heq ▸ List.mem_map_of_mem he)

theorem links_snoc (hnew : event.eventId ∉ events.map SignalEvent.eventId)
    (h : t.links = s.links.insert event.eventId link) :
    (t.threads (events ++ [event])).links =
      (s.threads events).links ++ [(event.eventId, link.names)] := by
  have hold : ∀ e ∈ events, (e.eventId, t.named e) = (e.eventId, s.named e) := fun e he => by
    rw [named_of_insert_ne h (ne_of_mem hnew he)]
  simp only [threads, List.map_append, List.map_singleton, List.map_congr_left hold,
    named_of_insert h]

theorem lastNamed_congr {m : String} (h : ∀ e ∈ events, t.named e = s.named e) :
    t.lastNamed events m = s.lastNamed events m := by
  unfold lastNamed
  induction events using List.reverseRecOn with
  | nil => rfl
  | append_singleton events e ih =>
    have hold := ih fun e' he' => h e' (List.mem_append_left _ he')
    simp only [List.reverse_append, List.reverse_singleton, List.singleton_append,
      List.findSome?_cons, hold, h e (List.mem_append_right _ List.mem_cons_self)]

theorem lastNamed_snoc (hnew : event.eventId ∉ events.map SignalEvent.eventId)
    (h : t.links = s.links.insert event.eventId link) (m : String) :
    t.lastNamed (events ++ [event]) m =
      if event.messageId = m then link.names.or (s.lastNamed events m)
      else s.lastNamed events m := by
  have hold : t.lastNamed events m = s.lastNamed events m :=
    lastNamed_congr fun e he => named_of_insert_ne h (ne_of_mem hnew he)
  rw [lastNamed] at hold
  simp only [lastNamed, List.reverse_append, List.reverse_singleton, List.singleton_append,
    List.findSome?_cons, hold, named_of_insert h]
  split_ifs
  · cases link.names <;> rfl
  · rfl

/-- The positions of a linked replay have distinct ids. -/
theorem Linked.nodup (h : Linked ids events s) : (s.positions.map Position.positionId).Nodup := by
  have hids := h.sound.ids
  rwa [threads_all, List.map_map] at hids

theorem Linked.eq_of_id (h : Linked ids events s) {p q : Position} (hp : p ∈ s.positions)
    (hq : q ∈ s.positions) (hid : p.positionId = q.positionId) : p = q :=
  List.inj_on_of_nodup_map h.nodup hp hq hid

/-- The id of a position that an event opens is new. -/
theorem Linked.fresh (h : Linked ids events s)
    (hnew : event.eventId ∉ events.map SignalEvent.eventId) (key : ContractKey) :
    ids.id key event.eventId ∉ (s.threads events).all.map Thread.id := by
  rw [threads_all, List.map_map]
  intro hmem
  obtain ⟨p, hp, hid⟩ := List.mem_map.mp hmem
  obtain ⟨key', id, hin, hid'⟩ := h.opened p hp
  exact hnew (ids.eq_of_id_eq (hid'.symm.trans hid) ▸ hin)

theorem Linked.expireElapsed (h : Linked ids events s) (session : CivilDate) :
    Linked ids events (s.expireElapsed session) := by
  rcases expireElapsed_cases s session with heq | ⟨a, expiry, hactive, -, -, heq⟩
  · rwa [heq]
  · rw [heq]
    have hsound := h.sound.lapse
    have hthreads : (s.threads events).lapse =
        ({ s with past := s.past ++ [a.expire expiry session], active := none } :
          Lifecycle).threads events := by
      simp only [Threads.lapse, Threads.all, threads, hactive, List.map_append]
      rfl
    refine ⟨h.keys, fun p hp => ?_, hthreads ▸ hsound, fun p hp => (by cases hp), fun p hp => ?_,
      h.messages⟩
    · rcases List.mem_append.mp ((mem_positions.mp hp).resolve_right fun hn => by cases hn)
        with hpast | hlast
      · exact h.opened p (mem_positions.mpr (.inl hpast))
      · rw [List.mem_singleton.mp hlast]
        exact h.opened a (mem_positions.mpr (.inr hactive))
    · rcases List.mem_append.mp hp with hpast | hlast
      · exact h.past p hpast
      · rw [List.mem_singleton.mp hlast]
        rintro ⟨⟩

/-- What an event does to the threads. -/
theorem Took.threads (h : Took ids s event t) (hs : Linked ids events s)
    (hnew : event.eventId ∉ events.map SignalEvent.eventId) :
    (s.threads events).Step event.eventId (t.threads (events ++ [event])) := by
  have hname : ∀ {q : Position}, (∃ key id, q.positionId = ids.id key id) → ∀ {status basis action},
      (⟨status, q.positionId, basis, action⟩ : Link).names = some q.positionId := by
    rintro q ⟨key, id, hid⟩ status basis action
    exact if_neg (hid ▸ ids.id_ne_empty key id)
  have hid : ∀ {p q : Position}, s.active = some p → Joins p event q →
      ∃ key id, q.positionId = ids.id key id := fun {p q} hactive hq => by
    obtain ⟨key, id, -, hid⟩ := hs.opened p (mem_positions.mpr (.inr hactive))
    exact ⟨key, id, hq.positionId.trans hid⟩
  have hlive : ∀ {p}, s.active = some p → (s.threads events).live = some p.thread := fun hactive =>
    congrArg (Option.map Position.thread) hactive
  have hsplit {u : Lifecycle} {past live link n}
      (hlinks : u.links = s.links.insert event.eventId link) (hn : link.names = n)
      (hpast : u.past.map Position.thread = past) (hlast : u.active.map Position.thread = live) :
      u.threads (events ++ [event]) =
        ⟨past, live, (s.threads events).links ++ [(event.eventId, n)]⟩ := by
    rw [← hn, ← links_snoc hnew hlinks, ← hpast, ← hlast]
    rfl
  have hkeep {p q : Position} {status basis action} (hactive : s.active = some p)
      (hc : Carries p event q) : (s.threads events).Step event.eventId
        ((s.keep event q status basis action).threads (events ++ [event])) := by
    rw [hsplit (u := s.keep event q status basis action) rfl (hname (hid hactive hc.toJoins)) rfl
      (congrArg some hc.thread), hc.positionId]
    exact .join _ (hlive hactive)
  cases h with
  | advised status =>
    rw [hsplit (u := s.advise event status) rfl rfl rfl rfl]
    exact .pass _ _
  | unmatched status =>
    rw [hsplit (u := s.unmatched event status) rfl rfl rfl rfl]
    exact .pass _ _
  | @rebroadcast p hactive => exact hkeep hactive (linkEvent_carries p event)
  | kept hresolved hkept => exact hkeep (resolveActivePosition_active hresolved) hkept.carries
  | @ended p q _ _ hresolved hended =>
    have hactive := resolveActivePosition_active hresolved
    have he := hended.ends
    rw [hsplit rfl (hname (hid hactive he.toJoins)) List.map_append rfl, he.positionId,
      List.map_singleton, he.thread]
    exact .finish _ _ (hlive hactive)
  | @opened key _ hactive =>
    rw [hsplit rfl (hname ⟨key, _, rfl⟩) rfl rfl]
    exact .start _ (congrArg (Option.map Position.thread) hactive) (hs.fresh hnew key)
  | @replaced p key _ hactive =>
    rw [hsplit rfl (hname ⟨key, _, rfl⟩) List.map_append rfl, List.map_singleton,
      (terminalizeWithoutFill_ends p event).thread]
    exact .supersede _ (hlive hactive) (hs.fresh hnew key)

/-- The message table after an event. -/
theorem Took.messages (h : Took ids s event t) (hnames : ∀ p ∈ t.positions, p.positionId ≠ "") :
    ∃ link, t.links = s.links.insert event.eventId link ∧ ∀ m,
      t.positionIdByMessage.get? m =
        if event.messageId = m then link.names.or (s.positionIdByMessage.get? m)
        else s.positionIdByMessage.get? m := by
  have hnone : ∀ status, (⟨status, "", none, none⟩ : Link).names = none := fun _ => if_pos rfl
  have hnamed {u : Lifecycle} {q : Position} (link : Link) (hlink : link.positionId = q.positionId)
      (hq : q ∈ t.positions) (hu : t = u.name event link)
      (htable : u.positionIdByMessage = s.positionIdByMessage) (m : String) :
      t.positionIdByMessage.get? m =
        if event.messageId = m then link.names.or (s.positionIdByMessage.get? m)
        else s.positionIdByMessage.get? m := by
    have hnames : link.names = some link.positionId := if_neg (hlink ▸ hnames q hq)
    rw [hu, name, htable, hnames]
    dsimp only
    rw [Dict.get?_insert]
    by_cases hm : m = event.messageId
    · rw [if_pos hm, if_pos hm.symm]
      rfl
    · rw [if_neg hm, if_neg (Ne.symm hm)]
  cases h with
  | advised status => exact ⟨_, rfl, fun m => by rw [hnone, Option.none_or, ite_self]; rfl⟩
  | unmatched status => exact ⟨_, rfl, fun m => by rw [hnone, Option.none_or, ite_self]; rfl⟩
  | rebroadcast => exact ⟨_, rfl, hnamed _ rfl (mem_positions.mpr (.inr rfl)) rfl rfl⟩
  | kept => exact ⟨_, rfl, hnamed _ rfl (mem_positions.mpr (.inr rfl)) rfl rfl⟩
  | ended =>
    exact ⟨_, rfl, hnamed _ rfl
      (mem_positions.mpr (.inl (List.mem_append_right _ List.mem_cons_self))) rfl rfl⟩
  | opened => exact ⟨_, rfl, hnamed _ rfl (mem_positions.mpr (.inr rfl)) rfl rfl⟩
  | replaced => exact ⟨_, rfl, hnamed _ rfl (mem_positions.mpr (.inr rfl)) rfl rfl⟩

theorem Took.states (h : Took ids s event t) (hs : Linked ids events s) :
    (∀ p, t.active = some p → p.state = .opened) ∧ ∀ p ∈ t.past, p.state ≠ .opened := by
  have hclosed {p : Position} {q : Position} (he : Ends p event q) :
      ∀ r ∈ s.past ++ [q], r.state ≠ .opened := by
    intro r hr
    rcases List.mem_append.mp hr with hr | hr
    · exact hs.past r hr
    · rw [List.mem_singleton.mp hr, he.state]
      exact fun hopened => nomatch hopened
  cases h with
  | advised => exact ⟨hs.active, hs.past⟩
  | unmatched => exact ⟨hs.active, hs.past⟩
  | @rebroadcast p hactive =>
    refine ⟨fun q hq => ?_, hs.past⟩
    cases hq
    exact hs.active p hactive
  | kept hresolved hkept =>
    refine ⟨fun p hp => ?_, hs.past⟩
    cases hp
    exact hkept.carries.state.trans (hs.active _ (resolveActivePosition_active hresolved))
  | ended _ hended => exact ⟨fun p hp => (nomatch hp), hclosed hended.ends⟩
  | opened =>
    refine ⟨fun p hp => ?_, hs.past⟩
    cases hp
    rfl
  | replaced =>
    refine ⟨fun p hp => ?_, hclosed (terminalizeWithoutFill_ends _ event)⟩
    cases hp
    rfl

theorem Linked.step (hs : Linked ids events s)
    (hnew : event.eventId ∉ events.map SignalEvent.eventId) :
    Linked ids (events ++ [event]) (step ids s event) := by
  have hs' : Linked ids events (s.expireFor event) := expireFor_induct hs hs.expireElapsed
  have htook := take_took ids (s.expireFor event) event
  have hopened : ∀ q ∈ ((s.expireFor event).take ids event).positions, ∃ key,
      ∃ id ∈ (events ++ [event]).map SignalEvent.eventId, q.positionId = ids.id key id := by
    intro q hq
    rw [List.map_append]
    rcases htook.positions hq with ⟨p, hp, hcontinues, -⟩ | ⟨-, key, rfl⟩
    · obtain ⟨key, id, hin, hid⟩ := hs'.opened p hp
      exact ⟨key, id, List.mem_append_left _ hin, hcontinues.positionId.trans hid⟩
    · exact ⟨key, _, List.mem_append_right _ (List.mem_singleton.mpr rfl), rfl⟩
  have hnames : ∀ q ∈ ((s.expireFor event).take ids event).positions, q.positionId ≠ "" := by
    intro q hq hempty
    obtain ⟨key, id, -, hid⟩ := hopened q hq
    exact ids.id_ne_empty key id (hid.symm.trans hempty)
  have hids : event.eventId ∉ ((s.expireFor event).threads events).links.map Prod.fst := by
    simpa only [threads, List.map_map, Function.comp_def] using hnew
  obtain ⟨link, hlinks, hmessages⟩ := htook.messages hnames
  refine ⟨?_, hopened, hs'.sound.step hids (htook.threads hs' hnew), (htook.states hs').1,
    (htook.states hs').2, fun m => ?_⟩
  · rw [Lifecycle.step, hlinks, Dict.keys_insert_of_notMem (hs'.keys ▸ hnew), hs'.keys,
      List.map_append]
    rfl
  · rw [Lifecycle.step, lastNamed_snoc hnew hlinks, hmessages, hs'.messages]

theorem linked_run (ids : PositionIds) {events : List SignalEvent}
    (h : (events.map SignalEvent.eventId).Nodup) : Linked ids events (run ids events) := by
  induction events using List.reverseRecOn with
  | nil =>
    exact ⟨rfl, fun _ hp => absurd hp List.not_mem_nil, Threads.sound_nil, fun _ hp => (nomatch hp),
      fun _ hp => absurd hp List.not_mem_nil, fun _ => rfl⟩
  | append_singleton events event ih =>
    rw [List.map_append, List.map_singleton, ← List.concat_eq_append,
      List.nodup_concat] at h
    rw [run_snoc]
    exact (ih h.2).step h.1

/-- How the event's link came about. -/
theorem Took.link_cases (h : Took ids s event t) :
    ∃ link, t.links = s.links.insert event.eventId link ∧ (link.names = none ∨
      ∃ q ∈ t.positions, link.positionId = q.positionId ∧
        ((∃ p basis, s.active = some p ∧ Continues p q ∧
            (link.lifecycleStatus = "entry_rebroadcast" ∨
              s.resolveActivePosition event = (some p, basis))) ∨
          link.effectiveAction = some .entry ∧ Opens s event ∧ q.expiry = event.expiry)) := by
  cases h with
  | advised => exact ⟨_, rfl, .inl (if_pos rfl)⟩
  | unmatched => exact ⟨_, rfl, .inl (if_pos rfl)⟩
  | @rebroadcast p hactive =>
    exact ⟨_, rfl, .inr ⟨_, mem_positions.mpr (.inr rfl), rfl,
      .inl ⟨p, "", hactive, ⟨rfl, rfl, rfl, rfl⟩, .inl rfl⟩⟩⟩
  | kept hresolved hkept =>
    exact ⟨_, rfl, .inr ⟨_, mem_positions.mpr (.inr rfl), rfl,
      .inl ⟨_, _, resolveActivePosition_active hresolved, hkept.carries.toContinues,
        .inr hresolved⟩⟩⟩
  | ended hresolved hended =>
    exact ⟨_, rfl, .inr ⟨_, mem_positions.mpr (.inl (List.mem_append_right _ List.mem_cons_self)),
      rfl, .inl ⟨_, _, resolveActivePosition_active hresolved, hended.ends.toContinues,
        .inr hresolved⟩⟩⟩
  | opened _ _ hopens =>
    exact ⟨_, rfl, .inr ⟨_, mem_positions.mpr (.inr rfl), rfl, .inr ⟨rfl, hopens, rfl⟩⟩⟩
  | replaced _ _ hopens =>
    exact ⟨_, rfl, .inr ⟨_, mem_positions.mpr (.inr rfl), rfl, .inr ⟨rfl, hopens, rfl⟩⟩⟩

theorem names_eq_some {id : String} (h : link.names = some id) : link.positionId = id := by
  rw [Link.names] at h
  split_ifs at h
  exact Option.some.inj h

/-! ### Later events -/

/-- Later events change no earlier link. -/
theorem run_links_get? (before : List SignalEvent) {after : List SignalEvent} {id : String}
    (h : id ∉ after.map SignalEvent.eventId) :
    (run ids (before ++ after)).links.get? id = (run ids before).links.get? id := by
  induction after using List.reverseRecOn with
  | nil => rw [List.append_nil]
  | append_singleton after event ih =>
    rw [List.map_append, List.mem_append, not_or] at h
    obtain ⟨link, hlink, -⟩ := (take_took ids ((run ids (before ++ after)).expireFor event)
      event).link_cases
    have hne : id ≠ event.eventId := fun heq => h.2 (heq ▸ List.mem_cons_self)
    rw [← List.append_assoc, run_snoc, Lifecycle.step, hlink, Dict.get?_insert_of_ne _ hne,
      (expireFor_links _ event).1, ih h.1]

/-! ### Events of elapsed positions -/

/-- No event is linked to a position whose expiry is before its session date. -/
def InTime (events : List SignalEvent) (s : Lifecycle) : Prop :=
  ∀ p ∈ s.positions, ∀ e ∈ events, s.named e = some p.positionId →
    ∀ expiry session, p.expiry = some expiry → e.sourceSessionDate = some session →
      session ≤ expiry

theorem InTime.expireElapsed (h : InTime events s) (session : CivilDate) :
    InTime events (s.expireElapsed session) := by
  rcases expireElapsed_cases s session with heq | ⟨a, expiry, hactive, -, -, heq⟩
  · rwa [heq]
  · rw [heq]
    intro p hp
    rcases List.mem_append.mp ((mem_positions.mp hp).resolve_right fun hn => nomatch hn)
      with hpast | hlast
    · exact h p (mem_positions.mpr (.inl hpast))
    · rw [List.mem_singleton.mp hlast]
      exact h a (mem_positions.mpr (.inr hactive))

/-- A position that is active at an event has not expired at its session date. -/
theorem session_le_of_active {p : Position} (hactive : (s.expireFor event).active = some p)
    {expiry session : CivilDate} (hexpiry : p.expiry = some expiry)
    (hsession : event.sourceSessionDate = some session) : session ≤ expiry := by
  rw [expireFor, hsession] at hactive
  exact session_le_expiry_of_active hactive hexpiry

theorem InTime.step (h : InTime events s) (hs : Linked ids events s)
    (hnew : event.eventId ∉ events.map SignalEvent.eventId)
    (hahead : Opens (s.expireFor event) event → event.DatedAhead) :
    InTime (events ++ [event]) (step ids s event) := by
  have h' : InTime events (s.expireFor event) := expireFor_induct h h.expireElapsed
  have hs' : Linked ids events (s.expireFor event) := expireFor_induct hs hs.expireElapsed
  have hnext := hs.step hnew
  have htook := take_took ids (s.expireFor event) event
  obtain ⟨link, hlinks, hcases⟩ := htook.link_cases
  intro q hq e he hnamed expiry session hexpiry hsession
  rcases List.mem_append.mp he with hold | hlast
  · -- an earlier event keeps its link, and the position it names is not the event's own
    rw [Lifecycle.step, named_of_insert_ne hlinks (ne_of_mem hnew hold)] at hnamed
    rcases htook.positions hq with ⟨p, hp, hcontinues, -⟩ | ⟨-, key, rfl⟩
    · rw [hcontinues.positionId] at hnamed
      exact h' p hp e hold hnamed expiry session (hcontinues.expiry ▸ hexpiry) hsession
    · exact absurd (hs'.sound.named e.eventId _ (List.mem_map.mpr ⟨e, hold, by rw [hnamed]; rfl⟩))
        (hs'.fresh hnew key)
  · obtain rfl := List.mem_singleton.mp hlast
    rw [Lifecycle.step, named_of_insert hlinks] at hnamed
    rcases hcases with hnone | ⟨r, hr, hid, hhow⟩
    · exact nomatch hnone.symm.trans hnamed
    · obtain rfl : r = q := hnext.eq_of_id hr hq (hid.symm.trans (names_eq_some hnamed))
      rcases hhow with ⟨p, -, hactive, hsame, -⟩ | ⟨-, hopens, hsame⟩
      · exact session_le_of_active hactive (hsame.expiry ▸ hexpiry) hsession
      · exact hahead hopens expiry session (hsame ▸ hexpiry) hsession

/-- No position of the events is opened from a contract that expired before its session date. -/
def OpensAhead (ids : PositionIds) (events : List SignalEvent) : Prop :=
  ∀ before event after, events = before ++ event :: after →
    Opens ((run ids before).expireFor event) event → event.DatedAhead

theorem run_inTime (h : (events.map SignalEvent.eventId).Nodup) (hahead : OpensAhead ids events) :
    InTime events (run ids events) := by
  induction events using List.reverseRecOn with
  | nil => exact fun _ _ _ he => absurd he List.not_mem_nil
  | append_singleton events event ih =>
    rw [List.map_append, List.map_singleton, ← List.concat_eq_append, List.nodup_concat] at h
    rw [run_snoc]
    refine (ih h.2 fun before e after heq => hahead before e (after ++ [event]) ?_).step
      (linked_run ids h.2) h.1 (hahead events event [] rfl)
    rw [heq, List.append_assoc]
    rfl

end Links

/-- The event is the entry that superseded the position. -/
def SupersededBy (p : Position) (event : SignalEvent) : Prop :=
  p.exitReason = some "superseded" ∧ p.exitEventId = some event.eventId

instance (p : Position) (event : SignalEvent) : Decidable (SupersededBy p event) :=
  inferInstanceAs (Decidable (_ ∧ _))

/-- What the links of a feed are promised, for any as-of date that is not before its events. -/
structure LinksOnce (ids : PositionIds) (events : List SignalEvent) : Prop where
  order_free : ∀ events', events.Perm events' → ∀ asOf, project ids events' asOf =
    project ids events asOf
  /-- The projection succeeds, with the links of the replay. -/
  projects : ∀ asOf, (∀ event ∈ events, ∀ session ∈ event.sourceSessionDate, session ≤ asOf) →
    ∃ s, project ids events asOf = .ok s ∧ s.links = (replay ids events).links
  one_link : (replay ids events).links.keys = (inOrder events).map SignalEvent.eventId
  members : ∀ asOf s, project ids events asOf = .ok s → ∀ p ∈ s.positions, ∀ event ∈ events,
    p.eventIds.count event.eventId =
      if s.named event = some p.positionId ∨ SupersededBy p event then 1 else 0
  one_open : ∀ before after, inOrder events = before ++ after →
    ((run ids before).positions.filter fun p => p.state = .opened).length ≤ 1
  not_after_close : ∀ asOf s, project ids events asOf = .ok s → ∀ p ∈ s.positions,
    ∀ before event after, inOrder events = before ++ event :: after →
      p.exitEventId = some event.eventId → ∀ later ∈ after, s.named later ≠ some p.positionId
  not_after_expiry : ∀ asOf s, project ids events asOf = .ok s → ∀ p ∈ s.positions,
    ∀ event ∈ events, ∀ expiry session, p.expiry = some expiry →
      event.sourceSessionDate = some session → expiry < session →
        s.named event ≠ some p.positionId
  reply_parent : ∀ before event after, inOrder events = before ++ event :: after →
    ∀ parent link id, event.replyToMessageId = some parent →
      (replay ids events).links.get? event.eventId = some link → link.names = some id →
        link.effectiveAction ≠ some .entry → link.lifecycleStatus ≠ "entry_rebroadcast" →
          (run ids before).lastNamed before parent = some id
  later_events : ∀ before after, inOrder events = before ++ after → ∀ event ∈ before,
    (replay ids events).links.get? event.eventId =
      (replay ids before).links.get? event.eventId

section Links

variable {ids : PositionIds} {s : Lifecycle} {events : List SignalEvent}

theorem project_eq_of_perm {events' : List SignalEvent} (hperm : events.Perm events')
    (h : (events.map SignalEvent.eventId).Nodup) (asOf : CivilDate) :
    project ids events' asOf = project ids events asOf := by
  have hlate : (∃ event ∈ events', ∃ session ∈ event.sourceSessionDate, asOf < session) ↔
      ∃ event ∈ events, ∃ session ∈ event.sourceSessionDate, asOf < session :=
    exists_congr fun event => and_congr_left' hperm.mem_iff.symm
  unfold project
  refine if_congr hlate rfl ?_
  rw [replay, replay, inOrder_eq_of_perm hperm h]

/-- At most one position is open. -/
theorem Linked.one_open (h : Linked ids events s) :
    (s.positions.filter fun p => p.state = .opened).length ≤ 1 := by
  have hpast : s.past.filter (fun p => p.state = .opened) = [] :=
    List.filter_eq_nil_iff.mpr fun p hp => by simpa using h.past p hp
  rw [positions, List.filter_append, hpast, List.nil_append]
  refine (List.length_filter_le _ _).trans ?_
  cases s.active <;> simp

theorem project_eq_ok (h : Linked ids (inOrder events) (replay ids events)) {asOf : CivilDate}
    (hasOf : project ids events asOf = .ok s) : s = (replay ids events).expireElapsed asOf := by
  unfold project at hasOf
  dsimp only at hasOf
  rw [if_neg (not_lt.mpr (h.expireElapsed asOf).one_open)] at hasOf
  split_ifs at hasOf
  exact (Except.ok.inj hasOf).symm

/-- The thread of an event and a position. -/
theorem belongsTo_iff {p : Position} {event : SignalEvent} (hevent : event ∈ events) :
    BelongsTo (s.threads events).links p.thread event.eventId ↔
      s.named event = some p.positionId ∨ SupersededBy p event := by
  refine or_congr ⟨fun hlink => ?_, fun hnamed => ?_⟩ (and_congr_left' decide_eq_true_iff)
  · obtain ⟨e, -, he⟩ := List.mem_map.mp hlink
    obtain ⟨hid, hnamed⟩ := Prod.mk.inj he
    rw [named, ← hid]
    exact hnamed
  · exact List.mem_map.mpr ⟨event, hevent, by rw [hnamed]; rfl⟩

theorem Linked.count_eq (h : Linked ids events s) {p : Position} (hp : p ∈ s.positions)
    {event : SignalEvent} (hevent : event ∈ events) :
    p.eventIds.count event.eventId =
      if s.named event = some p.positionId ∨ SupersededBy p event then 1 else 0 := by
  have hthread := h.sound.threads p.thread (s.threads_all events ▸ List.mem_map_of_mem hp)
  split_ifs with hbelongs
  · exact hthread.count_eq_one _ ((belongsTo_iff hevent).mpr hbelongs)
  · exact List.count_eq_zero_of_not_mem
      (hthread.notMem fun hnot => hbelongs ((belongsTo_iff hevent).mp hnot))

theorem Linked.not_after_close (h : Linked ids events s) {p : Position} (hp : p ∈ s.positions)
    {before after : List SignalEvent} {event : SignalEvent}
    (hsplit : events = before ++ event :: after) (hend : p.exitEventId = some event.eventId)
    {later : SignalEvent} (hlater : later ∈ after) : s.named later ≠ some p.positionId := by
  have hthread := h.sound.threads p.thread (s.threads_all events ▸ List.mem_map_of_mem hp)
  intro hnamed
  refine hthread.ended event.eventId hend
    (before.map fun e => (e.eventId, s.named e)) (s.named event)
    (after.map fun e => (e.eventId, s.named e)) ?_ later.eventId
    (List.mem_map.mpr ⟨later, hlater, by rw [hnamed]; rfl⟩)
  rw [threads, hsplit, List.map_append, List.map_cons]

/-- An event that speaks of a position by a reply speaks of the one its parent was last linked
to. -/
theorem Linked.reply_parent (h : Linked ids events s) {event : SignalEvent} {parent id : String}
    {link : Link} (hreply : event.replyToMessageId = some parent)
    (hlink : (Lifecycle.step ids s event).links.get? event.eventId = some link)
    (hnames : link.names = some id) (hentry : link.effectiveAction ≠ some .entry)
    (hrepeat : link.lifecycleStatus ≠ "entry_rebroadcast") :
    s.lastNamed events parent = some id := by
  have htook := take_took ids (s.expireFor event) event
  obtain ⟨link', hlinks, hcases⟩ := htook.link_cases
  rw [Lifecycle.step, hlinks, Dict.get?_insert_self] at hlink
  cases hlink
  rcases hcases with hnone | ⟨q, -, hid, hhow⟩
  · exact nomatch hnone.symm.trans hnames
  · rcases hhow with ⟨p, basis, -, hsame, hhow⟩ | ⟨hopened, -⟩
    · rw [← h.messages, ← (expireFor_links s event).2,
        (resolveActivePosition_reply (hhow.resolve_left hrepeat) hreply).2, ← hsame.positionId,
        ← hid, names_eq_some hnames]
    · exact absurd hopened hentry

end Links

/-- A feed's events are linked once, where no position is opened from a contract that expired
before its session date. -/
theorem links_once (ids : PositionIds) (events : List SignalEvent)
    (h : (events.map SignalEvent.eventId).Nodup) (hahead : OpensAhead ids (inOrder events)) :
    LinksOnce ids events := by
  have hids := nodup_eventIds_inOrder h
  have hlinked := linked_run ids hids
  have hok {asOf : CivilDate} {s : Lifecycle} (hasOf : project ids events asOf = .ok s) :
      Linked ids (inOrder events) s ∧ InTime (inOrder events) s := by
    rw [project_eq_ok hlinked hasOf]
    exact ⟨hlinked.expireElapsed asOf, (run_inTime hids hahead).expireElapsed asOf⟩
  constructor
  case order_free => exact fun events' hperm asOf => project_eq_of_perm hperm h asOf
  case projects =>
    intro asOf hbefore
    refine ⟨(replay ids events).expireElapsed asOf, ?_, (expireElapsed_links _ asOf).1⟩
    have hlate : ¬ ∃ event ∈ events, ∃ session ∈ event.sourceSessionDate, asOf < session :=
      fun ⟨event, hevent, session, hsession, hlt⟩ =>
        not_lt.mpr (hbefore event hevent session hsession) hlt
    rw [project, if_neg hlate]
    exact if_neg (not_lt.mpr (hlinked.expireElapsed asOf).one_open)
  case one_link => exact hlinked.keys
  case members =>
    exact fun asOf s hs p hp event hevent => (hok hs).1.count_eq hp (mem_inOrder.mpr hevent)
  case one_open =>
    intro before after hsplit
    rw [hsplit, List.map_append] at hids
    exact (linked_run ids hids.of_append_left).one_open
  case not_after_close =>
    exact fun asOf s hs p hp before event after hsplit hend later hlater =>
      (hok hs).1.not_after_close hp hsplit hend hlater
  case not_after_expiry =>
    intro asOf s hs p hp event hevent expiry session hexpiry hsession hlt hnamed
    exact not_le.mpr hlt
      ((hok hs).2 p hp event (mem_inOrder.mpr hevent) hnamed expiry session hexpiry hsession)
  case reply_parent =>
    intro before event after hsplit parent link id hreply hlink hnames hentry hrepeat
    rw [hsplit, List.map_append, List.map_cons] at hids
    have hnew : event.eventId ∉ after.map SignalEvent.eventId :=
      (List.nodup_cons.mp hids.of_append_right).1
    rw [replay, hsplit, List.append_cons, run_links_get? _ hnew, run_snoc] at hlink
    exact (linked_run ids hids.of_append_left).reply_parent hreply hlink hnames hentry hrepeat
  case later_events =>
    intro before after hsplit event hevent
    have hnew : event.eventId ∉ after.map SignalEvent.eventId := by
      rw [hsplit, List.map_append, List.nodup_append] at hids
      exact fun hmem => hids.2.2 _ (List.mem_map_of_mem hevent) _ hmem rfl
    rw [replay, hsplit, run_links_get? before hnew, replay, inOrder_of_append hsplit]

/-- An entry of a contract for the day after its session date. -/
def aheadEntry : SignalEvent :=
  { januaryEntry with expiry := CivilDate.ofParts 2026 12 31 }

theorem links_once_entry : LinksOnce entryIds [aheadEntry] :=
  links_once entryIds _ (List.nodup_singleton _) fun before event after heq hopens => by
    rcases List.cons_eq_append_iff.mp heq with ⟨rfl, hevent⟩ | ⟨rest, rfl, hrest⟩
    · cases hevent
      have hlater : ∀ expiry ∈ aheadEntry.expiry, newYearClock.localDate 0 ≤ expiry := by decide
      intro expiry session hexpiry hsession
      cases hsession
      exact hlater expiry hexpiry
    · exact absurd hrest (by simp)

/-- An entry whose contract expired before its session date is linked to the position it opens. -/
theorem expired_entry_is_linked : ¬ LinksOnce entryIds [januaryEntry] := fun h => by
  have hbefore : ∀ event ∈ [januaryEntry], ∀ session ∈ event.sourceSessionDate,
      session ≤ newYearClock.localDate 0 := by decide
  have hnamed : ∃ p ∈ ((replay entryIds [januaryEntry]).expireElapsed
      (newYearClock.localDate 0)).positions, p.expiry = CivilDate.ofParts 2026 1 5 ∧
        ((replay entryIds [januaryEntry]).expireElapsed
          (newYearClock.localDate 0)).named januaryEntry = some p.positionId := by decide +kernel
  have hids : ([januaryEntry].map SignalEvent.eventId).Nodup := List.nodup_singleton _
  obtain ⟨s, hs, -⟩ := h.projects _ hbefore
  obtain rfl := project_eq_ok (linked_run entryIds (nodup_eventIds_inOrder hids)) hs
  obtain ⟨p, hp, hexpiry, hlink⟩ := hnamed
  refine h.not_after_expiry _ _ hs p hp januaryEntry List.mem_cons_self _
    (newYearClock.localDate 0) hexpiry rfl ?_ hlink
  decide

end Lifecycle

end Discord

end AefTerminal
