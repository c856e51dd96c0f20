import Mathlib.Data.List.Sort
import Mathlib.Data.Prod.Lex
import Mathlib.Data.String.Basic
import AefTerminal.Discord.Session

/-!
# Events of a feed

What the parser makes of a message: one event for each thing it says, in the order of the
message. An event is identified by its message and its ordinal, and the replay takes the events
in the order of `discord_signal_event_order_key`, whatever order they come in.

## Main results

* `SignalEvent.orderKey_injOn`: the order key tells two events with distinct ids apart
* `inOrder_perm`, `inOrder_sorted`: the events in order
* `inOrder_eq_of_perm`: the order does not depend on how the events came in
-/

namespace AefTerminal

open Foundation

namespace Discord

inductive SignalAction
  | entry | add | reduce | exit | positionUpdate | stopUpdate | directionalLevel | commentary
  | unparsed
deriving DecidableEq, Repr

inductive SignalCue
  | stopHit | flat | flattenCalls | flattenPuts | bareSale
deriving DecidableEq, Repr

inductive ParseStatus
  | parsedUnqualified | parsedContext | ambiguous | commentary | rejected
deriving DecidableEq, Repr

/-- The expiry part of a contract key: a date, or the text of a session date and a number of days
to expiry. -/
inductive ExpiryKey
  | dated (expiry : CivilDate)
  | relative (session : Option CivilDate) (reportedDte : Option ℕ)
deriving DecidableEq

structure ContractKey where
  expiry : ExpiryKey
  strike : ℚ
  right : String
deriving DecidableEq

/-- An event, with the defaults of `_event`. -/
structure SignalEvent where
  messageId : String
  channelId : String
  replyToMessageId : Option String
  ordinal : ℕ
  publishedAt : Time
  action : SignalAction
  contextCue : Option SignalCue := none
  parseStatus : ParseStatus
  sourceUnderlying : Option String := none
  sourceSessionDate : Option CivilDate := none
  expiry : Option CivilDate := none
  reportedDte : Option ℕ := none
  strike : Option ℚ := none
  optionRight : Option String := none
  reportedPremium : Option ℚ := none
  quantity : Option ℤ := none
  soldQuantity : Option ℤ := none
  remainingQuantity : Option ℤ := none
  remainingFraction : Option ℚ := none
  stopMode : Option String := none
  stopValue : Option ℚ := none
  stopBasis : Option String := none
  exitReason : Option String := none
  reportedReturnPct : Option ℚ := none
  outcomeHint : Option String := none

namespace SignalEvent

/-- The id every event is built with. -/
def eventId (event : SignalEvent) : String := event.messageId ++ ":" ++ toString event.ordinal

def contractKey (event : SignalEvent) : Option ContractKey :=
  match event.strike, event.optionRight with
  | some strike, some right =>
    if right = "" then none
    else
      match event.expiry, event.sourceSessionDate, event.reportedDte with
      | some expiry, _, _ => some ⟨.dated expiry, strike, right⟩
      | none, some session, some reportedDte =>
        some ⟨.relative (some session) (some reportedDte), strike, right⟩
      | none, _, _ => none
  | _, _ => none

/-- The status is one the lifecycle takes up. -/
def Parsed (event : SignalEvent) : Prop :=
  event.parseStatus = .parsedUnqualified ∨ event.parseStatus = .parsedContext

instance (event : SignalEvent) : Decidable event.Parsed :=
  inferInstanceAs (Decidable (_ ∨ _))

end SignalEvent

/-! ### The order of the replay -/

/-- A text of ASCII digits, read as a number. -/
def snowflake (text : String) : Option ℕ :=
  if text.toList ≠ [] ∧ text.toList.all Char.isDigit then
    some (text.toList.foldl (fun n c => 10 * n + (c.toNat - '0'.toNat)) 0)
  else none

abbrev OrderKey := Time ×ₗ ℕ ×ₗ ℕ ×ₗ String ×ₗ ℕ

/-- `discord_signal_event_order_key`. -/
def SignalEvent.orderKey (event : SignalEvent) : OrderKey :=
  toLex (event.publishedAt,
    toLex (if (snowflake event.messageId).isSome then 0 else 1,
      toLex ((snowflake event.messageId).getD 0, toLex (event.messageId, event.ordinal))))

/-- The events in the order of the replay. -/
def inOrder (events : List SignalEvent) : List SignalEvent :=
  events.insertionSort fun a b => a.orderKey ≤ b.orderKey

/-- Events with one order key have one id. -/
theorem SignalEvent.eventId_eq_of_orderKey {a b : SignalEvent} (h : a.orderKey = b.orderKey) :
    a.eventId = b.eventId := by
  have hids : a.messageId = b.messageId ∧ a.ordinal = b.ordinal := by
    have htail := (Prod.mk.inj (toLex.injective h)).2
    have hlast := (Prod.mk.inj (toLex.injective htail)).2
    exact Prod.mk.inj (toLex.injective (Prod.mk.inj (toLex.injective hlast)).2)
  rw [eventId, eventId, hids.1, hids.2]

theorem inOrder_perm (events : List SignalEvent) : (inOrder events).Perm events :=
  List.perm_insertionSort _ events

theorem inOrder_sorted (events : List SignalEvent) :
    (inOrder events).Pairwise fun a b => a.orderKey ≤ b.orderKey :=
  List.pairwise_insertionSort (fun a b : SignalEvent => a.orderKey ≤ b.orderKey) events

variable {events : List SignalEvent}

theorem inOrder_of_sorted
    (h : events.Pairwise fun a b => a.orderKey ≤ b.orderKey) : inOrder events = events :=
  List.Pairwise.insertionSort_eq h

theorem mem_inOrder {event : SignalEvent} :
    event ∈ inOrder events ↔ event ∈ events := (inOrder_perm events).mem_iff

theorem nodup_eventIds_inOrder (h : (events.map SignalEvent.eventId).Nodup) :
    ((inOrder events).map SignalEvent.eventId).Nodup :=
  ((inOrder_perm events).map _).nodup_iff.mpr h

/-- Among events with distinct ids, the order key tells them apart. -/
theorem SignalEvent.orderKey_injOn
    (h : (events.map SignalEvent.eventId).Nodup) {a b : SignalEvent} (ha : a ∈ events)
    (hb : b ∈ events) (hkey : a.orderKey = b.orderKey) : a = b :=
  List.inj_on_of_nodup_map h ha hb (eventId_eq_of_orderKey hkey)

theorem inOrder_eq_of_perm {events' : List SignalEvent} (hperm : events.Perm events')
    (h : (events.map SignalEvent.eventId).Nodup) : inOrder events = inOrder events' := by
  have hsame : (inOrder events).Perm (inOrder events') :=
    (inOrder_perm events).trans (hperm.trans (inOrder_perm events').symm)
  refine hsame.eq_of_pairwise (fun a b ha hb hab hba => ?_) (inOrder_sorted events)
    (inOrder_sorted events')
  refine SignalEvent.orderKey_injOn h (mem_inOrder.mp ha) ?_ (le_antisymm hab hba)
  exact hperm.mem_iff.mpr (mem_inOrder.mp hb)

/-- A part of the events in order, taken alone, is in order. -/
theorem inOrder_of_append {before after : List SignalEvent}
    (h : inOrder events = before ++ after) : inOrder before = before :=
  inOrder_of_sorted ((List.pairwise_append.mp (h ▸ inOrder_sorted events)).1)

end Discord

end AefTerminal
