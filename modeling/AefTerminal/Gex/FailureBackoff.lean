import AefTerminal.Foundation.Fallible
import AefTerminal.Foundation.Text
import AefTerminal.Quotes.Envelope

/-!
# Failure backoffs of option routes

Each route of `GexRuntimeState` has two lanes, and each lane waits longer after every failure. The
wait doubles from a base up to a maximum. The power of two is an unbounded integer that is converted
before the maximum is applied, and the failure is counted before that: the conversion raises after
1024 failures in a row, and the call that raises is counted.

A finite double is the rational it is. A product of one by a power of two is exact or, beyond the
range of doubles, infinite, and then the maximum is the smaller of the two all the same.

## Main definitions

* `GexRuntimeState.recordFailure`, `clearFailure`, `failureBackoff`
* `consecutiveFailures`: what a sequence of calls says of a lane, without the state

## Main results

* `count_stateAfter`: a lane counts the failures since it was cleared
* `backoff_never_fails_iff`
-/

namespace AefTerminal

open Foundation

inductive GexRuntimeError
  /-- `InstrumentIdentityError` -/
  | identityRequired (field : String)
  /-- `ValueError`: the lane must be request or live. -/
  | laneInvalid
  /-- `OverflowError` of a conversion to a float, of a time span and of a date. -/
  | intTooLargeForFloat | timedeltaOutOfRange | dateOutOfRange
  deriving DecidableEq, Repr

structure GexRuntimeErrorState where
  message : String
  recordedAt : Time
  deriving DecidableEq

structure GexFailureBackoffState (δ : Type) where
  consecutiveFailures : ℕ
  retryAt : Option Time
  source : String
  kind : String
  reason : String
  message : String
  diagnostics : δ

structure GexRouteRuntimeState (δ : Type) where
  providerSymbol : String
  errors : Dict String GexRuntimeErrorState
  failureBackoffs : Dict String (GexFailureBackoffState δ)

structure GexRuntimeState (δ : Type) where
  routes : Dict (String × String) (GexRouteRuntimeState δ)

def GexFailureBackoffState.initial {δ : Type} [EmptyCollection δ] : GexFailureBackoffState δ :=
  ⟨0, none, "", "", "", "", ∅⟩

/-- The arguments of `record_failure`; `failedAt` is `at` or the time of the call. -/
structure FailureCall (δ : Type) where
  instrumentId : String
  routeFingerprint : String
  message : String
  providerSymbol : String
  source : String
  lane : String
  kind : String
  reason : String
  diagnostics : δ
  failedAt : Time
  baseBackoffSeconds : ℚ
  maxBackoffSeconds : ℚ

/-- What `record_failure` and `failure_backoff` return. -/
structure FailureReport (δ : Type) where
  active : Bool
  retryAt : Option Time
  retryInSeconds : ℚ
  consecutiveFailures : ℕ
  source : String
  lane : String
  kind : String
  reason : String
  diagnostics : δ
  message : String

/-! ### The delay -/

/-- The exponents of two that a double can hold are below this one. -/
def doubleExponentLimit : ℕ := 1024

/-- `float` of an integer: from `2 ** 1024` on it raises. -/
def floatOfInt (n : ℕ) : Except GexRuntimeError ℚ :=
  if n < 2 ^ doubleExponentLimit then .ok n else .error .intTooLargeForFloat

/-- The delay after so many failures in a row. -/
def backoffDelay (base maximum : ℚ) (failures : ℕ) : ℚ :=
  min (max base 1 * 2 ^ (failures - 1)) (max maximum 1)

/-- `delay_seconds` -/
def delaySeconds (base maximum : ℚ) (failures : ℕ) : Except GexRuntimeError ℚ := do
  let factor ← floatOfInt (2 ^ (failures - 1))
  return min (max base 1 * factor) (max maximum 1)

/-- The microseconds of `timedelta(seconds=…)`, and the day its span has to stay under. -/
def timedeltaMicroseconds (seconds : ℚ) : ℤ := roundHalfEven (seconds * 1000000)

def timedeltaLimit : ℤ := 1000000000 * 86400000000

/-- A time and a span of seconds after it. -/
def addSeconds (t : Time) (seconds : ℚ) : Except GexRuntimeError Time :=
  if timedeltaLimit ≤ |timedeltaMicroseconds seconds| then .error .timedeltaOutOfRange
  else if IsDatetime (t + timedeltaMicroseconds seconds) then
    .ok (t + timedeltaMicroseconds seconds)
  else .error .dateOutOfRange

variable {δ : Type}

namespace FailureCall

variable (call : FailureCall δ)

/-- The delay after so many failures, and its end. -/
def retry (failures : ℕ) : Except GexRuntimeError (ℚ × Time) := do
  let delay ← delaySeconds call.baseBackoffSeconds call.maxBackoffSeconds failures
  let retryAt ← addSeconds call.failedAt delay
  return (delay, retryAt)

def waiting (failures : ℕ) (retryAt : Time) : GexFailureBackoffState δ where
  consecutiveFailures := failures
  retryAt := some retryAt
  source := call.source
  kind := call.kind
  reason := call.reason
  message := strip call.message
  diagnostics := call.diagnostics

def report (failures : ℕ) (delay : ℚ) (retryAt : Time) : FailureReport δ where
  active := true
  retryAt := some retryAt
  retryInSeconds := roundDigits 1 delay
  consecutiveFailures := failures
  source := call.source
  lane := call.lane
  kind := call.kind
  reason := call.reason
  diagnostics := call.diagnostics
  message := strip call.message

end FailureCall

/-! ### The state -/

namespace GexRuntimeState

/-- `require_exact_identity_text` of a text that may not be empty. -/
def requireExactIdentityText (value field : String) : Except GexRuntimeError Unit :=
  require (value ≠ "") (.identityRequired field)

def requireLane (lane : String) : Except GexRuntimeError Unit := do
  requireExactIdentityText lane "GEX_RUNTIME_FAILURE_LANE"
  require (lane = "request" ∨ lane = "live") .laneInvalid

def requireRoute (instrumentId routeFingerprint : String) : Except GexRuntimeError Unit := do
  requireExactIdentityText instrumentId "instrument_id"
  requireExactIdentityText routeFingerprint "route_fingerprint"

def empty : GexRuntimeState δ := ⟨.empty⟩

/-- `_route_state`: a route that is not there is made. -/
def routeState (s : GexRuntimeState δ) (route : String × String) (providerSymbol : String) :
    GexRouteRuntimeState δ :=
  match s.routes.get? route with
  | none => ⟨providerSymbol, .empty, .empty⟩
  | some state =>
    if providerSymbol ≠ "" ∧ state.providerSymbol = "" then
      { state with providerSymbol := providerSymbol }
    else state

def setRoute (s : GexRuntimeState δ) (route : String × String) (state : GexRouteRuntimeState δ) :
    GexRuntimeState δ := ⟨s.routes.insert route state⟩

/-- The checks of `record_failure` once the route is there. -/
def requireFailure (call : FailureCall δ) : Except GexRuntimeError Unit := do
  requireExactIdentityText call.source "GEX_RUNTIME_FAILURE_SOURCE"
  requireExactIdentityText call.kind "GEX_RUNTIME_FAILURE_KIND"
  requireLane call.lane

/-- `record_failure`. What it changed before it raised stays changed. -/
def recordFailure [EmptyCollection δ] (s : GexRuntimeState δ) (call : FailureCall δ) :
    GexRuntimeState δ × Except GexRuntimeError (FailureReport δ) :=
  let route := (call.instrumentId, call.routeFingerprint)
  match requireRoute call.instrumentId call.routeFingerprint with
  | .error e => (s, .error e)
  | .ok () =>
    let state := s.routeState route call.providerSymbol
    match requireFailure call with
    | .error e => (s.setRoute route state, .error e)
    | .ok () =>
      let failure := (state.failureBackoffs.get? call.lane).getD .initial
      let failures := failure.consecutiveFailures + 1
      let state := { state with
        errors := state.errors.insert call.source ⟨strip call.message, call.failedAt⟩
        failureBackoffs := state.failureBackoffs.insert call.lane
          { failure with consecutiveFailures := failures } }
      match call.retry failures with
      | .error e => (s.setRoute route state, .error e)
      | .ok (delay, retryAt) =>
        (s.setRoute route { state with
          failureBackoffs := state.failureBackoffs.insert call.lane (call.waiting failures retryAt) },
          .ok (call.report failures delay retryAt))

/-- `clear_failure`. Nothing is checked of the lane where the route is not there. -/
def clearFailure (s : GexRuntimeState δ) (instrumentId routeFingerprint lane : String) :
    GexRuntimeState δ × Except GexRuntimeError Unit :=
  let route := (instrumentId, routeFingerprint)
  match requireRoute instrumentId routeFingerprint with
  | .error e => (s, .error e)
  | .ok () =>
    match s.routes.get? route with
    | none => (s, .ok ())
    | some state =>
      match requireLane lane with
      | .error e => (s, .error e)
      | .ok () =>
        (s.setRoute route { state with failureBackoffs := state.failureBackoffs.erase lane },
          .ok ())

/-- `snapshot` -/
def snapshot (failure : GexFailureBackoffState δ) (lane : String) (now : Time) : FailureReport δ where
  active := failure.retryAt.any fun retryAt => decide (now < retryAt)
  retryAt := failure.retryAt
  retryInSeconds :=
    failure.retryAt.elim 0 fun retryAt => roundDigits 1 (max ((retryAt - now : ℤ) / 1000000) 0)
  consecutiveFailures := failure.consecutiveFailures
  source := failure.source
  lane := lane
  kind := failure.kind
  reason := failure.reason
  diagnostics := failure.diagnostics
  message := failure.message

/-- `failure_backoff` -/
def failureBackoff [EmptyCollection δ] (s : GexRuntimeState δ)
    (instrumentId routeFingerprint lane : String) (now : Time) :
    Except GexRuntimeError (FailureReport δ) := do
  requireRoute instrumentId routeFingerprint
  match s.routes.get? (instrumentId, routeFingerprint) with
  | none => return snapshot .initial lane now
  | some state =>
    requireLane lane
    return snapshot ((state.failureBackoffs.get? lane).getD .initial) lane now

end GexRuntimeState

/-! ### When a delay ends -/

/-- The delay is a time span, and its end is a time. -/
def EndsInTime (t : Time) (seconds : ℚ) : Prop :=
  |timedeltaMicroseconds seconds| < timedeltaLimit ∧ IsDatetime (t + timedeltaMicroseconds seconds)

instance (t : Time) (seconds : ℚ) : Decidable (EndsInTime t seconds) :=
  inferInstanceAs (Decidable (_ ∧ _))

/-- The delay of a call after so many failures, as it was meant. -/
def FailureCall.delay (call : FailureCall δ) (failures : ℕ) : ℚ :=
  backoffDelay call.baseBackoffSeconds call.maxBackoffSeconds failures

/-- A later failure waits no shorter. -/
theorem backoffDelay_mono (base maximum : ℚ) : Monotone (backoffDelay base maximum) := by
  intro m n h
  have hone : (1 : ℚ) ≤ 2 := by norm_num
  have hpow : (2 : ℚ) ^ (m - 1) ≤ 2 ^ (n - 1) := pow_le_pow_right₀ hone (Nat.sub_le_sub_right h 1)
  have hbase : (0 : ℚ) ≤ max base 1 := zero_le_one.trans (le_max_right base 1)
  exact min_le_min_right _ (mul_le_mul_of_nonneg_left hpow hbase)

theorem delaySeconds_of_lt {base maximum : ℚ} {failures : ℕ}
    (h : failures - 1 < doubleExponentLimit) :
    delaySeconds base maximum failures = .ok (backoffDelay base maximum failures) := by
  have hlt : 2 ^ (failures - 1) < 2 ^ doubleExponentLimit := Nat.pow_lt_pow_right one_lt_two h
  rw [delaySeconds, floatOfInt, if_pos hlt, backoffDelay, Nat.cast_pow, Nat.cast_ofNat]
  rfl

theorem delaySeconds_of_le {base maximum : ℚ} {failures : ℕ}
    (h : doubleExponentLimit ≤ failures - 1) :
    delaySeconds base maximum failures = .error .intTooLargeForFloat := by
  have hle : 2 ^ doubleExponentLimit ≤ 2 ^ (failures - 1) := Nat.pow_le_pow_right Nat.two_pos h
  rw [delaySeconds, floatOfInt, if_neg (not_lt.mpr hle)]
  rfl

theorem addSeconds_eq_ok {t t' : Time} {seconds : ℚ} : addSeconds t seconds = .ok t' ↔
    EndsInTime t seconds ∧ t' = t + timedeltaMicroseconds seconds := by
  rw [addSeconds, EndsInTime]
  split_ifs with hspan hdate
  · exact ⟨fun h => (nomatch h), fun h => absurd hspan (not_le.mpr h.1.1)⟩
  · exact ⟨fun h => ⟨⟨not_le.mp hspan, hdate⟩, (Except.ok.inj h).symm⟩, fun h => by rw [h.2]⟩
  · exact ⟨fun h => (nomatch h), fun h => absurd h.1.2 hdate⟩

/-- When the end of a delay is found: after at most 1024 failures. -/
theorem FailureCall.retry_eq_ok {call : FailureCall δ} {failures : ℕ} {delay : ℚ} {retryAt : Time} :
    call.retry failures = .ok (delay, retryAt) ↔
      failures - 1 < doubleExponentLimit ∧ EndsInTime call.failedAt (call.delay failures) ∧
        delay = call.delay failures ∧
        retryAt = call.failedAt + timedeltaMicroseconds (call.delay failures) := by
  rw [retry, FailureCall.delay]
  rcases Nat.lt_or_ge (failures - 1) doubleExponentLimit with hlt | hge
  · rw [delaySeconds_of_lt hlt]
    simp only [bind_eq_ok, Except.ok.injEq, exists_eq_left', addSeconds_eq_ok, pure, Except.pure,
      Prod.mk.injEq]
    constructor
    · rintro ⟨t, ⟨hends, rfl⟩, rfl, rfl⟩
      exact ⟨hlt, hends, rfl, rfl⟩
    · rintro ⟨-, hends, rfl, rfl⟩
      exact ⟨_, ⟨hends, rfl⟩, rfl, rfl⟩
  · rw [delaySeconds_of_le hge]
    exact ⟨fun h => (nomatch h), fun h => absurd h.1 (not_lt.mpr hge)⟩

/-! ### The state after a call -/

/-- A lane of a route. -/
abbrev BackoffKey := (String × String) × String

def FailureCall.key (call : FailureCall δ) : BackoffKey :=
  ((call.instrumentId, call.routeFingerprint), call.lane)

/-- The texts of a call pass its checks. -/
structure FailureCall.Exact (call : FailureCall δ) : Prop where
  instrumentId : call.instrumentId ≠ ""
  routeFingerprint : call.routeFingerprint ≠ ""
  source : call.source ≠ ""
  kind : call.kind ≠ ""
  lane : call.lane = "request" ∨ call.lane = "live"

namespace GexRuntimeState

/-- What a lane waits for. -/
def backoff (s : GexRuntimeState δ) (key : BackoffKey) : Option (GexFailureBackoffState δ) :=
  (s.routes.get? key.1).bind fun state => state.failureBackoffs.get? key.2

def count (s : GexRuntimeState δ) (key : BackoffKey) : ℕ :=
  (s.backoff key).elim 0 GexFailureBackoffState.consecutiveFailures

variable {s : GexRuntimeState δ} {key : BackoffKey} {call : FailureCall δ}

theorem backoff_setRoute (s : GexRuntimeState δ) (route : String × String)
    (state : GexRouteRuntimeState δ) (key : BackoffKey) :
    (s.setRoute route state).backoff key =
      if key.1 = route then state.failureBackoffs.get? key.2 else s.backoff key := by
  rw [backoff, setRoute, Dict.get?_insert]
  split_ifs
  · rfl
  · rfl

/-- A route whose lanes but one wait as before. -/
theorem backoff_setRoute_of_ne {route : String × String} {lane : String}
    {state : GexRouteRuntimeState δ}
    (hother : ∀ other, other ≠ lane → state.failureBackoffs.get? other = s.backoff (route, other))
    (hkey : key ≠ (route, lane)) : (s.setRoute route state).backoff key = s.backoff key := by
  rw [backoff_setRoute]
  split_ifs with hsame
  · have hlane : key.2 ≠ lane := fun heq => hkey (Prod.ext hsame heq)
    rw [hother key.2 hlane, ← hsame]
  · rfl

theorem routeState_backoffs (s : GexRuntimeState δ) (route : String × String)
    (providerSymbol lane : String) :
    (s.routeState route providerSymbol).failureBackoffs.get? lane = s.backoff (route, lane) := by
  rw [routeState, backoff]
  cases s.routes.get? route with
  | none => rfl
  | some state =>
    dsimp only [Option.bind_some]
    split_ifs
    · rfl
    · rfl

theorem requireRoute_eq_ok {instrumentId routeFingerprint : String} :
    requireRoute instrumentId routeFingerprint = .ok () ↔
      instrumentId ≠ "" ∧ routeFingerprint ≠ "" := by
  simp only [requireRoute, requireExactIdentityText, bind_eq_ok, require_eq_ok, exists_const]

theorem requireLane_eq_ok {lane : String} :
    requireLane lane = .ok () ↔ lane = "request" ∨ lane = "live" := by
  simp only [requireLane, requireExactIdentityText, bind_eq_ok, require_eq_ok, exists_const]
  constructor
  · exact And.right
  · rintro (rfl | rfl)
    · exact ⟨by decide, .inl rfl⟩
    · exact ⟨by decide, .inr rfl⟩

theorem requireFailure_eq_ok : requireFailure call = .ok () ↔
    call.source ≠ "" ∧ call.kind ≠ "" ∧ (call.lane = "request" ∨ call.lane = "live") := by
  rw [requireFailure]
  simp only [requireExactIdentityText, bind_eq_ok, require_eq_ok, requireLane_eq_ok, exists_const]

section Record

variable [EmptyCollection δ]

/-- A call with other texts raises, and every lane waits as before. -/
theorem recordFailure_of_not_exact (s : GexRuntimeState δ) (h : ¬ call.Exact) :
    (∃ e, (s.recordFailure call).2 = .error e) ∧
      ∀ key, (s.recordFailure call).1.backoff key = s.backoff key := by
  rw [recordFailure]
  cases hroute : requireRoute call.instrumentId call.routeFingerprint with
  | error e => exact ⟨⟨e, rfl⟩, fun key => rfl⟩
  | ok u =>
    cases hfailure : requireFailure call with
    | error e =>
      refine ⟨⟨e, rfl⟩, fun key => ?_⟩
      dsimp only
      rw [backoff_setRoute]
      split_ifs with hkey
      · rw [routeState_backoffs, ← hkey]
      · rfl
    | ok u' =>
      obtain ⟨hid, hfingerprint⟩ := requireRoute_eq_ok.mp hroute
      obtain ⟨hsource, hkind, hlane⟩ := requireFailure_eq_ok.mp hfailure
      exact absurd ⟨hid, hfingerprint, hsource, hkind, hlane⟩ h

/-- A call with exact texts is counted, and returns where the end of its delay is found. -/
theorem recordFailure_of_exact (s : GexRuntimeState δ) (h : call.Exact) :
    (s.recordFailure call).1.count call.key = s.count call.key + 1 ∧
      (∀ key, key ≠ call.key → (s.recordFailure call).1.backoff key = s.backoff key) ∧
      (∀ e, call.retry (s.count call.key + 1) = .error e → (s.recordFailure call).2 = .error e) ∧
      ∀ delay retryAt, call.retry (s.count call.key + 1) = .ok (delay, retryAt) →
        (s.recordFailure call).1.backoff call.key =
            some (call.waiting (s.count call.key + 1) retryAt) ∧
          (s.recordFailure call).2 = .ok (call.report (s.count call.key + 1) delay retryAt) := by
  have hroute := requireRoute_eq_ok.mpr ⟨h.instrumentId, h.routeFingerprint⟩
  have hfailure := requireFailure_eq_ok.mpr ⟨h.source, h.kind, h.lane⟩
  have hcount : (((s.routeState (call.instrumentId, call.routeFingerprint)
      call.providerSymbol).failureBackoffs.get? call.lane).getD .initial).consecutiveFailures =
      s.count call.key := by
    rw [routeState_backoffs, count, FailureCall.key]
    cases s.backoff ((call.instrumentId, call.routeFingerprint), call.lane) with
    | none => rfl
    | some failure => rfl
  -- of the lanes of the route, the calls writes its own, once or twice
  have hcounted : ∀ failure other, other ≠ call.lane →
      ((s.routeState (call.instrumentId, call.routeFingerprint)
        call.providerSymbol).failureBackoffs.insert call.lane failure).get? other =
        s.backoff ((call.instrumentId, call.routeFingerprint), other) := by
    intro failure other hne
    rw [Dict.get?_insert_of_ne _ hne, routeState_backoffs]
  rw [recordFailure, hroute]
  dsimp only
  rw [hfailure]
  dsimp only
  rw [hcount]
  cases hretry : call.retry (s.count call.key + 1) with
  | error e =>
    refine ⟨?_, fun key hkey => backoff_setRoute_of_ne (hcounted _) hkey,
      fun e' h => congrArg Except.error (Except.error.inj h), fun _ _ h => nomatch h⟩
    rw [count, FailureCall.key, backoff_setRoute, if_pos rfl, Dict.get?_insert_self]
    rfl
  | ok waits =>
    refine ⟨?_, fun key hkey => backoff_setRoute_of_ne (fun other hne => ?_) hkey,
      fun _ h => (nomatch h), fun delay retryAt h => ?_⟩
    · rw [count, FailureCall.key, backoff_setRoute, if_pos rfl, Dict.get?_insert_self]
      rfl
    · exact (Dict.get?_insert_of_ne _ hne _).trans (hcounted _ other hne)
    · cases h
      refine ⟨?_, rfl⟩
      rw [FailureCall.key, backoff_setRoute, if_pos rfl, Dict.get?_insert_self]

end Record

/-- The texts of a call of `clear_failure` pass its checks. -/
def ClearsExactly (instrumentId routeFingerprint lane : String) : Prop :=
  (instrumentId ≠ "" ∧ routeFingerprint ≠ "") ∧ (lane = "request" ∨ lane = "live")

instance (instrumentId routeFingerprint lane : String) :
    Decidable (ClearsExactly instrumentId routeFingerprint lane) :=
  inferInstanceAs (Decidable (_ ∧ _))

/-- `clear_failure` changes one lane, and none where it raises. -/
theorem clearFailure_spec (s : GexRuntimeState δ) (instrumentId routeFingerprint lane : String) :
    (∀ key, key ≠ ((instrumentId, routeFingerprint), lane) →
        (s.clearFailure instrumentId routeFingerprint lane).1.backoff key = s.backoff key) ∧
      (∀ e, (s.clearFailure instrumentId routeFingerprint lane).2 = .error e →
        ∀ key, (s.clearFailure instrumentId routeFingerprint lane).1.backoff key = s.backoff key) ∧
      (s.clearFailure instrumentId routeFingerprint lane).1.count
          ((instrumentId, routeFingerprint), lane) =
        if ClearsExactly instrumentId routeFingerprint lane then 0
        else s.count ((instrumentId, routeFingerprint), lane) := by
  rw [clearFailure]
  cases hroute : requireRoute instrumentId routeFingerprint with
  | error e =>
    have hnot : ¬ ClearsExactly instrumentId routeFingerprint lane := fun h =>
      absurd (hroute.symm.trans (requireRoute_eq_ok.mpr h.1)) (fun h => nomatch h)
    exact ⟨fun _ _ => rfl, fun _ _ _ => rfl, (if_neg hnot).symm⟩
  | ok u =>
    dsimp only
    cases hstate : s.routes.get? (instrumentId, routeFingerprint) with
    | none =>
      have hcount : s.count ((instrumentId, routeFingerprint), lane) = 0 := by
        rw [count, backoff, hstate]
        rfl
      exact ⟨fun _ _ => rfl, fun _ _ _ => rfl, by rw [hcount, ite_self]⟩
    | some state =>
      cases hlane : requireLane lane with
      | error e =>
        have hnot : ¬ ClearsExactly instrumentId routeFingerprint lane := fun h =>
          absurd (hlane.symm.trans (requireLane_eq_ok.mpr h.2)) (fun h => nomatch h)
        exact ⟨fun _ _ => rfl, fun _ _ _ => rfl, (if_neg hnot).symm⟩
      | ok u' =>
        have hexact : ClearsExactly instrumentId routeFingerprint lane :=
          ⟨requireRoute_eq_ok.mp hroute, requireLane_eq_ok.mp hlane⟩
        refine ⟨fun key hkey => backoff_setRoute_of_ne (fun other hne => ?_) hkey,
          fun e h => (nomatch h), ?_⟩
        · rw [Dict.get?_erase_of_ne _ hne, backoff, hstate]
          rfl
        · rw [count, backoff_setRoute, if_pos rfl, Dict.get?_erase_self, if_pos hexact]
          rfl

end GexRuntimeState

/-! ### Sequences of calls -/

inductive GexCall (δ : Type)
  | recordFailure (call : FailureCall δ)
  | clearFailure (instrumentId routeFingerprint lane : String)

instance (call : FailureCall δ) : Decidable call.Exact :=
  decidable_of_iff ((call.instrumentId ≠ "" ∧ call.routeFingerprint ≠ "" ∧ call.source ≠ "") ∧
      call.kind ≠ "" ∧ (call.lane = "request" ∨ call.lane = "live"))
    ⟨fun h => ⟨h.1.1, h.1.2.1, h.1.2.2, h.2.1, h.2.2⟩,
      fun h => ⟨⟨h.instrumentId, h.routeFingerprint, h.source⟩, h.kind, h.lane⟩⟩

/-- The failures of a lane in a row, after one call more. -/
def GexCall.failures (key : BackoffKey) (failures : ℕ) : GexCall δ → ℕ
  | .recordFailure call => if call.Exact ∧ call.key = key then failures + 1 else failures
  | .clearFailure instrumentId routeFingerprint lane =>
    if GexRuntimeState.ClearsExactly instrumentId routeFingerprint lane ∧
        ((instrumentId, routeFingerprint), lane) = key then 0
    else failures

/-- The failures of a lane since it was cleared. -/
def consecutiveFailures (calls : List (GexCall δ)) (key : BackoffKey) : ℕ :=
  calls.foldl (GexCall.failures key) 0

section Calls

variable [EmptyCollection δ]

def GexRuntimeState.step (s : GexRuntimeState δ) : GexCall δ →
    GexRuntimeState δ × Except GexRuntimeError (Option (FailureReport δ))
  | .recordFailure call =>
    let result := s.recordFailure call
    (result.1, result.2.map some)
  | .clearFailure instrumentId routeFingerprint lane =>
    let result := s.clearFailure instrumentId routeFingerprint lane
    (result.1, result.2.map fun _ => none)

def stateAfter (calls : List (GexCall δ)) : GexRuntimeState δ :=
  calls.foldl (fun s call => (s.step call).1) .empty

theorem count_step (s : GexRuntimeState δ) (c : GexCall δ) (key : BackoffKey) :
    (s.step c).1.count key = c.failures key (s.count key) := by
  cases c with
  | recordFailure call =>
    rw [GexCall.failures]
    by_cases hexact : call.Exact
    · obtain ⟨hcount, hother, -⟩ := GexRuntimeState.recordFailure_of_exact s hexact
      by_cases hkey : call.key = key
      · subst hkey
        rw [if_pos ⟨hexact, rfl⟩]
        exact hcount
      · rw [if_neg fun h => hkey h.2]
        exact congrArg (·.elim 0 GexFailureBackoffState.consecutiveFailures)
          (hother key (Ne.symm hkey))
    · rw [if_neg fun h => hexact h.1]
      exact congrArg (·.elim 0 GexFailureBackoffState.consecutiveFailures)
        ((GexRuntimeState.recordFailure_of_not_exact s hexact).2 key)
  | clearFailure instrumentId routeFingerprint lane =>
    obtain ⟨hother, -, hcount⟩ := s.clearFailure_spec instrumentId routeFingerprint lane
    rw [GexCall.failures]
    by_cases hkey : ((instrumentId, routeFingerprint), lane) = key
    · subst hkey
      simp only [and_true]
      exact hcount
    · rw [if_neg fun h => hkey h.2]
      exact congrArg (·.elim 0 GexFailureBackoffState.consecutiveFailures)
        (hother key (Ne.symm hkey))

/-- A lane counts the failures since it was cleared. -/
theorem count_stateAfter (calls : List (GexCall δ)) (key : BackoffKey) :
    (stateAfter calls).count key = consecutiveFailures calls key := by
  induction calls using List.reverseRecOn with
  | nil => rfl
  | append_singleton calls c ih =>
    rw [stateAfter, consecutiveFailures, List.foldl_concat, List.foldl_concat, ← stateAfter,
      ← consecutiveFailures, count_step, ih]

/-- What the backoff promises of one call after others. -/
structure BacksOff (before : List (GexCall δ)) (c : GexCall δ) : Prop where
  returns : ∀ call, c = .recordFailure call → call.Exact →
    let failures := consecutiveFailures before call.key + 1
    let retryAt := call.failedAt + timedeltaMicroseconds (call.delay failures)
    ((stateAfter before).recordFailure call).2 =
        .ok (call.report failures (call.delay failures) retryAt) ∧
      ((stateAfter before).recordFailure call).1.backoff call.key =
        some (call.waiting failures retryAt)
  longer : ∀ call, c = .recordFailure call → Monotone call.delay
  separate : ∀ key,
    (∀ call, c = .recordFailure call → key ≠ call.key) →
    (∀ instrumentId routeFingerprint lane, c = .clearFailure instrumentId routeFingerprint lane →
      key ≠ ((instrumentId, routeFingerprint), lane)) →
    ((stateAfter before).step c).1.backoff key = (stateAfter before).backoff key
  raises : ∀ e, ((stateAfter before).step c).2 = .error e →
    ∀ key, ((stateAfter before).step c).1.count key = (stateAfter before).count key

/-- **Failure backoff never fails.** In a sequence of calls each failure of a lane returns, with the
delay that its place since the last clear says; lanes do not influence each other, and a call that
raises counts nothing. -/
def BackoffNeverFails (calls : List (GexCall δ)) : Prop :=
  ∀ before c after, calls = before ++ c :: after → BacksOff before c

/-- No lane fails more than 1024 times in a row, and each delay ends at a time there is. -/
def BackoffFits (calls : List (GexCall δ)) : Prop :=
  ∀ before call after, calls = before ++ .recordFailure call :: after → call.Exact →
    consecutiveFailures before call.key < doubleExponentLimit ∧
      EndsInTime call.failedAt (call.delay (consecutiveFailures before call.key + 1))

theorem BackoffNeverFails.fits {calls : List (GexCall δ)} (h : BackoffNeverFails calls) :
    BackoffFits calls := by
  intro before call after hcalls hexact
  obtain ⟨hreturns, -⟩ := (h before _ after hcalls).returns call rfl hexact
  obtain ⟨-, -, hraises, -⟩ := GexRuntimeState.recordFailure_of_exact (stateAfter before) hexact
  rw [count_stateAfter] at hraises
  cases hretry : call.retry (consecutiveFailures before call.key + 1) with
  | error e => exact absurd ((hraises e hretry).symm.trans hreturns) (fun h => nomatch h)
  | ok waits =>
    obtain ⟨hlimit, hends, -, -⟩ := FailureCall.retry_eq_ok.mp hretry
    exact ⟨hlimit, hends⟩

/-- A call that fits returns. -/
theorem BackoffFits.returns {calls before after : List (GexCall δ)} {call : FailureCall δ}
    (h : BackoffFits calls) (hcalls : calls = before ++ .recordFailure call :: after)
    (hexact : call.Exact) :
    let failures := consecutiveFailures before call.key + 1
    let retryAt := call.failedAt + timedeltaMicroseconds (call.delay failures)
    ((stateAfter before).recordFailure call).2 =
        .ok (call.report failures (call.delay failures) retryAt) ∧
      ((stateAfter before).recordFailure call).1.backoff call.key =
        some (call.waiting failures retryAt) := by
  obtain ⟨hlimit, hends⟩ := h before call after hcalls hexact
  obtain ⟨-, -, -, hreturns⟩ := GexRuntimeState.recordFailure_of_exact (stateAfter before) hexact
  rw [count_stateAfter] at hreturns
  exact And.symm (hreturns _ _ (FailureCall.retry_eq_ok.mpr ⟨hlimit, hends, rfl, rfl⟩))

/-- After a failure `failure_backoff` reports its lane as waiting, up to the end of the delay. -/
theorem BackoffFits.reports {calls before after : List (GexCall δ)} {call : FailureCall δ}
    (h : BackoffFits calls) (hcalls : calls = before ++ .recordFailure call :: after)
    (hexact : call.Exact) (now : Time) :
    ∃ report, ((stateAfter before).recordFailure call).1.failureBackoff call.instrumentId
        call.routeFingerprint call.lane now = .ok report ∧
      report.consecutiveFailures = consecutiveFailures before call.key + 1 ∧
      (report.active = true ↔ now < call.failedAt +
        timedeltaMicroseconds (call.delay (consecutiveFailures before call.key + 1))) := by
  obtain ⟨-, hwaiting⟩ := h.returns hcalls hexact
  obtain ⟨state, hstate, hlane⟩ := Option.bind_eq_some_iff.mp hwaiting
  have hroute := GexRuntimeState.requireRoute_eq_ok.mpr ⟨hexact.instrumentId, hexact.routeFingerprint⟩
  have hrequest := GexRuntimeState.requireLane_eq_ok.mpr hexact.lane
  refine ⟨GexRuntimeState.snapshot (call.waiting (consecutiveFailures before call.key + 1)
    (call.failedAt + timedeltaMicroseconds (call.delay (consecutiveFailures before call.key + 1))))
    call.lane now, ?_, rfl, decide_eq_true_iff⟩
  rw [FailureCall.key] at hstate
  change state.failureBackoffs.get? call.lane = _ at hlane
  simp only [GexRuntimeState.failureBackoff, hroute, hstate, hrequest, hlane, Option.getD_some]
  rfl

theorem BackoffFits.neverFails {calls : List (GexCall δ)} (h : BackoffFits calls) :
    BackoffNeverFails calls := by
  intro before c after hcalls
  refine ⟨?_, fun call _ => backoffDelay_mono _ _, ?_, ?_⟩
  · rintro call rfl hexact
    exact h.returns hcalls hexact
  · intro key hrecord hclear
    cases c with
    | recordFailure call =>
      by_cases hexact : call.Exact
      · exact (GexRuntimeState.recordFailure_of_exact _ hexact).2.1 key (hrecord call rfl)
      · exact (GexRuntimeState.recordFailure_of_not_exact _ hexact).2 key
    | clearFailure instrumentId routeFingerprint lane =>
      exact (GexRuntimeState.clearFailure_spec _ _ _ _).1 key (hclear _ _ _ rfl)
  · intro e herror key
    cases c with
    | recordFailure call =>
      by_cases hexact : call.Exact
      · -- a call with exact texts fits, and does not raise
        rw [GexRuntimeState.step, (h.returns hcalls hexact).1] at herror
        exact nomatch herror
      · exact congrArg (·.elim 0 GexFailureBackoffState.consecutiveFailures)
          ((GexRuntimeState.recordFailure_of_not_exact _ hexact).2 key)
    | clearFailure instrumentId routeFingerprint lane =>
      obtain ⟨-, hraises, -⟩ :=
        (stateAfter before).clearFailure_spec instrumentId routeFingerprint lane
      cases hresult : ((stateAfter before).clearFailure instrumentId routeFingerprint lane).2 with
      | error e' =>
        exact congrArg (·.elim 0 GexFailureBackoffState.consecutiveFailures)
          (hraises e' hresult key)
      | ok u =>
        rw [GexRuntimeState.step, hresult] at herror
        exact nomatch herror

/-- Failure backoff never fails exactly where no lane fails more than 1024 times in a row and each
delay ends at a time there is. -/
theorem backoff_never_fails_iff (calls : List (GexCall δ)) :
    BackoffNeverFails calls ↔ BackoffFits calls :=
  ⟨BackoffNeverFails.fits, BackoffFits.neverFails⟩

end Calls

/-! ### A long outage -/

/-- A failed snapshot, with the default delays. -/
def failedSnapshot : FailureCall (List (String × String)) where
  instrumentId := "es"
  routeFingerprint := "r1"
  message := "no option chain"
  providerSymbol := "ES"
  source := "provider"
  lane := "request"
  kind := "error"
  reason := ""
  diagnostics := []
  failedAt := 0
  baseBackoffSeconds := 30
  maxBackoffSeconds := 300

theorem reports_failedSnapshot : ∃ report,
    ((stateAfter []).recordFailure failedSnapshot).1.failureBackoff "es" "r1" "request" 1 =
      .ok report ∧ report.consecutiveFailures = 1 := by
  have hfits : BackoffFits [.recordFailure failedSnapshot] := by
    intro before call after hcalls _
    cases before with
    | nil =>
      cases hcalls
      exact ⟨by decide, by decide +kernel⟩
    | cons _ rest => cases rest <;> cases hcalls
  obtain ⟨report, hreport, hfailures, -⟩ := BackoffFits.reports hfits (List.nil_append _).symm (by decide) 1
  exact ⟨report, hreport, hfailures⟩

theorem consecutiveFailures_replicate (n : ℕ) :
    consecutiveFailures (List.replicate n (.recordFailure failedSnapshot)) failedSnapshot.key = n := by
  induction n with
  | zero => rfl
  | succ n ih =>
    have hcounts : failedSnapshot.Exact ∧ failedSnapshot.key = failedSnapshot.key := ⟨by decide, rfl⟩
    rw [consecutiveFailures] at ih ⊢
    rw [List.replicate_succ', List.foldl_concat, ih, GexCall.failures, if_pos hcounts]

/-- The 1025th failure in a row raises. -/
theorem long_outage_raises :
    ¬ BackoffNeverFails (List.replicate 1025 (.recordFailure failedSnapshot)) := by
  intro h
  obtain ⟨hlimit, -⟩ := h.fits (List.replicate 1024 (.recordFailure failedSnapshot)) failedSnapshot []
    List.replicate_succ' (by decide)
  rw [consecutiveFailures_replicate] at hlimit
  exact absurd hlimit (lt_irrefl _)

end AefTerminal
