import AefTerminal.Settings.Convergence
import Mathlib.Algebra.Order.Ring.Rat

/-!
# The settings cache

A reader that finds no fresh entry takes the shared lock, reads, and fills the cache before its
transaction ends. A writer takes the exclusive lock, clears the cache, writes, commits, and clears
once more. Every one of these is a step, and the threads interleave in any way that the two locks
allow.

The invariant is that an entry is a snapshot of what is committed now: nothing is committed between
the first clear and the end of the exclusive lock except by the thread that cleared, and nobody
fills in that time. So the second clear has nothing left to do.

## Main definitions

* `settingsSnapshot`, `SettingsSnapshot.get?`: what a reader returns, from the rows or from an entry
* `CacheState`, `CacheStep`: `committed v` is the state after the commit number `v`
* `CacheInv`

## Main results

* `settingsCache_coherent`
-/

namespace AefTerminal

open Foundation

variable {V : Type} [DecidableEq V]

/-! ### What the writers do to the revision -/

inductive SettingsWrite (V : Type)
  | one (call : SettingsCall) (scope key : String) (value : V)
  | many (call : SettingsCall) (scope : String) (values : Dict String V) (writerId : String)
      (orders : Dict String (ℤ × ℤ))

namespace SettingsWrite

/-- The part before the lock raises nothing. -/
def Prepared (B : SettingsBackend V) : SettingsWrite V → Prop
  | one call scope key value => ∃ r, prepareUpsertSetting B call scope key value = .ok r
  | many call scope values writerId orders =>
    ∃ r, prepareUpsertSettings B call scope values writerId orders = .ok r

/-- The tables that the transaction commits. -/
def run (B : SettingsBackend V) (t : SettingsTables V) :
    SettingsWrite V → Except SettingsError (SettingsTables V)
  | one call scope key value => Prod.fst <$> upsertSetting B call scope key value t
  | many call scope values writerId orders =>
    Prod.fst <$> upsertSettings B call scope values writerId orders t

end SettingsWrite

/-- Equal revisions have equal settings. -/
def SettingsTables.Follows (u t : SettingsTables V) : Prop :=
  t.revision ≤ u.revision ∧ (u.revision = t.revision → u.settings = t.settings)

omit [DecidableEq V] in
theorem SettingsTables.Follows.refl (t : SettingsTables V) : t.Follows t := ⟨le_rfl, fun _ => rfl⟩

variable {t u : SettingsTables V}

omit [DecidableEq V] in
theorem SettingsTables.Follows.trans {s : SettingsTables V} (h₁ : u.Follows t)
    (h₂ : t.Follows s) : u.Follows s := by
  refine ⟨h₂.1.trans h₁.1, fun heq => ?_⟩
  have htu : u.revision = t.revision := le_antisymm (heq ▸ h₂.1) h₁.1
  rw [h₁.2 htu, h₂.2 (htu ▸ heq)]

variable {B : SettingsBackend V}

theorem insertLoop_nil {scope : SettingsScope}
    {submitted : String → Option MutationOrder} {acc acc' : SettingTable V × List String}
    {items : List (String × V)}
    (h : items.foldlM (insertSetting B scope submitted) acc = .ok acc') (hnil : acc'.2 = []) :
    acc' = acc := by
  induction items generalizing acc with
  | nil => exact (pure_eq_ok.mp h).symm
  | cons item items ih =>
    rw [List.foldlM_cons] at h
    obtain ⟨mid, hmid, h⟩ := bind_eq_ok.mp h
    obtain rfl := ih h
    obtain ⟨_, -, ⟨_, -, rfl⟩ | ⟨-, rfl⟩⟩ := insertSetting_eq_ok hmid
    · cases hnil
    · rfl

omit [DecidableEq V] in
theorem follows_of_settle {settings : SettingTable V}
    {applied : List String} {revision : ℕ} (hnil : applied = [] → settings = t.settings)
    (h : settleRevision (!applied.isEmpty) { t with settings := settings } = .ok (u, revision)) :
    u.Follows t := by
  obtain ⟨hset, -, hrev⟩ := settleRevision_eq_ok h
  cases happ : applied with
  | nil =>
    rw [happ] at hrev
    exact ⟨hrev.ge, fun _ => hset.trans (hnil happ)⟩
  | cons k ks =>
    rw [happ] at hrev
    have hsucc : u.revision = t.revision + 1 := hrev
    exact ⟨by omega, fun heq => by omega⟩

theorem SettingsWrite.follows {w : SettingsWrite V} (h : w.run B t = .ok u) : u.Follows t := by
  cases w with
  | one call scope key value =>
    obtain ⟨⟨v, revision⟩, hup, rfl⟩ := map_eq_ok.mp h
    obtain ⟨exactScope, -, hup⟩ := bind_eq_ok.mp hup
    obtain ⟨-, -, hup⟩ := bind_eq_ok.mp hup
    obtain ⟨⟨settings, applied⟩, hins, hup⟩ := bind_eq_ok.mp hup
    refine follows_of_settle (fun hnil => ?_) hup
    obtain ⟨_, -, ⟨_, -, heq⟩ | ⟨-, heq⟩⟩ := insertSetting_eq_ok hins
    · rw [(Prod.mk.inj heq).2] at hnil
      cases hnil
    · exact (Prod.mk.inj heq).1
  | many call scope values writerId orders =>
    obtain ⟨⟨v, results, revision⟩, hup, rfl⟩ := map_eq_ok.mp h
    obtain ⟨⟨exactScope, writer⟩, -, hup⟩ := bind_eq_ok.mp hup
    obtain ⟨-, -, hup⟩ := bind_eq_ok.mp hup
    obtain ⟨⟨settings, applied⟩, hloop, hup⟩ := bind_eq_ok.mp hup
    obtain ⟨-, -, hup⟩ := bind_eq_ok.mp hup
    obtain ⟨-, -, hup⟩ := bind_eq_ok.mp hup
    obtain ⟨rs, -, hup⟩ := bind_eq_ok.mp hup
    obtain ⟨⟨t', revision'⟩, hsettle, hup⟩ := bind_eq_ok.mp hup
    obtain ⟨rfl, -⟩ := Prod.mk.inj (pure_eq_ok.mp hup)
    refine follows_of_settle (fun hnil => ?_) hsettle
    exact (Prod.mk.inj (insertLoop_nil hloop hnil)).1

/-! ### Snapshots -/

structure SettingsSnapshot (V : Type) where
  values : List (String × V)
  mutationOrders : List (String × OrderTuple)
  mutationChangedAtMs : ℤ
  settingsRevision : ℕ
  deriving DecidableEq

/-- What the reader computes from the rows of its scope. -/
def settingsSnapshot (t : SettingsTables V) (scope : SettingsScope) : SettingsSnapshot V :=
  let rows := t.settings.select fun k _ => k.1 = scope
  { values := rows.map fun row => (row.1.2, row.2.value)
    mutationOrders := rows.map fun row => (row.1.2, orderTuple row.2.order)
    mutationChangedAtMs := (rows.map fun row => row.2.mutationChangedAtMs).foldl max 0
    settingsRevision := t.revision }

def SettingsSnapshot.get? (s : SettingsSnapshot V) (key : String) : Option V :=
  (s.values.find? fun e => e.1 = key).map Prod.snd

omit [DecidableEq V] in
/-- A cached scope answers for a key what its row would. -/
theorem get?_settingsSnapshot (t : SettingsTables V) (scope : SettingsScope) (key : String) :
    (settingsSnapshot t scope).get? key
      = (t.settings.get? (scope, key)).map SettingRow.value := by
  have hpred : ∀ e : (SettingsScope × String) × SettingRow V,
      decide (decide (e.1.1 = scope) = true ∧ decide (e.1.2 = key) = true)
        = decide (e.1 = (scope, key)) := by
    rintro ⟨⟨s, k⟩, row⟩
    simp [Prod.ext_iff]
  rw [SettingsSnapshot.get?, settingsSnapshot, Dict.select, Dict.get?]
  simp only [List.find?_map, List.find?_filter, Function.comp_def, hpred, Option.map_map]

omit [DecidableEq V] in
theorem settingsSnapshot_congr (hr : t.revision = u.revision)
    (hs : t.settings = u.settings) (scope : SettingsScope) :
    settingsSnapshot t scope = settingsSnapshot u scope := by
  rw [settingsSnapshot, settingsSnapshot, hr, hs]

/-! ### Readers and writers of one process -/

/-- `read_setting` refuses every scope but the server's. -/
inductive SettingsRead
  | snapshot (scope : SettingsScope)
  | setting (key : String)
  deriving DecidableEq

def SettingsRead.scope : SettingsRead → SettingsScope
  | snapshot scope => scope
  | setting _ => .server

inductive SettingsAnswer (V : Type)
  | snapshot (s : SettingsSnapshot V)
  | setting (value : Option V)
  deriving DecidableEq

def SettingsRead.fromEntry : SettingsRead → SettingsSnapshot V → SettingsAnswer V
  | snapshot _, s => .snapshot s
  | setting key, s => .setting (s.get? key)

def SettingsRead.fromTables : SettingsRead → SettingsTables V → SettingsAnswer V
  | snapshot scope, t => .snapshot (settingsSnapshot t scope)
  | setting key, t => .setting ((t.settings.get? (.server, key)).map SettingRow.value)

omit [DecidableEq V] in
theorem fromEntry_settingsSnapshot (r : SettingsRead) (t : SettingsTables V) :
    r.fromEntry (settingsSnapshot t r.scope) = r.fromTables t := by
  cases r with
  | snapshot scope => rfl
  | setting key => exact congrArg SettingsAnswer.setting (get?_settingsSnapshot t .server key)

structure CachedSettings (V : Type) where
  cachedAt : ℚ
  snapshot : SettingsSnapshot V

/-- Where a thread is. `since` is not in the program: the last write that had returned when the read
began. -/
inductive SettingsPhase (V : Type)
  | idle
  | readWaiting (r : SettingsRead) (now : ℚ) (since : ℕ)
  /-- The shared lock is held; `seen` was committed when it was granted. -/
  | reading (r : SettingsRead) (now : ℚ) (since : ℕ) (seen : SettingsTables V)
  | filled (r : SettingsRead) (since : ℕ) (seen : SettingsTables V)
  | writeWaiting (w : SettingsWrite V)
  /-- The exclusive lock is held. -/
  | writeLocked (w : SettingsWrite V)
  | writeCleared (w : SettingsWrite V)
  /-- The lock is released, the second clear is still to come. -/
  | writeCommitted (version : ℕ)

namespace SettingsPhase

def HoldsShared : SettingsPhase V → Prop
  | reading .. => True
  | filled .. => True
  | _ => False

def HoldsExclusive : SettingsPhase V → Prop
  | writeLocked _ => True
  | writeCleared _ => True
  | _ => False

def Holds (p : SettingsPhase V) : Prop := p.HoldsShared ∨ p.HoldsExclusive

attribute [simp] HoldsShared HoldsExclusive Holds

end SettingsPhase

/-- A read that returned. -/
structure SettingsAnswered (V : Type) where
  read : SettingsRead
  since : ℕ
  answer : SettingsAnswer V

structure CacheState (V : Type) where
  /-- The tables after each commit. -/
  committed : ℕ → SettingsTables V
  /-- The number of commits. -/
  version : ℕ
  cache : SettingsScope → Option (CachedSettings V)
  threads : ℕ → SettingsPhase V
  /-- The last of the writes that returned. -/
  returned : ℕ
  answers : List (SettingsAnswered V)

namespace CacheState

def tables (s : CacheState V) : SettingsTables V := s.committed s.version

def start (t : SettingsTables V) : CacheState V where
  committed _ := t
  version := 0
  cache _ := none
  threads _ := .idle
  returned := 0
  answers := []

def setThread (s : CacheState V) (i : ℕ) (p : SettingsPhase V) : CacheState V :=
  { s with threads := Function.update s.threads i p }

def answer (s : CacheState V) (r : SettingsRead) (since : ℕ) (a : SettingsAnswer V) :
    CacheState V :=
  { s with answers := ⟨r, since, a⟩ :: s.answers }

def fill (s : CacheState V) (scope : SettingsScope) (now : ℚ) (snapshot : SettingsSnapshot V) :
    CacheState V :=
  { s with cache := Function.update s.cache scope (some ⟨now, snapshot⟩) }

def clear (s : CacheState V) : CacheState V := { s with cache := fun _ => none }

def commit (s : CacheState V) (t : SettingsTables V) : CacheState V :=
  { s with committed := Function.update s.committed (s.version + 1) t, version := s.version + 1 }

def noteReturned (s : CacheState V) (version : ℕ) : CacheState V :=
  { s with returned := max s.returned version }

end CacheState

def settingsCacheTtl : ℚ := 2

inductive CacheAct (V : Type)
  | read (i : ℕ) (r : SettingsRead) (now : ℚ)
  | lockShared (i : ℕ)
  | fill (i : ℕ) (instrumentIds : List String)
  | endRead (i : ℕ)
  | raiseRead (i : ℕ)
  | beginWrite (i : ℕ) (w : SettingsWrite V)
  | lockExclusive (i : ℕ)
  | clearLocked (i : ℕ)
  | commit (i : ℕ)
  | rollback (i : ℕ)
  | clearCommitted (i : ℕ)

/-- One step of one thread. -/
inductive CacheStep (B : SettingsBackend V) : CacheState V → CacheAct V → CacheState V → Prop
  /-- A fresh entry is returned without a lock. -/
  | hit {s i r now e} (hi : s.threads i = .idle) (he : s.cache r.scope = some e)
      (hfresh : now - e.cachedAt ≤ settingsCacheTtl) :
      CacheStep B s (.read i r now) (s.answer r s.returned (r.fromEntry e.snapshot))
  | miss {s i r now} (hi : s.threads i = .idle)
      (hmiss : ∀ e, s.cache r.scope = some e → settingsCacheTtl < now - e.cachedAt) :
      CacheStep B s (.read i r now) (s.setThread i (.readWaiting r now s.returned))
  | lockShared {s i r now since} (hi : s.threads i = .readWaiting r now since)
      (hfree : ∀ j, ¬ (s.threads j).HoldsExclusive) :
      CacheStep B s (.lockShared i) (s.setThread i (.reading r now since s.tables))
  | fill {s i scope now since seen ids} (hi : s.threads i = .reading (.snapshot scope) now since seen)
      (hvalid : B.validate scope (settingsSnapshot seen scope).values (some fun k => k ∈ ids)
        = .ok ()) :
      CacheStep B s (.fill i ids) ((s.fill scope now (settingsSnapshot seen scope)).setThread i
        (.filled (.snapshot scope) since seen))
  | endSnapshot {s i r since seen} (hi : s.threads i = .filled r since seen) :
      CacheStep B s (.endRead i) ((s.answer r since (r.fromTables seen)).setThread i .idle)
  /-- `read_setting` returns what it read and fills nothing. -/
  | endSetting {s i key now since seen} (hi : s.threads i = .reading (.setting key) now since seen) :
      CacheStep B s (.endRead i)
        ((s.answer (.setting key) since (SettingsRead.fromTables (.setting key) seen)).setThread i
          .idle)
  /-- The contract of a row, a timeout or the connection failed. -/
  | raiseRead {s i} (hi : (∃ r now since, s.threads i = .readWaiting r now since) ∨
      (s.threads i).HoldsShared) : CacheStep B s (.raiseRead i) (s.setThread i .idle)
  | beginWrite {s i w} (hi : s.threads i = .idle) (hw : w.Prepared B) :
      CacheStep B s (.beginWrite i w) (s.setThread i (.writeWaiting w))
  | lockExclusive {s i w} (hi : s.threads i = .writeWaiting w)
      (hfree : ∀ j, ¬ (s.threads j).Holds) :
      CacheStep B s (.lockExclusive i) (s.setThread i (.writeLocked w))
  | clearLocked {s i w} (hi : s.threads i = .writeLocked w) :
      CacheStep B s (.clearLocked i) (s.clear.setThread i (.writeCleared w))
  | commit {s i w t} (hi : s.threads i = .writeCleared w) (hw : w.run B s.tables = .ok t) :
      CacheStep B s (.commit i) ((s.commit t).setThread i (.writeCommitted (s.version + 1)))
  | rollback {s i} (hi : (∃ w, s.threads i = .writeWaiting w) ∨ (s.threads i).HoldsExclusive) :
      CacheStep B s (.rollback i) (s.setThread i .idle)
  | clearCommitted {s i v} (hi : s.threads i = .writeCommitted v) :
      CacheStep B s (.clearCommitted i) ((s.clear.noteReturned v).setThread i .idle)

/-! ### The invariant -/

/-- What a thread may rely on. -/
def PhaseOk (s : CacheState V) : SettingsPhase V → Prop
  | .idle => True
  | .readWaiting _ _ since => since ≤ s.version
  | .reading _ _ since seen => since ≤ s.version ∧ seen = s.tables
  | .filled _ since seen => since ≤ s.version ∧ seen = s.tables
  | .writeWaiting _ => True
  | .writeLocked _ => True
  | .writeCleared _ => ∀ scope, s.cache scope = none
  | .writeCommitted version => version ≤ s.version

structure CacheInv (s : CacheState V) : Prop where
  coherent : ∀ scope e, s.cache scope = some e → e.snapshot = settingsSnapshot s.tables scope
  phases : ∀ i, PhaseOk s (s.threads i)
  exclusive : ∀ i j, (s.threads i).HoldsExclusive → (s.threads j).Holds → j = i
  returned : s.returned ≤ s.version
  history : ∀ v w, v ≤ w → w ≤ s.version → (s.committed w).Follows (s.committed v)
  answers : ∀ a ∈ s.answers, ∃ v ≤ s.version, a.since ≤ v ∧
    a.answer = a.read.fromTables (s.committed v)

namespace CacheInv

variable {s : CacheState V} {i : ℕ} {p : SettingsPhase V}

omit [DecidableEq V]

theorem start (t : SettingsTables V) : CacheInv (CacheState.start t) where
  coherent _ _ h := by cases h
  phases _ := trivial
  exclusive _ _ h _ := h.elim
  returned := le_rfl
  history _ _ _ _ := .refl t
  answers _ h := by cases h

/-- A thread moves on: it must be right about the state, and the lock it holds must be its own. -/
theorem setThread (h : CacheInv s) (hp : PhaseOk s p)
    (hshared : p.Holds → ∀ j, j ≠ i → ¬ (s.threads j).HoldsExclusive)
    (hexcl : p.HoldsExclusive → ∀ j, j ≠ i → ¬ (s.threads j).Holds) :
    CacheInv (s.setThread i p) where
  coherent := h.coherent
  phases j := by
    show PhaseOk s (Function.update s.threads i p j)
    by_cases hj : j = i
    · subst hj
      rwa [Function.update_self]
    · rw [Function.update_of_ne hj]
      exact h.phases j
  exclusive j k hj hk := by
    change (Function.update s.threads i p j).HoldsExclusive at hj
    change (Function.update s.threads i p k).Holds at hk
    by_cases hji : j = i
    · subst hji
      rw [Function.update_self] at hj
      by_contra hne
      rw [Function.update_of_ne hne] at hk
      exact hexcl hj k hne hk
    · rw [Function.update_of_ne hji] at hj
      by_cases hki : k = i
      · subst hki
        rw [Function.update_self] at hk
        exact absurd hj (hshared hk j hji)
      · rw [Function.update_of_ne hki] at hk
        exact h.exclusive j k hj hk
  returned := h.returned
  history := h.history
  answers := h.answers

/-- A thread that lets go of everything, or never had a lock. -/
theorem setFree (h : CacheInv s) (hp : PhaseOk s p) (hfree : ¬ p.Holds) :
    CacheInv (s.setThread i p) :=
  h.setThread hp (fun hh => absurd hh hfree) fun hx => absurd (Or.inr hx) hfree

/-- A thread that keeps the shared lock. -/
theorem keepShared (h : CacheInv s) (hi : (s.threads i).HoldsShared) (hp : PhaseOk s p)
    (hnot : ¬ p.HoldsExclusive) : CacheInv (s.setThread i p) :=
  h.setThread hp (fun _ j hne hj => hne (h.exclusive j i hj (Or.inl hi)).symm)
    fun hx => absurd hx hnot

/-- A thread that keeps the exclusive lock. -/
theorem keepExclusive (h : CacheInv s) (hi : (s.threads i).HoldsExclusive) (hp : PhaseOk s p) :
    CacheInv (s.setThread i p) :=
  h.setThread hp (fun _ j hne hj => hne (h.exclusive i j hi (Or.inr hj)))
    fun _ j hne hj => hne (h.exclusive i j hi hj)

theorem answer (h : CacheInv s) {r : SettingsRead} {since : ℕ} (hsince : since ≤ s.version) :
    CacheInv (s.answer r since (r.fromTables s.tables)) where
  coherent := h.coherent
  phases := h.phases
  exclusive := h.exclusive
  returned := h.returned
  history := h.history
  answers a ha := by
    rcases List.mem_cons.mp ha with rfl | ha
    · exact ⟨s.version, le_rfl, hsince, rfl⟩
    · exact h.answers a ha

/-- Who fills the cache holds the shared lock, so no writer has cleared it. -/
theorem fill (h : CacheInv s) (hi : (s.threads i).HoldsShared) (scope : SettingsScope) (now : ℚ) :
    CacheInv (s.fill scope now (settingsSnapshot s.tables scope)) where
  coherent sc e he := by
    change Function.update s.cache scope _ sc = some e at he
    by_cases hsc : sc = scope
    · subst hsc
      rw [Function.update_self] at he
      cases he
      rfl
    · rw [Function.update_of_ne hsc] at he
      exact h.coherent sc e he
  phases j := by
    have hj := h.phases j
    show PhaseOk _ (s.threads j)
    cases hp : s.threads j with
    | writeCleared w =>
      have hij : i = j := h.exclusive j i (by rw [hp]; trivial) (Or.inl hi)
      rw [hij, hp] at hi
      exact hi.elim
    | _ => rw [hp] at hj; exact hj
  exclusive := h.exclusive
  returned := h.returned
  history := h.history
  answers := h.answers

theorem clear (h : CacheInv s) : CacheInv s.clear where
  coherent _ _ he := by cases he
  phases j := by
    have hj := h.phases j
    show PhaseOk _ (s.threads j)
    cases hp : s.threads j with
    | writeCleared w => exact fun _ => rfl
    | _ => rw [hp] at hj; exact hj
  exclusive := h.exclusive
  returned := h.returned
  history := h.history
  answers := h.answers

theorem noteReturned (h : CacheInv s) {v : ℕ} (hv : v ≤ s.version) :
    CacheInv (s.noteReturned v) where
  coherent := h.coherent
  phases := h.phases
  exclusive := h.exclusive
  returned := max_le h.returned hv
  history := h.history
  answers := h.answers

/-- A commit happens under the exclusive lock, over an empty cache. -/
theorem commit (h : CacheInv s) {w : SettingsWrite V} (hi : s.threads i = .writeCleared w)
    {t : SettingsTables V} (ht : t.Follows s.tables) : CacheInv (s.commit t) where
  coherent scope e he := by
    have hempty : PhaseOk s (.writeCleared w) := hi ▸ h.phases i
    rw [CacheState.commit, hempty scope] at he
    cases he
  phases j := by
    have hj := h.phases j
    have hholds : (s.threads j).Holds → j = i := h.exclusive i j (by rw [hi]; trivial)
    show PhaseOk _ (s.threads j)
    cases hp : s.threads j with
    | idle => trivial
    | readWaiting r now since => rw [hp] at hj; exact Nat.le_succ_of_le hj
    | reading r now since seen =>
      obtain rfl := hholds (by rw [hp]; exact Or.inl trivial)
      rw [hi] at hp
      cases hp
    | filled r since seen =>
      obtain rfl := hholds (by rw [hp]; exact Or.inl trivial)
      rw [hi] at hp
      cases hp
    | writeWaiting w => trivial
    | writeLocked w => trivial
    | writeCleared w => rw [hp] at hj; exact hj
    | writeCommitted v => rw [hp] at hj; exact Nat.le_succ_of_le hj
  exclusive := h.exclusive
  returned := Nat.le_succ_of_le h.returned
  history v w hvw hw := by
    change w ≤ s.version + 1 at hw
    show (Function.update s.committed (s.version + 1) t w).Follows
      (Function.update s.committed (s.version + 1) t v)
    rcases Nat.le_succ_iff.mp hw with hw | rfl
    · rw [Function.update_of_ne (by omega), Function.update_of_ne (by omega)]
      exact h.history v w hvw hw
    · rw [Function.update_self]
      rcases Nat.le_succ_iff.mp hvw with hv | rfl
      · rw [Function.update_of_ne (by omega)]
        exact ht.trans (h.history v s.version hv le_rfl)
      · rw [Function.update_self]
        exact .refl t
  answers a ha := by
    obtain ⟨v, hv, hsince, hans⟩ := h.answers a ha
    refine ⟨v, Nat.le_succ_of_le hv, hsince, ?_⟩
    show _ = a.read.fromTables (Function.update s.committed (s.version + 1) t v)
    rwa [Function.update_of_ne (by omega)]

end CacheInv

theorem CacheInv.step (s : CacheState V) (a : CacheAct V)
    (t : CacheState V) (h : CacheInv s) (hstep : CacheStep B s a t) : CacheInv t := by
  cases hstep with
  | @hit i r now e hi he hfresh =>
    rw [h.coherent _ _ he, fromEntry_settingsSnapshot]
    exact h.answer h.returned
  | miss hi hmiss => exact h.setFree h.returned (by simp)
  | @lockShared i r now since hi hfree =>
    have hp : PhaseOk s (.readWaiting r now since) := hi ▸ h.phases i
    exact h.setThread ⟨hp, rfl⟩ (fun _ j _ => hfree j) fun hx => hx.elim
  | @fill i scope now since seen ids hi hvalid =>
    have hp : PhaseOk s (.reading (.snapshot scope) now since seen) := hi ▸ h.phases i
    have hshared : (s.threads i).HoldsShared := by rw [hi]; trivial
    obtain ⟨hsince, rfl⟩ := hp
    refine (h.fill hshared scope now).keepShared (i := i) hshared ⟨hsince, rfl⟩ id
  | @endSnapshot i r since seen hi =>
    have hp : PhaseOk s (.filled r since seen) := hi ▸ h.phases i
    obtain ⟨hsince, rfl⟩ := hp
    exact (h.answer hsince).setFree trivial (by simp)
  | @endSetting i key now since seen hi =>
    have hp : PhaseOk s (.reading (.setting key) now since seen) := hi ▸ h.phases i
    obtain ⟨hsince, rfl⟩ := hp
    exact (h.answer hsince).setFree trivial (by simp)
  | raiseRead hi => exact h.setFree trivial (by simp)
  | beginWrite hi hw => exact h.setFree trivial (by simp)
  | lockExclusive hi hfree =>
    exact h.setThread trivial (fun _ j _ hx => hfree j (Or.inr hx)) fun _ j _ => hfree j
  | @clearLocked i w hi =>
    have hexcl : (s.threads i).HoldsExclusive := by rw [hi]; trivial
    exact h.clear.keepExclusive (i := i) hexcl fun _ => rfl
  | @commit i w t hi hw =>
    exact (h.commit hi (SettingsWrite.follows hw)).setFree le_rfl (by simp)
  | rollback hi => exact h.setFree trivial (by simp)
  | @clearCommitted i v hi =>
    have hp : PhaseOk s (.writeCommitted v) := hi ▸ h.phases i
    exact (h.clear.noteReturned hp).setFree trivial (by simp)

/-! ### The main result -/

/-- An entry is the snapshot of one commit, and of every commit of the same revision. -/
def SnapshotOf (s : CacheState V) (scope : SettingsScope) (snapshot : SettingsSnapshot V) : Prop :=
  (∃ v ≤ s.version, snapshot = settingsSnapshot (s.committed v) scope) ∧
  ∀ v ≤ s.version, (s.committed v).revision = snapshot.settingsRevision →
    snapshot = settingsSnapshot (s.committed v) scope

/-- **The settings cache is coherent.** A read yields what was committed after every write that had
returned when it began, and a cached revision names exactly the cached values. -/
theorem settingsCache_coherent {B : SettingsBackend V} {t : SettingsTables V} {s : CacheState V}
    {acts : List (CacheAct V)} (h : Run (CacheStep B) (CacheState.start t) acts s) :
    (∀ a ∈ s.answers, ∃ v ≤ s.version, a.since ≤ v ∧
      a.answer = a.read.fromTables (s.committed v)) ∧
    ∀ scope e, s.cache scope = some e → SnapshotOf s scope e.snapshot := by
  have hinv : CacheInv s := h.invariant CacheInv.step (CacheInv.start t)
  refine ⟨hinv.answers, fun scope e he => ?_⟩
  have hsnap := hinv.coherent scope e he
  refine ⟨⟨s.version, le_rfl, hsnap⟩, fun v hv hrev => ?_⟩
  have hfollows := hinv.history v s.version hv le_rfl
  have hsame : (s.committed s.version).revision = (s.committed v).revision := by
    rw [hrev, hsnap]
    rfl
  rw [hsnap]
  exact settingsSnapshot_congr hsame (hfollows.2 hsame) scope

def themeWrite : SettingsWrite ℕ := .one ⟨.ok (), .ok (), []⟩ "server" "theme" 5

def themeTables : SettingsTables ℕ :=
  (themeWrite.run numberBackend noSettings).toOption.getD noSettings

theorem themeWrite_run : themeWrite.run numberBackend noSettings = .ok themeTables := by
  have hok : (themeWrite.run numberBackend noSettings).toOption.isSome := by decide +kernel
  rw [themeTables]
  cases h : themeWrite.run numberBackend noSettings with
  | ok t => rfl
  | error e =>
    rw [h] at hok
    cases hok

/-- A write, a read that fills the cache, and a read that is served from it. -/
theorem settingsCache_coherent_served : ∃ s : CacheState ℕ,
    s.answers.map SettingsAnswered.answer = [.setting (some 5), .snapshot
      ⟨[("theme", 5)], [("theme", (0, none, 0))], 0, 1⟩] ∧
    ∀ scope e, s.cache scope = some e → SnapshotOf s scope e.snapshot := by
  have hfree : ∀ (s : CacheState ℕ) (p : SettingsPhase ℕ), (∀ j, j ≠ 0 → s.threads j = .idle) →
      ¬ p.Holds → ∀ j, ¬ ((s.setThread 0 p).threads j).Holds := by
    intro s p hs hp j
    show ¬ (Function.update s.threads 0 p j).Holds
    by_cases hj : j = 0
    · subst hj
      rwa [Function.update_self]
    · rw [Function.update_of_ne hj, hs j hj]
      simp
  have hrun : ∃ s acts, Run (CacheStep numberBackend) (CacheState.start noSettings) acts s ∧
      s.answers.map SettingsAnswered.answer = [.setting (some 5), .snapshot
        ⟨[("theme", 5)], [("theme", (0, none, 0))], 0, 1⟩] := by
    refine ⟨_, [.beginWrite 0 themeWrite, .lockExclusive 0, .clearLocked 0, .commit 0,
        .clearCommitted 0, .read 0 (.snapshot .server) 0, .lockShared 0, .fill 0 [], .endRead 0,
        .read 0 (.setting "theme") 1], .cons (.beginWrite (i := 0) (w := themeWrite) rfl ⟨.server, by decide +kernel⟩) <|
      .cons (.lockExclusive (i := 0) (w := themeWrite) rfl (hfree _ _ ?_ (by simp))) <|
      .cons (.clearLocked (i := 0) (w := themeWrite) rfl) <|
      .cons (.commit (i := 0) (w := themeWrite) rfl themeWrite_run) <|
      .cons (.clearCommitted (i := 0) rfl) <|
      .cons (.miss (i := 0) rfl nofun) <|
      .cons (.lockShared (i := 0) rfl fun j hx => hfree _ _ ?_ (by simp) j (Or.inr hx)) <|
      .cons (.fill (i := 0) rfl rfl) <|
      .cons (.endSnapshot (i := 0) rfl) <|
      .single (.hit (i := 0) rfl rfl
        (by decide +kernel)), ?_⟩
    · intro j _
      rfl
    · intro j hj
      simp [CacheState.setThread, CacheState.noteReturned, CacheState.clear, CacheState.commit,
        CacheState.start]
    · decide +kernel
  obtain ⟨s, acts, hrun, hans⟩ := hrun
  exact ⟨s, hans, (settingsCache_coherent hrun).2⟩

end AefTerminal
