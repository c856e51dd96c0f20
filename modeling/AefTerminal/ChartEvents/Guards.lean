import AefTerminal.ChartEvents.Effects
import AefTerminal.Foundation.Run

/-!
# Runs of the runtime and mutual exclusion of its guards

A session is the table together with every guard it has handed out. A caller owns a guard only by
having been handed it, so a session releases issued guards, in any order and any number of times;
a release that raises changes nothing. A publication of a scope is made by the writer that holds
it, which is the one protocol rule a caller has to keep.

The invariant `Session.Inv` says who holds what. Its load-bearing part is `captured`: a scope
under a publication guard cannot be written, hence not advanced, and cannot be evicted while its
token is in the map, so it stays at the generation captured.

## Main results

* `Session.inv_of_run`: the invariant holds in every session that a run reaches
* `Session.guards_exclusive`: mutual exclusion, atomic acquisition, stable captured generations
  and invalidation before release
-/

namespace AefTerminal

open Foundation

/-- One call into the runtime, or the registration of a waiter. -/
inductive ChartEventAct
  | requireGeneration (expected : ℕ) (key : ChartRefreshKey)
  | beginWrite (expected : ℕ) (key : ChartRefreshKey)
  | endWrite (guard : ChartBarsWriteGuard)
  | invalidateWrite (guard : ChartBarsWriteGuard) (reason : String)
  | publish (key : ChartRefreshKey) (reason : String) (bars : List Bar) (expected : Option ℕ)
  | beginPublication (scopes : List ChartBarsGenerationScope)
  | endPublication (guard : ChartBarsPublicationGuard)
  | addWaiter (key : ChartRefreshKey)
  | removeWaiter (key : ChartRefreshKey)

namespace ChartEvents

/-- The table after a call. A call that raises leaves it as it was. -/
def perform (s : ChartEvents) : ChartEventAct → ChartEvents
  | .requireGeneration _ _ => s
  | .beginWrite expected key =>
    match s.beginChartBarsWrite expected key with
    | .ok (_, t) => t
    | .error _ => s
  | .endWrite guard =>
    match s.endChartBarsWrite guard with
    | .ok t => t
    | .error _ => s
  | .invalidateWrite guard reason =>
    match s.invalidateChartBarsWrite guard reason with
    | .ok (_, t) => t
    | .error _ => s
  | .publish key reason bars expected => (s.publishChartBarsUpdated key reason bars expected).2
  | .beginPublication scopes =>
    match s.beginChartBarsPublication scopes with
    | .ok (_, t) => t
    | .error _ => s
  | .endPublication guard =>
    match s.endChartBarsPublication guard with
    | .ok t => t
    | .error _ => s
  | .addWaiter key => { s with waiters := s.waiters ++ [key] }
  | .removeWaiter key => { s with waiters := s.waiters.erase key }

def issuedWrite (s : ChartEvents) : ChartEventAct → List ChartBarsWriteGuard
  | .beginWrite expected key =>
    match s.beginChartBarsWrite expected key with
    | .ok (guard, _) => [guard]
    | .error _ => []
  | _ => []

def issuedPublication (s : ChartEvents) : ChartEventAct → List ChartBarsPublicationGuard
  | .beginPublication scopes =>
    match s.beginChartBarsPublication scopes with
    | .ok (guard, _) => [guard]
    | .error _ => []
  | _ => []

/-- A write guard is held while the scope's writer is its token. -/
def HoldsWrite (s : ChartEvents) (guard : ChartBarsWriteGuard) : Prop :=
  s.writesInProgress.get? guard.key = some guard.token

def HoldsPublication (s : ChartEvents) (guard : ChartBarsPublicationGuard) : Prop :=
  ∀ p ∈ guard.scopes, guard.token ∈ s.publicationTokens p.1

def HoldsNoPublication (s : ChartEvents) (guard : ChartBarsPublicationGuard) : Prop :=
  ∀ p ∈ guard.scopes, guard.token ∉ s.publicationTokens p.1

end ChartEvents

/-- The table and the guards handed out so far. -/
structure Session where
  table : ChartEvents
  writeGuards : List ChartBarsWriteGuard
  publicationGuards : List ChartBarsPublicationGuard

namespace Session

def initial : Session := ⟨.initial, [], []⟩

def next (s : Session) (a : ChartEventAct) : Session where
  table := s.table.perform a
  writeGuards := s.writeGuards ++ s.table.issuedWrite a
  publicationGuards := s.publicationGuards ++ s.table.issuedPublication a

/-- Guards are released by a holder, and a scope is published by its writer. -/
def Owned (s : Session) : ChartEventAct → Prop
  | .endWrite guard => guard ∈ s.writeGuards
  | .invalidateWrite guard _ => guard ∈ s.writeGuards
  | .endPublication guard => guard ∈ s.publicationGuards
  | .publish key _ _ _ => key ∈ s.table.writesInProgress.keys
  | _ => True

abbrev Step : Session → ChartEventAct → Session → Prop :=
  Guarded Owned fun s a t => t = s.next a

/-! ### The invariant -/

/-- Who holds what. -/
structure Inv (s : Session) : Prop where
  exclusive : ∀ k ∈ s.table.writesInProgress.keys, s.table.publicationTokens k = []
  /-- Every writer is an issued guard, at or behind the scope's generation. -/
  writer : ∀ k x, s.table.writesInProgress.get? k = some x →
    ∃ g ∈ s.writeGuards, g.key = k ∧ g.token = x ∧ g.expectedGeneration ≤ s.table.generation k
  writeToken_le : ∀ g ∈ s.writeGuards, g.token ≤ s.table.nextWriteToken
  writeToken_inj : ∀ g ∈ s.writeGuards, ∀ h ∈ s.writeGuards, g.token = h.token → g = h
  publicationToken_le : ∀ g ∈ s.publicationGuards, g.token ≤ s.table.nextPublicationToken
  publicationToken_inj : ∀ g ∈ s.publicationGuards, ∀ h ∈ s.publicationGuards,
    g.token = h.token → g = h
  heldToken_le : ∀ k, ∀ x ∈ s.table.publicationTokens k, x ≤ s.table.nextPublicationToken
  allOrNone : ∀ g ∈ s.publicationGuards,
    s.table.HoldsPublication g ∨ s.table.HoldsNoPublication g
  captured : ∀ g ∈ s.publicationGuards, ∀ p ∈ g.scopes,
    g.token ∈ s.table.publicationTokens p.1 → s.table.generation p.1 = p.2

theorem inv_initial : initial.Inv := by
  constructor <;> simp [initial, ChartEvents.initial, ChartEvents.publicationTokens]

variable {s : Session} {t : ChartEvents}

/-- A table that differs only in what the guards do not mention keeps the invariant. -/
theorem Inv.of_same (h : s.Inv) (hg : t.generations = s.table.generations)
    (hw : t.writesInProgress = s.table.writesInProgress)
    (hp : t.publicationsInProgress = s.table.publicationsInProgress)
    (hnw : t.nextWriteToken = s.table.nextWriteToken)
    (hnp : t.nextPublicationToken = s.table.nextPublicationToken) :
    Inv { s with table := t } := by
  have hgen : t.generation = s.table.generation := by
    funext k; simp only [ChartEvents.generation, hg]
  have hpub : t.publicationTokens = s.table.publicationTokens := by
    funext k; simp only [ChartEvents.publicationTokens, hp]
  obtain ⟨h₁, h₂, h₃, h₄, h₅, h₆, h₇, h₈, h₉⟩ := h
  constructor <;>
    simp only [hgen, hpub, hw, hnw, hnp, ChartEvents.HoldsPublication,
      ChartEvents.HoldsNoPublication] <;> assumption

/-- The scope of a writer advances: every held publication is on other scopes, which a guard
keeps from eviction. -/
theorem Inv.advance (h : s.Inv) {key : ChartRefreshKey}
    (hkey : key ∈ s.table.writesInProgress.keys) (reason : String) (bars : List Bar) :
    Inv { s with table := s.table.advance key reason bars } where
  exclusive k hk := by simpa using h.exclusive k (by simpa using hk)
  writer k x hx := by
    simp only [ChartEvents.advance_writesInProgress] at hx
    obtain ⟨g, hg, rfl, hx', hle⟩ := h.writer k x hx
    refine ⟨g, hg, rfl, hx', ?_⟩
    by_cases hk : g.key = key
    · subst hk
      simp only [ChartEvents.generation_advance_self]
      omega
    · simp only
      rw [ChartEvents.generation_advance_of_active hk (.inl (Dict.mem_keys_of_get? hx))]
      exact hle
  writeToken_le := by simpa using h.writeToken_le
  writeToken_inj := h.writeToken_inj
  publicationToken_le := by simpa using h.publicationToken_le
  publicationToken_inj := h.publicationToken_inj
  heldToken_le := by simpa using h.heldToken_le
  allOrNone := by
    simpa [ChartEvents.HoldsPublication, ChartEvents.HoldsNoPublication] using h.allOrNone
  captured g hg p hp htok := by
    simp only [ChartEvents.advance_publicationTokens] at htok
    have hne : p.1 ≠ key := by
      intro heq
      have hnone := h.exclusive key hkey
      rw [heq, hnone] at htok
      exact absurd htok (by simp)
    simp only
    rw [ChartEvents.generation_advance_of_active hne
      (.inr (ChartEvents.mem_keys_of_mem_publicationTokens htok))]
    exact h.captured g hg p hp htok

theorem Inv.releaseWrite (h : s.Inv) (key : ChartRefreshKey) :
    Inv { s with table := s.table.releaseWrite key } where
  exclusive k hk := h.exclusive k (Dict.mem_keys_erase.mp hk).2
  writer k x hx := by
    simp only [ChartEvents.releaseWrite, Dict.get?_erase] at hx
    split at hx
    · exact absurd hx (by simp)
    · exact h.writer k x hx
  writeToken_le := h.writeToken_le
  writeToken_inj := h.writeToken_inj
  publicationToken_le := h.publicationToken_le
  publicationToken_inj := h.publicationToken_inj
  heldToken_le := h.heldToken_le
  allOrNone := h.allOrNone
  captured := h.captured

theorem Inv.invalidateGeneration (h : s.Inv) {guard : ChartBarsWriteGuard}
    (hheld : s.table.HoldsWrite guard) (reason : String) :
    Inv { s with table := s.table.invalidateGeneration guard reason } := by
  rcases ChartEvents.invalidateGeneration_cases s.table guard reason with
    ⟨-, heq⟩ | ⟨-, heq⟩
  · rw [heq]
    exact h.advance (Dict.mem_keys_of_get? hheld) reason []
  · rw [heq]
    exact h

theorem Inv.beginWrite (h : s.Inv) {expected : ℕ} {key : ChartRefreshKey}
    {guard : ChartBarsWriteGuard}
    (hok : s.table.beginChartBarsWrite expected key = .ok (guard, t)) :
    Inv { s with table := t, writeGuards := s.writeGuards ++ [guard] } := by
  obtain ⟨hgen, hfree, hpub, rfl, rfl⟩ := ChartEvents.beginChartBarsWrite_eq_ok hok
  constructor
  case exclusive =>
    intro k hk
    rcases Dict.mem_keys_insert.mp hk with rfl | hk
    · exact hpub
    · exact h.exclusive k hk
  case writer =>
    intro k x hx
    simp only [Dict.get?_insert] at hx
    split at hx
    · rename_i hk
      exact ⟨_, List.mem_append_right _ (List.mem_singleton_self _), hk.symm,
        Option.some.inj hx, le_of_eq (hk ▸ hgen.symm)⟩
    · obtain ⟨g, hg, hrest⟩ := h.writer k x hx
      exact ⟨g, List.mem_append_left _ hg, hrest⟩
  case writeToken_le =>
    intro g hg
    rcases List.mem_append.mp hg with hg | hg
    · exact Nat.le_succ_of_le (h.writeToken_le g hg)
    · rw [List.mem_singleton.mp hg]
  case writeToken_inj =>
    have hfresh : ∀ g ∈ s.writeGuards, g.token ≠ s.table.nextWriteToken + 1 := fun g hg =>
      Nat.ne_of_lt (Nat.lt_succ_of_le (h.writeToken_le g hg))
    intro g hg g' hg' heq
    rcases List.mem_append.mp hg with hg | hg <;> rcases List.mem_append.mp hg' with hg' | hg'
    · exact h.writeToken_inj g hg g' hg' heq
    · rw [List.mem_singleton.mp hg'] at heq
      exact absurd heq (hfresh g hg)
    · rw [List.mem_singleton.mp hg] at heq
      exact absurd heq.symm (hfresh g' hg')
    · rw [List.mem_singleton.mp hg, List.mem_singleton.mp hg']
  case publicationToken_le => exact h.publicationToken_le
  case publicationToken_inj => exact h.publicationToken_inj
  case heldToken_le => exact h.heldToken_le
  case allOrNone => exact h.allOrNone
  case captured => exact h.captured

theorem Inv.beginPublication (h : s.Inv) {scopes : List ChartBarsGenerationScope}
    {guard : ChartBarsPublicationGuard}
    (hok : s.table.beginChartBarsPublication scopes = .ok (guard, t)) :
    Inv { s with table := t, publicationGuards := s.publicationGuards ++ [guard] } := by
  obtain ⟨htoken, -, hfree, ⟨hg, hw, hnw⟩, hnp, hmem⟩ :=
    ChartEvents.beginChartBarsPublication_eq_ok hok
  have hgen : t.generation = s.table.generation := by
    funext k; simp only [ChartEvents.generation, hg]
  have hold : ∀ g ∈ s.publicationGuards, g.token ≠ guard.token := fun g hg' =>
    Nat.ne_of_lt (by rw [htoken]; exact Nat.lt_succ_of_le (h.publicationToken_le g hg'))
  have hsame : ∀ g ∈ s.publicationGuards, ∀ k,
      g.token ∈ t.publicationTokens k ↔ g.token ∈ s.table.publicationTokens k := fun g hg' k => by
    rw [hmem]; simp [hold g hg']
  constructor
  case exclusive =>
    intro k hk
    simp only [hw] at hk
    refine List.eq_nil_iff_forall_not_mem.mpr fun x hx => ?_
    rcases (hmem x k).mp hx with hx | ⟨-, hkg⟩
    · rw [h.exclusive k hk] at hx
      exact absurd hx (by simp)
    · obtain ⟨p, hp, rfl⟩ := List.mem_map.mp hkg
      exact (hfree p hp).1 hk
  case writer =>
    simp only [hw, hgen]
    exact h.writer
  case writeToken_le => simpa only [hnw] using h.writeToken_le
  case writeToken_inj => exact h.writeToken_inj
  case publicationToken_le =>
    intro g hg'
    simp only [hnp]
    rcases List.mem_append.mp hg' with hg' | hg'
    · exact Nat.le_succ_of_le (h.publicationToken_le g hg')
    · rw [List.mem_singleton.mp hg', htoken]
  case publicationToken_inj =>
    intro g hg₁ g' hg₂ heq
    rcases List.mem_append.mp hg₁ with hg₁ | hg₁ <;> rcases List.mem_append.mp hg₂ with hg₂ | hg₂
    · exact h.publicationToken_inj g hg₁ g' hg₂ heq
    · rw [List.mem_singleton.mp hg₂] at heq
      exact absurd heq (hold g hg₁)
    · rw [List.mem_singleton.mp hg₁] at heq
      exact absurd heq.symm (hold g' hg₂)
    · rw [List.mem_singleton.mp hg₁, List.mem_singleton.mp hg₂]
  case heldToken_le =>
    intro k x hx
    simp only [hnp]
    rcases (hmem x k).mp hx with hx | ⟨rfl, -⟩
    · exact Nat.le_succ_of_le (h.heldToken_le k x hx)
    · rw [htoken]
  case allOrNone =>
    intro g hg'
    rcases List.mem_append.mp hg' with hg' | hg'
    · rcases h.allOrNone g hg' with hall | hnone
      · exact .inl fun p hp => (hsame g hg' p.1).mpr (hall p hp)
      · exact .inr fun p hp hx => hnone p hp ((hsame g hg' p.1).mp hx)
    · rw [List.mem_singleton.mp hg']
      exact .inl fun p hp => (hmem _ _).mpr (.inr ⟨rfl, List.mem_map_of_mem hp⟩)
  case captured =>
    intro g hg' p hp htok
    simp only [hgen]
    rcases List.mem_append.mp hg' with hg' | hg'
    · exact h.captured g hg' p hp ((hsame g hg' p.1).mp htok)
    · rw [List.mem_singleton.mp hg'] at hp
      exact (hfree p hp).2

theorem Inv.endPublication (h : s.Inv) {guard : ChartBarsPublicationGuard}
    (hguard : guard ∈ s.publicationGuards)
    (hok : s.table.endChartBarsPublication guard = .ok t) : Inv { s with table := t } := by
  obtain ⟨-, ⟨hg, hw, hnw⟩, hnp, hmem⟩ := ChartEvents.endChartBarsPublication_eq_ok hok
  have hgen : t.generation = s.table.generation := by
    funext k; simp only [ChartEvents.generation, hg]
  constructor
  case exclusive =>
    intro k hk
    simp only [hw] at hk
    refine List.eq_nil_iff_forall_not_mem.mpr fun x hx => ?_
    have hx' := ((hmem x k).mp hx).1
    rw [h.exclusive k hk] at hx'
    exact absurd hx' (by simp)
  case writer =>
    simp only [hw, hgen]
    exact h.writer
  case writeToken_le => simpa only [hnw] using h.writeToken_le
  case writeToken_inj => exact h.writeToken_inj
  case publicationToken_le => simpa only [hnp] using h.publicationToken_le
  case publicationToken_inj => exact h.publicationToken_inj
  case heldToken_le =>
    intro k x hx
    simp only [hnp]
    exact h.heldToken_le k x ((hmem x k).mp hx).1
  case allOrNone =>
    intro g hg'
    by_cases heq : g.token = guard.token
    · -- the released guard lets go of every scope at once
      obtain rfl := h.publicationToken_inj g hg' guard hguard heq
      exact .inr fun p hp hx => ((hmem _ _).mp hx).2 ⟨rfl, List.mem_map_of_mem hp⟩
    · rcases h.allOrNone g hg' with hall | hnone
      · exact .inl fun p hp => (hmem _ _).mpr ⟨hall p hp, fun hc => heq hc.1⟩
      · exact .inr fun p hp hx => hnone p hp ((hmem _ _).mp hx).1
  case captured =>
    intro g hg' p hp htok
    simp only [hgen]
    exact h.captured g hg' p hp ((hmem _ _).mp htok).1

/-- Every call keeps the invariant, whether it succeeds or raises. -/
theorem inv_step (s : Session) (a : ChartEventAct) (t : Session) (h : s.Inv)
    (hstep : Step s a t) : t.Inv := by
  obtain ⟨howned, rfl⟩ := hstep
  have hraise : Inv { s with writeGuards := s.writeGuards ++ []
                             publicationGuards := s.publicationGuards ++ [] } := by simpa using h
  cases a with
  | requireGeneration expected key => exact hraise
  | beginWrite expected key =>
    simp only [next, ChartEvents.perform, ChartEvents.issuedWrite, ChartEvents.issuedPublication,
      List.append_nil]
    rcases hok : s.table.beginChartBarsWrite expected key with e | ⟨guard, t⟩
    · simpa using h
    · exact h.beginWrite hok
  | endWrite guard =>
    simp only [next, ChartEvents.perform, ChartEvents.issuedWrite, ChartEvents.issuedPublication,
      List.append_nil]
    rcases hok : s.table.endChartBarsWrite guard with e | t
    · exact h
    · obtain ⟨-, rfl⟩ := ChartEvents.endChartBarsWrite_eq_ok hok
      exact h.releaseWrite guard.key
  | invalidateWrite guard reason =>
    simp only [next, ChartEvents.perform, ChartEvents.issuedWrite, ChartEvents.issuedPublication,
      List.append_nil]
    rcases hok : s.table.invalidateChartBarsWrite guard reason with e | ⟨g, t⟩
    · exact h
    · obtain ⟨hheld, -, -, rfl⟩ := ChartEvents.invalidateChartBarsWrite_eq_ok hok
      exact (h.invalidateGeneration hheld reason).releaseWrite guard.key
  | publish key reason bars expected =>
    simp only [next, ChartEvents.perform, ChartEvents.issuedWrite, ChartEvents.issuedPublication,
      List.append_nil]
    rcases ChartEvents.publishChartBarsUpdated_cases s.table key reason bars
      expected with heq | heq
    · rw [heq]
      exact h
    · rw [heq]
      exact h.advance howned reason bars
  | beginPublication scopes =>
    simp only [next, ChartEvents.perform, ChartEvents.issuedWrite, ChartEvents.issuedPublication,
      List.append_nil]
    rcases hok : s.table.beginChartBarsPublication scopes with e | ⟨guard, t⟩
    · simpa using h
    · exact h.beginPublication hok
  | endPublication guard =>
    simp only [next, ChartEvents.perform, ChartEvents.issuedWrite, ChartEvents.issuedPublication,
      List.append_nil]
    rcases hok : s.table.endChartBarsPublication guard with e | t
    · exact h
    · exact h.endPublication howned hok
  | addWaiter key => exact hraise.of_same rfl rfl rfl rfl rfl
  | removeWaiter key => exact hraise.of_same rfl rfl rfl rfl rfl

theorem inv_of_run {acts : List ChartEventAct} (h : Run Step initial acts s) : s.Inv :=
  h.invariant inv_step inv_initial

/-- An issued guard that is held is never ahead of its scope's generation. -/
theorem Inv.expected_le (h : s.Inv) {g : ChartBarsWriteGuard} (hg : g ∈ s.writeGuards)
    (hheld : s.table.HoldsWrite g) : g.expectedGeneration ≤ s.table.generation g.key := by
  obtain ⟨g', hg', hkey, htoken, hle⟩ := h.writer _ _ hheld
  obtain rfl := h.writeToken_inj g' hg' g hg htoken
  exact hle

/-! ### Mutual exclusion -/

/-- What the guards of a session exclude. -/
structure Exclusive (s : Session) : Prop where
  no_write_with_publication : ∀ k, s.table.writeInProgress k → s.table.publicationTokens k = []
  one_writer : ∀ g ∈ s.writeGuards, ∀ h ∈ s.writeGuards, g.key = h.key →
    s.table.HoldsWrite g → s.table.HoldsWrite h → g = h
  all_or_none : ∀ g ∈ s.publicationGuards,
    s.table.HoldsPublication g ∨ s.table.HoldsNoPublication g
  captured : ∀ g ∈ s.publicationGuards, s.table.HoldsPublication g →
    ∀ p ∈ g.scopes, s.table.generation p.1 = p.2

theorem Inv.toExclusive (h : s.Inv) : s.Exclusive where
  no_write_with_publication k hk := h.exclusive k (ChartEvents.writeInProgress_iff.mp hk)
  one_writer g hg g' hg' hkey hheld hheld' := by
    refine h.writeToken_inj g hg g' hg' ?_
    rw [ChartEvents.HoldsWrite, hkey] at hheld
    exact Option.some.inj (hheld.symm.trans hheld')
  all_or_none := h.allOrNone
  captured g hg hheld p hp := h.captured g hg p hp (hheld p hp)

/-- A publication guard is acquired on all the scopes asked for, at the generations asked for, or
the table stays as it was. -/
def AcquiredAtomically (s : ChartEvents) (scopes : List ChartBarsGenerationScope) : Prop :=
  match s.beginChartBarsPublication scopes with
  | .ok (guard, t) =>
    (∀ scope ∈ scopes, (scope.key, scope.generation) ∈ guard.scopes) ∧
      t.HoldsPublication guard ∧ s.HoldsNoPublication guard ∧
      ∀ p ∈ guard.scopes, t.generation p.1 = p.2
  | .error _ => s.perform (.beginPublication scopes) = s

theorem Inv.acquiredAtomically (h : s.Inv) (scopes : List ChartBarsGenerationScope) :
    AcquiredAtomically s.table scopes := by
  unfold AcquiredAtomically
  split
  · rename_i guard t hok
    obtain ⟨htoken, hscopes, hfree, ⟨hg, -, -⟩, -, hmem⟩ :=
      ChartEvents.beginChartBarsPublication_eq_ok hok
    refine ⟨fun scope hs => (hscopes _ _).mpr hs,
      fun p hp => (hmem _ _).mpr (.inr ⟨rfl, List.mem_map_of_mem hp⟩),
      fun p _ hx => ?_, fun p hp => ?_⟩
    · have hle := h.heldToken_le _ _ hx
      omega
    · rw [← (hfree p hp).2]
      simp only [ChartEvents.generation, hg]
  · rename_i e he
    simp only [ChartEvents.perform, he]

/-- Releasing a write as uncertain: the generation moves past the one captured while the scope is
still guarded, and only then does the scope become free. -/
def ReleasedUncertain (s : ChartEvents) (guard : ChartBarsWriteGuard) (reason : String) : Prop :=
  let advanced := s.invalidateGeneration guard reason
  guard.expectedGeneration < advanced.generation guard.key ∧
    advanced.HoldsWrite guard ∧
    s.invalidateChartBarsWrite guard reason =
      .ok (advanced.generation guard.key, advanced.releaseWrite guard.key)

theorem Inv.releasedUncertain (h : s.Inv) {g : ChartBarsWriteGuard} (hg : g ∈ s.writeGuards)
    (hheld : s.table.HoldsWrite g) (reason : String) : ReleasedUncertain s.table g reason := by
  have hle := h.expected_le hg hheld
  obtain ⟨hlt, hsame⟩ := ChartEvents.invalidateGeneration_spec reason hle
  refine ⟨hlt, by rw [ChartEvents.HoldsWrite, hsame]; exact hheld, ?_⟩
  rcases hok : s.table.invalidateChartBarsWrite g reason with e | ⟨generation, t⟩
  · rw [ChartEvents.HoldsWrite] at hheld
    simp [ChartEvents.invalidateChartBarsWrite, hheld, not_lt.mpr hle] at hok
  · obtain ⟨-, -, rfl, rfl⟩ := ChartEvents.invalidateChartBarsWrite_eq_ok hok
    rfl

end Session

end AefTerminal
