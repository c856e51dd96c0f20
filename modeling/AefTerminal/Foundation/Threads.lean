import Mathlib.Data.List.Basic
import Mathlib.Data.List.Nodup
import Mathlib.Data.List.Count
import Mathlib.Tactic.SplitIfs

/-!
# Threads of a sequence of events

Events come one at a time, each at most once, and a thread collects the events that belong to it.
At most one thread is live. An event names no thread, joins the live one, ends it, starts one, or
supersedes the live one by a thread of its own. A live thread may also lapse between two events.

An event that supersedes a thread is the last of that thread's members too, but names the thread
it starts.

## Main results

* `Threads.Sound.step`, `Threads.Sound.lapse`: what holds of the threads after any events
* `ThreadSound.count_eq_one`, `ThreadSound.notMem`: an event is a member of a thread once, where
  it names it or superseded it, and not at all elsewhere
* `ThreadSound.ended`: no event after the one that ended a thread names it
-/

namespace Foundation

universe u v

/-- A thread: its events, and the one that ended it. -/
structure Thread (ε : Type u) (ι : Type v) where
  id : ι
  members : List ε
  endedBy : Option ε
  superseded : Bool

/-- The threads, and for each event so far the thread it names. -/
structure Threads (ε : Type u) (ι : Type v) where
  past : List (Thread ε ι)
  live : Option (Thread ε ι)
  links : List (ε × Option ι)

variable {ε : Type u} {ι : Type v}

namespace Thread

def join (c : Thread ε ι) (e : ε) : Thread ε ι := { c with members := c.members ++ [e] }

/-- The event joins the thread and ends it. -/
def finish (c : Thread ε ι) (e : ε) (superseded : Bool) : Thread ε ι :=
  { c.join e with endedBy := some e, superseded := superseded }

def start (i : ι) (e : ε) : Thread ε ι := ⟨i, [e], none, false⟩

end Thread

namespace Threads

def all (t : Threads ε ι) : List (Thread ε ι) := t.past ++ t.live.toList

def lapse (t : Threads ε ι) : Threads ε ι := { t with past := t.all, live := none }

/-- The event `e` comes. -/
inductive Step : Threads ε ι → ε → Threads ε ι → Prop
  | pass (t : Threads ε ι) (e : ε) : Step t e { t with links := t.links ++ [(e, none)] }
  | join {t : Threads ε ι} {c : Thread ε ι} (e : ε) (h : t.live = some c) :
      Step t e ⟨t.past, some (c.join e), t.links ++ [(e, some c.id)]⟩
  | finish {t : Threads ε ι} {c : Thread ε ι} (e : ε) (mark : Bool) (h : t.live = some c) :
      Step t e ⟨t.past ++ [c.finish e mark], none, t.links ++ [(e, some c.id)]⟩
  | start {t : Threads ε ι} {i : ι} (e : ε) (h : t.live = none)
      (hfresh : i ∉ t.all.map Thread.id) :
      Step t e ⟨t.past, some (.start i e), t.links ++ [(e, some i)]⟩
  | supersede {t : Threads ε ι} {c : Thread ε ι} {i : ι} (e : ε) (h : t.live = some c)
      (hfresh : i ∉ t.all.map Thread.id) :
      Step t e
        ⟨t.past ++ [c.finish e true], some (.start i e), t.links ++ [(e, some i)]⟩

end Threads

/-! ### One thread -/

/-- The event belongs to the thread: it names it, or it superseded it. -/
def BelongsTo (links : List (ε × Option ι)) (c : Thread ε ι) (e : ε) : Prop :=
  (e, some c.id) ∈ links ∨ (c.superseded = true ∧ c.endedBy = some e)

/-- What holds of a thread after the events of `links`. -/
structure ThreadSound [DecidableEq ε] (links : List (ε × Option ι)) (c : Thread ε ι) : Prop where
  /-- The members have come. -/
  come : ∀ e ∈ c.members, e ∈ links.map Prod.fst
  count_eq_one : ∀ e, BelongsTo links c e → c.members.count e = 1
  belongs : ∀ e ∈ c.members, BelongsTo links c e
  /-- What ended the thread is the last event that belongs to it. -/
  ended : ∀ e, c.endedBy = some e → ∀ before n after, links = before ++ (e, n) :: after →
    ∀ x, (x, some c.id) ∉ after
  ended_come : ∀ e, c.endedBy = some e → e ∈ links.map Prod.fst

section Links

variable {links : List (ε × Option ι)} {c : Thread ε ι} {e : ε} {n : Option ι}

/-- A split of the links at an event, after one more event. -/
theorem split_snoc {x : ε} {m : Option ι} {before after : List (ε × Option ι)}
    (h : links ++ [(e, n)] = before ++ (x, m) :: after) :
    (after = [] ∧ x = e) ∨
      ∃ rest, after = rest ++ [(e, n)] ∧ links = before ++ (x, m) :: rest := by
  rcases List.eq_nil_or_concat after with rfl | ⟨rest, last, rfl⟩
  · have hlast := List.append_inj_right' h rfl
    exact .inl ⟨rfl, (congrArg Prod.fst (List.cons.inj hlast).1).symm⟩
  · rw [List.concat_eq_append, ← List.cons_append, ← List.append_assoc] at h
    obtain ⟨hlinks, hlast⟩ := List.append_inj' h rfl
    rw [List.concat_eq_append, ← (List.cons.inj hlast).1]
    exact .inr ⟨rest, rfl, hlinks⟩

theorem mem_links_snoc {x : ε} (hx : x ≠ e) :
    (x, some c.id) ∈ links ++ [(e, n)] ↔ (x, some c.id) ∈ links := by
  have hlast : (x, some c.id) ∉ [(e, n)] := fun hmem =>
    hx (Prod.mk.inj (List.mem_singleton.mp hmem)).1
  simp only [List.mem_append, hlast, or_false]

end Links

namespace ThreadSound

variable [DecidableEq ε] {links : List (ε × Option ι)} {c : Thread ε ι} {e : ε} {n : Option ι}

theorem notMem {x : ε} (h : ThreadSound links c) (hx : ¬ BelongsTo links c x) : x ∉ c.members :=
  fun hmem => hx (h.belongs x hmem)

/-- An event that names another thread, or none, leaves the thread as it is. -/
theorem pass (h : ThreadSound links c) (hn : n ≠ some c.id) :
    ThreadSound (links ++ [(e, n)]) c := by
  have hbelongs : ∀ x, BelongsTo (links ++ [(e, n)]) c x ↔ BelongsTo links c x := by
    intro x
    have hlast : (x, some c.id) ∉ [(e, n)] := fun hmem =>
      hn (Prod.mk.inj (List.mem_singleton.mp hmem)).2.symm
    simp only [BelongsTo, List.mem_append, hlast, or_false]
  refine ⟨fun x hx => ?_, fun x hx => h.count_eq_one x ((hbelongs x).mp hx),
    fun x hx => (hbelongs x).mpr (h.belongs x hx), fun x hx before m after heq => ?_,
    fun x hx => ?_⟩
  · rw [List.map_append]
    exact List.mem_append_left _ (h.come x hx)
  · rcases split_snoc heq with ⟨rfl, -⟩ | ⟨rest, rfl, hlinks⟩
    · exact fun y hy => absurd hy List.not_mem_nil
    · intro y hy
      rcases List.mem_append.mp hy with hy | hy
      · exact h.ended x hx _ _ _ hlinks y hy
      · exact hn (Prod.mk.inj (List.mem_singleton.mp hy)).2.symm
  · rw [List.map_append]
    exact List.mem_append_left _ (h.ended_come x hx)

theorem count_join (c : Thread ε ι) (e x : ε) :
    (c.join e).members.count x = c.members.count x + if x = e then 1 else 0 := by
  rw [Thread.join, List.count_append, List.count_singleton]
  by_cases hx : x = e
  · simp [hx]
  · simp [hx, Ne.symm hx]

/-- The members after a last one that has just come. -/
theorem members_join {d : Thread ε ι} (h : ThreadSound links c) (hnew : e ∉ links.map Prod.fst)
    (hmembers : d.members = (c.join e).members)
    (hold : ∀ x, x ≠ e → (BelongsTo (links ++ [(e, n)]) d x ↔ BelongsTo links c x))
    (hlast : BelongsTo (links ++ [(e, n)]) d e) :
    (∀ x ∈ d.members, x ∈ (links ++ [(e, n)]).map Prod.fst) ∧
      (∀ x, BelongsTo (links ++ [(e, n)]) d x → d.members.count x = 1) ∧
      ∀ x ∈ d.members, BelongsTo (links ++ [(e, n)]) d x := by
  have hnone : e ∉ c.members := fun hmem => hnew (h.come e hmem)
  have hmem : ∀ x, x ∈ d.members ↔ x ∈ c.members ∨ x = e := by
    intro x
    rw [hmembers, Thread.join, List.mem_append, List.mem_singleton]
  refine ⟨fun x hx => ?_, fun x hx => ?_, fun x hx => ?_⟩
  · rw [List.map_append, List.mem_append]
    exact ((hmem x).mp hx).imp (h.come x) fun heq => List.mem_singleton.mpr heq
  · rw [hmembers, count_join]
    by_cases heq : x = e
    · rw [heq, if_pos rfl, List.count_eq_zero_of_not_mem hnone]
    · rw [if_neg heq, h.count_eq_one x ((hold x heq).mp hx)]
  · by_cases heq : x = e
    · exact heq ▸ hlast
    · exact (hold x heq).mpr (h.belongs x (((hmem x).mp hx).resolve_right heq))

theorem join (h : ThreadSound links c) (hnew : e ∉ links.map Prod.fst) (hlive : c.endedBy = none) :
    ThreadSound (links ++ [(e, some c.id)]) (c.join e) := by
  have hend : (c.join e).endedBy = none := hlive
  obtain ⟨hcome, hcount, hbelongs⟩ := h.members_join hnew (d := c.join e) (n := some c.id) rfl
    (fun x hx => or_congr (mem_links_snoc hx) Iff.rfl)
    (.inl (List.mem_append_right _ List.mem_cons_self))
  refine ⟨hcome, hcount, hbelongs, fun x hx => ?_, fun x hx => ?_⟩
  · rw [hend] at hx
    exact nomatch hx
  · rw [hend] at hx
    exact nomatch hx

/-- An event that ends a thread, by naming it or by superseding it. -/
theorem finish {mark : Bool} (h : ThreadSound links c) (hnew : e ∉ links.map Prod.fst)
    (hlive : c.endedBy = none) (hhow : n = some c.id ∨ mark = true) :
    ThreadSound (links ++ [(e, n)]) (c.finish e mark) := by
  have hold : ∀ x, x ≠ e →
      (BelongsTo (links ++ [(e, n)]) (c.finish e mark) x ↔ BelongsTo links c x) := by
    intro x hx
    have hnot : ¬ ((c.finish e mark).superseded = true ∧ (c.finish e mark).endedBy = some x) :=
      fun hmark => hx (Option.some.inj hmark.2).symm
    have hnot' : ¬ (c.superseded = true ∧ c.endedBy = some x) := by
      rw [hlive]
      exact fun hmark => nomatch hmark.2
    have hlink : (x, some (c.finish e mark).id) ∈ links ++ [(e, n)] ↔ (x, some c.id) ∈ links :=
      mem_links_snoc hx
    simp only [BelongsTo, hnot, hnot', or_false, hlink]
  have hlast : BelongsTo (links ++ [(e, n)]) (c.finish e mark) e := by
    rcases hhow with hn | hmark
    · exact .inl (List.mem_append_right _ (hn ▸ List.mem_cons_self))
    · exact .inr ⟨hmark, rfl⟩
  obtain ⟨hcome, hcount, hbelongs⟩ := h.members_join hnew (d := c.finish e mark) rfl hold hlast
  refine ⟨hcome, hcount, hbelongs, fun x hx before m after heq => ?_, fun x hx => ?_⟩
  · obtain rfl : e = x := Option.some.inj hx
    rcases split_snoc heq with ⟨rfl, -⟩ | ⟨rest, rfl, hlinks⟩
    · exact fun y hy => absurd hy List.not_mem_nil
    · refine absurd ?_ hnew
      rw [hlinks, List.map_append]
      exact List.mem_append_right _ List.mem_cons_self
  · obtain rfl : e = x := Option.some.inj hx
    rw [List.map_append]
    exact List.mem_append_right _ (List.mem_singleton.mpr rfl)

/-- A thread that has just started, named by no earlier event. -/
theorem start {i : ι} (hfresh : ∀ x, (x, some i) ∉ links) :
    ThreadSound (links ++ [(e, some i)]) (.start i e) := by
  have hbelongs : ∀ x, BelongsTo (links ++ [(e, some i)]) (.start i e) x ↔ x = e := by
    intro x
    constructor
    · rintro (hlink | hmark)
      · rcases List.mem_append.mp hlink with hlink | hlink
        · exact absurd hlink (hfresh x)
        · exact (Prod.mk.inj (List.mem_singleton.mp hlink)).1
      · exact nomatch hmark.2
    · rintro rfl
      exact .inl (List.mem_append_right _ List.mem_cons_self)
  refine ⟨fun x hx => ?_, fun x hx => ?_, fun x hx => (hbelongs x).mpr (List.mem_singleton.mp hx),
    fun x hx => (nomatch hx), fun x hx => (nomatch hx)⟩
  · rw [List.mem_singleton.mp hx, List.map_append]
    exact List.mem_append_right _ (List.mem_singleton.mpr rfl)
  · rw [(hbelongs x).mp hx]
    exact List.count_singleton_self

end ThreadSound

/-! ### All threads -/

namespace Threads

/-- What holds of the threads after any events. -/
structure Sound [DecidableEq ε] (t : Threads ε ι) : Prop where
  ids : (t.all.map Thread.id).Nodup
  threads : ∀ c ∈ t.all, ThreadSound t.links c
  live : ∀ c, t.live = some c → c.endedBy = none
  named : ∀ e i, (e, some i) ∈ t.links → i ∈ t.all.map Thread.id

variable {t v : Threads ε ι} {e : ε}

theorem mem_all {c : Thread ε ι} : c ∈ t.all ↔ c ∈ t.past ∨ t.live = some c := by
  rw [all, List.mem_append, Option.mem_toList]

theorem ids_of_live {c : Thread ε ι} (h : t.live = some c) :
    t.all.map Thread.id = t.past.map Thread.id ++ [c.id] := by
  rw [all, h, List.map_append]
  rfl

theorem ids_of_not_live (h : t.live = none) : t.all.map Thread.id = t.past.map Thread.id := by
  rw [all, h, List.map_append]
  exact List.append_nil _

/-- A fresh id is not that of any thread. -/
theorem fresh_ne {i : ι} (hfresh : i ∉ t.all.map Thread.id) {d : Thread ε ι} (hd : d ∈ t.all) :
    some i ≠ some d.id := fun heq => hfresh (Option.some.inj heq ▸ List.mem_map_of_mem hd)

variable [DecidableEq ε]

theorem sound_nil : Sound (⟨[], none, []⟩ : Threads ε ι) :=
  ⟨List.nodup_nil, fun _ hc => absurd hc List.not_mem_nil, fun _ hc => (nomatch hc),
    fun _ _ h => absurd h List.not_mem_nil⟩

theorem Sound.lapse (h : t.Sound) : t.lapse.Sound := by
  have hall : t.lapse.all = t.all := List.append_nil _
  refine ⟨?_, fun c hc => h.threads c (hall ▸ hc), fun c hc => (nomatch hc), fun e i hi => ?_⟩
  · rw [hall]
    exact h.ids
  · rw [hall]
    exact h.named e i hi

/-- The threads but the live one have other ids than it. -/
theorem Sound.past_ne (h : t.Sound) {c d : Thread ε ι} (hlive : t.live = some c)
    (hd : d ∈ t.past) : some c.id ≠ some d.id := by
  have hids := h.ids
  rw [ids_of_live hlive, List.nodup_append] at hids
  exact fun heq => hids.2.2 d.id (List.mem_map_of_mem hd) c.id List.mem_cons_self
    (Option.some.inj heq).symm

theorem Sound.named_snoc (h : t.Sound) {n : Option ι} {ids : List ι}
    (hids : t.all.map Thread.id ⊆ ids) (hn : ∀ i, n = some i → i ∈ ids) (x : ε) (i : ι)
    (hx : (x, some i) ∈ t.links ++ [(e, n)]) : i ∈ ids := by
  rcases List.mem_append.mp hx with hx | hx
  · exact hids (h.named x i hx)
  · exact hn i (Prod.mk.inj (List.mem_singleton.mp hx)).2.symm

theorem Sound.step (h : t.Sound) (hnew : e ∉ t.links.map Prod.fst) (hstep : Step t e v) :
    v.Sound := by
  cases hstep with
  | pass =>
    exact ⟨h.ids, fun c hc => (h.threads c hc).pass (fun heq => nomatch heq), h.live,
      h.named_snoc (List.Subset.refl _) fun i hi => nomatch hi⟩
  | @join c _ hlive =>
    have hids : (⟨t.past, some (c.join e), t.links ++ [(e, some c.id)]⟩ : Threads ε ι).all.map
        Thread.id = t.all.map Thread.id := by
      rw [ids_of_live rfl, ids_of_live hlive]
      rfl
    have hc := mem_all.mpr (.inr hlive)
    refine ⟨hids ▸ h.ids, fun d hd => ?_, fun d hd => ?_, ?_⟩
    · rcases mem_all.mp hd with hd | hd
      · exact (h.threads d (mem_all.mpr (.inl hd))).pass (h.past_ne hlive hd)
      · cases hd
        exact (h.threads c hc).join hnew (h.live c hlive)
    · cases hd
      exact h.live c hlive
    · rw [hids]
      refine h.named_snoc (List.Subset.refl _) fun i hi => ?_
      exact Option.some.inj hi ▸ List.mem_map_of_mem hc
  | @finish c _ mark hlive =>
    have hids : (⟨t.past ++ [c.finish e mark], none, t.links ++ [(e, some c.id)]⟩ :
        Threads ε ι).all.map Thread.id = t.all.map Thread.id := by
      rw [ids_of_not_live rfl, ids_of_live hlive, List.map_append]
      rfl
    have hc := mem_all.mpr (.inr hlive)
    refine ⟨hids ▸ h.ids, fun d hd => ?_, fun d hd => (nomatch hd), ?_⟩
    · rcases List.mem_append.mp ((mem_all.mp hd).resolve_right (fun hd => nomatch hd)) with hd | hd
      · exact (h.threads d (mem_all.mpr (.inl hd))).pass (h.past_ne hlive hd)
      · rw [List.mem_singleton.mp hd]
        exact (h.threads c hc).finish hnew (h.live c hlive) (.inl rfl)
    · rw [hids]
      refine h.named_snoc (List.Subset.refl _) fun i hi => ?_
      exact Option.some.inj hi ▸ List.mem_map_of_mem hc
  | @start i _ hlive hfresh =>
    have hids : (⟨t.past, some (.start i e), t.links ++ [(e, some i)]⟩ : Threads ε ι).all.map
        Thread.id = t.all.map Thread.id ++ [i] := by
      rw [ids_of_live rfl, ids_of_not_live hlive]
      rfl
    refine ⟨?_, fun d hd => ?_, fun d hd => ?_, ?_⟩
    · rw [hids, ← List.concat_eq_append]
      exact h.ids.concat hfresh
    · rcases mem_all.mp hd with hd | hd
      · have hd' : d ∈ t.all := mem_all.mpr (.inl hd)
        exact (h.threads d hd').pass (fresh_ne hfresh hd')
      · cases hd
        exact .start fun x hx => hfresh (h.named x i hx)
    · cases hd
      rfl
    · rw [hids]
      refine h.named_snoc (List.subset_append_left _ _) fun j hj => ?_
      exact Option.some.inj hj ▸ List.mem_append_right _ List.mem_cons_self
  | @supersede c i _ hlive hfresh =>
    have hids : (⟨t.past ++ [c.finish e true], some (.start i e), t.links ++ [(e, some i)]⟩ :
        Threads ε ι).all.map Thread.id = t.all.map Thread.id ++ [i] := by
      rw [ids_of_live rfl, ids_of_live hlive, List.map_append]
      rfl
    have hc := mem_all.mpr (.inr hlive)
    refine ⟨?_, fun d hd => ?_, fun d hd => ?_, ?_⟩
    · rw [hids, ← List.concat_eq_append]
      exact h.ids.concat hfresh
    · rcases mem_all.mp hd with hd | hd
      · rcases List.mem_append.mp hd with hd | hd
        · have hd' : d ∈ t.all := mem_all.mpr (.inl hd)
          exact (h.threads d hd').pass (fresh_ne hfresh hd')
        · rw [List.mem_singleton.mp hd]
          exact (h.threads c hc).finish hnew (h.live c hlive) (.inr rfl)
      · cases hd
        exact .start fun x hx => hfresh (h.named x i hx)
    · cases hd
      rfl
    · rw [hids]
      refine h.named_snoc (List.subset_append_left _ _) fun j hj => ?_
      exact Option.some.inj hj ▸ List.mem_append_right _ List.mem_cons_self

end Threads

end Foundation
