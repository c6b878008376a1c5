import MarketFeed.Schedule
import MarketFeed.Table.Lemmas
/-!
What the operations of a schedule do to the state of each tier. The watchdog and both kinds of claim
visit the tiers one after the other and change the state of some of them; with names of their own,
no visit disturbs another.
-/

set_option autoImplicit false
set_option relaxedAutoImplicit false

namespace MarketFeed

def Tier.State.relieved (s : Tier.State) (now : Instant) (timeout : Duration) : Tier.State :=
  if s.isStuck now timeout then s.release else s

namespace Schedule

def Knows (s : Schedule) (name : String) : Prop := (s.states.get? name).isSome

/-- Changes the state of those of some tiers that satisfy `chosen`; the chosen tiers are returned. -/
def visit (chosen : Tier → Tier.State → Bool) (change : Tier.State → Tier.State) :
    List Tier → Schedule → List Tier × Schedule
  | [], s => ([], s)
  | t :: rest, s =>
    if chosen t (s.stateOf t.name) then
      let r := visit chosen change rest (s.withState t.name (change (s.stateOf t.name)))
      (t :: r.1, r.2)
    else visit chosen change rest s

theorem stateOf_withState (s : Schedule) (name : String) (state : Tier.State) (other : String) :
    (s.withState name state).stateOf other = if other = name then state else s.stateOf other := by
  rw [stateOf, withState, Table.get?_insert]
  split
  · rfl
  · rfl

theorem knows_withState (s : Schedule) (name : String) (state : Tier.State) (other : String) :
    (s.withState name state).Knows other ↔ other = name ∨ s.Knows other := by
  rw [Knows, withState, Table.get?_insert]
  by_cases same : other = name
  · simp [same]
  · simp [same, Knows]

private theorem claimWhere_eq_visit (wanted : Tier → Tier.State → Bool) (now : Instant)
    (tiers : List Tier) (s : Schedule) :
    claimWhere wanted now tiers s = visit wanted (fun state => state.claim now) tiers s := by
  induction tiers generalizing s with
  | nil => rfl
  | cons t rest ih => simp only [claimWhere, visit, ih]

def stuckAt (now : Instant) (t : Tier) (state : Tier.State) : Bool :=
  state.isStuck now t.stuckTimeout

private theorem releaseStuck_eq_visit (now : Instant) (tiers : List Tier) (s : Schedule) :
    releaseStuck now tiers s =
      ((visit (stuckAt now) Tier.State.release tiers s).1.map Tier.name,
        (visit (stuckAt now) Tier.State.release tiers s).2) := by
  induction tiers generalizing s with
  | nil => rfl
  | cons t rest ih =>
    by_cases stuck : stuckAt now t (s.stateOf t.name)
    · have stuck' : (s.stateOf t.name).isStuck now t.stuckTimeout := stuck
      simp only [releaseStuck, visit, if_pos stuck, if_pos stuck', ih, List.map_cons]
    · have stuck' : ¬(s.stateOf t.name).isStuck now t.stuckTimeout := stuck
      simp only [releaseStuck, visit, if_neg stuck, if_neg stuck', ih]

section Visit

variable {chosen : Tier → Tier.State → Bool} {change : Tier.State → Tier.State}

private theorem visit_tiers (tiers : List Tier) (s : Schedule) :
    (visit chosen change tiers s).2.tiers = s.tiers := by
  induction tiers generalizing s with
  | nil => rfl
  | cons t rest ih =>
    rw [visit]
    split
    · exact ih (s.withState t.name (change (s.stateOf t.name)))
    · exact ih s

private theorem visit_knows {tiers : List Tier} {s : Schedule} {name : String}
    (known : s.Knows name) : (visit chosen change tiers s).2.Knows name := by
  induction tiers generalizing s with
  | nil => exact known
  | cons t rest ih =>
    rw [visit]
    split
    · exact ih ((knows_withState s t.name _ name).mpr (Or.inr known))
    · exact ih known

private theorem visit_stateOf_of_not_mem {tiers : List Tier} {s : Schedule} {name : String}
    (absent : name ∉ tiers.map Tier.name) :
    (visit chosen change tiers s).2.stateOf name = s.stateOf name := by
  induction tiers generalizing s with
  | nil => rfl
  | cons t rest ih =>
    rw [List.map_cons, List.mem_cons, not_or] at absent
    rw [visit]
    split
    · have kept := stateOf_withState s t.name (change (s.stateOf t.name)) name
      rw [if_neg absent.1] at kept
      exact (ih absent.2).trans kept
    · exact ih absent.2

private theorem visit_stateOf {tiers : List Tier} {s : Schedule}
    (nodup : (tiers.map Tier.name).Nodup) {t : Tier} (member : t ∈ tiers) :
    (visit chosen change tiers s).2.stateOf t.name =
      if chosen t (s.stateOf t.name) then change (s.stateOf t.name) else s.stateOf t.name := by
  induction tiers generalizing s with
  | nil => cases member
  | cons u rest ih =>
    rw [List.map_cons, List.nodup_cons] at nodup
    rcases List.mem_cons.mp member with rfl | later
    · rw [visit]
      split
      · rw [visit_stateOf_of_not_mem nodup.1, stateOf_withState, if_pos rfl]
      · exact visit_stateOf_of_not_mem nodup.1
    · have other : t.name ≠ u.name := fun same =>
        nodup.1 (same ▸ List.mem_map_of_mem later)
      rw [visit]
      split
      · have kept := stateOf_withState s u.name (change (s.stateOf u.name)) t.name
        rw [if_neg other] at kept
        rw [← kept]
        exact ih nodup.2 later
      · exact ih nodup.2 later

private theorem visit_chosen {tiers : List Tier} {s : Schedule}
    (nodup : (tiers.map Tier.name).Nodup) :
    (visit chosen change tiers s).1 = tiers.filter fun t => chosen t (s.stateOf t.name) := by
  induction tiers generalizing s with
  | nil => rfl
  | cons t rest ih =>
    rw [List.map_cons, List.nodup_cons] at nodup
    simp only [visit, List.filter_cons]
    split
    · rw [ih nodup.2]
      refine congrArg (t :: ·) (List.filter_congr fun u hu => ?_)
      have other : u.name ≠ t.name := fun same => nodup.1 (same ▸ List.mem_map_of_mem hu)
      rw [stateOf_withState, if_neg other]
    · exact ih nodup.2

end Visit

/-! The operations. -/

theorem watchdog_tiers (s : Schedule) (now : Instant) : (s.watchdog now).2.tiers = s.tiers := by
  rw [watchdog, releaseStuck_eq_visit]
  exact visit_tiers s.tiers s

theorem watchdog_knows {s : Schedule} {name : String} (known : s.Knows name) (now : Instant) :
    (s.watchdog now).2.Knows name := by
  rw [watchdog, releaseStuck_eq_visit]
  exact visit_knows known

theorem watchdog_released {s : Schedule} (nodup : (s.tiers.map Tier.name).Nodup) (now : Instant) :
    (s.watchdog now).1 =
      (s.tiers.filter fun t => stuckAt now t (s.stateOf t.name)).map Tier.name := by
  rw [watchdog, releaseStuck_eq_visit, visit_chosen nodup]

theorem watchdog_stateOf {s : Schedule} (nodup : (s.tiers.map Tier.name).Nodup) {t : Tier}
    (member : t ∈ s.tiers) (now : Instant) :
    (s.watchdog now).2.stateOf t.name = (s.stateOf t.name).relieved now t.stuckTimeout := by
  rw [watchdog, releaseStuck_eq_visit]
  exact visit_stateOf nodup member

section Claims

variable {wanted : Tier → Tier.State → Bool} {now : Instant} {s : Schedule}

theorem claimWhere_tiers : (claimWhere wanted now s.tiers s).2.tiers = s.tiers := by
  rw [claimWhere_eq_visit]
  exact visit_tiers s.tiers s

theorem claimWhere_knows {name : String} (known : s.Knows name) :
    (claimWhere wanted now s.tiers s).2.Knows name := by
  rw [claimWhere_eq_visit]
  exact visit_knows known

theorem claimWhere_claimed (nodup : (s.tiers.map Tier.name).Nodup) :
    (claimWhere wanted now s.tiers s).1 = s.tiers.filter fun t => wanted t (s.stateOf t.name) := by
  rw [claimWhere_eq_visit]
  exact visit_chosen nodup

theorem claimWhere_stateOf (nodup : (s.tiers.map Tier.name).Nodup) {t : Tier}
    (member : t ∈ s.tiers) :
    (claimWhere wanted now s.tiers s).2.stateOf t.name =
      if wanted t (s.stateOf t.name) then (s.stateOf t.name).claim now else s.stateOf t.name := by
  rw [claimWhere_eq_visit]
  exact visit_stateOf nodup member

end Claims

theorem finish_tiers (s : Schedule) (name : String) (started : Instant) (succeeded : Bool)
    (now : Instant) : (s.finish name started succeeded now).tiers = s.tiers := by
  rw [finish]
  split
  · rfl
  · rfl

theorem finish_knows {s : Schedule} {name other : String} (known : s.Knows other)
    (started : Instant) (succeeded : Bool) (now : Instant) :
    (s.finish name started succeeded now).Knows other := by
  rw [finish]
  split
  · exact known
  · exact (knows_withState s name _ other).mpr (Or.inr known)

theorem finish_stateOf {s : Schedule} {name : String} (known : s.Knows name) (started : Instant)
    (succeeded : Bool) (now : Instant) (other : String) :
    (s.finish name started succeeded now).stateOf other =
      if other = name then (s.stateOf name).finish started succeeded now else s.stateOf other := by
  obtain ⟨state, held⟩ := Option.isSome_iff_exists.mp known
  have current : s.stateOf name = state := by rw [stateOf, held]; rfl
  rw [finish, held, current]
  exact stateOf_withState s name _ other

theorem ofTiers_knows {tiers : List Tier} {t : Tier} (member : t ∈ tiers) :
    (ofTiers tiers).Knows t.name := by
  rw [Knows, ofTiers, Table.get?_ofList, Option.isSome_iff_ne_none, Ne, List.lookup_eq_none_iff]
  intro absent
  have here : (t.name, Tier.State.idle) ∈ (tiers.map fun t => (t.name, Tier.State.idle)).reverse :=
    List.mem_reverse.mpr (List.mem_map_of_mem member)
  simpa using absent _ here

theorem ofTiers_stateOf (tiers : List Tier) (name : String) :
    (ofTiers tiers).stateOf name = .idle := by
  rw [stateOf, ofTiers, Table.get?_ofList]
  cases found : (tiers.map fun t => (t.name, Tier.State.idle)).reverse.lookup name with
  | none => rfl
  | some state =>
    have member := List.mem_reverse.mp (Table.mem_of_lookup found)
    obtain ⟨t, -, same⟩ := List.mem_map.mp member
    exact (Prod.mk.inj same).2.symm

end Schedule

end MarketFeed
